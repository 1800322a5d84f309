import CallGrammar.Text.Width

/-! Filling lines up to a width. Lines break at spaces, and inside a word only where the word
alone is wider than a line.
-/

namespace CallGrammar.Text

------------------------------------------------------------
-- Words

/-- A word is a run of characters without spaces, followed by some spaces. -/
structure Word where
  text : List Char
  width : Nat
  spaces : Nat

/-- Puts a character in front of words that were already cut. -/
def consWord (c : Char) : List (List Char × Nat) → List (List Char × Nat)
  | [] => if c = ' ' then [([], 1)] else [([c], 0)]
  | (text, spaces) :: rest =>
      if c = ' ' then
        if text.isEmpty then ([], spaces + 1) :: rest else ([], 1) :: (text, spaces) :: rest
      else
        (c :: text, spaces) :: rest

/-- Cuts a line before each character that follows a space and is none. Leading spaces belong
to an empty first word.
-/
def cutWords (line : List Char) : List Word :=
  (line.foldr consWord []).map (fun (text, spaces) => ⟨text, width text, spaces⟩)

/-- Breaks characters into pieces: a piece ends before a character that would make it wider
than the limit, unless the piece still takes no columns. `piece` holds what was read of the
current piece, `used` its columns.
-/
def breakColumns (limit : Nat) (spaces : Nat) (piece : List Char) (used : Nat)
    : List (Char × Option Nat) → List Word
  | [] => if piece.isEmpty then [] else [⟨piece, used, spaces⟩]
  | (c, none) :: rest => breakColumns limit spaces (piece ++ [c]) used rest
  | (c, some columns) :: rest =>
      if 0 < used && limit < used + columns then
        ⟨piece, used, 0⟩ :: breakColumns limit spaces [c] columns rest
      else
        breakColumns limit spaces (piece ++ [c]) (used + columns) rest

/-- A word that fits in the limit is kept, a wider one is broken into pieces of which the last
keeps the spaces.
-/
def Word.fitted (limit : Nat) (word : Word) : List Word :=
  if limit < word.width then
    breakColumns limit word.spaces [] 0 (columns .outside word.text)
  else
    [word]

------------------------------------------------------------
-- Lines

/-- Distributes words over lines, each word on the current line if it fits or is the first
there. `line` holds the words of the current line, `used` its columns.
-/
def fillLines (limit : Nat) (line : List Word) (used : Nat) : List Word → List (List Word)
  | [] => [line]
  | word :: rest =>
      if !line.isEmpty && limit < used + word.width then
        line :: fillLines limit [word] (word.width + word.spaces) rest
      else
        fillLines limit (line ++ [word]) (used + word.width + word.spaces) rest

/-- The characters of a line, without the spaces after its last word. -/
def lineText : List Word → List Char
  | [] => []
  | [word] => word.text
  | word :: rest => word.text ++ List.replicate word.spaces ' ' ++ lineText rest

/-- The characters of a line without the spaces at its end. -/
def dropTrailingSpaces (line : List Char) : List Char :=
  (line.reverse.dropWhile (· = ' ')).reverse

/-- Wraps one line. A line shorter in bytes than the width that needs no indent stays as it is
but for the spaces at its end. An indented line starts with an empty word, so that a first
word too wide for the line moves below the indent.
-/
def wrapLine (limit indent : Nat) (line : List Char) : List String :=
  if (String.ofList line).utf8ByteSize < limit && indent == 0 then
    [String.ofList (dropTrailingSpaces line)]
  else
    let room := limit - indent
    let words := (cutWords line).flatMap (Word.fitted room)
    let words := if indent == 0 then words else ⟨[], 0, 0⟩ :: words
    (fillLines room [] 0 words).map (fun words =>
      String.ofList (if words.isEmpty then [] else List.replicate indent ' ' ++ lineText words))

/-- Cuts a text at its line feeds. -/
def cutLines : List Char → List (List Char)
  | [] => [[]]
  | c :: rest =>
      match cutLines rest with
      | [] => [[c]]
      | line :: lines => if c = '\n' then [] :: line :: lines else (c :: line) :: lines

/-- Wraps a text into lines of at most `limit` columns behind an indent. The limit zero stands
for no limit: the text is then one line as it is.
-/
def wrap (limit indent : Nat) (text : String) : List String :=
  if limit = 0 then [text] else (cutLines text.toList).flatMap (wrapLine limit indent)

end CallGrammar.Text

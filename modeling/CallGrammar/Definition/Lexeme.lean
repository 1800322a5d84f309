import CallGrammar.Span
import CallGrammar.Text.Blank

/-! Lexemes: the words and marks of a definition, tagged with where they stand. -/

namespace CallGrammar.Definition

------------------------------------------------------------
-- Lexemes

/-- A word, or one of the marks of the definition language. -/
inductive Lexeme where
  | word (text : String)
  | openAngle
  | closeAngle
  | openRound
  | closeRound
  | openSquare
  | closeSquare
  | colon
  | bar
  | caret
  | ellipsis
deriving DecidableEq

/-- The mark that a single character stands for. -/
def mark? (c : Char) : Option Lexeme :=
  if c = '<' then some .openAngle
  else if c = '>' then some .closeAngle
  else if c = '(' then some .openRound
  else if c = ')' then some .closeRound
  else if c = '[' then some .openSquare
  else if c = ']' then some .closeSquare
  else if c = ':' then some .colon
  else if c = '|' then some .bar
  else if c = '^' then some .caret
  else none

namespace Lexeme

/-- How a lexeme is written. -/
def spelling : Lexeme → String
  | .word text => text
  | .openAngle => "<"
  | .closeAngle => ">"
  | .openRound => "("
  | .closeRound => ")"
  | .openSquare => "["
  | .closeSquare => "]"
  | .colon => ":"
  | .bar => "|"
  | .caret => "^"
  | .ellipsis => "..."

/-- How messages mention a lexeme. -/
def mention : Lexeme → String
  | .word text => "symbol '" ++ text ++ "'"
  | lexeme => "'" ++ lexeme.spelling ++ "'"

end Lexeme

/-- A lexeme at its place in a definition. -/
structure Placed where
  lexeme : Lexeme
  span : Span
deriving DecidableEq

------------------------------------------------------------
-- Scanning

/-- A word under way: where it started and what was read of it. -/
abbrev Pending :=
  Option (Nat × String)

/-- The word that ends at an offset, if one is under way. -/
def Pending.finish (stop : Nat) : Pending → List Placed
  | some (start, text) => [⟨.word text, ⟨start, stop⟩⟩]
  | none => []

/-- The word under way with one more character, or a new one of that character. -/
def Pending.push (offset : Nat) (c : Char) : Pending → Pending
  | some (start, text) => some (start, text.push c)
  | none => some (offset, c.toString)

/-- Reads lexemes from an offset on. Three points are one mark; a blank, a mark and the end
finish the word under way.
-/
def scan (offset : Nat) (pending : Pending) : List Char → List Placed
  | [] => pending.finish offset
  | '.' :: '.' :: '.' :: rest =>
      pending.finish offset
        ++ ⟨.ellipsis, ⟨offset, offset + 3⟩⟩ :: scan (offset + 3) none rest
  | c :: rest =>
      if Text.isBlank c then
        pending.finish offset ++ scan (offset + c.utf8Size) none rest
      else
        match mark? c with
        | some lexeme =>
            pending.finish offset
              ++ ⟨lexeme, ⟨offset, offset + c.utf8Size⟩⟩ :: scan (offset + c.utf8Size) none rest
        | none => scan (offset + c.utf8Size) (pending.push offset c) rest

/-- The lexemes of a definition. -/
def lexemes (definition : String) : List Placed :=
  scan 0 none definition.toList

end CallGrammar.Definition

import CallGrammar.Call.Glyph
import CallGrammar.Fault
import CallGrammar.Text.Blank
import CallGrammar.Token

/-! Cutting a call into tokens. Blanks separate tokens except between quotes. -/

namespace CallGrammar.Call

/-- The token under way between two glyphs. -/
inductive Cursor where
  /-- No token is under way. -/
  | between
  /-- A plain token that started at an offset. -/
  | plain (start : Nat) (value : String)
  /-- A token that the given quote character opened at an offset. -/
  | quoted (quote : Char) (start : Nat) (value : String)
deriving DecidableEq

/-- A backslash escapes and never opens or closes a token, even as a quote character. -/
def isQuote (quotes : List Char) (c : Char) : Bool :=
  c != '\\' && quotes.contains c

namespace Cursor

/-- Adds text to the token under way, or starts a plain one with it. -/
def push (offset : Nat) (text : String) : Cursor → Cursor
  | .between => .plain offset text
  | .plain start value => .plain start (value ++ text)
  | .quoted quote start value => .quoted quote start (value ++ text)

/-- The plain token that ends at an offset, if one is under way. -/
def finishPlain (offset : Nat) : Cursor → List Token
  | .plain start value => [⟨value, ⟨start, offset⟩⟩]
  | .between | .quoted .. => []

/-- What an escaped character adds: between quotes itself, elsewhere a quote character keeps
its backslash.
-/
def escapedText (c : Char) : Cursor → String
  | .quoted .. => c.toString
  | .between | .plain .. => if c = '\\' then "\\" else "\\" ++ c.toString

/-- Reads a glyph at an offset: the token it finishes, if any, and the cursor after it. -/
def read (quotes : List Char) (offset : Nat) (cursor : Cursor) : Glyph → List Token × Cursor
  | .escaped c => ([], cursor.push offset (cursor.escapedText c))
  | .bare c =>
      match cursor with
      | .quoted quote start value =>
          if c = quote then
            ([⟨value, ⟨start, offset + c.utf8Size⟩⟩], .between)
          else
            ([], cursor.push offset c.toString)
      | .between | .plain .. =>
          if isQuote quotes c then (cursor.finishPlain offset, .quoted c offset "")
          else if Text.isBlank c then (cursor.finishPlain offset, .between)
          else ([], cursor.push offset c.toString)

end Cursor

/-- Reads glyphs from an offset on: the tokens they finish and the cursor after them. -/
def scan (quotes : List Char) (offset : Nat) (cursor : Cursor)
    : List Glyph → List Token × Cursor
  | [] => ([], cursor)
  | glyph :: rest =>
      let (finished, next) := cursor.read quotes offset glyph
      let (tokens, last) := scan quotes (offset + glyph.size) next rest
      (finished ++ tokens, last)

/-- The tokens of a call. Quotes are left out of a token's value but belong to its span; a quote
that stays open is a fault.
-/
def tokenize (quotes : List Char) (raw : String) : Except Fault (List Token) :=
  match scan quotes 0 .between (glyphs quotes raw.toList) with
  | (_, .quoted quote start _) => .error (.unterminatedQuote quote start)
  | (tokens, cursor) => .ok (tokens ++ cursor.finishPlain raw.utf8ByteSize)

/-- The quote characters known without further notice. -/
def standardQuotes : List Char :=
  ['"', '\'']

end CallGrammar.Call

import CallGrammar.Call.Tokens
import CallGrammar.Coercion
import CallGrammar.Text.Similarity

/-! Matchers: the settings under which calls are cut into tokens and compared with patterns. -/

namespace CallGrammar

/-- How calls are matched. -/
structure Matcher where
  caseSensitive : Bool
  /-- How many levels of a pattern may be entered. -/
  maxDepth : Nat
  /-- The similarity from which a token counts as a misspelled word. -/
  threshold : Float
  quotes : List Char
  types : Types

namespace Matcher

/-- The standard matcher respects case, knows the built-in types and enters 64 levels. -/
def standard : Matcher :=
  { caseSensitive := true, maxDepth := 64, threshold := 0.75, quotes := Call.standardQuotes,
    types := .builtin }

/-- Makes a type known, instead of an earlier one of the same name. -/
def register (m : Matcher) (name : String) (coercion : Coercion) : Matcher :=
  { m with types := m.types.insert name coercion }

/-- The tokens of a call. -/
def tokenize (m : Matcher) (raw : String) : Except Fault (List Token) :=
  Call.tokenize m.quotes raw

/-- Compares a fixed word with a token; case counts only if it counts for both the matcher and
the word.
-/
def accepts (m : Matcher) (word token : String) (caseSensitive : Bool) : Bool :=
  if m.caseSensitive && caseSensitive then word == token
  else Text.lowercase word == Text.lowercase token

/-- Whether a token looks like a misspelled word. -/
def isSimilar (m : Matcher) (word token : String) : Bool :=
  Text.similarity (Text.lowercase word) (Text.lowercase token) ≥ m.threshold

/-- The settings on one line. -/
def summary (m : Matcher) : String :=
  let quotes := "[" ++ String.intercalate ", " (m.quotes.map Text.quotedChar) ++ "]"
  "CallMatcher \x7b config: MatcherConfig \x7b case_sensitive: "
    ++ (if m.caseSensitive then "true" else "false")
    ++ ", max_depth: " ++ toString m.maxDepth
    ++ ", literal_threshold: " ++ Decimal.pointedText m.threshold
    ++ ", quotes: " ++ quotes ++ " \x7d, lexer: CallLexer \x7b quotes: " ++ quotes
    ++ " \x7d, types: " ++ m.types.summary ++ " \x7d"

end Matcher

end CallGrammar

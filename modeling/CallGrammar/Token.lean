import CallGrammar.Span
import CallGrammar.Text.Quoted

/-! Tokens: the words of a call, tagged with where they stand. -/

namespace CallGrammar

/-- A token has a value, from which quotes and escapes are removed, and the span of the source
text it was read from.
-/
structure Token where
  value : String
  span : Span
deriving DecidableEq

namespace Token

/-- The source text a token was read from. -/
def text (token : Token) (source : String) : String :=
  token.span.text source

/-- How messages mention a token: its quoted value and where it starts. -/
def mention (token : Token) : String :=
  Text.quoted token.value ++ " at " ++ toString token.span.start

end Token

end CallGrammar

import CallGrammar.Pattern.Basic
import CallGrammar.Span
import CallGrammar.Text.Quoted

/-! Faults: errors of a pattern, a call or a definition that no other choice can mend. -/

namespace CallGrammar

/-- A reason to give up, whatever else could have matched. -/
inductive Fault where
  /-- A parameter names a type that is not registered. -/
  | undefinedType (name : String)
  /-- A pattern of the given kind follows one that takes the rest of the call. -/
  | matchAfterTermination (kind : Kind)
  /-- A pattern is nested deeper than allowed. -/
  | depthExceeded (limit : Nat)
  /-- A quoted token is never closed. -/
  | unterminatedQuote (quote : Char) (offset : Nat)
  /-- A definition describes no pattern. -/
  | malformed (message : String)
deriving DecidableEq

/-- The wording of a fault. -/
def Fault.message : Fault → String
  | .undefinedType name => "undefined type " ++ Text.quoted name
  | .matchAfterTermination kind =>
      "tried matching " ++ kind.name ++ " after matching was terminated"
  | .depthExceeded limit =>
      "syntax nesting exceeds the depth limit (" ++ toString limit ++ ")"
  | .unterminatedQuote quote offset =>
      "unterminated quote " ++ Text.quotedChar quote ++ " at " ++ toString offset
  | .malformed message => "syntax error: " ++ message

/-- A fault with the span of the text it is about, where that is known. -/
structure Report where
  fault : Fault
  span : Option Span
deriving DecidableEq

end CallGrammar

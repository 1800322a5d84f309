import CallGrammar.Definition.Lexeme
import CallGrammar.Fault

/-! What can be wrong with a definition. -/

namespace CallGrammar.Definition

/-- The two kinds of brackets that group. -/
inductive Bracket where
  | round
  | square
deriving DecidableEq

/-- The word for a group of the given brackets. -/
def Bracket.name : Bracket → String
  | .round => "group"
  | .square => "optional"

/-- A way in which a definition is malformed. -/
inductive Problem where
  | unexpected (lexeme : Lexeme)
  | emptyName
  | repeatedName (name : String)
  | unnameable (kind : Kind)
  | emptyAlternative
  | emptyGroup (bracket : Bracket)
  | missingIdentifier
  | strayIdentifier
  | unterminatedParameter
  /-- The groups still open at the end, the outermost first. -/
  | unterminatedGroups (brackets : List Bracket)
deriving DecidableEq

/-- The wording of a problem. -/
def Problem.message : Problem → String
  | .unexpected lexeme => "unexpected " ++ lexeme.mention
  | .emptyName => "empty parameter name"
  | .repeatedName name => "symbol '" ++ name ++ "' used more than once"
  | .unnameable kind => "cannot assign identifier to " ++ kind.name
  | .emptyAlternative => "empty variant"
  | .emptyGroup .round => "empty group"
  | .emptyGroup .square => "empty optional group"
  | .missingIdentifier => "missing identifier"
  | .strayIdentifier => "identifier without a group"
  | .unterminatedParameter => "unterminated parameter"
  | .unterminatedGroups brackets =>
      "unterminated expression: " ++ String.intercalate " > " (brackets.map Bracket.name)

/-- A problem and the part of the definition that shows it. -/
structure Malformed where
  problem : Problem
  span : Span
deriving DecidableEq

/-- A lexeme that stands where it must not. -/
def Placed.unexpected (placed : Placed) : Malformed :=
  ⟨.unexpected placed.lexeme, placed.span⟩

/-- A malformed definition as a fault. -/
def Malformed.report (malformed : Malformed) : Report :=
  ⟨.malformed malformed.problem.message, some malformed.span⟩

end CallGrammar.Definition

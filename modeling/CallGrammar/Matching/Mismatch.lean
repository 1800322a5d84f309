import CallGrammar.Matching.Scale
import CallGrammar.Token

/-! Mismatches: why a call does not fit a pattern. Another choice may still fit. -/

namespace CallGrammar

/-- A candidate that did not match, with how far it got and why it failed. -/
structure Rejected (σ μ : Type) where
  index : Nat
  progress : σ
  reason : μ

/-- A reason why a call does not fit. -/
inductive Mismatch (σ : Type) where
  /-- A fixed word was expected; the token found instead may resemble it. -/
  | expectedLiteral (expected : String) (found : Option Token) (similar : Bool)
  | expectedArgument (parameter : String)
  | typeMismatch (parameter typeName : String) (found : Token) (cause : String)
  | expectedTail (name : String)
  /-- No alternative fits; the reason of the first one that failed is kept. -/
  | noVariant (alternatives : List String) (first : Option (Mismatch σ))
  /-- Tokens are left over; the reason of the last omitted group is kept. -/
  | tooManyArguments (extra : Token) (hint : Option (Mismatch σ))
  | noCandidate (rejections : List (Rejected σ (Mismatch σ)))

/-- A rejected candidate with its mismatch. -/
abbrev Rejection (σ : Type) :=
  Rejected σ (Mismatch σ)

namespace Rejected

variable {σ μ : Type} [Scale σ]

/-- The one of two rejections that got further; the first stays only if it got at least as far
as the second.
-/
def further (best next : Rejected σ μ) : Rejected σ μ :=
  if best.progress ≥ next.progress then best else next

/-- The rejection that got furthest, from left to right. -/
def furthest? : List (Rejected σ μ) → Option (Rejected σ μ)
  | [] => none
  | first :: rest => some (rest.foldl further first)

end Rejected

namespace Mismatch

variable {σ : Type} [Scale σ]

/-- A remark in parentheses. -/
def remark (text : String) : String :=
  " (" ++ text ++ ")"

mutual

/-- The wording of a mismatch. -/
def message : Mismatch σ → String
  | .expectedLiteral expected none _ => "expected literal '" ++ expected ++ "'"
  | .expectedLiteral expected (some found) similar =>
      "expected literal '" ++ expected ++ "', got " ++ found.mention
        ++ if similar then remark ("did you mean '" ++ expected ++ "'?") else ""
  | .expectedArgument parameter => "expected argument for parameter <" ++ parameter ++ ">"
  | .typeMismatch parameter typeName found cause =>
      "argument " ++ found.mention ++ " for parameter <" ++ parameter
        ++ "> does not match type " ++ typeName ++ ": " ++ cause
  | .expectedTail name => "expected " ++ name ++ "..."
  | .noVariant alternatives none => "expected one of: " ++ String.intercalate " | " alternatives
  | .noVariant alternatives (some first) =>
      "expected one of: " ++ String.intercalate " | " alternatives ++ remark first.message
  | .tooManyArguments extra none => "too many arguments, starting with " ++ extra.mention
  | .tooManyArguments extra (some hint) =>
      "too many arguments, starting with " ++ extra.mention ++ remark hint.message
  | .noCandidate rejections =>
      match Rejected.furthest? (messages rejections) with
      | some rejection => rejection.reason
      | none => "no syntax to match against"

/-- Rejections with the wordings of their mismatches. -/
def messages : List (Rejected σ (Mismatch σ)) → List (Rejected σ String)
  | [] => []
  | rejection :: rest =>
      ⟨rejection.index, rejection.progress, rejection.reason.message⟩ :: messages rest

end

/-- The rejection that got furthest, where there were candidates. -/
def bestRejection? : Mismatch σ → Option (Rejection σ)
  | .noCandidate rejections => Rejected.furthest? rejections
  | _ => none

end Mismatch

end CallGrammar

import CallGrammar.Proofs.Definition.IgnoringCase
import CallGrammar.Proofs.Matching.Comparison

/-! Two ways of ignoring case. A definition may be compiled into words that ignore case, or the
matcher may ignore it: calls are answered alike, except that the texts of alternatives show which
words were compiled to ignore case.
-/

namespace CallGrammar

open Definition (Compiler Simplify)

/-- Answers that show the same alternatives, on the right with the marks of words that ignore
case.
-/
def Difference.caseMarks : Difference where
  token := Eq
  similar := Eq
  alternatives texts texts' :=
    ∃ ps : List Pattern,
      texts = ps.map Pattern.render ∧ texts' = (ps.map Pattern.caseless).map Pattern.render
  fault := Eq

/-- A matcher that ignores case beside one that respects it and meets only words that do not. -/
def Comparison.ignoringCase (m : Matcher) (raw : String) : Comparison where
  left := { m with caseSensitive := false }
  right := { m with caseSensitive := true }
  leftRaw := raw
  rightRaw := raw
  difference := .caseMarks
  related := Eq
  recase _ := false
  maxDepth_eq := rfl
  value_eq := congrArg Token.value
  token_of_related := id
  text_eq := by
    rintro first _ last _ rfl rfl
    rfl
  accepts_eq _ _ _ := rfl
  similar_false := rfl
  similar_isSimilar _ _ := rfl
  alternatives_render ps := ⟨ps, rfl, rfl⟩
  fault_self _ := rfl

theorem Comparison.sharesTypes_ignoringCase (m : Matcher) (raw : String) (p : Pattern)
    : (ignoringCase m raw).SharesTypes p :=
  fun _ _ _ => ⟨rfl, fun _ => rfl⟩

/-- The two ways of ignoring case agree: either both compilations report the same problem, or
every attempt and every call is answered with the same outcome, the same fault, or reasons that
differ in the texts of alternatives only, after the same progress.
-/
theorem ignoreCase_agrees_caseSensitive {σ : Type} [Scale σ] (simplify : Simplify)
    (definition : String) (m : Matcher)
    : (∃ problem,
        Compiler.compile ⟨simplify, false⟩ definition = .error problem
        ∧ Compiler.compile ⟨simplify, true⟩ definition = .error problem)
      ∨ ∃ p q,
        Compiler.compile ⟨simplify, false⟩ definition = .ok p
        ∧ Compiler.compile ⟨simplify, true⟩ definition = .ok q
        ∧ (∀ index tokens raw,
            Attempt.Alike .caseMarks
              (Matcher.attempt { m with caseSensitive := false } index p tokens raw
                : Except Fault (Attempt σ))
              (Matcher.attempt { m with caseSensitive := true } index q tokens raw))
        ∧ ∀ raw,
            Answer.Alike .caseMarks
              (Matcher.matchCall { m with caseSensitive := false } p raw
                : Except (Failure σ) (Outcome σ))
              (Matcher.matchCall { m with caseSensitive := true } q raw) := by
  have hcompile := Compiler.compile_caseless simplify definition
  cases hp : Compiler.compile ⟨simplify, false⟩ definition with
  | error problem =>
      rw [hp] at hcompile
      exact .inl ⟨problem, rfl, hcompile⟩
  | ok p =>
      rw [hp] at hcompile
      refine .inr ⟨p, p.caseless, rfl, hcompile, ?_, ?_⟩
      · intro index tokens raw
        have hc := Comparison.sharesTypes_ignoringCase m raw p
        exact Comparison.alike_attempt hc (List.forall₂_same.mpr fun _ _ => rfl) index
      · intro raw
        have hc := Comparison.sharesTypes_ignoringCase m raw p
        refine Comparison.alike_matchCall hc ?_
        change ExceptRel Eq (List.Forall₂ Eq) (m.tokenize raw) (m.tokenize raw)
        cases m.tokenize raw with
        | error fault => exact .error rfl
        | ok tokens => exact .ok (List.forall₂_same.mpr fun _ _ => rfl)

end CallGrammar

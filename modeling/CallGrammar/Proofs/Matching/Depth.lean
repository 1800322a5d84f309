import CallGrammar.Proofs.Matching.Visits
import CallGrammar.Proofs.Pattern.Contents

/-! How deep a run goes: it comes back to the depth at which it started. -/

namespace CallGrammar

variable {σ : Type}

namespace Tally

@[simp]
theorem depth_recordOptional (tally : Tally σ) (identifier : Option String) (present : Bool)
    : (tally.recordOptional identifier present).depth = tally.depth := by
  cases identifier <;> rfl

@[simp]
theorem depth_recordVariant (tally : Tally σ) (identifier : Option String) (index : Nat)
    : (tally.recordVariant identifier index).depth = tally.depth := by
  cases identifier <;> rfl

@[simp]
theorem depth_join [Scale σ] (tally branch : Tally σ) : (tally.join branch).depth = tally.depth :=
  rfl

theorem depth_leave_of_enter {tally after : Tally σ} (h : after.depth = tally.enter.depth)
    : after.leave.depth = tally.depth := by
  rw [leave, h]
  rfl

end Tally

namespace Matcher

/-- A visit comes back to its depth if what happens inside does. -/
theorem depth_visit {inside : Tally σ → Verdict σ × Tally σ}
    (h : ∀ tally, (inside tally).2.depth = tally.depth) (m : Matcher) (kind : Kind)
    (tally : Tally σ)
    : (m.visit kind inside tally).2.depth = tally.depth := by
  unfold visit
  split
  · rfl
  · split
    · rfl
    · exact Tally.depth_leave_of_enter (h tally.enter)

variable [Scale σ]

theorem depth_runLiteral (m : Matcher) (text : String) (caseSensitive : Bool)
    (tokens : List Token) (tally : Tally σ)
    : (m.runLiteral text caseSensitive tokens tally).2.depth = tally.depth := by
  unfold runLiteral
  repeat' split
  all_goals rfl

theorem depth_runParameter (m : Matcher) (name : String) (typeName : Option String)
    (tokens : List Token) (tally : Tally σ)
    : (m.runParameter name typeName tokens tally).2.depth = tally.depth := by
  unfold runParameter
  repeat' split
  all_goals rfl

theorem depth_runTail (name : String) (tokens : List Token) (tally : Tally σ)
    : (runTail name tokens tally).2.depth = tally.depth := by
  unfold runTail
  split
  · dsimp only
    split <;> rfl
  · rfl

theorem depth_settleOptional (identifier : Option String) (tokens : List Token)
    (tally : Tally σ) (result : Verdict σ × Tally σ)
    : (settleOptional identifier tokens tally result).2.depth = tally.depth := by
  unfold settleOptional
  split <;> simp

theorem depth_settleVariant (identifier : Option String) (alternatives : List Pattern)
    (tally : Tally σ) (results : Except Fault (List (Except (Mismatch σ) (List Token × Tally σ))))
    : (settleVariant identifier alternatives tally results).2.depth = tally.depth := by
  unfold settleVariant
  split
  · rfl
  · split <;> simp

/-- Patterns that each come back to their depth do so one after the other, by list induction. -/
theorem depth_runAll_of {m : Matcher} {ps : List Pattern}
    (h : ∀ p ∈ ps, ∀ tokens (tally : Tally σ), (m.run p tokens tally).2.depth = tally.depth)
    (tokens : List Token) (tally : Tally σ)
    : (m.runAll ps tokens tally).2.depth = tally.depth := by
  induction ps generalizing tokens tally with
  | nil => rfl
  | cons p rest ih =>
      have hp := h p List.mem_cons_self tokens tally
      rw [runAll]
      split
      · rename_i left after he
        rw [ih (fun q hq => h q (List.mem_cons_of_mem p hq)), ← hp, he]
      · rename_i he
        rw [← hp, he]

/-- A run comes back to the depth at which it started, by induction on the pattern. -/
theorem depth_run (m : Matcher) (p : Pattern) (tokens : List Token) (tally : Tally σ)
    : (m.run p tokens tally).2.depth = tally.depth := by
  induction p generalizing tokens tally with
  | literal text caseSensitive =>
      rw [run_eq_visit]
      exact depth_visit (m.depth_runLiteral text caseSensitive tokens) m _ tally
  | parameter name typeName =>
      rw [run_eq_visit]
      exact depth_visit (m.depth_runParameter name typeName tokens) m _ tally
  | tail name =>
      rw [run_eq_visit]
      exact depth_visit (depth_runTail name tokens) m _ tally
  | optional identifier inner ih =>
      rw [run_eq_visit]
      exact depth_visit (fun _ => depth_settleOptional identifier tokens _ _) m _ tally
  | variant identifier parenthesized alternatives ih =>
      rw [run_eq_visit]
      exact depth_visit (fun _ => depth_settleVariant identifier alternatives _ _) m _ tally
  | sequence children ih =>
      rw [run_eq_visit]
      exact depth_visit (depth_runAll_of ih tokens) m _ tally

theorem depth_runAll (m : Matcher) (ps : List Pattern) (tokens : List Token) (tally : Tally σ)
    : (m.runAll ps tokens tally).2.depth = tally.depth :=
  depth_runAll_of (fun p _ => m.depth_run p) tokens tally

end Matcher

end CallGrammar

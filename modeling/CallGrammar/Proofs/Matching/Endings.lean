import CallGrammar.Proofs.Matching.Choice
import CallGrammar.Proofs.Matching.Visits

/-! How a call comes to its end. A run takes the call to its end only by a tail, so a pattern
without one leaves room for what follows.
-/

namespace CallGrammar

variable {σ : Type}

------------------------------------------------------------
-- Tails of a pattern

namespace Pattern

/-- A tail stands in a pattern, however deep. -/
def HasTail (p : Pattern) : Prop :=
  ∃ name, .tail name ∈ p.traverse

/-- In every sequence of a pattern only the last part may have a tail. -/
def TailsLast (p : Pattern) : Prop :=
  ∀ children, .sequence children ∈ p.traverse → ∀ child ∈ children.dropLast, ¬ child.HasTail

theorem HasTail.of_child {p child : Pattern} (h : child.HasTail) (member : child ∈ p.children)
    : p.HasTail := by
  obtain ⟨name, hname⟩ := h
  exact ⟨name, mem_traverse_of_child member hname⟩

end Pattern

------------------------------------------------------------
-- Only a tail takes a call to its end

namespace Tally

@[simp]
theorem terminated_recordOptional (tally : Tally σ) (identifier : Option String) (present : Bool)
    : (tally.recordOptional identifier present).terminated = tally.terminated := by
  cases identifier <;> rfl

@[simp]
theorem terminated_recordVariant (tally : Tally σ) (identifier : Option String) (index : Nat)
    : (tally.recordVariant identifier index).terminated = tally.terminated := by
  cases identifier <;> rfl

@[simp]
theorem join_terminated [Scale σ] (tally branch : Tally σ)
    : (tally.join branch).terminated = (tally.terminated || branch.terminated) :=
  rfl

end Tally

namespace Matcher

variable [Scale σ]

/-- A run over the pattern takes a call to its end only by a tail. -/
def EndsByTail (scale : Type) [Scale scale] (m : Matcher) (p : Pattern) : Prop :=
  ∀ {tokens rest : List Token} {tally after : Tally scale},
    m.run p tokens tally = (.ok rest, after) → after.terminated = true → p.HasTail

/-- A pattern does so if what happens inside does. -/
theorem endsByTail_of_inside {m : Matcher} {p : Pattern}
    (h : ∀ {tokens rest} {tally after : Tally σ}, tally.terminated = false
      → m.inside p tokens tally = (.ok rest, after)
      → after.terminated = true
      → p.HasTail)
    : EndsByTail σ m p := by
  intro tokens rest tally after hr ended
  rw [run_eq_visit] at hr
  obtain ⟨going, last, hi, rfl⟩ := visit_eq_ok hr
  have hgoing : tally.enter.terminated = false := going
  exact h hgoing hi ended

/-- A pattern that leaves the end of the call as it is does not come to it. -/
theorem endsByTail_of_kept {m : Matcher} {p : Pattern}
    (h : ∀ tokens (tally : Tally σ), (m.inside p tokens tally).2.terminated = tally.terminated)
    : EndsByTail σ m p := by
  refine endsByTail_of_inside fun {tokens rest tally after} going hi ended => ?_
  have hkept := h tokens tally
  rw [hi, going] at hkept
  cases hkept.symm.trans ended

theorem terminated_runLiteral (m : Matcher) (text : String) (caseSensitive : Bool)
    (tokens : List Token) (tally : Tally σ)
    : (m.runLiteral text caseSensitive tokens tally).2.terminated = tally.terminated := by
  unfold runLiteral
  repeat' split
  all_goals rfl

theorem terminated_runParameter (m : Matcher) (name : String) (typeName : Option String)
    (tokens : List Token) (tally : Tally σ)
    : (m.runParameter name typeName tokens tally).2.terminated = tally.terminated := by
  unfold runParameter
  repeat' split
  all_goals rfl

/-- Patterns one after the other take a call to its end only by a tail in one of them, by list
induction.
-/
theorem exists_hasTail_of_runAll {m : Matcher} {ps : List Pattern}
    (h : ∀ p ∈ ps, EndsByTail σ m p) {tokens rest : List Token} {tally after : Tally σ}
    (going : tally.terminated = false) (run : m.runAll ps tokens tally = (.ok rest, after))
    (ended : after.terminated = true)
    : ∃ p ∈ ps, p.HasTail := by
  induction ps generalizing tokens tally with
  | nil =>
      cases run
      cases going.symm.trans ended
  | cons p ps ih =>
      rw [runAll] at run
      split at run
      · rename_i left middle hp
        cases hm : middle.terminated with
        | true => exact ⟨p, List.mem_cons_self, h p List.mem_cons_self hp hm⟩
        | false =>
            obtain ⟨q, hq, htail⟩ := ih (fun q hq => h q (List.mem_cons_of_mem p hq)) hm run
            exact ⟨q, List.mem_cons_of_mem p hq, htail⟩
      · cases run

/-- Only a tail takes a call to its end, by induction on the pattern. -/
theorem endsByTail (m : Matcher) (p : Pattern) : EndsByTail σ m p := by
  induction p with
  | literal text caseSensitive =>
      exact endsByTail_of_kept (m.terminated_runLiteral text caseSensitive)
  | parameter name typeName =>
      exact endsByTail_of_kept (m.terminated_runParameter name typeName)
  | tail name =>
      intro _ _ _ _ _ _
      exact ⟨name, Pattern.mem_traverse_self _⟩
  | optional identifier inner ih =>
      refine endsByTail_of_inside fun {tokens rest tally after} going hi ended => ?_
      rcases settleOptional_eq_ok hi with ⟨branch, hb, rfl⟩ | ⟨reason, branch, hb, rfl, rfl⟩
      · have hbranch : branch.terminated = true := by
          simpa [going] using ended
        exact (ih hb hbranch).of_child (List.mem_singleton.mpr rfl)
      · simp [going] at ended
  | variant identifier parenthesized alternatives ih =>
      refine endsByTail_of_inside fun {tokens rest tally after} going hi ended => ?_
      obtain ⟨results, index, branch, he, hb, rfl⟩ := settleVariant_eq_ok hi
      obtain ⟨alternative, ha, hrun⟩ := exists_run_of_chosen he hb
      have hmem := List.mem_of_getElem? ha
      have hbranch : branch.terminated = true := by
        simpa [going] using ended
      exact (ih alternative hmem hrun hbranch).of_child hmem
  | sequence children ih =>
      refine endsByTail_of_inside fun {tokens rest tally after} going hi ended => ?_
      obtain ⟨child, hc, htail⟩ := exists_hasTail_of_runAll ih going hi ended
      exact htail.of_child hc

end Matcher

end CallGrammar

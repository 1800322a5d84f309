import CallGrammar.Proofs.Matching.Choice
import CallGrammar.Proofs.Matching.Depth

/-! Refinement of runs. Two runs agree if they find the same apart from the reasons they give;
one refines the other if they agree or the limit of the depth cut it off.
-/

namespace CallGrammar

variable {σ : Type}

/-- Two faults of one kind; a pattern that follows the end of the call may be of different kinds. -/
def Fault.Alike (left right : Fault) : Prop :=
  left = right
  ∨ ∃ kind kind', left = .matchAfterTermination kind ∧ right = .matchAfterTermination kind'

theorem Fault.Alike.symm {left right : Fault} (h : left.Alike right) : right.Alike left := by
  rcases h with rfl | ⟨kind, kind', rfl, rfl⟩
  · exact .inl rfl
  · exact .inr ⟨kind', kind, rfl, rfl⟩

theorem Fault.Alike.trans {left middle right : Fault} (h : left.Alike middle)
    (h' : middle.Alike right)
    : left.Alike right := by
  rcases h with rfl | ⟨kind, kind', rfl, rfl⟩
  · exact h'
  · rcases h' with rfl | ⟨_, kind'', _, rfl⟩
    · exact .inr ⟨kind, kind', rfl, rfl⟩
    · exact .inr ⟨kind, kind'', rfl, rfl⟩

/-- Two tallies with the same findings, apart from depth and hint. -/
def Tally.Alike (left right : Tally σ) : Prop :=
  ∃ depth hint, left = { right with depth, hint }

namespace Tally.Alike

theorem refl (tally : Tally σ) : tally.Alike tally :=
  ⟨tally.depth, tally.hint, rfl⟩

theorem terminated_eq {left right : Tally σ} (h : left.Alike right)
    : left.terminated = right.terminated := by
  obtain ⟨depth, hint, rfl⟩ := h
  rfl

theorem enter {left right : Tally σ} (h : left.Alike right) : left.enter.Alike right.enter := by
  obtain ⟨depth, hint, rfl⟩ := h
  exact ⟨depth + 1, hint, rfl⟩

theorem enter_left {left right : Tally σ} (h : left.Alike right) : left.enter.Alike right := by
  obtain ⟨depth, hint, rfl⟩ := h
  exact ⟨depth + 1, hint, rfl⟩

theorem leave {left right : Tally σ} (h : left.Alike right) : left.leave.Alike right.leave := by
  obtain ⟨depth, hint, rfl⟩ := h
  exact ⟨depth - 1, hint, rfl⟩

theorem leave_left {left right : Tally σ} (h : left.Alike right) : left.leave.Alike right := by
  obtain ⟨depth, hint, rfl⟩ := h
  exact ⟨depth - 1, hint, rfl⟩

theorem recordOptional {left right : Tally σ} (h : left.Alike right)
    (identifier : Option String) (present : Bool)
    : (left.recordOptional identifier present).Alike (right.recordOptional identifier present) := by
  obtain ⟨depth, hint, rfl⟩ := h
  cases identifier <;> exact ⟨depth, hint, rfl⟩

theorem recordVariant {left right : Tally σ} (h : left.Alike right)
    (identifier : Option String) (index : Nat)
    : (left.recordVariant identifier index).Alike (right.recordVariant identifier index) := by
  obtain ⟨depth, hint, rfl⟩ := h
  cases identifier <;> exact ⟨depth, hint, rfl⟩

theorem hinted {left right : Tally σ} (h : left.Alike right) (hint hint' : Option (Mismatch σ))
    : Alike { left with hint := hint } { right with hint := hint' } := by
  obtain ⟨depth, _, rfl⟩ := h
  exact ⟨depth, hint, rfl⟩

variable [Scale σ]

theorem branch {left right : Tally σ} (h : left.Alike right)
    : left.branch.Alike right.branch := by
  obtain ⟨depth, hint, rfl⟩ := h
  exact ⟨depth, none, rfl⟩

theorem join {left right branch branch' : Tally σ} (h : left.Alike right)
    (hb : branch.Alike branch')
    : (left.join branch).Alike (right.join branch') := by
  obtain ⟨depth, hint, rfl⟩ := h
  obtain ⟨_, hint', rfl⟩ := hb
  exact ⟨depth, hint'.or hint, rfl⟩

end Tally.Alike

/-- Attempts that say the same apart from reasons: both matched with one outcome, both were
rejected after the same progress, or both met a fault of one kind.
-/
inductive Attempt.Agrees : Except Fault (Attempt σ) → Except Fault (Attempt σ) → Prop
  | matched {outcome} : Agrees (.ok (.ok outcome)) (.ok (.ok outcome))
  | rejected {index progress reason reason'}
    : Agrees (.ok (.error ⟨index, progress, reason⟩)) (.ok (.error ⟨index, progress, reason'⟩))
  | fault {fault fault'} (alike : fault.Alike fault') : Agrees (.error fault) (.error fault')

namespace Attempt.Agrees

theorem symm {left right : Except Fault (Attempt σ)} (h : Agrees left right)
    : Agrees right left := by
  cases h with
  | matched => exact .matched
  | rejected => exact .rejected
  | fault alike => exact .fault alike.symm

theorem trans {left middle right : Except Fault (Attempt σ)} (h : Agrees left middle)
    (h' : Agrees middle right)
    : Agrees left right := by
  cases h with
  | matched => exact h'
  | rejected =>
      cases h' with
      | rejected => exact .rejected
  | fault alike =>
      cases h' with
      | fault alike' => exact .fault (alike.trans alike')

end Attempt.Agrees

/-- A result refines another one if it was cut off by the limit of the depth, or both say the
same apart from reasons.
-/
inductive Refines : Verdict σ × Tally σ → Verdict σ × Tally σ → Prop
  | cut {limit tally result} : Refines (.fault (.depthExceeded limit), tally) result
  | ok {rest left right} (alike : left.Alike right) : Refines (.ok rest, left) (.ok rest, right)
  | mismatch {reason reason' left right} (alike : left.Alike right)
    : Refines (.mismatch reason, left) (.mismatch reason', right)
  | fault {fault fault' left right} (alike : fault.Alike fault')
    : Refines (.fault fault, left) (.fault fault', right)

theorem Refines.leave {left right : Verdict σ × Tally σ} (h : Refines left right)
    : Refines (left.1, left.2.leave) (right.1, right.2.leave) := by
  cases h with
  | cut => exact .cut
  | ok alike => exact .ok alike.leave
  | mismatch alike => exact .mismatch alike.leave
  | fault alike => exact .fault alike

theorem Refines.leave_left {left right : Verdict σ × Tally σ} (h : Refines left right)
    : Refines (left.1, left.2.leave) right := by
  cases h with
  | cut => exact .cut
  | ok alike => exact .ok alike.leave_left
  | mismatch alike => exact .mismatch alike.leave_left
  | fault alike => exact .fault alike

theorem refines_terminated (kind kind' : Kind) (left right : Tally σ)
    : Refines (.fault (.matchAfterTermination kind), left)
        (.fault (.matchAfterTermination kind'), right) :=
  .fault (.inr ⟨kind, kind', rfl, rfl⟩)

/-- A visit refines one that is no deeper if what happens inside does. -/
theorem Refines.visit {m : Matcher} {inside inside' : Tally σ → Verdict σ × Tally σ}
    {left right : Tally σ} (alike : left.Alike right) (shallower : right.depth ≤ left.depth)
    (h : Refines (inside left.enter) (inside' right.enter)) (kind kind' : Kind)
    : Refines (m.visit kind inside left) (m.visit kind' inside' right) := by
  cases ht : left.terminated with
  | true =>
      rw [Matcher.visit_of_terminated ht, Matcher.visit_of_terminated (alike.terminated_eq ▸ ht)]
      exact refines_terminated kind kind' left right
  | false =>
      by_cases hd : m.maxDepth ≤ left.depth
      · rw [Matcher.visit_of_deep ht hd]
        exact .cut
      · rw [Matcher.visit_of_open ht (by omega),
          Matcher.visit_of_open (alike.terminated_eq ▸ ht) (by omega)]
        exact h.leave

variable [Scale σ]

/-- Settling an optional group keeps refinement, by cases on the results inside. -/
theorem Refines.settleOptional {left right : Tally σ} (alike : left.Alike right)
    {result result' : Verdict σ × Tally σ} (h : Refines result result')
    (identifier : Option String) (tokens : List Token)
    : Refines (Matcher.settleOptional identifier tokens left result)
        (Matcher.settleOptional identifier tokens right result') := by
  cases h with
  | cut => exact .cut
  | ok branch => exact .ok ((alike.recordOptional identifier true).join branch)
  | mismatch _ => exact .ok ((alike.recordOptional identifier false).hinted _ _)
  | fault fault => exact .fault fault

theorem refines_runLiteral {left right : Tally σ} (alike : left.Alike right) (m : Matcher)
    (text : String) (caseSensitive : Bool) (tokens : List Token)
    : Refines (m.runLiteral text caseSensitive tokens left)
        (m.runLiteral text caseSensitive tokens right) := by
  obtain ⟨depth, hint, rfl⟩ := alike
  unfold Matcher.runLiteral
  split
  · exact .mismatch ⟨depth, hint, rfl⟩
  · split
    · exact .ok ⟨depth, hint, rfl⟩
    · exact .mismatch ⟨depth, hint, rfl⟩

theorem refines_runParameter {left right : Tally σ} (alike : left.Alike right) (m : Matcher)
    (name : String) (typeName : Option String) (tokens : List Token)
    : Refines (m.runParameter name typeName tokens left)
        (m.runParameter name typeName tokens right) := by
  obtain ⟨depth, hint, rfl⟩ := alike
  unfold Matcher.runParameter
  split
  · exact .mismatch ⟨depth, hint, rfl⟩
  · exact .ok ⟨depth, hint, rfl⟩
  · split
    · exact .mismatch ⟨depth, hint, rfl⟩
    · exact .fault (.inl rfl)
  · split
    · exact .ok ⟨depth, hint, rfl⟩
    · exact .fault (.inl rfl)
    · exact .mismatch ⟨depth, hint, rfl⟩

theorem refines_runTail {left right : Tally σ} (alike : left.Alike right) (name : String)
    (tokens : List Token)
    : Refines (Matcher.runTail name tokens left) (Matcher.runTail name tokens right) := by
  obtain ⟨depth, hint, rfl⟩ := alike
  unfold Matcher.runTail
  split
  · dsimp only
    split
    · exact .mismatch ⟨depth, hint, rfl⟩
    · exact .ok ⟨depth, hint, rfl⟩
  · exact .mismatch ⟨depth, hint, rfl⟩

/-- Results of one alternative that say the same apart from reasons. -/
inductive AlikeResult
    : Except (Mismatch σ) (List Token × Tally σ) → Except (Mismatch σ) (List Token × Tally σ) → Prop
  | ok {rest left right} (alike : left.Alike right)
    : AlikeResult (.ok (rest, left)) (.ok (rest, right))
  | error {reason reason'} : AlikeResult (.error reason) (.error reason')

/-- Choices of one alternative at the same place that say the same. -/
inductive AlikeChoice
    : Option (Nat × List Token × Tally σ) → Option (Nat × List Token × Tally σ) → Prop
  | none : AlikeChoice none none
  | some {index rest left right} (alike : left.Alike right)
    : AlikeChoice (some (index, rest, left)) (some (index, rest, right))

/-- Among results that say the same, the best is chosen alike. -/
theorem alikeChoice_earliestBest
    {results results' : List (Except (Mismatch σ) (List Token × Tally σ))}
    (h : List.Forall₂ AlikeResult results results')
    : AlikeChoice (earliestBest (fun result => result.2.score) none 0 results)
        (earliestBest (fun result => result.2.score) none 0 results') := by
  let same (result result' : List Token × Tally σ) : Prop :=
    result.1 = result'.1 ∧ result.2.Alike result'.2
  have hscore (result result' : List Token × Tally σ) (h : same result result')
      : result.2.score = result'.2.score := by
    obtain ⟨depth, hint, he⟩ := h.2
    rw [he]
  have hresults : List.Forall₂ (ExceptRel (fun _ _ => True) same) results results' := by
    refine h.imp fun result result' alike => ?_
    cases alike with
    | ok alike => exact .ok ⟨rfl, alike⟩
    | error => exact .error trivial
  have hchoice := choiceRel_earliestBest hscore hresults .none 0
  generalize earliestBest (fun result => result.2.score) none 0 results = choice at hchoice
  generalize earliestBest (fun result => result.2.score) none 0 results' = choice' at hchoice
  cases hchoice with
  | none => exact .none
  | @some chosen chosen' same =>
      obtain ⟨index, rest, left⟩ := chosen
      obtain ⟨_, _, right⟩ := chosen'
      obtain ⟨rfl, rfl, alike⟩ := same
      exact .some alike

/-- Results of all alternatives that say the same, unless the first ones were cut off. -/
inductive RefinesEach
    : Except Fault (List (Except (Mismatch σ) (List Token × Tally σ)))
      → Except Fault (List (Except (Mismatch σ) (List Token × Tally σ))) → Prop
  | cut {limit results} : RefinesEach (.error (.depthExceeded limit)) results
  | ok {results results'} (alike : List.Forall₂ AlikeResult results results')
    : RefinesEach (.ok results) (.ok results')
  | fault {fault fault'} (alike : fault.Alike fault') : RefinesEach (.error fault) (.error fault')

/-- Settling a variant keeps refinement, by cases on the results and on the choice. -/
theorem RefinesEach.settleVariant {left right : Tally σ} (alike : left.Alike right)
    {results results' : Except Fault (List (Except (Mismatch σ) (List Token × Tally σ)))}
    (h : RefinesEach results results') (identifier : Option String)
    (alternatives alternatives' : List Pattern)
    : Refines (Matcher.settleVariant identifier alternatives left results)
        (Matcher.settleVariant identifier alternatives' right results') := by
  cases h with
  | cut => exact .cut
  | fault fault => exact .fault fault
  | @ok results results' same =>
      have hc := alikeChoice_earliestBest same
      unfold Matcher.settleVariant
      dsimp only
      generalize earliestBest (fun result => result.2.score) none 0 results = choice at hc
      generalize earliestBest (fun result => result.2.score) none 0 results' = choice' at hc
      cases hc with
      | none => exact .mismatch alike
      | some branch => exact .ok ((alike.recordVariant identifier _).join branch)

/-- Alternatives refine others one by one if each refines its own, by list induction. -/
theorem refinesEach_runEach {m : Matcher} {alternatives : List Pattern} {f : Pattern → Pattern}
    {tokens : List Token} {left right : Tally σ}
    (h : ∀ p ∈ alternatives, Refines (m.run p tokens left) (m.run (f p) tokens right))
    : RefinesEach (m.runEach alternatives tokens left)
        (m.runEach (alternatives.map f) tokens right) := by
  induction alternatives with
  | nil => exact .ok .nil
  | cons p rest ih =>
      have hp := h p List.mem_cons_self
      have hr := ih (fun q hq => h q (List.mem_cons_of_mem p hq))
      rw [List.map_cons, Matcher.runEach, Matcher.runEach]
      generalize m.run p tokens left = result at hp
      generalize m.run (f p) tokens right = result' at hp
      generalize m.runEach rest tokens left = results at hr
      generalize m.runEach (rest.map f) tokens right = results' at hr
      cases hp with
      | cut => exact .cut
      | ok alike =>
          cases hr with
          | cut => exact .cut
          | ok results => exact .ok (.cons (.ok alike) results)
          | fault fault => exact .fault fault
      | mismatch alike =>
          cases hr with
          | cut => exact .cut
          | ok results => exact .ok (.cons .error results)
          | fault fault => exact .fault fault
      | fault fault => exact .fault fault

end CallGrammar

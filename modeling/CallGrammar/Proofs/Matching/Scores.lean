import CallGrammar.Proofs.Matching.Choice
import CallGrammar.Proofs.Matching.Visits
import Mathlib.Data.List.Induction

/-! Scores that matching can reach, and the rejection that got furthest. Reachable scores are
sums of what words, arguments and rests of calls count. On them a scale may be ordered even where
its sums are rounded.
-/

namespace CallGrammar

variable {σ : Type} [Scale σ]

/-- The scores that matching can reach. -/
inductive IsScore : σ → Prop
  | zero : IsScore 0
  | literal : IsScore Scale.literal
  | parameter : IsScore Scale.parameter
  | tail : IsScore Scale.tail
  | add {a b : σ} (left : IsScore a) (right : IsScore b) : IsScore (a + b)

/-- A scale is exact if scores add up in any grouping. -/
class ExactScale (σ : Type) [Scale σ] : Prop where
  add_assoc (a b c : σ) : a + b + c = a + (b + c)
  zero_add (a : σ) : 0 + a = a
  add_zero (a : σ) : a + 0 = a

instance : ExactScale Rat where
  add_assoc := Rat.add_assoc
  zero_add := Rat.zero_add
  add_zero := Rat.add_zero

/-- A scale is ordered if its reachable scores are, from zero upwards. -/
class OrderedScale (σ : Type) [Scale σ] : Prop where
  not_lt {a b : σ} : IsScore a → IsScore b → (¬ a < b ↔ b ≤ a)
  le_trans {a b c : σ} : IsScore a → IsScore b → IsScore c → a ≤ b → b ≤ c → a ≤ c
  le_total {a b : σ} : IsScore a → IsScore b → a ≤ b ∨ b ≤ a
  eq_zero_of_le {a : σ} : IsScore a → a ≤ 0 → a = 0

theorem OrderedScale.orderedOn [OrderedScale σ] : OrderedOn (IsScore : σ → Prop) :=
  ⟨not_lt, le_trans, le_total⟩

theorem OrderedScale.ne_zero_of_pos [OrderedScale σ] {a : σ} (h : 0 < a) : a ≠ 0 := by
  rintro rfl
  exact (not_lt .zero .zero).mpr (orderedOn.le_refl .zero) h

/-- No score is below zero, so one that is not above it is zero. -/
theorem OrderedScale.eq_zero_of_not_pos [OrderedScale σ] {a : σ} (h : IsScore a)
    (hn : ¬ 0 < a)
    : a = 0 :=
  eq_zero_of_le h ((not_lt .zero h).mp hn)

/-- No exact score is below zero, by induction on the sum. -/
theorem IsScore.nonneg {a : Rat} (h : IsScore a) : 0 ≤ a := by
  induction h with
  | zero => exact Rat.le_refl
  | literal => decide
  | parameter => decide
  | tail => decide
  | add _ _ hl hr => exact Rat.add_nonneg hl hr

instance : OrderedScale Rat where
  not_lt _ _ := Rat.not_lt
  le_trans _ _ _ := Rat.le_trans
  le_total _ _ := Rat.le_total
  eq_zero_of_le h hl := Rat.le_antisymm hl h.nonneg

------------------------------------------------------------
-- Runs

namespace Matcher

/-- A visit keeps to reachable scores if what happens inside does. -/
theorem isScore_visit {inside : Tally σ → Verdict σ × Tally σ}
    (h : ∀ tally, IsScore tally.score → IsScore (inside tally).2.score) (m : Matcher)
    (kind : Kind) {tally : Tally σ} (ht : IsScore tally.score)
    : IsScore (m.visit kind inside tally).2.score := by
  unfold visit
  split
  · exact ht
  · split
    · exact ht
    · exact h tally.enter ht

theorem isScore_runLiteral (m : Matcher) (text : String) (caseSensitive : Bool)
    (tokens : List Token) (tally : Tally σ) (h : IsScore tally.score)
    : IsScore (m.runLiteral text caseSensitive tokens tally).2.score := by
  unfold runLiteral
  split
  · exact h
  · split
    · exact h.add .literal
    · exact h

theorem isScore_runParameter (m : Matcher) (name : String) (typeName : Option String)
    (tokens : List Token) (tally : Tally σ) (h : IsScore tally.score)
    : IsScore (m.runParameter name typeName tokens tally).2.score := by
  unfold runParameter
  split
  · exact h
  · exact h.add .parameter
  · split <;> exact h
  · split
    · exact h.add .parameter
    · exact h
    · exact h

theorem isScore_runTail (name : String) (tokens : List Token) (tally : Tally σ)
    (h : IsScore tally.score)
    : IsScore (runTail name tokens tally).2.score := by
  unfold runTail
  split
  · dsimp only
    split
    · exact h
    · exact h.add .tail
  · exact h

/-- An optional group adds the score of its branch, or nothing. -/
theorem isScore_settleOptional (identifier : Option String) (tokens : List Token)
    {tally : Tally σ} (h : IsScore tally.score) {result : Verdict σ × Tally σ}
    (hr : IsScore result.2.score)
    : IsScore (settleOptional identifier tokens tally result).2.score := by
  unfold settleOptional
  split
  · cases identifier <;> exact h.add hr
  · cases identifier <;> exact h
  · exact h

/-- A variant adds the score of the branch of one of its alternatives, or nothing. -/
theorem isScore_settleVariant (identifier : Option String) (alternatives : List Pattern)
    {tally : Tally σ} (h : IsScore tally.score)
    {results : Except Fault (List (Except (Mismatch σ) (List Token × Tally σ)))}
    (hr : ∀ successes rest branch, results = .ok successes → .ok (rest, branch) ∈ successes
      → IsScore branch.score)
    : IsScore (settleVariant identifier alternatives tally results).2.score := by
  unfold settleVariant
  split
  · exact h
  · split
    · rename_i index rest branch hb
      have hm := List.mem_of_getElem? (isChoice_of_eq hb).1
      cases identifier <;> exact h.add (hr _ rest branch rfl hm)
    · exact h

/-- Patterns that each keep to reachable scores do so one after the other, by list induction. -/
theorem isScore_runAll_of {m : Matcher} {ps : List Pattern}
    (h : ∀ p ∈ ps, ∀ tokens (tally : Tally σ), IsScore tally.score
      → IsScore (m.run p tokens tally).2.score)
    (tokens : List Token) (tally : Tally σ) (ht : IsScore tally.score)
    : IsScore (m.runAll ps tokens tally).2.score := by
  induction ps generalizing tokens tally with
  | nil => exact ht
  | cons p rest ih =>
      have hp := h p List.mem_cons_self tokens tally ht
      rw [runAll]
      split
      · rename_i left after he
        rw [he] at hp
        exact ih (fun q hq => h q (List.mem_cons_of_mem p hq)) left after hp
      · rename_i he
        rwa [he] at hp

/-- So do those that match on their own. -/
theorem isScore_of_mem_runEach {m : Matcher} {ps : List Pattern}
    (h : ∀ p ∈ ps, ∀ tokens (tally : Tally σ), IsScore tally.score
      → IsScore (m.run p tokens tally).2.score)
    {tokens left : List Token} {branch after : Tally σ} (hb : IsScore branch.score)
    {results : List (Except (Mismatch σ) (List Token × Tally σ))}
    (he : m.runEach ps tokens branch = .ok results) (member : .ok (left, after) ∈ results)
    : IsScore after.score := by
  obtain ⟨place, found⟩ := List.mem_iff_getElem?.mp member
  obtain ⟨p, hp, hrun⟩ := (getElem?_runEach he place).mp found
  have reached := h p (List.mem_of_getElem? hp) tokens branch hb
  rwa [hrun] at reached

/-- A run keeps to reachable scores, by induction on the pattern. -/
theorem isScore_run (m : Matcher) (p : Pattern) (tokens : List Token) (tally : Tally σ)
    (h : IsScore tally.score)
    : IsScore (m.run p tokens tally).2.score := by
  induction p generalizing tokens tally with
  | literal text caseSensitive =>
      rw [run_eq_visit]
      exact isScore_visit (m.isScore_runLiteral text caseSensitive tokens) m _ h
  | parameter name typeName =>
      rw [run_eq_visit]
      exact isScore_visit (m.isScore_runParameter name typeName tokens) m _ h
  | tail name =>
      rw [run_eq_visit]
      exact isScore_visit (isScore_runTail name tokens) m _ h
  | optional identifier inner ih =>
      rw [run_eq_visit]
      apply isScore_visit _ m _ h
      intro tally ht
      exact isScore_settleOptional identifier tokens ht (ih tokens tally.branch .zero)
  | variant identifier parenthesized alternatives ih =>
      rw [run_eq_visit]
      apply isScore_visit _ m _ h
      intro tally ht
      apply isScore_settleVariant identifier alternatives ht
      intro successes rest branch he member
      exact isScore_of_mem_runEach ih .zero he member
  | sequence children ih =>
      rw [run_eq_visit]
      exact isScore_visit (isScore_runAll_of ih tokens) m _ h

/-- The score at which an attempt ended. -/
def attemptScore : Attempt σ → σ
  | .ok outcome => outcome.score
  | .error rejection => rejection.progress

/-- An attempt gets to a reachable score, whether it matches or is rejected. -/
theorem isScore_of_attempt {m : Matcher} {index : Nat} {p : Pattern} {tokens : List Token}
    {raw : String} {attempt : Attempt σ} (h : m.attempt index p tokens raw = .ok attempt)
    : IsScore (attemptScore attempt) := by
  have hr := m.isScore_run p tokens (.start raw : Tally σ) .zero
  unfold Matcher.attempt at h
  generalize m.run p tokens (.start raw : Tally σ) = result at h hr
  obtain ⟨(_ | _) | (_ | _), tally⟩ := result
  · cases h
    exact hr
  · cases h
  · cases h
    exact hr
  · cases h
    exact hr

end Matcher

------------------------------------------------------------
-- The rejection that got furthest

namespace Rejected

variable {μ : Type}

/-- A further rejection is compared with the furthest one before it. -/
theorem furthest?_snoc (rejections : List (Rejected σ μ)) (last : Rejected σ μ)
    : furthest? (rejections ++ [last])
      = some ((furthest? rejections).elim last (further · last)) := by
  cases rejections with
  | nil => rfl
  | cons first rest => simp [furthest?, List.foldl_append]

/-- The earliest among those that got furthest: the ones before it got less far and the ones
behind it no further.
-/
def IsFurthest (rejections : List (Rejected σ μ)) (best : Rejected σ μ) : Prop :=
  ∃ before after,
    rejections = before ++ best :: after
    ∧ (∀ rejection ∈ before, rejection.progress < best.progress)
    ∧ ∀ rejection ∈ after, rejection.progress ≤ best.progress

theorem IsFurthest.mem {rejections : List (Rejected σ μ)} {best : Rejected σ μ}
    (h : IsFurthest rejections best)
    : best ∈ rejections := by
  rcases h with ⟨before, after, rfl, _, _⟩
  simp

section Ordered

variable [OrderedScale σ]

theorem IsFurthest.le {rejections : List (Rejected σ μ)} {best : Rejected σ μ}
    (h : IsFurthest rejections best)
    (scores : ∀ rejection ∈ rejections, IsScore rejection.progress)
    {rejection : Rejected σ μ} (member : rejection ∈ rejections)
    : rejection.progress ≤ best.progress := by
  have hs := scores rejection member
  have hb := scores best h.mem
  rcases h with ⟨before, after, rfl, hlt, hle⟩
  rcases List.mem_append.mp member with hm | hm
  · exact OrderedScale.orderedOn.le_of_lt hs hb (hlt rejection hm)
  · rcases List.mem_cons.mp hm with rfl | hm
    · exact OrderedScale.orderedOn.le_refl hb
    · exact hle rejection hm

/-- The further one of the furthest rejection and the next one is the furthest of all. -/
theorem IsFurthest.snoc {rejections : List (Rejected σ μ)} {best : Rejected σ μ}
    (h : IsFurthest rejections best)
    (scores : ∀ rejection ∈ rejections, IsScore rejection.progress) {last : Rejected σ μ}
    (hl : IsScore last.progress)
    : IsFurthest (rejections ++ [last]) (best.further last) := by
  have hb := scores best h.mem
  unfold further
  split
  · rename_i hle
    rcases h with ⟨before, after, rfl, hlt, hle'⟩
    refine ⟨before, after ++ [last], by simp, hlt, ?_⟩
    intro rejection hr
    rcases List.mem_append.mp hr with hr | hr
    · exact hle' rejection hr
    · rwa [List.mem_singleton.mp hr]
  · rename_i hnle
    have hlt : best.progress < last.progress := by
      apply Decidable.byContradiction
      intro hn
      exact hnle ((OrderedScale.not_lt hb hl).mp hn)
    refine ⟨rejections, [], rfl, ?_, by simp⟩
    intro rejection hr
    exact OrderedScale.orderedOn.lt_of_le_of_lt (scores rejection hr) hb hl (h.le scores hr) hlt

/-- The furthest of some rejections is the earliest one among those that got furthest, by
induction from the last rejection.
-/
theorem isFurthest_of_eq {rejections : List (Rejected σ μ)}
    (scores : ∀ rejection ∈ rejections, IsScore rejection.progress) {best : Rejected σ μ}
    (h : furthest? rejections = some best)
    : IsFurthest rejections best := by
  induction rejections using List.reverseRecOn generalizing best with
  | nil => cases h
  | append_singleton rejections last ih =>
      have hs : ∀ rejection ∈ rejections, IsScore rejection.progress := by
        intro rejection hr
        exact scores rejection (List.mem_append_left _ hr)
      rw [furthest?_snoc] at h
      cases hf : furthest? rejections with
      | none =>
          rw [hf] at h
          cases h
          cases rejections with
          | nil => exact ⟨[], [], rfl, by simp, by simp⟩
          | cons first rest => cases hf
      | some chosen =>
          rw [hf] at h
          cases h
          exact (ih hs hf).snoc hs (scores last (by simp))

end Ordered

end Rejected

end CallGrammar

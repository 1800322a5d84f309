import CallGrammar.Proofs.Matching.Soundness

/-! Matching on a tally is matching on a branch of it and joining the branch. What a run finds
depends on nothing that was found before it, and what it leaves in the tally is added to what was
there, whether it succeeds or fails.
-/

namespace CallGrammar

variable {σ : Type}

namespace Tally

/-- A tally found something in the same call and at the same depth as another one, which may go
on. So both have the same branches.
-/
structure Beside (branch tally : Tally σ) : Prop where
  raw_eq : branch.raw = tally.raw
  depth_eq : branch.depth = tally.depth
  going : tally.terminated = false

theorem Beside.enter {branch tally : Tally σ} (h : branch.Beside tally)
    : branch.enter.Beside tally.enter :=
  ⟨h.raw_eq, congrArg (· + 1) h.depth_eq, h.going⟩

variable [Scale σ]

------------------------------------------------------------
-- Joining

section Joining

variable [ExactScale σ]

/-- A branch that found nothing adds nothing. -/
theorem join_branch (tally : Tally σ) : tally.join tally.branch = tally := by
  have hs : tally.score + 0 = tally.score := ExactScale.add_zero tally.score
  have ho : tally.optionals ++ [] = tally.optionals := List.append_nil _
  have hv : tally.variants ++ [] = tally.variants := List.append_nil _
  have ht : (tally.terminated || false) = tally.terminated := Bool.or_false _
  simp only [join, branch, start, hs, NameMap.union_empty, ho, hv, ht, Option.none_or]

/-- Branches may be joined in any grouping. -/
theorem join_assoc (tally middle last : Tally σ)
    : (tally.join middle).join last = tally.join (middle.join last) := by
  simp only [join, ExactScale.add_assoc, NameMap.union_assoc, List.append_assoc, Bool.or_assoc,
    Option.or_assoc]

theorem award_join (tally branch : Tally σ) (points : σ)
    : (tally.join branch).award points = tally.join (branch.award points) := by
  simp only [join, award, ExactScale.add_assoc]

end Joining

theorem bind_join (tally branch : Tally σ) (name : String) (value : Value)
    : (tally.join branch).bind name value = tally.join (branch.bind name value) := by
  simp only [join, bind, NameMap.union_insert]

theorem recordOptional_join (tally branch : Tally σ) (identifier : Option String)
    (present : Bool)
    : (tally.join branch).recordOptional identifier present
      = tally.join (branch.recordOptional identifier present) := by
  cases identifier with
  | none => simp only [recordOptional, join, List.append_assoc]
  | some name => exact bind_join tally branch name _

theorem recordVariant_join (tally branch : Tally σ) (identifier : Option String) (index : Nat)
    : (tally.join branch).recordVariant identifier index
      = tally.join (branch.recordVariant identifier index) := by
  cases identifier with
  | none => simp only [recordVariant, join, List.append_assoc]
  | some name => exact bind_join tally branch name _

theorem terminated_join (tally branch : Tally σ)
    : { tally.join branch with terminated := true }
      = tally.join { branch with terminated := true } := by
  simp only [join, Bool.or_true]

/-- A branch goes deeper with what it is joined to. -/
theorem enter_join (tally branch : Tally σ)
    : (tally.join branch).enter = tally.enter.join branch.enter :=
  rfl

theorem leave_enter_join (tally branch : Tally σ)
    : (tally.enter.join branch).leave = tally.join branch.leave :=
  rfl

------------------------------------------------------------
-- Branches beside a tally

namespace Beside

theorem branch {tally : Tally σ} (h : tally.terminated = false) : tally.branch.Beside tally :=
  ⟨rfl, rfl, h⟩

theorem branch_join {branch tally : Tally σ} (h : branch.Beside tally)
    : (tally.join branch).branch = branch.branch := by
  rcases h with ⟨hr, hd, _⟩
  simp only [Tally.branch, join, hr, hd]

theorem terminated_join {branch tally : Tally σ} (h : branch.Beside tally)
    : (tally.join branch).terminated = branch.terminated := by
  simp only [join, h.going, Bool.false_or]

end Beside

/-- A result on a branch as the result on the tally that the branch is joined to. -/
def absorb (tally : Tally σ) (result : Verdict σ × Tally σ) : Verdict σ × Tally σ :=
  (result.1, tally.join result.2)

end Tally

variable [Scale σ]

------------------------------------------------------------
-- Runs

open Tally

/-- A visit of a tally does what it does on a branch if that holds inside. -/
theorem visit_join {m : Matcher} {inside : Tally σ → Verdict σ × Tally σ}
    {tally branch : Tally σ} (beside : branch.Beside tally)
    (h : inside (tally.enter.join branch.enter) = tally.enter.absorb (inside branch.enter))
    (kind : Kind)
    : m.visit kind inside (tally.join branch) = tally.absorb (m.visit kind inside branch) := by
  cases ht : branch.terminated with
  | true =>
      rw [Matcher.visit_of_terminated (beside.terminated_join.trans ht),
        Matcher.visit_of_terminated ht]
      rfl
  | false =>
      have hj : (tally.join branch).terminated = false := beside.terminated_join.trans ht
      by_cases hd : branch.depth < m.maxDepth
      · have hd' : (tally.join branch).depth < m.maxDepth := by
          rwa [depth_join, ← beside.depth_eq]
        rw [Matcher.visit_of_open hj hd', Matcher.visit_of_open ht hd, enter_join, h]
        simp only [absorb, leave_enter_join]
      · have deep : m.maxDepth ≤ branch.depth := Nat.le_of_not_lt hd
        have deep' : m.maxDepth ≤ (tally.join branch).depth := by
          rwa [depth_join, ← beside.depth_eq]
        rw [Matcher.visit_of_deep hj deep', Matcher.visit_of_deep ht deep]
        rfl

theorem settleVariant_join [ExactScale σ] (tally branch : Tally σ) (identifier : Option String)
    (alternatives : List Pattern)
    (results : Except Fault (List (Except (Mismatch σ) (List Token × Tally σ))))
    : Matcher.settleVariant identifier alternatives (tally.join branch) results
      = tally.absorb (Matcher.settleVariant identifier alternatives branch results) := by
  unfold Matcher.settleVariant
  split
  · rfl
  · split
    · rw [recordVariant_join, join_assoc]
      rfl
    · rfl

theorem settleOptional_join [ExactScale σ] (tally branch : Tally σ) (identifier : Option String)
    (tokens : List Token) (result : Verdict σ × Tally σ)
    : Matcher.settleOptional identifier tokens (tally.join branch) result
      = tally.absorb (Matcher.settleOptional identifier tokens branch result) := by
  unfold Matcher.settleOptional
  split
  · rw [recordOptional_join, join_assoc]
    rfl
  · rw [recordOptional_join]
    rfl
  · rfl

theorem runLiteral_join [ExactScale σ] (m : Matcher) (text : String) (caseSensitive : Bool)
    (tokens : List Token) (tally branch : Tally σ)
    : m.runLiteral text caseSensitive tokens (tally.join branch)
      = tally.absorb (m.runLiteral text caseSensitive tokens branch) := by
  unfold Matcher.runLiteral
  split
  · rfl
  · split
    · rw [award_join]
      rfl
    · rfl

theorem runParameter_join [ExactScale σ] (m : Matcher) (name : String)
    (typeName : Option String) (tokens : List Token) (tally branch : Tally σ)
    : m.runParameter name typeName tokens (tally.join branch)
      = tally.absorb (m.runParameter name typeName tokens branch) := by
  unfold Matcher.runParameter
  split
  · rfl
  · rw [bind_join, award_join]
    rfl
  · split <;> rfl
  · split
    · rw [bind_join, award_join]
      rfl
    · rfl
    · rfl

theorem runTail_join [ExactScale σ] {tally branch : Tally σ} (beside : branch.Beside tally)
    (name : String) (tokens : List Token)
    : Matcher.runTail name tokens (tally.join branch)
      = tally.absorb (Matcher.runTail name tokens branch) := by
  have hr : (tally.join branch).raw = branch.raw := beside.raw_eq.symm
  unfold Matcher.runTail
  rw [hr]
  split
  · dsimp only
    split
    · rfl
    · rw [bind_join, award_join, terminated_join]
      rfl
  · rfl

/-- A run over the pattern does on a tally what it does on any branch beside it. -/
def Branches (scale : Type) [Scale scale] (m : Matcher) (p : Pattern) : Prop :=
  ∀ (tokens : List Token) {tally branch : Tally scale}, branch.Beside tally
    → m.run p tokens (tally.join branch) = tally.absorb (m.run p tokens branch)

/-- A pattern branches if what happens inside does. -/
theorem branches_of_inside {m : Matcher} {p : Pattern}
    (h : ∀ (tokens : List Token) {tally branch : Tally σ}, branch.Beside tally
      → m.inside p tokens (tally.join branch) = tally.absorb (m.inside p tokens branch))
    : Branches σ m p := by
  intro tokens tally branch beside
  rw [Matcher.run_eq_visit, Matcher.run_eq_visit]
  exact visit_join beside (h tokens beside.enter) p.kind

/-- A success leaves a tally beside the ones that it was beside before. -/
theorem Tally.Beside.after_run {m : Matcher} {p : Pattern} {tokens rest : List Token}
    {tally branch after : Tally σ} (beside : branch.Beside tally)
    (h : m.run p tokens branch = (.ok rest, after))
    : after.Beside tally := by
  obtain ⟨r, -, hp, -⟩ := accountable m p h
  have hd := m.depth_run p tokens branch
  rw [h] at hd
  exact ⟨hp.notes.raw_eq.trans beside.raw_eq, hd.trans beside.depth_eq, beside.going⟩

/-- Patterns that branch do so one after the other, by list induction: the branch of the rest is
what the first pattern left of its own.
-/
theorem runAll_join {m : Matcher} {ps : List Pattern} (h : ∀ p ∈ ps, Branches σ m p)
    (tokens : List Token) {tally branch : Tally σ} (beside : branch.Beside tally)
    : m.runAll ps tokens (tally.join branch) = tally.absorb (m.runAll ps tokens branch) := by
  induction ps generalizing tokens branch with
  | nil => rfl
  | cons p ps ih =>
      have hp := h p List.mem_cons_self tokens beside
      have hps : ∀ q ∈ ps, Branches σ m q := fun q hq => h q (List.mem_cons_of_mem p hq)
      rw [Matcher.runAll, Matcher.runAll, hp]
      rcases he : m.run p tokens branch with ⟨failure | rest, after⟩
      · rfl
      · exact ih hps rest (beside.after_run he)

/-- Every pattern branches, by induction on the pattern. Only a sequence needs the induction: a
group is matched on branches of its own, which are the same on both sides.
-/
theorem branches [ExactScale σ] (m : Matcher) (p : Pattern) : Branches σ m p := by
  induction p with
  | literal text caseSensitive =>
      apply branches_of_inside
      intro tokens tally branch _
      exact runLiteral_join m text caseSensitive tokens tally branch
  | parameter name typeName =>
      apply branches_of_inside
      intro tokens tally branch _
      exact runParameter_join m name typeName tokens tally branch
  | tail name =>
      apply branches_of_inside
      intro tokens tally branch beside
      exact runTail_join beside name tokens
  | optional identifier inner _ =>
      apply branches_of_inside
      intro tokens tally branch beside
      simp only [Matcher.inside, beside.branch_join]
      exact settleOptional_join tally branch identifier tokens _
  | variant identifier parenthesized alternatives _ =>
      apply branches_of_inside
      intro tokens tally branch beside
      simp only [Matcher.inside, beside.branch_join]
      exact settleVariant_join tally branch identifier alternatives _
  | sequence children ih =>
      apply branches_of_inside
      intro tokens tally branch beside
      exact runAll_join ih tokens beside

/-- A run on a tally that may go on is the run on a branch of it, joined back. -/
theorem run_eq_absorb_branch [ExactScale σ] (m : Matcher) (p : Pattern) (tokens : List Token)
    {tally : Tally σ} (going : tally.terminated = false)
    : m.run p tokens tally = tally.absorb (m.run p tokens tally.branch) := by
  have hb := branches m p tokens (Beside.branch going)
  rwa [join_branch] at hb

/-- Matching on a tally that may go on gives the same verdict as matching on a branch of it, and
leaves in the tally what joining the branch leaves, on success and on failure alike. So the
verdict is the same for all tallies of one call at one depth.
-/
theorem run_eq_join_branch [ExactScale σ] (m : Matcher) (p : Pattern) (tokens : List Token)
    {tally : Tally σ} (going : tally.terminated = false)
    : (m.run p tokens tally).1 = (m.run p tokens tally.branch).1
      ∧ (m.run p tokens tally).2 = tally.join (m.run p tokens tally.branch).2
      ∧ ∀ other : Tally σ, other.terminated = false → other.raw = tally.raw
        → other.depth = tally.depth
        → (m.run p tokens other).1 = (m.run p tokens tally).1 := by
  have law := run_eq_absorb_branch m p tokens going
  have verdict : (m.run p tokens tally).1 = (m.run p tokens tally.branch).1 := by
    rw [law]
    rfl
  have findings : (m.run p tokens tally).2 = tally.join (m.run p tokens tally.branch).2 := by
    rw [law]
    rfl
  refine ⟨verdict, findings, ?_⟩
  intro other hg hr hd
  have hb : other.branch = tally.branch := by
    simp only [Tally.branch, hr, hd]
  rw [run_eq_absorb_branch m p tokens hg, law, hb]
  rfl

/-- A sequence that fails after an omitted group and a bound argument, on a tally that holds
findings of every kind.
-/
theorem run_eq_join_branch_half_matched
    : ∃ (p : Pattern) (token : Token) (tally : Tally Rat),
        p = .sequence
          [.optional (some "polite") (.literal "please" true),
           .parameter "item" none,
           .parameter "place" none]
        ∧ token = ⟨"lamp", ⟨5, 9⟩⟩
        ∧ tally =
          { raw := "take lamp", score := 7 / 2, bindings := .ofList [("item", .str "box")],
            optionals := [true], variants := [2], terminated := false, depth := 3,
            hint := some (.expectedTail "rest") }
        ∧ (Matcher.standard.run p [token] tally).1 = .mismatch (.expectedArgument "place")
        ∧ (Matcher.standard.run p [token] tally).2
          = tally.join (Matcher.standard.run p [token] tally.branch).2
        ∧ (Matcher.standard.run p [token] tally).2.score = 7 / 2 + 1 / 2 := by
  refine ⟨_, _, _, rfl, rfl, rfl, ?_⟩
  have going
      : ({ raw := "take lamp", score := 7 / 2, bindings := .ofList [("item", .str "box")],
           optionals := [true], variants := [2], terminated := false, depth := 3,
           hint := some (.expectedTail "rest") } : Tally Rat).terminated
        = false :=
    rfl
  obtain ⟨verdict, findings, _⟩ := run_eq_join_branch Matcher.standard
    (.sequence
      [.optional (some "polite") (.literal "please" true),
       .parameter "item" none,
       .parameter "place" none])
    [⟨"lamp", ⟨5, 9⟩⟩] going
  refine ⟨verdict.trans ?_, findings, (congrArg Tally.score findings).trans ?_⟩
  · with_unfolding_all rfl
  · with_unfolding_all rfl

end CallGrammar

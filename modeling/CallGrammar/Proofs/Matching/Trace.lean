import CallGrammar.Proofs.Matching.PositiveScores
import CallGrammar.Proofs.Pattern.Contents

/-! The visits of a run, in order. A run visits a pattern and then its parts: those of a sequence
until one fails, the contents of an optional group, and the alternatives of a variant until one
stops with a fault. What a visit finds is kept unless it is made on a branch that is given up. A
run scores nothing exactly if nothing that matched was kept.
-/

namespace CallGrammar

variable {σ : Type}

------------------------------------------------------------
-- Visits

/-- Nothing in a pattern is optional, and there is nothing to choose. -/
def Pattern.IsGroupFree (p : Pattern) : Prop :=
  ∀ q ∈ p.traverse, q.kind ≠ .optional ∧ q.kind ≠ .variant

theorem Pattern.IsGroupFree.of_child {p child : Pattern} (h : p.IsGroupFree)
    (member : child ∈ p.children)
    : child.IsGroupFree :=
  fun q hq => h q (mem_traverse_of_child member hq)

/-- A visit to a pattern with the tokens and the tally it starts from, and whether what it finds
is kept.
-/
structure Visit (σ : Type) where
  pattern : Pattern
  tokens : List Token
  tally : Tally σ
  kept : Bool

/-- A visit on a branch, which is kept only if the branch is. -/
def Visit.onBranch (joined : Bool) (visit : Visit σ) : Visit σ :=
  { visit with kept := joined && visit.kept }

namespace Matcher

/-- No pattern may be entered: the call was taken to its end, or the limit of the depth is
reached.
-/
def refuses (m : Matcher) (tally : Tally σ) : Bool :=
  tally.terminated || m.maxDepth ≤ tally.depth

theorem refuses_eq_false_iff {m : Matcher} {tally : Tally σ}
    : m.refuses tally = false ↔ tally.terminated = false ∧ tally.depth < m.maxDepth := by
  simp [refuses]

variable [Scale σ]

/-- The place of the alternative that a variant chooses. -/
def choice? (m : Matcher) (alternatives : List Pattern) (tokens : List Token) (branch : Tally σ)
    : Option Nat :=
  match m.runEach alternatives tokens branch with
  | .ok results => (earliestBest (fun result => result.2.score) none 0 results).map Prod.fst
  | .error _ => none

mutual

/-- The visits of a run over a pattern. -/
def visits (m : Matcher) (p : Pattern) (tokens : List Token) (tally : Tally σ)
    : List (Visit σ) :=
  ⟨p, tokens, tally, true⟩
    :: if m.refuses tally then []
      else
        match p with
        | .literal .. | .parameter .. | .tail .. => []
        | .optional _ inner =>
            (m.visits inner tokens tally.enter.branch).map
              (.onBranch (m.run inner tokens tally.enter.branch).1.isOk)
        | .variant _ _ alternatives =>
            m.visitsEach alternatives tokens tally.enter.branch 0
              (m.choice? alternatives tokens tally.enter.branch)
        | .sequence children => m.visitsAll children tokens tally.enter

/-- The visits of a run over patterns one after the other. -/
def visitsAll (m : Matcher) (ps : List Pattern) (tokens : List Token) (tally : Tally σ)
    : List (Visit σ) :=
  match ps with
  | [] => []
  | p :: rest =>
      m.visits p tokens tally
        ++ match m.run p tokens tally with
          | (.ok left, after) => m.visitsAll rest left after
          | (.error _, _) => []

/-- The visits of a run over alternatives from a place on, of which the one at the place of the
choice is joined.
-/
def visitsEach (m : Matcher) (ps : List Pattern) (tokens : List Token) (branch : Tally σ)
    (place : Nat) (choice : Option Nat) : List (Visit σ) :=
  match ps with
  | [] => []
  | p :: rest =>
      (m.visits p tokens branch).map (.onBranch (choice == some place))
        ++ match m.run p tokens branch with
          | (.error (.fault _), _) => []
          | _ => m.visitsEach rest tokens branch (place + 1) choice

end

/-- The visits to the parts of a pattern. -/
def visitsInside (m : Matcher) (p : Pattern) (tokens : List Token) (tally : Tally σ)
    : List (Visit σ) :=
  match p with
  | .literal .. | .parameter .. | .tail .. => []
  | .optional _ inner =>
      (m.visits inner tokens tally.branch).map (.onBranch (m.run inner tokens tally.branch).1.isOk)
  | .variant _ _ alternatives =>
      m.visitsEach alternatives tokens tally.branch 0 (m.choice? alternatives tokens tally.branch)
  | .sequence children => m.visitsAll children tokens tally

theorem visits_eq (m : Matcher) (p : Pattern) (tokens : List Token) (tally : Tally σ)
    : m.visits p tokens tally
      = ⟨p, tokens, tally, true⟩
        :: if m.refuses tally then [] else m.visitsInside p tokens tally.enter := by
  cases p <;> rw [visits] <;> rfl

theorem run_of_refuses {m : Matcher} {tally : Tally σ} (h : m.refuses tally = true) (p : Pattern)
    (tokens : List Token)
    : ∃ fault, m.run p tokens tally = (.fault fault, tally) := by
  rw [run_eq_visit]
  cases ht : tally.terminated with
  | true => exact ⟨_, visit_of_terminated ht m _ _⟩
  | false =>
      have deep : m.maxDepth ≤ tally.depth := by simpa [refuses, ht] using h
      exact ⟨_, visit_of_deep ht deep _ _⟩

theorem not_refuses_of_run {m : Matcher} {p : Pattern} {tokens : List Token} {tally : Tally σ}
    (h : ∀ fault, (m.run p tokens tally).1 ≠ .fault fault)
    : m.refuses tally = false := by
  cases hr : m.refuses tally with
  | false => rfl
  | true =>
      obtain ⟨fault, hrun⟩ := run_of_refuses hr p tokens
      exact absurd (congrArg Prod.fst hrun) (h fault)

theorem run_of_not_refuses {m : Matcher} {tally : Tally σ} (h : m.refuses tally = false)
    (p : Pattern) (tokens : List Token)
    : m.run p tokens tally
      = ((m.inside p tokens tally.enter).1, (m.inside p tokens tally.enter).2.leave) := by
  obtain ⟨going, shallow⟩ := refuses_eq_false_iff.mp h
  rw [run_eq_visit, visit_of_open going shallow]

/-- A visit matched: it is to a leaf, which succeeded. -/
def isMatch (m : Matcher) (visit : Visit σ) : Bool :=
  visit.pattern.isLeaf && (m.run visit.pattern visit.tokens visit.tally).1.isOk

------------------------------------------------------------
-- What is kept

/-- The visits that matched and are kept. -/
def keptMatches (m : Matcher) (visits : List (Visit σ)) : List (Visit σ) :=
  visits.filter fun visit => visit.kept && m.isMatch visit

@[simp]
theorem keptMatches_nil (m : Matcher) : m.keptMatches ([] : List (Visit σ)) = [] :=
  rfl

@[simp]
theorem keptMatches_append (m : Matcher) (first second : List (Visit σ))
    : m.keptMatches (first ++ second) = m.keptMatches first ++ m.keptMatches second :=
  List.filter_append first second

/-- On a branch that is joined the same is kept. -/
@[simp]
theorem keptMatches_joined (m : Matcher) (visits : List (Visit σ))
    : m.keptMatches (visits.map (.onBranch true)) = m.keptMatches visits := by
  have hsame : visits.map (.onBranch true) = visits := List.map_id' visits
  rw [hsame]

/-- On a branch that is given up nothing is kept. -/
@[simp]
theorem keptMatches_dropped (m : Matcher) (visits : List (Visit σ))
    : m.keptMatches (visits.map (.onBranch false)) = [] := by
  refine List.filter_eq_nil_iff.mpr fun visit member => ?_
  obtain ⟨inner, _, rfl⟩ := List.mem_map.mp member
  simp [Visit.onBranch]

/-- Alternatives none of which is chosen keep nothing, by list induction. -/
theorem keptMatches_visitsEach_of_lt {m : Matcher} {alternatives : List Pattern}
    {tokens : List Token} {branch : Tally σ} {place : Nat} {choice : Option Nat}
    (h : ∀ index ∈ choice, index < place)
    : m.keptMatches (m.visitsEach alternatives tokens branch place choice) = [] := by
  induction alternatives generalizing place with
  | nil => rfl
  | cons p rest ih =>
      have hunchosen : (choice == some place) = false := by
        cases choice with
        | none => rfl
        | some index => simpa using Nat.ne_of_lt (h index rfl)
      rw [visitsEach, keptMatches_append, hunchosen, keptMatches_dropped, List.nil_append]
      split
      · rfl
      · exact ih fun index member => Nat.lt_succ_of_lt (h index member)

/-- Alternatives without a fault are all visited. -/
theorem visitsEach_cons_of_ok {m : Matcher} {p : Pattern} {rest : List Pattern}
    {tokens : List Token} {branch : Tally σ}
    {results : List (Except (Mismatch σ) (List Token × Tally σ))}
    (h : m.runEach (p :: rest) tokens branch = .ok results) (place : Nat) (choice : Option Nat)
    : m.visitsEach (p :: rest) tokens branch place choice
        = (m.visits p tokens branch).map (.onBranch (choice == some place))
          ++ m.visitsEach rest tokens branch (place + 1) choice
      ∧ ∃ others, m.runEach rest tokens branch = .ok others := by
  have hothers {result : Except (Mismatch σ) (List Token × Tally σ)}
      (h : (m.runEach rest tokens branch).map (result :: ·) = .ok results)
      : ∃ others, m.runEach rest tokens branch = .ok others := by
    cases hr : m.runEach rest tokens branch with
    | error fault => rw [hr] at h; cases h
    | ok others => exact ⟨others, rfl⟩
  rw [runEach] at h
  rw [visitsEach]
  generalize m.run p tokens branch = result at h
  obtain ⟨(reason | fault) | left, after⟩ := result
  · exact ⟨rfl, hothers h⟩
  · cases h
  · exact ⟨rfl, hothers h⟩

/-- Of alternatives without a fault the chosen one is kept, by list induction. -/
theorem keptMatches_visitsEach {m : Matcher} {alternatives : List Pattern} {tokens : List Token}
    {branch : Tally σ} {results : List (Except (Mismatch σ) (List Token × Tally σ))}
    (h : m.runEach alternatives tokens branch = .ok results) {index : Nat} {p : Pattern}
    (chosen : alternatives[index]? = some p) (place : Nat)
    : m.keptMatches (m.visitsEach alternatives tokens branch place (some (place + index)))
      = m.keptMatches (m.visits p tokens branch) := by
  induction alternatives generalizing results index place with
  | nil => cases chosen
  | cons first rest ih =>
      obtain ⟨hvisits, others, hothers⟩ :=
        visitsEach_cons_of_ok h place (some (place + index))
      rw [hvisits, keptMatches_append]
      cases index with
      | zero =>
          cases chosen
          have hlater : m.keptMatches (m.visitsEach rest tokens branch (place + 1) (some place))
              = [] := by
            refine keptMatches_visitsEach_of_lt fun index member => ?_
            cases member
            exact Nat.lt_succ_self place
          simp [hlater]
      | succ index =>
          have hunchosen : (some (place + (index + 1)) == some place) = false := by simp
          have hrest := ih hothers chosen (place + 1)
          rw [Nat.add_right_comm] at hrest
          rw [hunchosen, keptMatches_dropped, List.nil_append]
          exact hrest

/-- Nothing that matched was kept. -/
def IsQuiet (m : Matcher) (visits : List (Visit σ)) : Prop :=
  ∀ visit ∈ visits, m.isMatch visit = true → visit.kept = false

theorem isQuiet_iff {m : Matcher} {visits : List (Visit σ)}
    : m.IsQuiet visits ↔ m.keptMatches visits = [] := by
  simp only [IsQuiet, keptMatches, List.filter_eq_nil_iff]
  refine forall₂_congr fun visit _ => ?_
  cases visit.kept <;> simp

namespace IsQuiet

variable {m : Matcher}

theorem nil : m.IsQuiet ([] : List (Visit σ)) :=
  nofun

theorem append_iff {first second : List (Visit σ)}
    : m.IsQuiet (first ++ second) ↔ m.IsQuiet first ∧ m.IsQuiet second :=
  List.forall_mem_append

theorem cons_iff {visit : Visit σ} (kept : visit.kept = true) {rest : List (Visit σ)}
    : m.IsQuiet (visit :: rest) ↔ m.isMatch visit = false ∧ m.IsQuiet rest := by
  simp [IsQuiet, kept]

theorem map_joined_iff {visits : List (Visit σ)}
    : m.IsQuiet (visits.map (.onBranch true)) ↔ m.IsQuiet visits := by
  rw [isQuiet_iff, isQuiet_iff, keptMatches_joined]

theorem map_dropped (visits : List (Visit σ)) : m.IsQuiet (visits.map (.onBranch false)) :=
  isQuiet_iff.mpr (keptMatches_dropped m visits)

end IsQuiet

theorem isQuiet_visitsEach_none {m : Matcher} {alternatives : List Pattern} {tokens : List Token}
    {branch : Tally σ} {place : Nat}
    : m.IsQuiet (m.visitsEach alternatives tokens branch place none) :=
  isQuiet_iff.mpr (keptMatches_visitsEach_of_lt (by simp))

theorem isQuiet_visitsEach_iff {m : Matcher} {alternatives : List Pattern} {tokens : List Token}
    {branch : Tally σ} {results : List (Except (Mismatch σ) (List Token × Tally σ))}
    (h : m.runEach alternatives tokens branch = .ok results) {index : Nat} {p : Pattern}
    (chosen : alternatives[index]? = some p) (place : Nat)
    : m.IsQuiet (m.visitsEach alternatives tokens branch place (some (place + index)))
      ↔ m.IsQuiet (m.visits p tokens branch) := by
  rw [isQuiet_iff, isQuiet_iff, keptMatches_visitsEach h chosen place]

------------------------------------------------------------
-- Patterns without groups

/-- One after the other, patterns keep every visit if each does, by list induction. -/
theorem kept_visitsAll {m : Matcher} {ps : List Pattern}
    (h : ∀ p ∈ ps, ∀ tokens (tally : Tally σ), ∀ visit ∈ m.visits p tokens tally,
      visit.kept = true)
    (tokens : List Token) (tally : Tally σ)
    : ∀ visit ∈ m.visitsAll ps tokens tally, visit.kept = true := by
  induction ps generalizing tokens tally with
  | nil => exact nofun
  | cons p rest ih =>
      intro visit member
      rw [visitsAll] at member
      rcases List.mem_append.mp member with member | member
      · exact h p List.mem_cons_self tokens tally visit member
      · generalize m.run p tokens tally = result at member
        obtain ⟨failure | left, after⟩ := result
        · cases member
        · exact ih (fun q hq => h q (List.mem_cons_of_mem p hq)) left after visit member

/-- Without groups there are no branches, so every visit is kept, by induction on the pattern. -/
theorem kept_of_isGroupFree {m : Matcher} {p : Pattern} (h : p.IsGroupFree) (tokens : List Token)
    (tally : Tally σ)
    : ∀ visit ∈ m.visits p tokens tally, visit.kept = true := by
  have parts {p : Pattern} {tokens : List Token} {tally : Tally σ}
      (hinside : ∀ visit ∈ m.visitsInside p tokens tally.enter, visit.kept = true)
      : ∀ visit ∈ m.visits p tokens tally, visit.kept = true := by
    intro visit member
    rw [visits_eq] at member
    rcases List.mem_cons.mp member with rfl | member
    · rfl
    · split at member
      · cases member
      · exact hinside visit member
  induction p generalizing tokens tally with
  | literal text caseSensitive => exact parts nofun
  | parameter name typeName => exact parts nofun
  | tail name => exact parts nofun
  | optional identifier inner => exact absurd rfl (h _ (Pattern.mem_traverse_self _)).1
  | variant identifier parenthesized alternatives =>
      exact absurd rfl (h _ (Pattern.mem_traverse_self _)).2
  | sequence children ih =>
      refine parts (kept_visitsAll (fun child member tokens tally => ?_) tokens tally.enter)
      exact ih child member (h.of_child member) tokens tally

------------------------------------------------------------
-- Scores

/-- A run over the pattern adds to the score exactly if it keeps something that matched. -/
def CountsKept (scale : Type) [Scale scale] (m : Matcher) (p : Pattern) : Prop :=
  ∀ (tokens : List Token) (tally : Tally scale), IsScore tally.score
    → ((m.run p tokens tally).2.score = 0
      ↔ tally.score = 0 ∧ m.IsQuiet (m.visits p tokens tally))

/-- A leaf does so if it scores as it matches. -/
theorem countsKept_of_leaf {m : Matcher} {p : Pattern} (leaf : p.isLeaf = true)
    (h : ∀ tokens (tally : Tally σ), IsScore tally.score
      → ((m.inside p tokens tally).2.score = 0
        ↔ tally.score = 0 ∧ (m.inside p tokens tally).1.isOk = false))
    : CountsKept σ m p := by
  intro tokens tally score
  have hinside : m.visitsInside p tokens tally.enter = [] := by
    cases p with
    | literal | parameter | tail => rfl
    | optional | variant | sequence => cases leaf
  rw [visits_eq, IsQuiet.cons_iff rfl, isMatch, leaf, Bool.true_and]
  cases hr : m.refuses tally with
  | true =>
      obtain ⟨fault, hrun⟩ := run_of_refuses hr p tokens
      simp [hrun, IsQuiet.nil, Verdict.fault, Except.isOk, Except.toBool]
  | false =>
      have hi : (m.inside p tokens tally.enter).2.leave.score = 0
          ↔ tally.score = 0 ∧ (m.inside p tokens tally.enter).1.isOk = false :=
        h tokens tally.enter score
      simpa [run_of_not_refuses hr, hinside, IsQuiet.nil] using hi

/-- A pattern of parts does so if what happens inside does. -/
theorem countsKept_of_parts {m : Matcher} {p : Pattern} (parts : p.isLeaf = false)
    (h : ∀ tokens (tally : Tally σ), IsScore tally.score
      → ((m.inside p tokens tally).2.score = 0
        ↔ tally.score = 0 ∧ m.IsQuiet (m.visitsInside p tokens tally)))
    : CountsKept σ m p := by
  intro tokens tally score
  rw [visits_eq, IsQuiet.cons_iff rfl, isMatch, parts, Bool.false_and]
  cases hr : m.refuses tally with
  | true =>
      obtain ⟨fault, hrun⟩ := run_of_refuses hr p tokens
      simp [hrun, IsQuiet.nil]
  | false =>
      have hi : (m.inside p tokens tally.enter).2.leave.score = 0
          ↔ tally.score = 0 ∧ m.IsQuiet (m.visitsInside p tokens tally.enter) :=
        h tokens tally.enter score
      simpa [run_of_not_refuses hr] using hi

/-- Patterns one after the other do so if each does, by list induction. -/
theorem score_runAll_eq_zero_iff {m : Matcher} {ps : List Pattern}
    (h : ∀ p ∈ ps, CountsKept σ m p) (tokens : List Token) (tally : Tally σ)
    (score : IsScore tally.score)
    : (m.runAll ps tokens tally).2.score = 0
      ↔ tally.score = 0 ∧ m.IsQuiet (m.visitsAll ps tokens tally) := by
  induction ps generalizing tokens tally with
  | nil => exact iff_self_and.mpr fun _ => .nil
  | cons p rest ih =>
      have hp := h p List.mem_cons_self tokens tally score
      have hscore := m.isScore_run p tokens tally score
      rw [runAll, visitsAll, IsQuiet.append_iff, ← and_assoc, ← hp]
      generalize m.run p tokens tally = result at hscore
      obtain ⟨failure | left, after⟩ := result
      · exact iff_self_and.mpr fun _ => .nil
      · exact ih (fun q hq => h q (List.mem_cons_of_mem p hq)) left after hscore

section Positive

variable [PositiveScale σ]

theorem score_award_ne_zero {a b : σ} (ha : IsScore a) (hb : IsScore b) (counts : b ≠ 0)
    : a + b ≠ 0 :=
  fun h => counts ((PositiveScale.add_eq_zero_iff ha hb).mp h).2

theorem countsKept_literal (m : Matcher) (text : String) (caseSensitive : Bool)
    : CountsKept σ m (.literal text caseSensitive) := by
  refine countsKept_of_leaf rfl fun tokens tally score => ?_
  have hcounts := score_award_ne_zero score .literal PositiveScale.literal_ne_zero
  simp only [inside, runLiteral]
  split
  · simp [Verdict.mismatch, Except.isOk, Except.toBool]
  · split
    · simpa [Tally.award, Except.isOk, Except.toBool] using hcounts
    · simp [Verdict.mismatch, Except.isOk, Except.toBool]

theorem countsKept_parameter (m : Matcher) (name : String) (typeName : Option String)
    : CountsKept σ m (.parameter name typeName) := by
  refine countsKept_of_leaf rfl fun tokens tally score => ?_
  have hcounts := score_award_ne_zero score .parameter PositiveScale.parameter_ne_zero
  simp only [inside, runParameter]
  repeat' split
  all_goals
    simp [Verdict.mismatch, Verdict.fault, Tally.award, Tally.bind, Except.isOk, Except.toBool,
      hcounts]

theorem countsKept_tail (m : Matcher) (name : String) : CountsKept σ m (.tail name) := by
  refine countsKept_of_leaf rfl fun tokens tally score => ?_
  have hcounts := score_award_ne_zero score .tail PositiveScale.tail_ne_zero
  simp only [inside, runTail]
  repeat' split
  all_goals
    simp [Verdict.mismatch, Tally.award, Tally.bind, Except.isOk, Except.toBool, hcounts]

/-- Joining a branch adds its score, so the sum is zero only if both are. -/
theorem score_join_eq_zero_iff {tally branch : Tally σ} (score : IsScore tally.score)
    (score' : IsScore branch.score)
    : (tally.join branch).score = 0 ↔ tally.score = 0 ∧ branch.score = 0 :=
  PositiveScale.add_eq_zero_iff score score'

/-- The contents of an optional group are kept if they match. -/
theorem countsKept_optional {m : Matcher} {inner : Pattern} (h : CountsKept σ m inner)
    (identifier : Option String)
    : CountsKept σ m (.optional identifier inner) := by
  refine countsKept_of_parts rfl fun tokens tally score => ?_
  have hinner := h tokens tally.branch .zero
  have hscore := m.isScore_run inner tokens tally.branch .zero
  have hrecord (present : Bool)
      : (tally.recordOptional identifier present).score = tally.score := by
    cases identifier <;> rfl
  rw [inside, visitsInside]
  generalize m.run inner tokens tally.branch = result at hinner hscore
  obtain ⟨(reason | fault) | rest, branch⟩ := result
  · have hquiet := IsQuiet.map_dropped (m := m) (m.visits inner tokens tally.branch)
    have hzero : (tally.recordOptional identifier false).score = 0 ↔ tally.score = 0 := by
      rw [hrecord]
    exact hzero.trans (iff_self_and.mpr fun _ => hquiet)
  · have hquiet := IsQuiet.map_dropped (m := m) (m.visits inner tokens tally.branch)
    exact iff_self_and.mpr fun _ => hquiet
  · have hjoin := score_join_eq_zero_iff ((hrecord true).symm ▸ score) hscore
    rw [hrecord] at hjoin
    refine hjoin.trans (and_congr_right fun _ => ?_)
    rw [Except.isOk, Except.toBool, IsQuiet.map_joined_iff]
    exact hinner.trans (and_iff_right rfl)

theorem countsKept_variant {m : Matcher} {alternatives : List Pattern}
    (h : ∀ p ∈ alternatives, CountsKept σ m p) (identifier : Option String)
    (parenthesized : Bool)
    : CountsKept σ m (.variant identifier parenthesized alternatives) := by
  refine countsKept_of_parts rfl fun tokens tally score => ?_
  rw [inside, visitsInside, choice?]
  cases hr : m.runEach alternatives tokens tally.branch with
  | error fault => exact iff_self_and.mpr fun _ => isQuiet_visitsEach_none
  | ok results =>
      rw [settleVariant]
      dsimp only
      cases hb : earliestBest (fun result => result.2.score) none 0 results with
      | none => exact iff_self_and.mpr fun _ => isQuiet_visitsEach_none
      | some best =>
          obtain ⟨index, rest, branch⟩ := best
          obtain ⟨p, hp, hrun⟩ := exists_run_of_chosen hr hb
          have hbranch : branch.score = 0 ↔ m.IsQuiet (m.visits p tokens tally.branch) := by
            have hcounts := h p (List.mem_of_getElem? hp) tokens tally.branch .zero
            rw [hrun] at hcounts
            exact hcounts.trans (and_iff_right rfl)
          have hscore : IsScore branch.score := by
            have hs := m.isScore_run p tokens tally.branch .zero
            rwa [hrun] at hs
          have hrecord : (tally.recordVariant identifier index).score = tally.score := by
            cases identifier <;> rfl
          have hquiet := isQuiet_visitsEach_iff hr hp 0
          rw [Nat.zero_add] at hquiet
          have hjoin := score_join_eq_zero_iff (hrecord.symm ▸ score) hscore
          rw [hrecord, hbranch, ← hquiet] at hjoin
          exact hjoin

/-- A run scores nothing exactly if nothing that matched was kept, by induction on the pattern. -/
theorem countsKept (m : Matcher) (p : Pattern) : CountsKept σ m p := by
  induction p with
  | literal text caseSensitive => exact countsKept_literal m text caseSensitive
  | parameter name typeName => exact countsKept_parameter m name typeName
  | tail name => exact countsKept_tail m name
  | optional identifier inner ih => exact countsKept_optional ih identifier
  | variant identifier parenthesized alternatives ih =>
      exact countsKept_variant ih identifier parenthesized
  | sequence children ih =>
      exact countsKept_of_parts rfl (score_runAll_eq_zero_iff ih)

end Positive

end Matcher

end CallGrammar

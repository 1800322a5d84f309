import CallGrammar.Proofs.Matching.Endings
import CallGrammar.Proofs.Matching.Soundness
import CallGrammar.Proofs.Matching.Trace

/-! What a run that succeeds adds to the tally, and how many tokens it takes. Nothing that was noted
is lost, and the words and arguments that matched and are kept take one token each, so that the
score grows by one or by a half for every token up to a tail.
-/

namespace CallGrammar

variable {σ : Type}

------------------------------------------------------------
-- Names stay bound

namespace NameMap

variable {α : Type}

/-- A name that is bound stays bound when others are, by list induction. -/
theorem contains_insertAll {map : NameMap α} {name : String} (h : map.contains name = true)
    (entries : List (String × α))
    : (map.insertAll entries).contains name = true := by
  induction entries generalizing map with
  | nil => exact h
  | cons entry rest ih =>
      have hnext : (map.insert entry.1 entry.2).contains name = true := by
        rw [contains, get?_insert]
        split
        · rfl
        · exact h
      exact ih hnext

end NameMap

------------------------------------------------------------
-- Leaves that take tokens

variable [Scale σ]

/-- Leaves other than tails take a token each, by induction on them. -/
theorem TakeInTurn.length_eq {m : Matcher} {raw : String} {leaves : List Leaf}
    {taken : List Token} (h : TakeInTurn m raw leaves taken)
    (single : leaves.any Leaf.isTail = false)
    : taken.length = leaves.length := by
  induction h with
  | done => rfl
  | next leaf _ _ _ ih =>
      rw [List.any_cons, leaf, Bool.false_or] at single
      rw [List.length_cons, List.length_cons, ih single]
  | tail whole _ => simp [whole] at single

theorem isScore_total (leaves : List Leaf) : IsScore (total leaves : σ) := by
  induction leaves with
  | nil => exact .zero
  | cons leaf rest ih =>
      rw [total]
      refine .add ?_ ih
      cases leaf with
      | literal => exact .literal
      | parameter => exact .parameter
      | tail => exact .tail

/-- Leaves other than tails count a half at least and one at most, by list induction. -/
theorem total_bounds {leaves : List Leaf} (single : leaves.any Leaf.isTail = false)
    : (leaves.length : Rat) / 2 ≤ total leaves ∧ total leaves ≤ (leaves.length : Rat) := by
  induction leaves with
  | nil => exact ⟨by decide +kernel, by decide +kernel⟩
  | cons leaf rest ih =>
      rw [List.any_cons, Bool.or_eq_false_iff] at single
      obtain ⟨hleast, hmost⟩ := ih single.2
      have hweight : (1 : Rat) / 2 ≤ leaf.weight ∧ leaf.weight ≤ (1 : Rat) := by
        cases leaf with
        | literal =>
            rw [Leaf.weight]
            decide +kernel
        | parameter =>
            rw [Leaf.weight]
            decide +kernel
        | tail => cases single.1
      rw [total, List.length_cons, Nat.cast_succ, add_comm (rest.length : Rat)]
      constructor
      · rw [add_div]
        exact add_le_add hweight.1 hleast
      · exact add_le_add hweight.2 hmost

/-- The leaves of some patterns took the tokens of a stretch of a run, as decisions account for. -/
def Takes (m : Matcher) (tally : Tally σ) (tokens : List Token) (leaves : List Pattern)
    (rest : List Token) (after : Tally σ) : Prop :=
  ∃ decisions,
    Progress m tally tokens decisions rest after
    ∧ (decisions.filterMap Decision.leaf?).map Leaf.pattern = leaves

namespace Takes

variable {m : Matcher} {tally middle after branch : Tally σ} {tokens left rest : List Token}
    {leaves others : List Pattern}

theorem nil (going : tally.terminated = false) : Takes m tally tokens [] tokens tally :=
  ⟨[], .nil m going tokens, rfl⟩

theorem leave (h : Takes m tally.enter tokens leaves rest after)
    : Takes m tally tokens leaves rest after.leave := by
  obtain ⟨decisions, progress, hleaves⟩ := h
  exact ⟨decisions, progress.leave, hleaves⟩

theorem leaf {p : Pattern} {taken : Leaf} (h : TookLeaf m tally p tokens taken rest after)
    (going : tally.terminated = false)
    : Takes m tally tokens [p] rest after :=
  ⟨[.leaf taken], h.progress going, congrArg (fun q => [q]) h.pattern_eq⟩

/-- A group without what it holds takes nothing. -/
theorem group {decision : Decision} (notes : tally.Notes [decision] after)
    (hgroup : decision.leaf? = none) (going : tally.terminated = false)
    : Takes m tally tokens [] tokens after :=
  ⟨[decision], .group notes hgroup going tokens, by simp [hgroup]⟩

/-- A group takes what its branch took. -/
theorem grouped {decision : Decision} (notes : tally.Notes [decision] after)
    (hgroup : decision.leaf? = none) (going : tally.terminated = false)
    (h : Takes m tally.branch tokens leaves rest branch)
    : Takes m tally tokens leaves rest (after.join branch) := by
  obtain ⟨decisions, progress, rfl⟩ := h
  exact ⟨decision :: decisions, .grouped notes hgroup going progress, by simp [hgroup]⟩

theorem append (first : Takes m tally tokens leaves left middle)
    (going : middle.terminated = false) (second : Takes m middle left others rest after)
    : Takes m tally tokens (leaves ++ others) rest after := by
  obtain ⟨decisions, hfirst, rfl⟩ := first
  obtain ⟨more, hsecond, rfl⟩ := second
  exact ⟨decisions ++ more, hfirst.append going hsecond, by simp⟩

/-- Where no tail ended the call, all leaves are words and arguments. -/
theorem exists_single (h : Takes m tally tokens leaves rest after)
    (going : after.terminated = false)
    : ∃ decisions,
        Progress m tally tokens decisions rest after
        ∧ (decisions.filterMap Decision.leaf?).any Leaf.isTail = false
        ∧ leaves.countP (·.kind != .tail) = (decisions.filterMap Decision.leaf?).length := by
  obtain ⟨decisions, progress, rfl⟩ := h
  have hended := progress.notes.terminated_eq
  rw [going, eq_comm, Bool.or_eq_false_iff] at hended
  refine ⟨decisions, progress, hended.2, ?_⟩
  rw [List.countP_map, List.countP_eq_length]
  intro leaf member
  have hleaf := List.any_eq_false.mp hended.2 leaf member
  cases leaf with
  | literal | parameter => rfl
  | tail => exact absurd rfl hleaf

end Takes

------------------------------------------------------------
-- What matched and is kept takes the tokens

namespace Matcher

/-- The leaves that a run matches and keeps, from left to right. -/
def keptLeaves (m : Matcher) (p : Pattern) (tokens : List Token) (tally : Tally σ)
    : List Pattern :=
  (m.keptMatches (m.visits p tokens tally)).map Visit.pattern

/-- What a run over a pattern matches and keeps took its tokens. -/
def TakesKept (scale : Type) [Scale scale] (m : Matcher) (p : Pattern) : Prop :=
  ∀ {tokens rest : List Token} {tally after : Tally scale},
    m.run p tokens tally = (.ok rest, after)
    → Takes m tally tokens (m.keptLeaves p tokens tally) rest after

/-- A run that succeeds keeps its pattern, if that is a leaf, and what its parts keep. -/
theorem keptLeaves_of_ok {m : Matcher} {p : Pattern} {tokens rest : List Token}
    {tally after : Tally σ} (h : m.run p tokens tally = (.ok rest, after))
    : m.keptLeaves p tokens tally
      = (if p.isLeaf then [p] else [])
        ++ (m.keptMatches (m.visitsInside p tokens tally.enter)).map Visit.pattern := by
  have entered : m.refuses tally = false := by
    apply not_refuses_of_run
    rw [h]
    exact nofun
  have hmatch : m.isMatch ⟨p, tokens, tally, true⟩ = p.isLeaf := by
    simp [isMatch, h, Except.isOk, Except.toBool]
  rw [keptLeaves, visits_eq, entered, keptMatches, List.filter_cons, Bool.true_and, hmatch]
  cases p.isLeaf <;> rfl

theorem takesKept_of_inside {m : Matcher} {p : Pattern}
    (h : ∀ {tokens rest} {tally after : Tally σ}, tally.terminated = false
      → m.inside p tokens tally = (.ok rest, after)
      → Takes m tally tokens
          ((if p.isLeaf then [p] else [])
            ++ (m.keptMatches (m.visitsInside p tokens tally)).map Visit.pattern)
          rest after)
    : TakesKept σ m p := by
  intro tokens rest tally after hr
  rw [keptLeaves_of_ok hr]
  rw [run_eq_visit] at hr
  obtain ⟨going, last, hi, rfl⟩ := visit_eq_ok hr
  have entered : tally.enter.terminated = false := going
  exact (h entered hi).leave

/-- One after the other, patterns take what each of them does, by list induction. -/
theorem takes_of_runAll {m : Matcher} {ps : List Pattern} (h : ∀ p ∈ ps, TakesKept σ m p)
    {tokens rest : List Token} {tally after : Tally σ} (going : tally.terminated = false)
    (run : m.runAll ps tokens tally = (.ok rest, after))
    : Takes m tally tokens ((m.keptMatches (m.visitsAll ps tokens tally)).map Visit.pattern)
        rest after := by
  induction ps generalizing tokens tally with
  | nil =>
      cases run
      exact .nil going
  | cons p ps ih =>
      rw [runAll] at run
      split at run
      · rename_i left middle hp
        have first := h p List.mem_cons_self hp
        rw [visitsAll, hp, keptMatches_append, List.map_append]
        cases hm : middle.terminated with
        | false =>
            exact first.append hm (ih (fun q hq => h q (List.mem_cons_of_mem p hq)) hm run)
        | true =>
            -- Behind a tail there is no room for another pattern.
            cases ps with
            | nil =>
                cases run
                simpa [visitsAll, keptLeaves] using first
            | cons q qs =>
                obtain ⟨kind, hk⟩ := runAll_of_terminated hm (List.cons_ne_nil q qs) m left
                rw [hk] at run
                cases run
      · cases run

/-- What matched and is kept takes the tokens of a run, by induction on the pattern. -/
theorem takesKept (m : Matcher) (p : Pattern) : TakesKept σ m p := by
  induction p with
  | literal text caseSensitive =>
      apply takesKept_of_inside
      intro tokens rest tally after going hi
      obtain ⟨leaf, took⟩ := tookLeaf_runLiteral hi
      exact .leaf took going
  | parameter name typeName =>
      apply takesKept_of_inside
      intro tokens rest tally after going hi
      obtain ⟨leaf, took⟩ := tookLeaf_runParameter hi
      exact .leaf took going
  | tail name =>
      apply takesKept_of_inside
      intro tokens rest tally after going hi
      obtain ⟨leaf, took⟩ := tookLeaf_runTail (m := m) hi
      exact .leaf took going
  | optional identifier inner ih =>
      apply takesKept_of_inside
      intro tokens rest tally after going hi
      rw [visitsInside]
      rcases settleOptional_eq_ok hi with ⟨branch, hb, rfl⟩ | ⟨reason, branch, hb, rfl, rfl⟩
      · rw [hb]
        simp only [Except.isOk, Except.toBool, keptMatches_joined]
        exact .grouped (.recordOptional tally identifier true) rfl going (ih hb)
      · have hdropped : (m.run inner rest tally.branch).1.isOk = false := by
          rw [hb]
          rfl
        rw [hdropped, keptMatches_dropped]
        exact .group ((Tally.Notes.recordOptional tally identifier false).hinted _) rfl going
  | variant identifier parenthesized alternatives ih =>
      apply takesKept_of_inside
      intro tokens rest tally after going hi
      obtain ⟨results, index, branch, he, hb, rfl⟩ := settleVariant_eq_ok hi
      obtain ⟨alternative, ha, hrun⟩ := exists_run_of_chosen he hb
      have hchoice : m.choice? alternatives tokens tally.branch = some index := by
        simp [choice?, he, hb]
      have hkept := keptMatches_visitsEach he ha 0
      rw [Nat.zero_add] at hkept
      rw [visitsInside, hchoice, hkept]
      exact .grouped (.recordVariant tally identifier index) rfl going
        (ih alternative (List.mem_of_getElem? ha) hrun)
  | sequence children ih =>
      apply takesKept_of_inside
      intro tokens rest tally after going hi
      exact takes_of_runAll ih going hi

------------------------------------------------------------
-- Runs that succeed

/-- How many words and arguments a run matches and keeps. -/
def matchedCount (m : Matcher) (p : Pattern) (tokens : List Token) (tally : Tally σ) : Nat :=
  (m.keptLeaves p tokens tally).countP (·.kind != .tail)

/-- What a run that succeeds did: it took tokens from the front, kept what was noted, and came to
the end of the call only by a tail that took all tokens; up to there it took one token for every
word and argument.
-/
structure Grown (m : Matcher) (p : Pattern) (tokens : List Token) (tally : Tally σ)
    (rest : List Token) (after : Tally σ) : Prop where
  suffix : rest <:+ tokens
  optionals : tally.optionals <+: after.optionals
  variants : tally.variants <+: after.variants
  bound : ∀ name, tally.bindings.contains name = true → after.bindings.contains name = true
  ended : after.terminated = true → rest = [] ∧ p.HasTail
  counted
    : after.terminated = false → tokens.length = rest.length + m.matchedCount p tokens tally

theorem grown_of_run {m : Matcher} {p : Pattern} {tokens rest : List Token}
    {tally after : Tally σ} (h : m.run p tokens tally = (.ok rest, after))
    : m.Grown p tokens tally rest after := by
  obtain ⟨decisions, progress, -⟩ := m.takesKept p h
  obtain ⟨taken, htokens, -⟩ := progress.takes
  refine ⟨⟨taken, htokens.symm⟩, ?_, ?_, ?_, ?_, ?_⟩
  · rw [progress.notes.optionals_eq]
    exact List.prefix_append _ _
  · rw [progress.notes.variants_eq]
    exact List.prefix_append _ _
  · intro name hname
    rw [progress.notes.bindings_eq]
    exact NameMap.contains_insertAll hname _
  · intro ended
    exact ⟨progress.ended ended, m.endsByTail p h ended⟩
  · intro going
    obtain ⟨decisions, progress, single, hcount⟩ := (m.takesKept p h).exists_single going
    obtain ⟨taken, rfl, inTurn⟩ := progress.takes
    rw [matchedCount, hcount, ← inTurn.length_eq single, List.length_append, Nat.add_comm]

/-- The exact score never falls, and up to a tail it grows by a half at least and one at most for
every word and argument.
-/
theorem score_of_run {m : Matcher} {p : Pattern} {tokens rest : List Token}
    {tally after : Tally Rat} (h : m.run p tokens tally = (.ok rest, after))
    : tally.score ≤ after.score
      ∧ (after.terminated = false
        → tally.score + (m.matchedCount p tokens tally : Rat) / 2 ≤ after.score
          ∧ after.score ≤ tally.score + (m.matchedCount p tokens tally : Rat)) := by
  constructor
  · obtain ⟨decisions, progress, -⟩ := m.takesKept p h
    have hscore := progress.notes.score_eq
    have hnonneg := (isScore_total (decisions.filterMap Decision.leaf?)).nonneg
    rw [hscore]
    exact le_add_of_nonneg_right hnonneg
  · intro going
    obtain ⟨decisions, progress, single, hcount⟩ := (m.takesKept p h).exists_single going
    have hscore := progress.notes.score_eq
    obtain ⟨hleast, hmost⟩ := total_bounds single
    rw [matchedCount, hcount, hscore]
    exact ⟨Rat.add_le_add_left.mpr hleast, Rat.add_le_add_left.mpr hmost⟩

/-- Success loses nothing: a run that succeeds leaves a rest of its tokens and keeps what was noted,
and it takes the call to its end only by a tail, with no token left. Otherwise it takes exactly one
token for every word and argument that it matches, and on the exact scale the score grows by at
least half of their number and at most by all of it. Once a call was taken to its end, every pattern
is a fault.
-/
theorem run_grows (m : Matcher) (p : Pattern) (tokens : List Token)
    : (∀ {σ : Type} [Scale σ] {tally after : Tally σ} {rest : List Token},
        m.run p tokens tally = (.ok rest, after) → m.Grown p tokens tally rest after)
      ∧ (∀ {tally after : Tally Rat} {rest : List Token},
          m.run p tokens tally = (.ok rest, after)
          → tally.score ≤ after.score
            ∧ (after.terminated = false
              → tally.score + (m.matchedCount p tokens tally : Rat) / 2 ≤ after.score
                ∧ after.score ≤ tally.score + (m.matchedCount p tokens tally : Rat)))
      ∧ ∀ {σ : Type} [Scale σ] {tally : Tally σ},
          tally.terminated = true
          → m.run p tokens tally = (.fault (.matchAfterTermination p.kind), tally) := by
  refine ⟨grown_of_run, score_of_run, ?_⟩
  intro σ scale tally ended
  rw [run_eq_visit, visit_of_terminated ended]

/-- A word and a choice on a tally that holds findings. Of the two alternatives that match, the
argument is given up for the word, so that two words are counted.
-/
theorem run_grows_go_home
    : ∃ (p : Pattern) (tokens rest : List Token) (tally after : Tally Rat),
        p = .sequence
          [.literal "go" true,
           .variant none true [.parameter "place" none, .literal "home" true]]
        ∧ tokens = [⟨"go", ⟨4, 6⟩⟩, ⟨"home", ⟨7, 11⟩⟩, ⟨"now", ⟨12, 15⟩⟩]
        ∧ rest = [⟨"now", ⟨12, 15⟩⟩]
        ∧ tally =
          { raw := "now go home now", score := 7 / 2, bindings := .ofList [("place", .str "now")],
            optionals := [true], variants := [2], terminated := false, depth := 3, hint := none }
        ∧ standard.run p tokens tally = (.ok rest, after)
        ∧ standard.Grown p tokens tally rest after
        ∧ standard.matchedCount p tokens tally = 2
        ∧ tally.score + 2 / 2 ≤ after.score
        ∧ after.score ≤ tally.score + 2
        ∧ standard.run p tokens { tally with terminated := true }
          = (.fault (.matchAfterTermination .sequence), { tally with terminated := true }) := by
  let p : Pattern :=
    .sequence
      [.literal "go" true, .variant none true [.parameter "place" none, .literal "home" true]]
  let tokens : List Token := [⟨"go", ⟨4, 6⟩⟩, ⟨"home", ⟨7, 11⟩⟩, ⟨"now", ⟨12, 15⟩⟩]
  let tally : Tally Rat :=
    { raw := "now go home now", score := 7 / 2, bindings := .ofList [("place", .str "now")],
      optionals := [true], variants := [2], terminated := false, depth := 3, hint := none }
  have matched : standard.run p tokens tally = (.ok [⟨"now", ⟨12, 15⟩⟩], _) :=
    Prod.ext (by with_unfolding_all rfl) rfl
  have count : standard.matchedCount p tokens tally = 2 := by
    with_unfolding_all rfl
  obtain ⟨grown, scored, ended⟩ := run_grows standard p tokens
  have hscored := (scored matched).2 (by with_unfolding_all rfl)
  rw [count] at hscored
  exact ⟨p, tokens, _, tally, _, rfl, rfl, rfl, rfl, matched, grown matched, count, hscored.1,
    hscored.2, ended rfl⟩

end Matcher

end CallGrammar

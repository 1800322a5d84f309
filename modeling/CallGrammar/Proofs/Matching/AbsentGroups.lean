import CallGrammar.Proofs.Matching.Depth
import CallGrammar.Proofs.Matching.Findings
import CallGrammar.Proofs.Matching.Trace

/-! An absent optional group does not disturb the patterns around it: what stands behind it finds
what it would find without it. All that the group leaves is the record of its absence.
-/

namespace CallGrammar

variable {σ : Type} [Scale σ]

namespace Matcher

/-- Behind patterns that matched, not to the end of the call, a sequence does what the rest of it
does alone.
-/
theorem run_sequence_append {m : Matcher} {pre : List Pattern} {tokens rest : List Token}
    {tally middle : Tally σ} (matched : m.run (.sequence pre) tokens tally = (.ok rest, middle))
    (going : middle.terminated = false) (post : List Pattern)
    : m.run (.sequence (pre ++ post)) tokens tally = m.run (.sequence post) rest middle := by
  have entered : m.refuses tally = false := by
    apply not_refuses_of_run
    rw [matched]
    exact nofun
  obtain ⟨last, parts, rfl⟩
      : ∃ last, m.runAll pre tokens tally.enter = (.ok rest, last) ∧ middle = last.leave := by
    rw [run_eq_visit] at matched
    exact (visit_eq_ok matched).2
  have depth_eq : last.depth = tally.depth + 1 := by
    have kept := m.depth_runAll pre tokens tally.enter
    rwa [parts] at kept
  have again : last.leave.enter = last := by
    have pos : last.depth - 1 + 1 = last.depth := by omega
    simp only [Tally.leave, Tally.enter, pos]
  have entered_again : m.refuses last.leave = false := by
    have shallow := (refuses_eq_false_iff.mp entered).2
    refine refuses_eq_false_iff.mpr ⟨going, ?_⟩
    rw [← again] at depth_eq
    exact (Nat.succ.inj depth_eq) ▸ shallow
  rw [run_of_not_refuses entered, run_of_not_refuses entered_again, inside, inside, runAll_append,
    parts, again]

/-- What only does not fit was entered, so there was a level left for it. -/
theorem depth_lt_of_mismatch {m : Matcher} {p : Pattern} {tokens : List Token} {tally : Tally σ}
    {reason : Mismatch σ} (h : (m.run p tokens tally).1 = .mismatch reason)
    : tally.depth < m.maxDepth := by
  have entered : m.refuses tally = false := by
    apply not_refuses_of_run
    rw [h]
    exact nofun
  exact (refuses_eq_false_iff.mp entered).2

/-- An optional group whose contents do not fit takes nothing and notes its absence. -/
theorem run_optional_of_mismatch {m : Matcher} {inner : Pattern} {tokens : List Token}
    {tally : Tally σ} {reason : Mismatch σ} (going : tally.terminated = false)
    (absent : (m.run inner tokens tally.enter.branch).1 = .mismatch reason)
    (identifier : Option String)
    : m.run (.optional identifier inner) tokens tally
      = (.ok tokens, tally.noting (.absence identifier reason)) := by
  have shallow : tally.depth < m.maxDepth := Nat.lt_of_succ_lt (depth_lt_of_mismatch absent)
  have entered : m.refuses tally = false := refuses_eq_false_iff.mpr ⟨going, shallow⟩
  rw [run_of_not_refuses entered, inside]
  generalize m.run inner tokens tally.enter.branch = result at absent
  rcases result with ⟨verdict, branch⟩
  cases absent
  rw [settleOptional, Tally.recordAbsence_eq_noting]
  rfl

/-- So does a sequence of nothing but such a group. -/
theorem run_sequence_of_mismatch {m : Matcher} {inner : Pattern} {tokens : List Token}
    {tally : Tally σ} {reason : Mismatch σ} (going : tally.terminated = false)
    (absent : (m.run inner tokens tally.enter.enter.branch).1 = .mismatch reason)
    (identifier : Option String)
    : m.run (.sequence [.optional identifier inner]) tokens tally
      = (.ok tokens, tally.noting (.absence identifier reason)) := by
  have shallow : tally.depth < m.maxDepth :=
    Nat.lt_of_succ_lt (Nat.lt_of_succ_lt (depth_lt_of_mismatch absent))
  have entered : m.refuses tally = false := refuses_eq_false_iff.mpr ⟨going, shallow⟩
  have inside_going : tally.enter.terminated = false := going
  have omitted := run_optional_of_mismatch inside_going absent identifier
  rw [run_of_not_refuses entered, inside, runAll_singleton, omitted]
  rfl

/-- Let a sequence match, not to the end of the call, and let the contents of an optional group not
fit behind it. Then the group may be put there before any other patterns: the verdict, the score, the
end of the call and the chosen variants stay the same. An anonymous group adds its absence behind
the presences found before it and changes no binding. A group with an identifier adds no presence,
and binds its identifier unless the patterns behind it do so themselves.
-/
theorem run_sequence_absent_optional {m : Matcher} {pre : List Pattern} {inner : Pattern}
    {tokens rest : List Token} {tally middle : Tally σ} {reason : Mismatch σ}
    (matched : m.run (.sequence pre) tokens tally = (.ok rest, middle))
    (going : middle.terminated = false)
    (absent : (m.run inner rest middle.enter.enter.branch).1 = .mismatch reason)
    (identifier : Option String) (post : List Pattern)
    : let without := m.run (.sequence (pre ++ post)) tokens tally
      let within := m.run (.sequence (pre ++ [.optional identifier inner] ++ post)) tokens tally
      within.1 = without.1
      ∧ within.2.score = without.2.score
      ∧ within.2.terminated = without.2.terminated
      ∧ within.2.variants = without.2.variants
      ∧ (identifier = none
        → within.2.bindings = without.2.bindings
          ∧ ∃ more,
              without.2.optionals = middle.optionals ++ more
              ∧ within.2.optionals = middle.optionals ++ [false] ++ more)
      ∧ ∀ name, identifier = some name
        → within.2.optionals = without.2.optionals
          ∧ within.2.bindings
            = if (m.run (.sequence post) rest middle.branch).2.bindings.contains name then
                without.2.bindings
              else without.2.bindings.insert name (.bool false) := by
  intro without within
  have alone := run_sequence_of_mismatch going absent identifier
  have going' : (middle.noting (.absence identifier reason)).terminated = false := by
    simp [Tally.noting, going]
  -- The patterns behind find the same with the group, without it, and on a branch.
  have behind : FoundAlike middle.raw middle.depth (m.run (.sequence post) rest : Tally σ → _) :=
    findsAlike m (.sequence post) rest middle.raw middle.depth
  rcases behind with ⟨verdict, findings, noted⟩
  have hwithout : without = (verdict, middle.noting findings) :=
    (run_sequence_append matched going post).trans (noted middle ⟨rfl, rfl, going⟩)
  have hwithin : within
      = (verdict, (middle.noting (.absence identifier reason)).noting findings) := by
    calc within
        = m.run (.sequence ([.optional identifier inner] ++ post)) rest middle := by
          rw [← run_sequence_append matched going, ← List.append_assoc]
      _ = m.run (.sequence post) rest (middle.noting (.absence identifier reason)) :=
          run_sequence_append alone going' post
      _ = _ := noted _ ⟨rfl, rfl, going'⟩
  have hbranch : (m.run (.sequence post) rest middle.branch).2.bindings = findings.bindings := by
    rw [noted middle.branch ⟨rfl, rfl, rfl⟩]
    exact NameMap.empty_union findings.bindings
  rw [hbranch, hwithout, hwithin]
  refine ⟨rfl, ?_, ?_, ?_, ?_, ?_⟩
  · simp [Tally.noting]
  · simp [Tally.noting]
  · simp [Tally.noting]
  · rintro rfl
    exact ⟨rfl, findings.optionals, rfl, rfl⟩
  · rintro name rfl
    refine ⟨?_, NameMap.insert_union middle.bindings findings.bindings name (.bool false)⟩
    simp [Tally.noting]

/-- A group that does not fit between a present one and another present one, first anonymous and
then with an identifier.
-/
theorem run_sequence_absent_optional_take_lamp
    : ∃ (pre post : List Pattern) (inner : Pattern) (tokens : List Token) (tally : Tally Rat),
        pre = [.optional none (.literal "please" true), .literal "take" true]
        ∧ inner = .literal "every" true
        ∧ post = [.parameter "item" none, .optional none (.literal "now" true)]
        ∧ tokens
          = [⟨"please", ⟨0, 6⟩⟩, ⟨"take", ⟨7, 11⟩⟩, ⟨"lamp", ⟨12, 16⟩⟩, ⟨"now", ⟨17, 20⟩⟩]
        ∧ tally = .start "please take lamp now"
        ∧ (standard.run (.sequence (pre ++ [.optional none inner] ++ post)) tokens tally).1 = .ok []
        ∧ (standard.run (.sequence (pre ++ [.optional none inner] ++ post)) tokens tally).2.optionals
          = [true, false, true]
        ∧ (standard.run (.sequence (pre ++ [.optional (some "all") inner] ++ post)) tokens
            tally).2.optionals
          = [true, true]
        ∧ (standard.run (.sequence (pre ++ [.optional (some "all") inner] ++ post)) tokens
            tally).2.bindings
          = .ofList [("all", .bool false), ("item", .str "lamp")] := by
  let pre : List Pattern := [.optional none (.literal "please" true), .literal "take" true]
  let inner : Pattern := .literal "every" true
  let post : List Pattern := [.parameter "item" none, .optional none (.literal "now" true)]
  let tokens : List Token :=
    [⟨"please", ⟨0, 6⟩⟩, ⟨"take", ⟨7, 11⟩⟩, ⟨"lamp", ⟨12, 16⟩⟩, ⟨"now", ⟨17, 20⟩⟩]
  let tally : Tally Rat := .start "please take lamp now"
  let middle : Tally Rat := (standard.run (.sequence pre) tokens tally).2
  have matched : standard.run (.sequence pre) tokens tally = (.ok (tokens.drop 2), middle) := by
    with_unfolding_all rfl
  have going : middle.terminated = false := by
    with_unfolding_all rfl
  have absent
      : (standard.run inner (tokens.drop 2) middle.enter.enter.branch).1
        = .mismatch (.expectedLiteral "every" (some ⟨"lamp", ⟨12, 16⟩⟩)
            (standard.isSimilar "every" "lamp")) := by
    with_unfolding_all rfl
  have plain : (standard.run (.sequence (pre ++ post)) tokens tally).1 = .ok []
      ∧ (standard.run (.sequence (pre ++ post)) tokens tally).2.optionals = [true] ++ [true]
      ∧ (standard.run (.sequence (pre ++ post)) tokens tally).2.bindings
        = .ofList [("item", .str "lamp")] := by
    with_unfolding_all exact ⟨rfl, rfl, rfl⟩
  have found : middle.optionals = [true] := by
    with_unfolding_all rfl
  have unbound
      : ((standard.run (.sequence post) (tokens.drop 2) middle.branch).2.bindings.contains "all")
        = false := by
    with_unfolding_all rfl
  obtain ⟨verdict, _, _, _, anonymous, _⟩ :=
    run_sequence_absent_optional matched going absent none post
  obtain ⟨_, _, _, _, _, named⟩ :=
    run_sequence_absent_optional matched going absent (some "all") post
  obtain ⟨_, more, without_eq, within_eq⟩ := anonymous rfl
  obtain ⟨optionals_eq, bindings_eq⟩ := named "all" rfl
  have more_eq : more = [true] := by
    rw [found, plain.2.1] at without_eq
    exact (List.append_cancel_left without_eq).symm
  refine ⟨pre, post, inner, tokens, tally, rfl, rfl, rfl, rfl, rfl, verdict.trans plain.1, ?_,
    optionals_eq.trans plain.2.1, ?_⟩
  · rw [within_eq, found, more_eq]
    rfl
  · rw [bindings_eq, unbound, plain.2.2]
    with_unfolding_all rfl

end Matcher

end CallGrammar

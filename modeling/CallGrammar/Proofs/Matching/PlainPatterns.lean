import CallGrammar.Proofs.Matching.Faults
import CallGrammar.Proofs.Matching.Tails

/-! Plain patterns: words and arguments one after the other, nested in any way, with at most a tail
behind all of them. A run over such a pattern does what its leaves do one by one, so that it matches
exactly the calls whose tokens its leaves take.
-/

namespace CallGrammar

variable {σ : Type}

------------------------------------------------------------
-- Leaves

namespace Pattern

theorem HasTail.exists_leaf {p : Pattern} (h : p.HasTail) : ∃ name, tail name ∈ p.leaves := by
  rcases h with ⟨name, member⟩
  exact ⟨name, List.mem_filter.mpr ⟨member, rfl⟩⟩

/-- How much a leaf counts. -/
def weight [Scale σ] : Pattern → σ
  | .literal .. => Scale.literal
  | .parameter .. => Scale.parameter
  | .tail .. => Scale.tail
  | .optional .. | .variant .. | .sequence .. => 0

------------------------------------------------------------
-- Plain patterns

/-- Nothing stands behind a tail. -/
def OnlyLastTail (leaves : List Pattern) : Prop :=
  ∀ before name after, leaves = before ++ tail name :: after → after = []

/-- What is cut out of leaves with nothing behind a tail has nothing behind one either. -/
theorem OnlyLastTail.of_infix {left middle right : List Pattern}
    (h : OnlyLastTail (left ++ middle ++ right))
    : OnlyLastTail middle := by
  rintro before name after rfl
  have behind : after ++ right = [] := h (left ++ before) name (after ++ right) (by simp)
  exact (List.append_eq_nil_iff.mp behind).1

theorem onlyLastTail_of_dropLast {leaves : List Pattern}
    (h : ∀ leaf ∈ leaves.dropLast, leaf.kind ≠ .tail)
    : OnlyLastTail leaves := by
  rintro before name after rfl
  by_contra behind
  refine h (tail name) ?_ rfl
  rw [List.dropLast_append_cons, List.dropLast_cons_of_ne_nil behind]
  simp

/-- A pattern without groups, in which no part is an empty sequence and nothing stands behind a
tail.
-/
structure IsPlain (p : Pattern) : Prop where
  groupFree : p.IsGroupFree
  filled : ∀ q ∈ p.traverse, sequence [] ∉ q.children
  tailLast : OnlyLastTail p.leaves

namespace IsPlain

theorem of_child {p child : Pattern} (h : p.IsPlain) (member : child ∈ p.children)
    : child.IsPlain := by
  refine ⟨h.groupFree.of_child member, ?_, ?_⟩
  · intro q hq
    exact h.filled q (mem_traverse_of_child member hq)
  · obtain ⟨before, after, split⟩ := List.append_of_mem member
    have last := h.tailLast
    rw [leaves_eq, split, List.flatMap_append, List.flatMap_cons, ← List.append_assoc,
      ← List.append_assoc] at last
    exact last.of_infix

/-- Every part of a plain pattern has a leaf, by induction on the part. -/
theorem leaves_ne_nil {p : Pattern} (h : p.IsPlain) (filled : p ≠ sequence [])
    : p.leaves ≠ [] := by
  induction p with
  | literal text caseSensitive => simp
  | parameter name typeName => simp
  | tail name => simp
  | optional identifier inner _ => exact absurd rfl (h.groupFree _ (mem_traverse_self _)).1
  | variant identifier parenthesized alternatives _ =>
      exact absurd rfl (h.groupFree _ (mem_traverse_self _)).2
  | sequence children ih =>
      rcases children with _ | ⟨first, others⟩
      · exact absurd rfl filled
      · have nonempty : first ≠ sequence [] := by
          rintro rfl
          exact h.filled _ (mem_traverse_self _) List.mem_cons_self
        have hfirst := ih first List.mem_cons_self (h.of_child List.mem_cons_self) nonempty
        rw [leaves_sequence, List.flatMap_cons]
        exact List.append_ne_nil_of_left_ne_nil hfirst _

/-- In a plain sequence only the last part may have a tail. -/
theorem not_hasTail_of_mem_dropLast {children : List Pattern} {child : Pattern}
    (h : (sequence children).IsPlain) (member : child ∈ children.dropLast)
    : ¬ child.HasTail := by
  intro hasTail
  have nonempty : children ≠ [] := by
    rintro rfl
    cases member
  have last_mem : children.getLast nonempty ∈ children := List.getLast_mem nonempty
  have last_filled : children.getLast nonempty ≠ sequence [] := by
    intro he
    exact h.filled _ (mem_traverse_self _) (he ▸ last_mem)
  have last_leaves := (h.of_child last_mem).leaves_ne_nil last_filled
  obtain ⟨name, leaf⟩ := hasTail.exists_leaf
  have before : tail name ∈ children.dropLast.flatMap leaves :=
    List.mem_flatMap.mpr ⟨child, member, leaf⟩
  obtain ⟨left, right, split⟩ := List.append_of_mem before
  have behind : right ++ (children.getLast nonempty).leaves = [] := by
    refine h.tailLast left name _ ?_
    calc (sequence children).leaves
        = (children.dropLast ++ [children.getLast nonempty]).flatMap leaves := by
          rw [List.dropLast_append_getLast, leaves_sequence]
      _ = left ++ tail name :: (right ++ (children.getLast nonempty).leaves) := by
          simp [split]
  exact last_leaves (List.append_eq_nil_iff.mp behind).2

/-- So nothing follows a tail in any sequence of a plain pattern, by induction on the pattern. -/
theorem tailsLast {p : Pattern} (h : p.IsPlain) : p.TailsLast := by
  induction p using children_induction with
  | step p ih =>
      intro children member
      rcases mem_traverse_iff.mp member with rfl | ⟨child, hc, hm⟩
      · intro child
        exact h.not_hasTail_of_mem_dropLast
      · exact ih child hc (h.of_child hc) children hm

end IsPlain

end Pattern

------------------------------------------------------------
-- Leaves that take tokens

namespace Matcher

/-- A word or an argument may take a token. -/
def takes (m : Matcher) (leaf : Pattern) (token : Token) : Bool :=
  match leaf with
  | .literal text caseSensitive => m.accepts text token.value caseSensitive
  | .parameter _ none => true
  | .parameter _ (some typeName) => (m.types.coerce typeName token.value).isOk
  | .tail _ | .optional .. | .variant .. | .sequence _ => false

/-- Every word and argument may take the token at its place. There are as many tokens as leaves, or
as many at least where a tail takes all that are left.
-/
structure Fits (m : Matcher) (leaves : List Pattern) (tokens : List Token) : Prop where
  takes
    : ∀ (place : Nat) leaf, leaves[place]? = some leaf → leaf.kind ≠ .tail
      → ∃ token, tokens[place]? = some token ∧ m.takes leaf token = true
  count
    : if leaves.any (·.kind = .tail) then leaves.length ≤ tokens.length
      else tokens.length = leaves.length

/-- The tokens left by leaves of which each one takes a token, and a tail all of them. -/
def leftBy (m : Matcher) : List Pattern → List Token → Option (List Token)
  | [], tokens => some tokens
  | _ :: _, [] => none
  | .tail _ :: leaves, _ :: _ => m.leftBy leaves []
  | leaf :: leaves, token :: tokens =>
      if m.takes leaf token then m.leftBy leaves tokens else none

/-- The second part of some leaves goes on where the first one ended. -/
theorem leftBy_append (m : Matcher) (first second : List Pattern) (tokens : List Token)
    : m.leftBy (first ++ second) tokens = (m.leftBy first tokens).bind (m.leftBy second) := by
  fun_induction m.leftBy first tokens with
  | case1 tokens => rfl
  | case2 leaf leaves => rfl
  | case3 name leaves token tokens ih => rw [List.cons_append, leftBy, ih]
  | case4 leaf leaves token tokens other takes ih =>
      rw [List.cons_append, leftBy, if_pos takes, ih]
      exact other
  | case5 leaf leaves token tokens other takes =>
      rw [List.cons_append, leftBy, if_neg takes]
      · rfl
      · exact other

theorem Fits.cons_iff {m : Matcher} {leaf : Pattern} {leaves : List Pattern} {token : Token}
    {tokens : List Token} (single : leaf.kind ≠ .tail)
    : m.Fits (leaf :: leaves) (token :: tokens)
      ↔ m.takes leaf token = true ∧ m.Fits leaves tokens := by
  constructor
  · rintro ⟨taken, count⟩
    refine ⟨?_, ?_, ?_⟩
    · simpa using taken 0 leaf rfl single
    · intro place other
      simpa using taken (place + 1) other
    · simpa [single] using count
  · rintro ⟨first, taken, count⟩
    refine ⟨?_, ?_⟩
    · rintro (_ | place) other found
      · cases found
        exact fun _ => ⟨token, rfl, first⟩
      · simpa using taken place other (by simpa using found)
    · simpa [single] using count

/-- Leaves with nothing behind a tail leave no token exactly if they fit the tokens. -/
theorem leftBy_eq_nil_iff {m : Matcher} {leaves : List Pattern} {tokens : List Token}
    (tailLast : Pattern.OnlyLastTail leaves)
    : m.leftBy leaves tokens = some [] ↔ m.Fits leaves tokens := by
  fun_induction m.leftBy leaves tokens with
  | case1 tokens =>
      constructor
      · rintro ⟨⟩
        exact ⟨by simp, by simp⟩
      · rintro ⟨-, count⟩
        simpa using count
  | case2 leaf leaves =>
      refine ⟨nofun, ?_⟩
      rintro ⟨taken, count⟩
      by_cases tail : leaf.kind = .tail
      · simp [tail] at count
      · simpa using taken 0 leaf rfl tail
  | case3 name leaves token tokens ih =>
      obtain rfl : leaves = [] := tailLast [] name leaves rfl
      refine ⟨fun _ => ⟨?_, by simp [Pattern.kind]⟩, fun _ => rfl⟩
      rintro (_ | place) leaf found
      · cases found
        exact fun other => absurd rfl other
      · cases found
  | case4 leaf leaves token tokens other takes ih =>
      have single : leaf.kind ≠ .tail := by
        cases leaf <;> simp_all [Pattern.kind]
      have behind : Pattern.OnlyLastTail leaves := by
        have last : Pattern.OnlyLastTail ([leaf] ++ leaves ++ []) := by simpa using tailLast
        exact last.of_infix
      rw [Fits.cons_iff single, ih behind]
      simp [takes]
  | case5 leaf leaves token tokens other takes =>
      have single : leaf.kind ≠ .tail := by
        cases leaf <;> simp_all [Pattern.kind]
      rw [Fits.cons_iff single]
      simp [takes]

------------------------------------------------------------
-- Runs

variable [Scale σ]

/-- Where the leaves of a pattern leave tokens, a run over it from an open place in a call does. -/
def RunsAsLeaves (scale : Type) [Scale scale] (m : Matcher) (p : Pattern) : Prop :=
  ∀ {raw : String} {whole tokens : List Token} {tally : Tally scale},
    m.tokenize raw = .ok whole
    → Position raw whole tokens tally
    → tally.terminated = false
    → tally.depth + p.depth ≤ m.maxDepth
    → (m.run p tokens tally).1.toOption = m.leftBy p.leaves tokens

theorem runsAsLeaves_of_inside {m : Matcher} {p : Pattern} (single : p.depth = 1)
    (h : ∀ tokens (tally : Tally σ),
      (m.inside p tokens tally).1.toOption = m.leftBy p.leaves tokens)
    : RunsAsLeaves σ m p := by
  intro raw whole tokens tally _ _ going room
  rw [run_eq_visit, visit_of_open going (by omega)]
  exact h tokens tally.enter

theorem runsAsLeaves_literal (m : Matcher) (text : String) (caseSensitive : Bool)
    : RunsAsLeaves σ m (.literal text caseSensitive) := by
  refine runsAsLeaves_of_inside rfl fun tokens tally => ?_
  rw [Pattern.leaves_literal, inside]
  rcases tokens with _ | ⟨token, rest⟩
  · rfl
  · rw [runLiteral, leftBy, takes]
    · split <;> rfl
    · rintro name ⟨⟩

theorem runsAsLeaves_parameter (m : Matcher) (name : String) (typeName : Option String)
    : RunsAsLeaves σ m (.parameter name typeName) := by
  refine runsAsLeaves_of_inside rfl fun tokens tally => ?_
  rw [Pattern.leaves_parameter, inside]
  rcases tokens with _ | ⟨token, rest⟩
  · rcases typeName with _ | typeName
    · rfl
    · rw [runParameter]
      split <;> rfl
  · rcases typeName with _ | typeName
    · rfl
    · rw [runParameter, leftBy, takes]
      · rcases m.types.coerce typeName token.value with (_ | _) | value
        all_goals rfl
      · rintro name ⟨⟩

/-- A tail takes what is left of its call, if anything is. -/
theorem runsAsLeaves_tail (m : Matcher) (name : String) : RunsAsLeaves σ m (.tail name) := by
  intro raw whole tokens tally tokenized position going room
  have entered : tally.depth < m.maxDepth := room
  rw [Pattern.leaves_tail]
  rcases tokens with _ | ⟨token, rest⟩
  · rw [run_eq_visit, visit_of_open going entered]
    rfl
  · obtain ⟨text, -, taken⟩ :=
      exists_run_tail_eq tokenized position (List.cons_ne_nil token rest) entered name
    rw [taken]
    rfl

/-- Patterns of which only the last one may have a tail run as their leaves if each does, by list
induction: behind one that succeeds and is not the last, the call goes on.
-/
theorem toOption_runAll {m : Matcher} {ps : List Pattern} (h : ∀ p ∈ ps, RunsAsLeaves σ m p)
    (ordered : ∀ p ∈ ps.dropLast, ¬ p.HasTail) {raw : String} {whole tokens : List Token}
    {tally : Tally σ} (tokenized : m.tokenize raw = .ok whole)
    (position : Position raw whole tokens tally) (going : tally.terminated = false)
    (room : ∀ p ∈ ps, tally.depth + p.depth ≤ m.maxDepth)
    : (m.runAll ps tokens tally).1.toOption = m.leftBy (ps.flatMap Pattern.leaves) tokens := by
  induction ps generalizing tokens tally with
  | nil => rfl
  | cons p ps ih =>
      have first := h p List.mem_cons_self tokenized position going (room p List.mem_cons_self)
      rw [runAll, List.flatMap_cons, leftBy_append, ← first]
      rcases result : m.run p tokens tally with ⟨failure | left, after⟩
      · rfl
      · rcases ps with _ | ⟨q, qs⟩
        · rfl
        · have goes_on : after.terminated = false := by
            refine Bool.eq_false_iff.mpr fun ended => ?_
            exact ordered p List.mem_cons_self (m.endsByTail p result ended)
          have depth_eq : after.depth = tally.depth := by
            have kept := m.depth_run p tokens tally
            rwa [result] at kept
          refine ih (fun r hr => h r (List.mem_cons_of_mem p hr)) ?_ (position.run result) goes_on ?_
          · exact fun r hr => ordered r (List.mem_cons_of_mem p hr)
          · exact fun r hr => depth_eq ▸ room r (List.mem_cons_of_mem p hr)

/-- A pattern without groups and with nothing behind a tail runs as its leaves, by induction on the
pattern.
-/
theorem runsAsLeaves {m : Matcher} {p : Pattern} (groupFree : p.IsGroupFree)
    (ordered : p.TailsLast)
    : RunsAsLeaves σ m p := by
  induction p with
  | literal text caseSensitive => exact runsAsLeaves_literal m text caseSensitive
  | parameter name typeName => exact runsAsLeaves_parameter m name typeName
  | tail name => exact runsAsLeaves_tail m name
  | optional identifier inner _ =>
      exact absurd rfl (groupFree _ (Pattern.mem_traverse_self _)).1
  | variant identifier parenthesized alternatives _ =>
      exact absurd rfl (groupFree _ (Pattern.mem_traverse_self _)).2
  | sequence children ih =>
      intro raw whole tokens tally tokenized position going room
      have entered : tally.depth < m.maxDepth := by
        have := (Pattern.sequence children).depth_pos
        omega
      rw [run_eq_visit, visit_of_open going entered, Pattern.leaves_sequence]
      refine toOption_runAll ?_ (ordered children (Pattern.mem_traverse_self _)) tokenized
        position.enter going ?_
      · intro child member
        refine ih child member (groupFree.of_child member) ?_
        intro parts hparts
        exact ordered parts (Pattern.mem_traverse_of_child member hparts)
      · intro child member
        have fewer : child.depth < (Pattern.sequence children).depth :=
          Pattern.depth_lt_of_mem_children member
        simp only [Tally.enter]
        omega

------------------------------------------------------------
-- Scores

/-- What a run over a pattern that succeeds adds is what the leaves of the pattern count, in their
order.
-/
def ScoresLeaves (scale : Type) [Scale scale] (m : Matcher) (p : Pattern) : Prop :=
  ∀ {tokens rest : List Token} {tally after : Tally scale},
    m.run p tokens tally = (.ok rest, after)
    → after.score = p.leaves.foldl (fun score leaf => score + leaf.weight) tally.score

theorem scoresLeaves_of_inside {m : Matcher} {p : Pattern}
    (h : ∀ {tokens rest} {tally after : Tally σ}, m.inside p tokens tally = (.ok rest, after)
      → after.score = p.leaves.foldl (fun score leaf => score + leaf.weight) tally.score)
    : ScoresLeaves σ m p := by
  intro tokens rest tally after result
  rw [run_eq_visit] at result
  obtain ⟨_, last, inside_eq, rfl⟩ := visit_eq_ok result
  have scored := h inside_eq
  exact scored

/-- One after the other, patterns add what the leaves of all of them count, by list induction. -/
theorem score_runAll {m : Matcher} {ps : List Pattern} (h : ∀ p ∈ ps, ScoresLeaves σ m p)
    {tokens rest : List Token} {tally after : Tally σ}
    (result : m.runAll ps tokens tally = (.ok rest, after))
    : after.score
      = (ps.flatMap Pattern.leaves).foldl (fun score leaf => score + leaf.weight) tally.score := by
  induction ps generalizing tokens tally with
  | nil =>
      cases result
      rfl
  | cons p ps ih =>
      rw [runAll] at result
      split at result
      · rename_i left middle first
        rw [ih (fun q hq => h q (List.mem_cons_of_mem p hq)) result,
          h p List.mem_cons_self first, List.flatMap_cons, List.foldl_append]
      · cases result

/-- Patterns without groups score by their leaves, by induction on the pattern. -/
theorem scoresLeaves {m : Matcher} {p : Pattern} (groupFree : p.IsGroupFree)
    : ScoresLeaves σ m p := by
  induction p with
  | literal text caseSensitive =>
      refine scoresLeaves_of_inside fun {tokens rest tally after} result => ?_
      rw [inside] at result
      unfold runLiteral at result
      split at result
      · cases result
      · split at result
        · cases result
          simp [Pattern.weight, Tally.award]
        · cases result
  | parameter name typeName =>
      refine scoresLeaves_of_inside fun {tokens rest tally after} result => ?_
      rw [inside] at result
      unfold runParameter at result
      split at result
      · cases result
      · cases result
        simp [Pattern.weight, Tally.award, Tally.bind]
      · split at result <;> cases result
      · split at result
        · cases result
          simp [Pattern.weight, Tally.award, Tally.bind]
        · cases result
        · cases result
  | tail name =>
      refine scoresLeaves_of_inside fun {tokens rest tally after} result => ?_
      rw [inside] at result
      unfold runTail at result
      dsimp only at result
      split at result
      · split at result
        · cases result
        · cases result
          simp [Pattern.weight, Tally.award, Tally.bind]
      · cases result
  | optional identifier inner _ =>
      exact absurd rfl (groupFree _ (Pattern.mem_traverse_self _)).1
  | variant identifier parenthesized alternatives _ =>
      exact absurd rfl (groupFree _ (Pattern.mem_traverse_self _)).2
  | sequence children ih =>
      refine scoresLeaves_of_inside fun {tokens rest tally after} result => ?_
      rw [Pattern.leaves_sequence]
      exact score_runAll (fun child member => ih child member (groupFree.of_child member)) result

------------------------------------------------------------
-- Calls

variable {m : Matcher} {p : Pattern} {raw : String} {tokens : List Token}

/-- A call matches a plain pattern exactly if its tokens fit the leaves. -/
theorem matchCall_ok_iff_fits (plain : p.IsPlain) (room : p.depth ≤ m.maxDepth)
    (tokenized : m.tokenize raw = .ok tokens)
    : (∃ outcome : Outcome σ, m.matchCall p raw = .ok outcome) ↔ m.Fits p.leaves tokens := by
  have start_room : (.start raw : Tally σ).depth + p.depth ≤ m.maxDepth := by
    simpa [Tally.start] using room
  have asLeaves : (m.run p tokens (.start raw : Tally σ)).1.toOption = m.leftBy p.leaves tokens :=
    runsAsLeaves plain.groupFree plain.tailsLast tokenized (.start raw tokens) rfl start_room
  rw [← leftBy_eq_nil_iff plain.tailLast, ← asLeaves]
  constructor
  · rintro ⟨outcome, matched⟩
    obtain ⟨others, tally, cut, run_eq, -⟩ := matchCall_eq_ok matched
    cases tokenized.symm.trans cut
    rw [run_eq]
    rfl
  · intro left
    rw [matchCall, tokenized]
    dsimp only
    unfold attempt
    generalize m.run p tokens (.start raw : Tally σ) = result at left
    rcases result with ⟨failure | (_ | ⟨extra, more⟩), tally⟩
    · cases left
    · exact ⟨tally.outcome, rfl⟩
    · cases left

/-- The score of a matched call is what the leaves count. -/
theorem score_of_matchCall (groupFree : p.IsGroupFree) {outcome : Outcome σ}
    (matched : m.matchCall p raw = .ok outcome)
    : outcome.score = p.leaves.foldl (fun score leaf => score + leaf.weight) 0 := by
  obtain ⟨_, tally, _, run_eq, rfl⟩ := matchCall_eq_ok matched
  exact scoresLeaves groupFree run_eq

/-- A call that has tokens and does not match a pattern without faults only does not fit. -/
theorem mismatch_of_matchCall (admitted : m.Admits p) (tokenized : m.tokenize raw = .ok tokens)
    {failure : Failure σ} (failed : m.matchCall p raw = .error failure)
    : ∃ reason, failure = .mismatch reason := by
  rw [matchCall, tokenized] at failed
  dsimp only at failed
  rcases attempted : (m.attempt 0 p tokens raw : Except Fault (Attempt σ))
    with fault | (rejection | outcome)
  · exact absurd (raises_of_attempt attempted) (admitted.not_raises raw fault)
  · rw [attempted] at failed
    cases failed
    exact ⟨_, rfl⟩
  · rw [attempted] at failed
    cases failed

end Matcher

end CallGrammar

import CallGrammar.Proofs.Matching.Depth
import CallGrammar.Proofs.Matching.Endings

/-! Where faults come from. A run that stops with a fault started in a call already taken to its
end, or its pattern has something wrong: more levels than the limit leaves room for, a parameter of
an unknown type, or a part behind a tail. A pattern without these never leads to a fault.
-/

namespace CallGrammar

variable {σ : Type}

/-- A coercion knows every type but the missing ones. -/
theorem Types.coerce_eq_undefinedType {types : Types} {typeName raw missing : String}
    (h : types.coerce typeName raw = .error (.undefinedType missing))
    : missing = typeName ∧ types.contains typeName = false := by
  unfold coerce at h
  split at h
  · rename_i hmissing
    cases h
    exact ⟨rfl, by rw [NameMap.contains, hmissing]; rfl⟩
  · split at h <;> cases h

namespace Matcher

/-- The faults that a run over a pattern can stop with, each with what is wrong. -/
inductive Raises (m : Matcher) (p : Pattern) (tally : Tally σ) : Fault → Prop
  | ended (terminated : tally.terminated = true)
    : Raises m p tally (.matchAfterTermination p.kind)
  | deep (room : m.maxDepth < tally.depth + p.depth)
    : Raises m p tally (.depthExceeded m.maxDepth)
  | unknown {name typeName} (member : .parameter name (some typeName) ∈ p.traverse)
    (missing : m.types.contains typeName = false)
    : Raises m p tally (.undefinedType typeName)
  | behindTail {kind} (misplaced : ¬ p.TailsLast)
    : Raises m p tally (.matchAfterTermination kind)

/-- What a part raises at its level, its pattern raises. -/
theorem Raises.of_child {m : Matcher} {p child : Pattern} {tally inner : Tally σ} {fault : Fault}
    (h : Raises m child inner fault) (member : child ∈ p.children)
    (going : inner.terminated = false) (level : inner.depth = tally.depth + 1)
    : Raises m p tally fault := by
  cases h with
  | ended terminated => cases going.symm.trans terminated
  | deep room =>
      have hdepth := Pattern.depth_lt_of_mem_children member
      exact .deep (by omega)
  | unknown parameter missing =>
      exact .unknown (Pattern.mem_traverse_of_child member parameter) missing
  | behindTail misplaced =>
      refine .behindTail fun ordered => misplaced ?_
      intro children hchildren
      exact ordered children (Pattern.mem_traverse_of_child member hchildren)

variable [Scale σ]

------------------------------------------------------------
-- Runs

/-- A visit raises a fault of its own or the one that is raised inside. -/
theorem raises_of_inside {m : Matcher} {p : Pattern} {tokens : List Token} {tally : Tally σ}
    {fault : Fault}
    (h : tally.terminated = false
      → (m.inside p tokens tally.enter).1 = .fault fault
      → Raises m p tally fault)
    (hr : (m.run p tokens tally).1 = .fault fault)
    : Raises m p tally fault := by
  rw [run_eq_visit] at hr
  cases ht : tally.terminated with
  | true =>
      rw [visit_of_terminated ht] at hr
      cases hr
      exact .ended ht
  | false =>
      by_cases hd : tally.depth < m.maxDepth
      · rw [visit_of_open ht hd] at hr
        exact h ht hr
      · rw [visit_of_deep ht (Nat.not_lt.mp hd)] at hr
        cases hr
        have hp : 0 < p.depth := p.depth_pos
        exact .deep (by omega)

/-- Patterns one after the other stop with a fault where one of them does. That one starts at the
level of all of them, in a call that is at its end only if it was before or a pattern before it has
a tail; by list induction.
-/
theorem exists_fault_of_runAll {m : Matcher} {ps : List Pattern} {tokens : List Token}
    {tally : Tally σ} {fault : Fault} (h : (m.runAll ps tokens tally).1 = .fault fault)
    : ∃ before p after left, ∃ reached : Tally σ,
        ps = before ++ p :: after
        ∧ (m.run p left reached).1 = .fault fault
        ∧ reached.depth = tally.depth
        ∧ (reached.terminated = true → tally.terminated = true ∨ ∃ q ∈ before, q.HasTail) := by
  induction ps generalizing tokens tally with
  | nil => cases h
  | cons p rest ih =>
      rw [runAll] at h
      split at h
      · rename_i left middle hp
        have hdepth : middle.depth = tally.depth := by
          have hd := m.depth_run p tokens tally
          rwa [hp] at hd
        obtain ⟨before, q, after, left, reached, rfl, hq, hlevel, hended⟩ := ih h
        refine ⟨p :: before, q, after, left, reached, rfl, hq, hlevel.trans hdepth, ?_⟩
        intro ended
        rcases hended ended with hm | ⟨r, hr, htail⟩
        · exact .inr ⟨p, List.mem_cons_self, m.endsByTail p hp hm⟩
        · exact .inr ⟨r, List.mem_cons_of_mem p hr, htail⟩
      · rename_i failure after hp
        exact ⟨[], p, rest, tokens, tally, rfl, by rw [hp]; exact h, rfl, .inl⟩

/-- Alternatives stop with a fault where one of them does, by list induction. -/
theorem exists_fault_of_runEach {m : Matcher} {ps : List Pattern} {tokens : List Token}
    {branch : Tally σ} {fault : Fault} (h : m.runEach ps tokens branch = .error fault)
    : ∃ p ∈ ps, (m.run p tokens branch).1 = .fault fault := by
  induction ps with
  | nil => cases h
  | cons p rest ih =>
      have later {result : Except (Mismatch σ) (List Token × Tally σ)}
          (h : (m.runEach rest tokens branch).map (result :: ·) = .error fault)
          : ∃ q ∈ p :: rest, (m.run q tokens branch).1 = .fault fault := by
        cases hr : m.runEach rest tokens branch with
        | ok results =>
            rw [hr] at h
            cases h
        | error other =>
            rw [hr] at h
            cases h
            obtain ⟨q, hq, hfault⟩ := ih hr
            exact ⟨q, List.mem_cons_of_mem p hq, hfault⟩
      rw [runEach] at h
      split at h
      · exact later h
      · exact later h
      · rename_i other tally hp
        cases h
        exact ⟨p, List.mem_cons_self, by rw [hp]; rfl⟩

/-- The fault of an optional group is that of its contents. -/
theorem fault_of_settleOptional {identifier : Option String} {tokens : List Token}
    {tally : Tally σ} {result : Verdict σ × Tally σ} {fault : Fault}
    (h : (settleOptional identifier tokens tally result).1 = .fault fault)
    : result.1 = .fault fault := by
  unfold settleOptional at h
  split at h
  · cases h
  · cases h
  · exact h

/-- The fault of a variant is that of its alternatives. -/
theorem fault_of_settleVariant {identifier : Option String} {alternatives : List Pattern}
    {tally : Tally σ} {results : Except Fault (List (Except (Mismatch σ) (List Token × Tally σ)))}
    {fault : Fault} (h : (settleVariant identifier alternatives tally results).1 = .fault fault)
    : results = .error fault := by
  unfold settleVariant at h
  split at h
  · cases h
    rfl
  · split at h <;> cases h

theorem runLiteral_ne_fault (m : Matcher) (text : String) (caseSensitive : Bool)
    (tokens : List Token) (tally : Tally σ) (fault : Fault)
    : (m.runLiteral text caseSensitive tokens tally).1 ≠ .fault fault := by
  unfold runLiteral
  repeat' split
  all_goals exact nofun

theorem runTail_ne_fault (name : String) (tokens : List Token) (tally : Tally σ) (fault : Fault)
    : (runTail name tokens tally).1 ≠ .fault fault := by
  unfold runTail
  dsimp only
  repeat' split
  all_goals exact nofun

/-- The only fault of a parameter is a type that is not registered. -/
theorem fault_of_runParameter {m : Matcher} {name : String} {typeName : Option String}
    {tokens : List Token} {tally : Tally σ} {fault : Fault}
    (h : (m.runParameter name typeName tokens tally).1 = .fault fault)
    : ∃ missing,
        typeName = some missing
        ∧ m.types.contains missing = false
        ∧ fault = .undefinedType missing := by
  unfold runParameter at h
  split at h
  · cases h
  · cases h
  · split at h
    · cases h
    · rename_i hmissing
      cases h
      exact ⟨_, rfl, by simpa using hmissing, rfl⟩
  · rename_i typeName token rest
    split at h
    · cases h
    · rename_i missing hcoerce
      cases h
      obtain ⟨rfl, hmissing⟩ := Types.coerce_eq_undefinedType hcoerce
      exact ⟨_, rfl, hmissing, rfl⟩
    · cases h

/-- Every fault of a run comes from the call, the limit, an unknown type or a part behind a tail,
by induction on the pattern.
-/
theorem raises_of_run {m : Matcher} {p : Pattern} {tokens : List Token} {tally : Tally σ}
    {fault : Fault} (h : (m.run p tokens tally).1 = .fault fault)
    : Raises m p tally fault := by
  induction p generalizing tokens tally with
  | literal text caseSensitive =>
      refine raises_of_inside (fun _ hi => ?_) h
      exact absurd hi (m.runLiteral_ne_fault text caseSensitive tokens _ fault)
  | parameter name typeName =>
      refine raises_of_inside (fun _ hi => ?_) h
      obtain ⟨missing, rfl, hmissing, rfl⟩ := fault_of_runParameter hi
      exact .unknown (Pattern.mem_traverse_self _) hmissing
  | tail name =>
      refine raises_of_inside (fun _ hi => ?_) h
      exact absurd hi (runTail_ne_fault name tokens _ fault)
  | optional identifier inner ih =>
      refine raises_of_inside (fun _ hi => ?_) h
      have hinner := ih (fault_of_settleOptional hi)
      exact hinner.of_child (List.mem_singleton.mpr rfl) rfl rfl
  | variant identifier parenthesized alternatives ih =>
      refine raises_of_inside (fun _ hi => ?_) h
      obtain ⟨alternative, ha, hfault⟩ := exists_fault_of_runEach (fault_of_settleVariant hi)
      exact (ih alternative ha hfault).of_child ha rfl rfl
  | sequence children ih =>
      refine raises_of_inside (fun going hi => ?_) h
      obtain ⟨before, child, after, left, reached, rfl, hfault, hlevel, hended⟩ :=
        exists_fault_of_runAll hi
      have hchild : child ∈ before ++ child :: after := by simp
      have hraises := ih child hchild hfault
      cases ht : reached.terminated with
      | false => exact hraises.of_child hchild ht hlevel
      | true =>
          -- The part is refused, and some part before it has taken the call to its end.
          rw [run_eq_visit, visit_of_terminated ht] at hfault
          cases hfault
          rcases hended ht with hbefore | ⟨q, hq, htail⟩
          · cases going.symm.trans hbefore
          · refine .behindTail fun ordered => ?_
            refine ordered _ (Pattern.mem_traverse_self _) q ?_ htail
            rw [List.dropLast_append_cons]
            exact List.mem_append_left _ hq

------------------------------------------------------------
-- Attempts

/-- An attempt stops with a fault only if a run from nothing raises it. -/
theorem raises_of_attempt {m : Matcher} {p : Pattern} {index : Nat} {tokens : List Token}
    {raw : String} {fault : Fault}
    (h : (m.attempt index p tokens raw : Except Fault (Attempt σ)) = .error fault)
    : Raises m p (.start raw : Tally σ) fault := by
  have hrun : (m.run p tokens (.start raw : Tally σ)).1 = .fault fault := by
    unfold attempt at h
    generalize m.run p tokens (.start raw : Tally σ) = result at h
    obtain ⟨(_ | other) | (_ | _), tally⟩ := result
    · cases h
    · cases h
      rfl
    · cases h
    · cases h
  exact raises_of_run hrun

/-- An attempt on a pattern that has no more levels than the limit is not cut off. -/
theorem attempt_ne_depthExceeded {m : Matcher} {p : Pattern} (room : p.depth ≤ m.maxDepth)
    (index : Nat) (tokens : List Token) (raw : String) (limit : Nat)
    : (m.attempt index p tokens raw : Except Fault (Attempt σ))
      ≠ .error (.depthExceeded limit) := by
  intro h
  cases raises_of_attempt h with
  | deep deep => exact absurd deep (by simpa [Tally.start] using room)

/-- What keeps a pattern from faults under a matcher: the limit has room for its levels, the types
of its parameters are registered, and nothing follows a tail.
-/
structure Admits (m : Matcher) (p : Pattern) : Prop where
  room : p.depth ≤ m.maxDepth
  known
    : ∀ name typeName,
        .parameter name (some typeName) ∈ p.traverse → m.types.contains typeName = true
  tailsLast : p.TailsLast

/-- A run from nothing over such a pattern raises no fault, by cases on what could be wrong. -/
theorem Admits.not_raises {m : Matcher} {p : Pattern} (h : m.Admits p) (raw : String)
    (fault : Fault)
    : ¬ Raises m p (.start raw : Tally σ) fault := by
  intro raised
  cases raised with
  | ended terminated => cases terminated
  | deep room => exact absurd room (by simpa [Tally.start] using h.room)
  | unknown member missing => cases (h.known _ _ member).symm.trans missing
  | behindTail misplaced => exact misplaced h.tailsLast

/-- Patterns that a matcher admits never lead to a fault: every attempt matches or is rejected,
whatever tokens and text it is given, and matching a call stops with a fault exactly if the call
has no tokens because of it.
-/
theorem faultless_of_admits {m : Matcher} {p : Pattern} (h : m.Admits p)
    : (∀ index tokens raw, ∃ attempt : Attempt σ, m.attempt index p tokens raw = .ok attempt)
      ∧ ∀ raw fault,
          (m.matchCall p raw : Except (Failure σ) (Outcome σ)) = .error (.fault fault)
          ↔ m.tokenize raw = .error fault := by
  have attempted (index : Nat) (tokens : List Token) (raw : String)
      : ∃ attempt : Attempt σ, m.attempt index p tokens raw = .ok attempt := by
    cases hattempt : (m.attempt index p tokens raw : Except Fault (Attempt σ)) with
    | ok attempt => exact ⟨attempt, rfl⟩
    | error fault => exact absurd (raises_of_attempt hattempt) (h.not_raises raw fault)
  refine ⟨attempted, ?_⟩
  intro raw fault
  unfold matchCall
  cases m.tokenize raw with
  | error other => simp
  | ok tokens =>
      obtain ⟨attempt, hattempt⟩ := attempted 0 tokens raw
      cases attempt <;> simp [hattempt]

/-- A tail in an alternative of an optional group at the end: any tokens match or are rejected, and
only an open quote is a fault.
-/
theorem faultless_of_admits_open_quote
    : ∃ p : Pattern,
        p = .sequence
          [.literal "say" true,
           .optional none (.variant none false [.parameter "times" (some "int"), .tail "words"])]
        ∧ Matcher.standard.Admits p
        ∧ (∃ attempt : Attempt Rat,
            Matcher.standard.attempt 2 p [⟨"say", ⟨5, 3⟩⟩, ⟨"twice", ⟨0, 9⟩⟩] "" = .ok attempt)
        ∧ (Matcher.standard.matchCall p "say 'hi" : Except (Failure Rat) (Outcome Rat))
          = .error (.fault (.unterminatedQuote '\'' 4)) := by
  have admitted : Matcher.standard.Admits (.sequence
      [.literal "say" true,
       .optional none (.variant none false [.parameter "times" (some "int"), .tail "words"])]) := by
    refine ⟨by decide, ?_, ?_⟩
    · intro name typeName member
      rw [Pattern.traverse_eq_preorder] at member
      obtain ⟨-, rfl⟩ : name = "times" ∧ typeName = "int" := by
        simpa [Pattern.preorder, Pattern.preorderAll] using member
      rfl
    · rintro children member child hchild ⟨name, htail⟩
      rw [Pattern.traverse_eq_preorder] at member htail
      obtain rfl : children = _ := by
        simpa [Pattern.preorder, Pattern.preorderAll] using member
      obtain rfl : child = .literal "say" true := by
        simpa using hchild
      simp [Pattern.preorder] at htail
  exact ⟨_, rfl, admitted, (faultless_of_admits admitted).1 _ _ _,
    ((faultless_of_admits admitted).2 _ _).mpr rfl⟩

end Matcher

end CallGrammar

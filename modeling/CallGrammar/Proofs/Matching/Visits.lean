import CallGrammar.Matching.Best
import CallGrammar.Proofs.Matching.Choice
import CallGrammar.Proofs.Pattern.Traversal

/-! How a run enters and leaves patterns: every kind of pattern is visited in the same way, and
patterns one after the other are visited in turn.
-/

namespace CallGrammar

variable {σ : Type}

namespace Matcher

theorem visit_of_terminated {tally : Tally σ} (h : tally.terminated = true) (m : Matcher)
    (kind : Kind) (inside : Tally σ → Verdict σ × Tally σ)
    : m.visit kind inside tally = (.fault (.matchAfterTermination kind), tally) := by
  rw [visit, if_pos h]

theorem visit_of_deep {m : Matcher} {tally : Tally σ} (h : tally.terminated = false)
    (deep : m.maxDepth ≤ tally.depth) (kind : Kind) (inside : Tally σ → Verdict σ × Tally σ)
    : m.visit kind inside tally = (.fault (.depthExceeded m.maxDepth), tally) := by
  rw [visit, if_neg (by simp [h]), if_pos deep]

theorem visit_of_open {m : Matcher} {tally : Tally σ} (h : tally.terminated = false)
    (shallow : tally.depth < m.maxDepth) (kind : Kind)
    (inside : Tally σ → Verdict σ × Tally σ)
    : m.visit kind inside tally = ((inside tally.enter).1, (inside tally.enter).2.leave) := by
  rw [visit, if_neg (by simp [h]), if_neg (by omega)]

/-- A visit succeeds only in a call that was not taken to its end, and as what happens inside
does.
-/
theorem visit_eq_ok {m : Matcher} {kind : Kind} {inside : Tally σ → Verdict σ × Tally σ}
    {tally after : Tally σ} {rest : List Token}
    (h : m.visit kind inside tally = (.ok rest, after))
    : tally.terminated = false
      ∧ ∃ last, inside tally.enter = (.ok rest, last) ∧ after = last.leave := by
  unfold visit at h
  split at h
  · cases h
  · rename_i ht
    split at h
    · cases h
    · obtain ⟨hv, ha⟩ := Prod.mk.inj h
      exact ⟨Bool.not_eq_true _ ▸ ht, _, Prod.ext hv rfl, ha.symm⟩

variable [Scale σ]

/-- What a run does inside a pattern. -/
def inside (m : Matcher) (p : Pattern) (tokens : List Token) (tally : Tally σ)
    : Verdict σ × Tally σ :=
  match p with
  | .literal text caseSensitive => m.runLiteral text caseSensitive tokens tally
  | .parameter name typeName => m.runParameter name typeName tokens tally
  | .tail name => runTail name tokens tally
  | .optional identifier inner =>
      settleOptional identifier tokens tally (m.run inner tokens tally.branch)
  | .variant identifier _ alternatives =>
      settleVariant identifier alternatives tally (m.runEach alternatives tokens tally.branch)
  | .sequence children => m.runAll children tokens tally

/-- A run visits its pattern, by cases on the kind. -/
theorem run_eq_visit (m : Matcher) (p : Pattern) (tokens : List Token) (tally : Tally σ)
    : m.run p tokens tally = m.visit p.kind (m.inside p tokens) tally := by
  cases p <;> rw [run] <;> rfl

@[simp]
theorem runAll_singleton (m : Matcher) (p : Pattern) (tokens : List Token) (tally : Tally σ)
    : m.runAll [p] tokens tally = m.run p tokens tally := by
  rw [runAll]
  split
  · rename_i rest after h
    rw [runAll, h]
  · rename_i h
    rw [h]

/-- The second part of some patterns goes on where the first one ended, by list induction. -/
theorem runAll_append (m : Matcher) (ps qs : List Pattern) (tokens : List Token)
    (tally : Tally σ)
    : m.runAll (ps ++ qs) tokens tally
      = match m.runAll ps tokens tally with
        | (.ok rest, after) => m.runAll qs rest after
        | (.error failure, after) => (.error failure, after) := by
  induction ps generalizing tokens tally with
  | nil => rfl
  | cons p ps ih =>
      rw [List.cons_append, runAll, runAll]
      rcases m.run p tokens tally with ⟨failure | rest, after⟩
      · rfl
      · exact ih rest after

/-- A call taken to its end admits no further pattern. -/
theorem runAll_of_terminated {tally : Tally σ} (h : tally.terminated = true) {ps : List Pattern}
    (filled : ps ≠ []) (m : Matcher) (tokens : List Token)
    : ∃ kind, m.runAll ps tokens tally = (.fault (.matchAfterTermination kind), tally) := by
  obtain ⟨p, rest, rfl⟩ := List.exists_cons_of_ne_nil filled
  refine ⟨p.kind, ?_⟩
  rw [runAll, run_eq_visit, visit_of_terminated h]
  rfl

/-- An optional group that succeeds is present with what matched on a branch, or absent because
its contents do not fit.
-/
theorem settleOptional_eq_ok {identifier : Option String} {tokens rest : List Token}
    {tally after : Tally σ} {result : Verdict σ × Tally σ}
    (h : settleOptional identifier tokens tally result = (.ok rest, after))
    : (∃ branch,
        result = (.ok rest, branch) ∧ after = (tally.recordOptional identifier true).join branch)
      ∨ ∃ reason branch,
        result = (.mismatch reason, branch)
        ∧ rest = tokens
        ∧ after = { tally.recordOptional identifier false with hint := some reason } := by
  unfold settleOptional at h
  split at h
  · cases h
    exact .inl ⟨_, rfl, rfl⟩
  · cases h
    exact .inr ⟨_, _, rfl, rfl, rfl⟩
  · cases h

/-- A variant that succeeds is the best of the results of its alternatives. -/
theorem settleVariant_eq_ok {identifier : Option String} {alternatives : List Pattern}
    {tally after : Tally σ} {rest : List Token}
    {results : Except Fault (List (Except (Mismatch σ) (List Token × Tally σ)))}
    (h : settleVariant identifier alternatives tally results = (.ok rest, after))
    : ∃ successes index branch,
        results = .ok successes
        ∧ earliestBest (fun result => result.2.score) none 0 successes = some (index, rest, branch)
        ∧ after = (tally.recordVariant identifier index).join branch := by
  unfold settleVariant at h
  split at h
  · cases h
  · split at h
    · rename_i hb
      cases h
      exact ⟨_, _, _, rfl, hb, rfl⟩
    · cases h

/-- A success stands among the results of alternatives where the alternative does that has it, by
list induction.
-/
theorem getElem?_runEach {m : Matcher} {alternatives : List Pattern} {tokens left : List Token}
    {branch tally : Tally σ} {results : List (Except (Mismatch σ) (List Token × Tally σ))}
    (h : m.runEach alternatives tokens branch = .ok results) (place : Nat)
    : results[place]? = some (.ok (left, tally))
      ↔ ∃ p, alternatives[place]? = some p ∧ m.run p tokens branch = (.ok left, tally) := by
  induction alternatives generalizing results place with
  | nil =>
      cases h
      simp
  | cons p rest ih =>
      have next {result : Except (Mismatch σ) (List Token × Tally σ)}
          (h : (m.runEach rest tokens branch).map (result :: ·) = .ok results)
          : ∃ others, m.runEach rest tokens branch = .ok others ∧ results = result :: others := by
        cases hr : m.runEach rest tokens branch with
        | error fault => rw [hr] at h; cases h
        | ok others =>
            rw [hr] at h
            cases h
            exact ⟨others, rfl, rfl⟩
      rw [runEach] at h
      split at h
      · rename_i first after hp
        obtain ⟨others, ho, rfl⟩ := next h
        cases place with
        | zero => simp [hp]
        | succ place => simpa using ih ho place
      · rename_i reason after hp
        obtain ⟨others, ho, rfl⟩ := next h
        cases place with
        | zero => simp [hp]
        | succ place => simpa using ih ho place
      · cases h

/-- What is chosen among the results of alternatives is what the alternative at its place does. -/
theorem exists_run_of_chosen {m : Matcher} {alternatives : List Pattern} {tokens left : List Token}
    {branch tally : Tally σ} {results : List (Except (Mismatch σ) (List Token × Tally σ))}
    {score : List Token × Tally σ → σ} {index : Nat}
    (h : m.runEach alternatives tokens branch = .ok results)
    (best : earliestBest score none 0 results = some (index, left, tally))
    : ∃ p, alternatives[index]? = some p ∧ m.run p tokens branch = (.ok left, tally) :=
  (getElem?_runEach h index).mp (isChoice_of_eq best).1

/-- A call that matches leaves no token of a run from nothing. -/
theorem matchCall_eq_ok {m : Matcher} {p : Pattern} {raw : String} {outcome : Outcome σ}
    (h : m.matchCall p raw = .ok outcome)
    : ∃ tokens tally,
        m.tokenize raw = .ok tokens
        ∧ m.run p tokens (.start raw) = (.ok [], tally)
        ∧ outcome = tally.outcome := by
  unfold matchCall at h
  split at h
  · cases h
  · rename_i tokens ht
    refine ⟨tokens, ?_⟩
    unfold attempt at h
    generalize m.run p tokens (.start raw : Tally σ) = result at h
    obtain ⟨(_ | _) | (_ | _), tally⟩ := result
    · cases h
    · cases h
    · cases h
      exact ⟨tally, ht, rfl, rfl⟩
    · cases h

end Matcher

end CallGrammar

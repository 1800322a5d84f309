import CallGrammar.Proofs.Matching.Faults

/-! What the limit of the depth does. A run that is not cut off is the same under every larger
limit, and a limit with room for all levels of a pattern never cuts off. The depth of a tally stays
within the limit as long as a run goes on inside it, so counting it neither overflows nor falls
below nothing.
-/

namespace CallGrammar

variable {σ : Type}

------------------------------------------------------------
-- Larger limits

/-- A matcher under another limit of the depth. -/
def Matcher.limited (m : Matcher) (limit : Nat) : Matcher :=
  { m with maxDepth := limit }

/-- A result stays as it is unless it was cut off by the limit of the depth. -/
inductive Persists : Verdict σ × Tally σ → Verdict σ × Tally σ → Prop
  | cut {limit tally result} : Persists (.fault (.depthExceeded limit), tally) result
  | same {result} : Persists result result

/-- The results of alternatives stay as they are unless one was cut off. -/
inductive PersistsEach
    : Except Fault (List (Except (Mismatch σ) (List Token × Tally σ)))
      → Except Fault (List (Except (Mismatch σ) (List Token × Tally σ))) → Prop
  | cut {limit results} : PersistsEach (.error (.depthExceeded limit)) results
  | same {results} : PersistsEach results results

namespace Persists

variable {m : Matcher} {smaller larger : Nat}

/-- What was not cut off stays as it is. -/
theorem eq {result result' : Verdict σ × Tally σ} (h : Persists result result')
    (uncut : ∀ limit, result.1 ≠ .fault (.depthExceeded limit))
    : result' = result := by
  cases h with
  | cut => exact absurd rfl (uncut _)
  | same => rfl

variable [Scale σ]

theorem settleOptional {result result' : Verdict σ × Tally σ} (h : Persists result result')
    (identifier : Option String) (tokens : List Token) (tally : Tally σ)
    : Persists (Matcher.settleOptional identifier tokens tally result)
        (Matcher.settleOptional identifier tokens tally result') := by
  cases h with
  | cut => exact .cut
  | same => exact .same

/-- Patterns one after the other stay as they are if each does, by list induction. -/
theorem runAll {ps : List Pattern}
    (h : ∀ p ∈ ps, ∀ tokens (tally : Tally σ),
      Persists ((m.limited smaller).run p tokens tally) ((m.limited larger).run p tokens tally))
    (tokens : List Token) (tally : Tally σ)
    : Persists ((m.limited smaller).runAll ps tokens tally)
        ((m.limited larger).runAll ps tokens tally) := by
  induction ps generalizing tokens tally with
  | nil => exact .same
  | cons p rest ih =>
      have hp := h p List.mem_cons_self tokens tally
      have hrest := ih fun q hq => h q (List.mem_cons_of_mem p hq)
      rw [Matcher.runAll, Matcher.runAll]
      generalize (m.limited smaller).run p tokens tally = result at hp
      generalize (m.limited larger).run p tokens tally = result' at hp
      cases hp with
      | cut => exact .cut
      | same =>
          obtain ⟨failure | left, after⟩ := result
          · exact .same
          · exact hrest left after

end Persists

namespace PersistsEach

variable {m : Matcher} {smaller larger : Nat} {tokens : List Token}

theorem cons {results results' : Except Fault (List (Except (Mismatch σ) (List Token × Tally σ)))}
    (h : PersistsEach results results') (result : Except (Mismatch σ) (List Token × Tally σ))
    : PersistsEach (results.map (result :: ·)) (results'.map (result :: ·)) := by
  cases h with
  | cut => exact .cut
  | same => exact .same

variable [Scale σ]

theorem settleVariant
    {results results' : Except Fault (List (Except (Mismatch σ) (List Token × Tally σ)))}
    (h : PersistsEach results results') (identifier : Option String) (alternatives : List Pattern)
    (tally : Tally σ)
    : Persists (Matcher.settleVariant identifier alternatives tally results)
        (Matcher.settleVariant identifier alternatives tally results') := by
  cases h with
  | cut => exact .cut
  | same => exact .same

/-- Alternatives stay as they are if each does, by list induction. -/
theorem runEach {alternatives : List Pattern} {branch : Tally σ}
    (h : ∀ p ∈ alternatives,
      Persists ((m.limited smaller).run p tokens branch) ((m.limited larger).run p tokens branch))
    : PersistsEach ((m.limited smaller).runEach alternatives tokens branch)
        ((m.limited larger).runEach alternatives tokens branch) := by
  induction alternatives with
  | nil => exact .same
  | cons p rest ih =>
      have hp := h p List.mem_cons_self
      have hrest := ih fun q hq => h q (List.mem_cons_of_mem p hq)
      rw [Matcher.runEach, Matcher.runEach]
      generalize (m.limited smaller).run p tokens branch = result at hp
      generalize (m.limited larger).run p tokens branch = result' at hp
      cases hp with
      | cut => exact .cut
      | same =>
          obtain ⟨(reason | fault) | left, after⟩ := result
          · exact hrest.cons _
          · exact .same
          · exact hrest.cons _

end PersistsEach

namespace Matcher

section Limits

variable [Scale σ] {m : Matcher} {smaller larger : Nat}

/-- A run stays as it is under a larger limit if what happens inside its pattern does. -/
theorem persists_of_inside (le : smaller ≤ larger) {p : Pattern} {tokens : List Token}
    {tally : Tally σ}
    (h : Persists ((m.limited smaller).inside p tokens tally.enter)
      ((m.limited larger).inside p tokens tally.enter))
    : Persists ((m.limited smaller).run p tokens tally)
        ((m.limited larger).run p tokens tally) := by
  rw [run_eq_visit, run_eq_visit]
  cases ht : tally.terminated with
  | true =>
      rw [visit_of_terminated ht, visit_of_terminated ht]
      exact .same
  | false =>
      rcases Nat.lt_or_ge tally.depth smaller with shallow | deep
      · rw [visit_of_open ht shallow, visit_of_open ht (Nat.lt_of_lt_of_le shallow le)]
        generalize (m.limited smaller).inside p tokens tally.enter = result at h
        cases h with
        | cut => exact .cut
        | same => exact .same
      · rw [visit_of_deep ht deep]
        exact .cut

/-- A run stays as it is under a larger limit unless it was cut off, by induction on the pattern. -/
theorem persists_run (le : smaller ≤ larger) (m : Matcher) (p : Pattern) (tokens : List Token)
    (tally : Tally σ)
    : Persists ((m.limited smaller).run p tokens tally)
        ((m.limited larger).run p tokens tally) := by
  induction p generalizing tokens tally with
  | literal text caseSensitive => exact persists_of_inside le .same
  | parameter name typeName => exact persists_of_inside le .same
  | tail name => exact persists_of_inside le .same
  | optional identifier inner ih =>
      have hinner := ih tokens tally.enter.branch
      exact persists_of_inside le (hinner.settleOptional identifier tokens tally.enter)
  | variant identifier parenthesized alternatives ih =>
      have heach := PersistsEach.runEach fun p hp => ih p hp tokens tally.enter.branch
      exact persists_of_inside le (heach.settleVariant identifier alternatives tally.enter)
  | sequence children ih =>
      exact persists_of_inside le (Persists.runAll ih tokens tally.enter)

end Limits

------------------------------------------------------------
-- Counting within bounds

/-- Enters a pattern as a visit does and comes back from it, if the depth can be counted: there is
no result if it would go beyond the largest number or below nothing.
-/
def visitCounted (m : Matcher) (largest : Nat) (kind : Kind)
    (inside : Tally σ → Option (Verdict σ × Tally σ)) (tally : Tally σ)
    : Option (Verdict σ × Tally σ) :=
  if tally.terminated then some (.fault (.matchAfterTermination kind), tally)
  else if tally.depth ≥ m.maxDepth then some (.fault (.depthExceeded m.maxDepth), tally)
  else if tally.depth ≥ largest then none
  else
    (inside tally.enter).bind fun (verdict, after) =>
      if after.depth = 0 then none else some (verdict, after.leave)

/-- A visit can be counted if the limit can and what happens inside comes back to its depth. -/
theorem visitCounted_eq {m : Matcher} {largest : Nat} (countable : m.maxDepth ≤ largest)
    {counted : Tally σ → Option (Verdict σ × Tally σ)} {inside : Tally σ → Verdict σ × Tally σ}
    (h : ∀ tally, counted tally = some (inside tally))
    (level : ∀ tally, (inside tally).2.depth = tally.depth) (kind : Kind) (tally : Tally σ)
    : m.visitCounted largest kind counted tally = some (m.visit kind inside tally) := by
  unfold visitCounted visit
  split
  · rfl
  · split
    · rfl
    · have hlevel : (inside tally.enter).2.depth = tally.depth + 1 := level tally.enter
      have hinside : (inside tally.enter).2.depth ≠ 0 := by omega
      rw [if_neg (by omega), h, Option.bind_some]
      exact if_neg hinside

variable [Scale σ]

mutual

/-- Matches a pattern as a run does, with a depth that is counted up to the largest number. -/
def runCounted (m : Matcher) (largest : Nat) (p : Pattern) (tokens : List Token) (tally : Tally σ)
    : Option (Verdict σ × Tally σ) :=
  match p with
  | .literal text caseSensitive =>
      m.visitCounted largest .literal
        (fun tally => some (m.runLiteral text caseSensitive tokens tally)) tally
  | .parameter name typeName =>
      m.visitCounted largest .parameter
        (fun tally => some (m.runParameter name typeName tokens tally)) tally
  | .tail name =>
      m.visitCounted largest .tail (fun tally => some (runTail name tokens tally)) tally
  | .optional identifier inner =>
      m.visitCounted largest .optional
        (fun tally =>
          (m.runCounted largest inner tokens tally.branch).map
            (settleOptional identifier tokens tally))
        tally
  | .variant identifier _ alternatives =>
      m.visitCounted largest .variant
        (fun tally =>
          (m.runEachCounted largest alternatives tokens tally.branch).map
            (settleVariant identifier alternatives tally))
        tally
  | .sequence children =>
      m.visitCounted largest .sequence (m.runAllCounted largest children tokens) tally

/-- Matches patterns one after the other. -/
def runAllCounted (m : Matcher) (largest : Nat) (ps : List Pattern) (tokens : List Token)
    (tally : Tally σ) : Option (Verdict σ × Tally σ) :=
  match ps with
  | [] => some (.ok tokens, tally)
  | p :: rest =>
      match m.runCounted largest p tokens tally with
      | none => none
      | some (.ok tokens, tally) => m.runAllCounted largest rest tokens tally
      | some (.error failure, tally) => some (.error failure, tally)

/-- Matches each pattern on its own against the same tokens, up to the first fault. -/
def runEachCounted (m : Matcher) (largest : Nat) (ps : List Pattern) (tokens : List Token)
    (branch : Tally σ)
    : Option (Except Fault (List (Except (Mismatch σ) (List Token × Tally σ)))) :=
  match ps with
  | [] => some (.ok [])
  | p :: rest =>
      match m.runCounted largest p tokens branch with
      | none => none
      | some (.ok left, tally) =>
          (m.runEachCounted largest rest tokens branch).map (·.map (.ok (left, tally) :: ·))
      | some (.error (.mismatch reason), _) =>
          (m.runEachCounted largest rest tokens branch).map (·.map (.error reason :: ·))
      | some (.error (.fault fault), _) => some (.error fault)

end

theorem runAllCounted_eq {m : Matcher} {largest : Nat} {ps : List Pattern}
    (h : ∀ p ∈ ps, ∀ tokens (tally : Tally σ),
      m.runCounted largest p tokens tally = some (m.run p tokens tally))
    (tokens : List Token) (tally : Tally σ)
    : m.runAllCounted largest ps tokens tally = some (m.runAll ps tokens tally) := by
  induction ps generalizing tokens tally with
  | nil => rfl
  | cons p rest ih =>
      rw [runAllCounted, runAll, h p List.mem_cons_self]
      obtain ⟨failure | left, after⟩ := m.run p tokens tally
      · rfl
      · exact ih (fun q hq => h q (List.mem_cons_of_mem p hq)) left after

theorem runEachCounted_eq {m : Matcher} {largest : Nat} {alternatives : List Pattern}
    {tokens : List Token} {branch : Tally σ}
    (h : ∀ p ∈ alternatives, m.runCounted largest p tokens branch = some (m.run p tokens branch))
    : m.runEachCounted largest alternatives tokens branch
      = some (m.runEach alternatives tokens branch) := by
  induction alternatives with
  | nil => rfl
  | cons p rest ih =>
      have hrest := ih fun q hq => h q (List.mem_cons_of_mem p hq)
      rw [runEachCounted, runEach, h p List.mem_cons_self]
      obtain ⟨(reason | fault) | left, after⟩ := m.run p tokens branch
      · dsimp only
        rw [hrest]
        rfl
      · rfl
      · dsimp only
        rw [hrest]
        rfl

/-- Counting the depth gives the same run, by induction on the pattern. -/
theorem runCounted_eq {m : Matcher} {largest : Nat} (countable : m.maxDepth ≤ largest)
    (p : Pattern) (tokens : List Token) (tally : Tally σ)
    : m.runCounted largest p tokens tally = some (m.run p tokens tally) := by
  induction p generalizing tokens tally with
  | literal text caseSensitive =>
      rw [runCounted, run]
      exact visitCounted_eq countable (fun _ => rfl) (m.depth_runLiteral _ _ _) _ tally
  | parameter name typeName =>
      rw [runCounted, run]
      exact visitCounted_eq countable (fun _ => rfl) (m.depth_runParameter _ _ _) _ tally
  | tail name =>
      rw [runCounted, run]
      exact visitCounted_eq countable (fun _ => rfl) (depth_runTail _ _) _ tally
  | optional identifier inner ih =>
      rw [runCounted, run]
      refine visitCounted_eq countable ?_ (fun _ => depth_settleOptional _ _ _ _) _ tally
      intro tally
      rw [ih]
      rfl
  | variant identifier parenthesized alternatives ih =>
      rw [runCounted, run]
      refine visitCounted_eq countable ?_ (fun _ => depth_settleVariant _ _ _ _) _ tally
      intro tally
      rw [runEachCounted_eq fun p hp => ih p hp tokens tally.branch]
      rfl
  | sequence children ih =>
      rw [runCounted, run]
      exact visitCounted_eq countable (runAllCounted_eq ih tokens) (m.depth_runAll _ _) _ tally

------------------------------------------------------------
-- Limits

/-- A run is cut off only by the limit of its matcher, and only where the pattern has more levels
than the limit leaves room for.
-/
theorem limit_eq_of_depthExceeded {m : Matcher} {p : Pattern} {tokens : List Token}
    {tally : Tally σ} {limit : Nat} (h : (m.run p tokens tally).1 = .fault (.depthExceeded limit))
    : limit = m.maxDepth ∧ m.maxDepth < tally.depth + p.depth := by
  cases raises_of_run h with
  | deep room => exact ⟨rfl, room⟩

/-- Limits of the depth only cut off: a run from nothing that a limit does not cut off is the same,
tally included, under every larger one; a limit of no less than the levels of the pattern does not
cut off; a run that is cut off mentions the limit of its matcher; and every run, whatever its tally,
can count its depth up to any number that its limit does not exceed, and comes back to the depth at
which it started.
-/
theorem limits_only_cut_off (m : Matcher) (p : Pattern) (tokens : List Token)
    : (∀ raw smaller larger,
        smaller ≤ larger
        → (∀ limit,
            ((m.limited smaller).run p tokens (.start raw : Tally σ)).1
              ≠ .fault (.depthExceeded limit))
        → (m.limited larger).run p tokens (.start raw : Tally σ)
          = (m.limited smaller).run p tokens (.start raw))
      ∧ (p.depth ≤ m.maxDepth
        → ∀ raw limit,
            (m.run p tokens (.start raw : Tally σ)).1 ≠ .fault (.depthExceeded limit))
      ∧ ∀ tally : Tally σ,
          (∀ limit,
            (m.run p tokens tally).1 = .fault (.depthExceeded limit) → limit = m.maxDepth)
          ∧ (∀ largest,
              m.maxDepth ≤ largest
              → m.runCounted largest p tokens tally = some (m.run p tokens tally))
          ∧ (m.run p tokens tally).2.depth = tally.depth := by
  refine ⟨?_, ?_, ?_⟩
  · intro raw smaller larger le uncut
    exact (m.persists_run le p tokens (.start raw)).eq uncut
  · intro room raw limit hcut
    obtain ⟨-, deep⟩ := limit_eq_of_depthExceeded hcut
    exact absurd deep (by simpa [Tally.start] using room)
  · intro tally
    refine ⟨?_, ?_, m.depth_run p tokens tally⟩
    · intro limit hcut
      exact (limit_eq_of_depthExceeded hcut).1
    · intro largest countable
      exact runCounted_eq countable p tokens tally

/-- Three levels, which a limit of two cuts off in the optional group and a limit of three does not,
and a run from a tally for which they are one too many, so that its depth is counted up to the
largest number.
-/
theorem limits_only_cut_off_go_home
    : ∃ (p : Pattern) (tokens : List Token) (deep : Tally Rat),
        p = .sequence [.literal "go" true, .optional none (.literal "home" true)]
        ∧ tokens = [⟨"go", ⟨0, 2⟩⟩, ⟨"home", ⟨3, 7⟩⟩]
        ∧ deep = { Tally.start "go home" with depth := 253 }
        ∧ ((standard.limited 2).run p tokens (.start "go home" : Tally Rat)).1
          = .fault (.depthExceeded 2)
        ∧ (standard.limited 64).run p tokens (.start "go home" : Tally Rat)
          = (standard.limited 3).run p tokens (.start "go home")
        ∧ ((standard.limited 255).run p tokens deep).1 = .fault (.depthExceeded 255)
        ∧ (standard.limited 255).runCounted 255 p tokens deep
          = some ((standard.limited 255).run p tokens deep)
        ∧ ((standard.limited 255).run p tokens deep).2.depth = 253 := by
  refine ⟨_, _, _, rfl, rfl, rfl, rfl, ?_, rfl, ?_⟩
  · refine (limits_only_cut_off standard _ _).1 "go home" 3 64 (by decide) ?_
    exact (limits_only_cut_off (standard.limited 3) _ _).2.1 (by decide) "go home"
  · exact ((limits_only_cut_off (standard.limited 255) _ _).2.2 _).2.imp_left fun counted =>
      counted 255 (Nat.le_refl _)

end Matcher

end CallGrammar

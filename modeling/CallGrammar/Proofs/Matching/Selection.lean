import CallGrammar.Proofs.Matching.RoundedScores

/-! What is selected among several candidates. The first fault decides, whatever matched before it.
Without faults the earliest match of greatest score is selected, and where nothing matches, every
candidate is rejected and the earliest rejection of greatest progress is the best one.
-/

namespace CallGrammar

------------------------------------------------------------
-- Errors and successes

section Results

variable {ε α : Type}

/-- The first error among results and its place: before it there are successes only. -/
structure FirstError (results : List (Except ε α)) (index : Nat) (error : ε) : Prop where
  found : results[index]? = some (.error error)
  before : ∀ place < index, ∃ value, results[place]? = some (.ok value)

/-- The values of all results, or the first error. -/
def collected : List (Except ε α) → Except ε (List α)
  | [] => .ok []
  | .error error :: _ => .error error
  | .ok value :: rest => (collected rest).map (value :: ·)

/-- An error stays the first one behind a success. -/
theorem FirstError.cons {results : List (Except ε α)} {index : Nat} {error : ε}
    (h : FirstError results index error) (value : α)
    : FirstError (.ok value :: results) (index + 1) error := by
  refine ⟨h.found, ?_⟩
  intro place hplace
  cases place with
  | zero => exact ⟨value, rfl⟩
  | succ place => exact h.before place (Nat.lt_of_succ_lt_succ hplace)

/-- Where there are errors, the first one is collected, by list induction. -/
theorem collected_of_errors {results : List (Except ε α)}
    (h : ∃ error, .error error ∈ results)
    : ∃ index error, FirstError results index error ∧ collected results = .error error := by
  obtain ⟨error, member⟩ := h
  induction results with
  | nil => cases member
  | cons result rest ih =>
      cases result with
      | error first => exact ⟨0, first, ⟨rfl, by simp⟩, rfl⟩
      | ok value =>
          have later : .error error ∈ rest := by simpa using member
          obtain ⟨index, first, hfirst, hrest⟩ := ih later
          refine ⟨index + 1, first, hfirst.cons value, ?_⟩
          rw [collected, hrest]
          rfl

/-- Without errors all values are collected, by list induction. -/
theorem collected_of_no_errors {results : List (Except ε α)}
    (h : ∀ error, .error error ∉ results)
    : ∃ values, results = values.map .ok ∧ collected results = .ok values := by
  induction results with
  | nil => exact ⟨[], rfl, rfl⟩
  | cons result rest ih =>
      cases result with
      | error error => exact absurd List.mem_cons_self (h error)
      | ok value =>
          have later (error : ε) : .error error ∉ rest := fun member =>
            h error (List.mem_cons_of_mem _ member)
          obtain ⟨values, rfl, hrest⟩ := ih later
          refine ⟨value :: values, rfl, ?_⟩
          rw [collected, hrest]
          rfl

theorem error_not_mem_of_all_isOk {results : List (Except ε α)}
    (h : results.all Except.isOk = true) (error : ε)
    : .error error ∉ results := by
  intro member
  exact Bool.false_ne_true (List.all_eq_true.mp h _ member)

end Results

------------------------------------------------------------
-- Attempts

variable {σ : Type}

/-- Where nothing matched, all attempts are rejections, by list induction. -/
theorem Matcher.eq_map_rejections {attempts : List (Attempt σ)}
    (h : ∀ outcome, .ok outcome ∉ attempts)
    : attempts = (rejections attempts).map .error := by
  induction attempts with
  | nil => rfl
  | cons attempt rest ih =>
      have later := ih fun outcome member => h outcome (List.mem_cons_of_mem _ member)
      cases attempt with
      | ok outcome => exact absurd List.mem_cons_self (h outcome)
      | error rejection => exact congrArg (.error rejection :: ·) later

variable [Scale σ]

namespace Matcher

theorem earliestBest_eq_none {attempts : List (Attempt σ)}
    (h : ∀ outcome, .ok outcome ∉ attempts)
    : earliestBest Outcome.score none 0 attempts = none := by
  cases hb : earliestBest Outcome.score none 0 attempts with
  | none => rfl
  | some best =>
      obtain ⟨index, outcome⟩ := best
      exact absurd (List.mem_of_getElem? (isChoice_of_eq hb).1) (h outcome)

variable [OrderedScale σ]

/-- Where something matched, the best match leads all others. -/
theorem exists_leads_of_match {attempts : List (Attempt σ)}
    (scores : ∀ attempt ∈ attempts, IsScore (attemptScore attempt))
    (h : ∃ outcome, .ok outcome ∈ attempts)
    : ∃ index outcome,
        earliestBest Outcome.score none 0 attempts = some (index, outcome)
        ∧ Leads Outcome.score (Succeeds attempts) index outcome := by
  cases hb : earliestBest Outcome.score none 0 attempts with
  | none =>
      obtain ⟨outcome, member⟩ := h
      exact absurd member (isChoice_of_eq hb outcome)
  | some best =>
      obtain ⟨index, outcome⟩ := best
      refine ⟨index, outcome, rfl, (isChoice_of_eq hb).2 OrderedScale.orderedOn ?_⟩
      intro other member
      exact scores _ member

end Matcher

/-- The furthest of some rejections leads all of them. -/
theorem Rejected.exists_leads {μ : Type} [OrderedScale σ] {rejections : List (Rejected σ μ)}
    (scores : ∀ rejection ∈ rejections, IsScore rejection.progress) (filled : rejections ≠ [])
    : ∃ index best,
        furthest? rejections = some best
        ∧ Leads Rejected.progress (fun place rejection => rejections[place]? = some rejection)
            index best := by
  obtain ⟨best, hbest⟩ : ∃ best, furthest? rejections = some best := by
    cases rejections with
    | nil => exact absurd rfl filled
    | cons first rest => exact ⟨_, rfl⟩
  have furthest := isFurthest_of_eq scores hbest
  have hle {other : Rejected σ μ} (member : other ∈ rejections) : other.progress ≤ best.progress :=
    furthest.le scores member
  obtain ⟨before, after, hsplit, hlt, -⟩ := furthest
  refine ⟨before.length, best, hbest, ?_, ?_, ?_⟩
  · rw [hsplit]
    simp
  · intro place other ho
    exact hle (List.mem_of_getElem? ho)
  · intro place other ho hplace
    rw [hsplit, List.getElem?_append_left hplace] at ho
    exact hlt other (List.mem_of_getElem? ho)

------------------------------------------------------------
-- Candidates by themselves

namespace Matcher

/-- What the candidates give, each tried by itself at its place. -/
def results (scale : Type) [Scale scale] (m : Matcher) (ps : List Pattern) (tokens : List Token)
    (raw : String) : List (Except Fault (Attempt scale)) :=
  ps.mapIdx fun index p => m.attempt index p tokens raw

theorem getElem?_results (m : Matcher) (ps : List Pattern) (tokens : List Token) (raw : String)
    (index : Nat)
    : (m.results σ ps tokens raw)[index]? = ps[index]?.map (m.attempt index · tokens raw) :=
  List.getElem?_mapIdx

/-- Attempts in turn collect what the candidates give from an index on, by list induction. -/
theorem collected_attempts (m : Matcher) (index : Nat) (ps : List Pattern) (tokens : List Token)
    (raw : String)
    : collected (ps.mapIdx fun place p => m.attempt (index + place) p tokens raw)
      = match (m.attemptAll index ps tokens raw : List (Attempt σ) × Option Fault) with
        | (_, some fault) => .error fault
        | (attempts, none) => .ok attempts := by
  induction ps generalizing index with
  | nil => rfl
  | cons p rest ih =>
      have hrest := ih (index + 1)
      simp only [Nat.add_assoc, Nat.add_comm 1] at hrest
      rw [List.mapIdx_cons, Nat.add_zero, attemptAll]
      cases (m.attempt index p tokens raw : Except Fault (Attempt σ)) with
      | error fault => rfl
      | ok attempt =>
          rw [collected, hrest]
          rcases m.attemptAll (index + 1) rest tokens raw with ⟨attempts, _ | fault⟩
          · rfl
          · rfl

/-- The best match is chosen among what the candidates give. -/
theorem matchBest_eq {m : Matcher} {raw : String} {tokens : List Token}
    (cut : m.tokenize raw = .ok tokens) (ps : List Pattern)
    : m.matchBest ps raw
      = match collected (m.results σ ps tokens raw) with
        | .error fault => .error (.fault fault)
        | .ok attempts => (choose attempts).mapError .mismatch := by
  have hcollected := collected_attempts (σ := σ) m 0 ps tokens raw
  simp only [Nat.zero_add] at hcollected
  rw [matchBest, cut, results, hcollected]
  dsimp only
  rcases m.attemptAll 0 ps tokens raw with ⟨attempts, _ | fault⟩
  · rfl
  · rfl

/-- Matching a call against a candidate alone is trying the candidate at any place. -/
theorem matchCall_eq {m : Matcher} {raw : String} {tokens : List Token}
    (cut : m.tokenize raw = .ok tokens) (index : Nat) (p : Pattern)
    : (m.matchCall p raw : Except (Failure σ) (Outcome σ))
      = match m.attempt index p tokens raw with
        | .error fault => .error (.fault fault)
        | .ok (.error rejection) => .error (.mismatch rejection.reason)
        | .ok (.ok outcome) => .ok outcome := by
  rw [matchCall, cut]
  dsimp only
  unfold attempt
  rcases m.run p tokens (.start raw : Tally σ) with ⟨(_ | _) | (_ | _), tally⟩
  all_goals rfl

theorem matchCall_eq_ok_iff {m : Matcher} {raw : String} {tokens : List Token}
    (cut : m.tokenize raw = .ok tokens) (index : Nat) (p : Pattern) (outcome : Outcome σ)
    : m.matchCall p raw = .ok outcome ↔ m.attempt index p tokens raw = .ok (.ok outcome) := by
  rw [matchCall_eq cut index]
  rcases m.attempt index p tokens raw with fault | (rejection | other)
  all_goals simp

/-- A rejection tells the place of its candidate. -/
theorem index_of_attempt {m : Matcher} {index : Nat} {p : Pattern} {tokens : List Token}
    {raw : String} {rejection : Rejection σ}
    (h : m.attempt index p tokens raw = .ok (.error rejection))
    : rejection.index = index := by
  unfold attempt at h
  generalize m.run p tokens (.start raw : Tally σ) = result at h
  obtain ⟨(_ | _) | (_ | _), tally⟩ := result
  · cases h
    rfl
  · cases h
  · cases h
  · cases h
    rfl

/-- Without faults, a candidate's attempt stands at its place. -/
theorem getElem?_attempts_iff {m : Matcher} {ps : List Pattern} {tokens : List Token}
    {raw : String} {attempts : List (Attempt σ)}
    (h : m.results σ ps tokens raw = attempts.map .ok) (index : Nat) (attempt : Attempt σ)
    : attempts[index]? = some attempt
      ↔ ∃ p, ps[index]? = some p ∧ m.attempt index p tokens raw = .ok attempt := by
  have hplace : (attempts.map .ok)[index]? = ps[index]?.map (m.attempt index · tokens raw) := by
    rw [← h]
    exact getElem?_results m ps tokens raw index
  rw [List.getElem?_map] at hplace
  rw [← Option.map_eq_some_iff, ← hplace]
  simp

theorem isScore_of_results {m : Matcher} {ps : List Pattern} {tokens : List Token} {raw : String}
    {attempts : List (Attempt σ)} (h : m.results σ ps tokens raw = attempts.map .ok)
    : ∀ attempt ∈ attempts, IsScore (attemptScore attempt) := by
  intro attempt member
  obtain ⟨index, found⟩ := List.mem_iff_getElem?.mp member
  obtain ⟨p, -, hattempt⟩ := (getElem?_attempts_iff h index attempt).mp found
  exact isScore_of_attempt hattempt

------------------------------------------------------------
-- The best match

/-- The matches among the attempts are the candidates that the call matches alone. -/
theorem succeeds_attempts_iff {m : Matcher} {ps : List Pattern} {tokens : List Token}
    {raw : String} {attempts : List (Attempt σ)} (cut : m.tokenize raw = .ok tokens)
    (h : m.results σ ps tokens raw = attempts.map .ok) (index : Nat) (outcome : Outcome σ)
    : Succeeds attempts index outcome
      ↔ ∃ p, ps[index]? = some p ∧ m.matchCall p raw = .ok outcome := by
  simp only [matchCall_eq_ok_iff cut index]
  exact getElem?_attempts_iff h index (.ok outcome)

/-- Where the call matches no candidate and none has a fault, every candidate is rejected. -/
theorem matchBest_of_no_match {m : Matcher} {ps : List Pattern} {tokens : List Token}
    {raw : String} {attempts : List (Attempt σ)} (cut : m.tokenize raw = .ok tokens)
    (h : m.results σ ps tokens raw = attempts.map .ok)
    (hcollected : collected (m.results σ ps tokens raw) = .ok attempts)
    (unmatched : ∀ p ∈ ps, ∀ outcome : Outcome σ, m.matchCall p raw ≠ .ok outcome)
    : ∃ rejected : List (Rejection σ),
        attempts = rejected.map .error
        ∧ m.matchBest ps raw = .error (.mismatch (.noCandidate rejected)) := by
  have nothing : ∀ outcome, .ok outcome ∉ attempts := by
    intro outcome member
    obtain ⟨index, found⟩ := List.mem_iff_getElem?.mp member
    obtain ⟨p, hp, houtcome⟩ := (succeeds_attempts_iff cut h index outcome).mp found
    exact unmatched p (List.mem_of_getElem? hp) outcome houtcome
  refine ⟨rejections attempts, eq_map_rejections nothing, ?_⟩
  rw [matchBest_eq cut, hcollected]
  simp only [choose, earliestBest_eq_none nothing]
  rfl

variable [OrderedScale σ]

/-- Where the call matches a candidate and no candidate has a fault, the best match leads all
others.
-/
theorem matchBest_of_match {m : Matcher} {ps : List Pattern} {tokens : List Token} {raw : String}
    {attempts : List (Attempt σ)} (cut : m.tokenize raw = .ok tokens)
    (h : m.results σ ps tokens raw = attempts.map .ok)
    (hcollected : collected (m.results σ ps tokens raw) = .ok attempts)
    (matched : ∃ p ∈ ps, ∃ outcome : Outcome σ, m.matchCall p raw = .ok outcome)
    : ∃ index, ∃ outcome : Outcome σ,
        Leads Outcome.score
          (fun place outcome => ∃ p, ps[place]? = some p ∧ m.matchCall p raw = .ok outcome)
          index outcome
        ∧ m.matchBest ps raw = .ok ⟨index, outcome⟩ := by
  obtain ⟨p, member, outcome, houtcome⟩ := matched
  obtain ⟨place, hplace⟩ := List.mem_iff_getElem?.mp member
  have succeeded := (succeeds_attempts_iff cut h place outcome).mpr ⟨p, hplace, houtcome⟩
  obtain ⟨index, best, hbest, leads⟩ :=
    exists_leads_of_match (isScore_of_results h) ⟨outcome, List.mem_of_getElem? succeeded⟩
  refine ⟨index, best, leads.congr (succeeds_attempts_iff cut h), ?_⟩
  rw [matchBest_eq cut, hcollected]
  simp only [choose, hbest]
  rfl

/-- What is selected among candidates, where the call has tokens.

If a candidate stops with a fault, the first fault is the answer, whatever matched before it.
Otherwise, if the call matches a candidate alone, the answer is the earliest such candidate of
greatest score with its outcome. Otherwise there is exactly one rejection per candidate, in order,
with its place and the mismatch of the call with that candidate alone, and the best rejection is
the earliest one of greatest progress.
-/
theorem matchBest_selects {m : Matcher} {raw : String} {tokens : List Token}
    (cut : m.tokenize raw = .ok tokens) (ps : List Pattern)
    : ((∃ fault, .error fault ∈ m.results σ ps tokens raw)
        → ∃ index fault,
            FirstError (m.results σ ps tokens raw) index fault
            ∧ (m.matchBest ps raw : Except (Failure σ) (BestMatch σ)) = .error (.fault fault))
      ∧ ((∀ fault, .error fault ∉ m.results σ ps tokens raw)
        → (∃ p ∈ ps, ∃ outcome : Outcome σ, m.matchCall p raw = .ok outcome)
        → ∃ index, ∃ outcome : Outcome σ,
            Leads Outcome.score
              (fun place outcome => ∃ p, ps[place]? = some p ∧ m.matchCall p raw = .ok outcome)
              index outcome
            ∧ m.matchBest ps raw = .ok ⟨index, outcome⟩)
      ∧ ((∀ fault, .error fault ∉ m.results σ ps tokens raw)
        → (∀ p ∈ ps, ∀ outcome : Outcome σ, m.matchCall p raw ≠ .ok outcome)
        → ∃ rejections : List (Rejection σ),
            m.matchBest ps raw = .error (.mismatch (.noCandidate rejections))
            ∧ rejections.length = ps.length
            ∧ (∀ index p, ps[index]? = some p
              → ∃ rejection,
                  rejections[index]? = some rejection
                  ∧ rejection.index = index
                  ∧ m.attempt index p tokens raw = .ok (.error rejection)
                  ∧ m.matchCall p raw = .error (.mismatch rejection.reason))
            ∧ (ps = [] → (Mismatch.noCandidate rejections).bestRejection? = none)
            ∧ (ps ≠ []
              → ∃ index best,
                  (Mismatch.noCandidate rejections).bestRejection? = some best
                  ∧ Leads Rejected.progress
                      (fun place rejection => rejections[place]? = some rejection)
                      index best)) := by
  refine ⟨?_, ?_, ?_⟩
  · intro faults
    obtain ⟨index, fault, first, hcollected⟩ := collected_of_errors faults
    refine ⟨index, fault, first, ?_⟩
    rw [matchBest_eq cut, hcollected]
  · intro faultless matched
    obtain ⟨attempts, hresults, hcollected⟩ := collected_of_no_errors faultless
    exact matchBest_of_match cut hresults hcollected matched
  · intro faultless unmatched
    obtain ⟨attempts, hresults, hcollected⟩ := collected_of_no_errors faultless
    obtain ⟨rejected, rfl, hbest⟩ := matchBest_of_no_match cut hresults hcollected unmatched
    have hlength : rejected.length = ps.length := by
      simpa [results] using (congrArg List.length hresults).symm
    refine ⟨rejected, hbest, hlength, ?_, ?_, ?_⟩
    · intro index p hp
      obtain ⟨hindex, -⟩ := List.getElem?_eq_some_iff.mp hp
      obtain ⟨rejection, hrejection⟩ : ∃ rejection, rejected[index]? = some rejection :=
        ⟨_, List.getElem?_eq_getElem (hlength ▸ hindex)⟩
      have found : (rejected.map .error)[index]? = some (.error rejection : Attempt σ) := by
        simp [hrejection]
      obtain ⟨q, hq, hattempt⟩ := (getElem?_attempts_iff hresults index _).mp found
      cases hp.symm.trans hq
      refine ⟨rejection, hrejection, index_of_attempt hattempt, hattempt, ?_⟩
      rw [matchCall_eq cut index, hattempt]
    · rintro rfl
      cases List.length_eq_zero_iff.mp hlength
      rfl
    · intro filled
      have hfilled : rejected ≠ [] := by
        rintro rfl
        exact filled (List.length_eq_zero_iff.mp hlength.symm)
      apply Rejected.exists_leads _ hfilled
      intro rejection member
      exact isScore_of_results hresults (.error rejection) (List.mem_map_of_mem member)

/-- Three candidates, of which the second and the third match "take lamp" equally well. -/
def takeLamp : List Pattern :=
  [.sequence [.parameter "deed" none, .parameter "item" none],
   .sequence [.literal "take" true, .parameter "item" none],
   .sequence [.parameter "deed" none, .literal "lamp" true]]

/-- The earlier one of two best matches, a type that is not registered behind it, and the earliest
of the rejections that got furthest.
-/
theorem matchBest_selects_takeLamp
    : (∃ outcome : Outcome Float,
        Leads Outcome.score
          (fun place outcome =>
            ∃ p, takeLamp[place]? = some p
              ∧ Matcher.standard.matchCall p "take lamp" = .ok outcome)
          1 outcome
        ∧ Matcher.standard.matchBest takeLamp "take lamp" = .ok ⟨1, outcome⟩)
      ∧ (∃ index,
          FirstError
            (Matcher.standard.results Float (takeLamp ++ [.parameter "count" (some "number")])
              [⟨"take", ⟨0, 4⟩⟩, ⟨"lamp", ⟨5, 9⟩⟩] "take lamp")
            index (.undefinedType "number"))
      ∧ ∃ rejections : List (Rejection Float), ∃ index best,
          Matcher.standard.matchBest takeLamp "take" = .error (.mismatch (.noCandidate rejections))
          ∧ rejections.length = 3
          ∧ Leads Rejected.progress
              (fun place rejection => rejections[place]? = some rejection) index best
          ∧ best.index = 1 := by
  have long : Matcher.standard.tokenize "take lamp"
      = .ok [⟨"take", ⟨0, 4⟩⟩, ⟨"lamp", ⟨5, 9⟩⟩] := rfl
  have short : Matcher.standard.tokenize "take" = .ok [⟨"take", ⟨0, 4⟩⟩] := rfl
  refine ⟨?_, ?_, ?_⟩
  · have matched : ∃ p ∈ takeLamp, ∃ outcome : Outcome Float,
        Matcher.standard.matchCall p "take lamp" = .ok outcome :=
      ⟨_, .head _, _, by with_unfolding_all rfl⟩
    obtain ⟨index, outcome, leads, hbest⟩ := (matchBest_selects long takeLamp).2.1
      (error_not_mem_of_all_isOk (by with_unfolding_all rfl)) matched
    obtain ⟨chosen, hchosen⟩ : ∃ chosen : Outcome Float,
        Matcher.standard.matchBest takeLamp "take lamp" = .ok ⟨1, chosen⟩ :=
      ⟨_, by with_unfolding_all rfl⟩
    cases hbest.symm.trans hchosen
    exact ⟨outcome, leads, hbest⟩
  · have faults : .error (.undefinedType "number")
        ∈ Matcher.standard.results Float (takeLamp ++ [.parameter "count" (some "number")])
          [⟨"take", ⟨0, 4⟩⟩, ⟨"lamp", ⟨5, 9⟩⟩] "take lamp" :=
      .tail _ (.tail _ (.tail _ (.head _)))
    obtain ⟨index, fault, first, hfault⟩ := (matchBest_selects long _).1 ⟨_, faults⟩
    have hnumber
        : (Matcher.standard.matchBest (takeLamp ++ [.parameter "count" (some "number")])
              "take lamp"
            : Except (Failure Float) (BestMatch Float))
          = .error (.fault (.undefinedType "number")) := by
      with_unfolding_all rfl
    cases hfault.symm.trans hnumber
    exact ⟨index, first⟩
  · have unmatched : ∀ p ∈ takeLamp, ∀ outcome : Outcome Float,
        Matcher.standard.matchCall p "take" ≠ .ok outcome := by
      have hall : takeLamp.all (fun p =>
          !(Matcher.standard.matchCall p "take" : Except (Failure Float) _).isOk) = true := by
        with_unfolding_all rfl
      intro p member outcome h
      have hp := List.all_eq_true.mp hall p member
      rw [h] at hp
      cases hp
    obtain ⟨rejections, hbest, hlength, -, -, hfurthest⟩ :=
      (matchBest_selects short takeLamp).2.2
        (error_not_mem_of_all_isOk (by with_unfolding_all rfl)) unmatched
    obtain ⟨index, best, hfound, leads⟩ := hfurthest (List.cons_ne_nil _ _)
    obtain ⟨others, hothers, hindex⟩ : ∃ others : List (Rejection Float),
        Matcher.standard.matchBest takeLamp "take" = .error (.mismatch (.noCandidate others))
        ∧ (Mismatch.noCandidate others).bestRejection?.map Rejected.index = some 1 :=
      ⟨_, by with_unfolding_all rfl, by with_unfolding_all rfl⟩
    cases hbest.symm.trans hothers
    rw [hfound] at hindex
    exact ⟨rejections, index, best, hbest, hlength, leads, Option.some.inj hindex⟩

end Matcher

end CallGrammar

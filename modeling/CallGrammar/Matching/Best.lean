import CallGrammar.Event
import CallGrammar.Matching.Run

/-! Matching whole calls, against one pattern or the best of several. -/

namespace CallGrammar

/-- The result of matching one candidate without a fault. -/
abbrev Attempt (σ : Type) :=
  Except (Rejection σ) (Outcome σ)

/-- The candidate that was chosen. -/
structure BestMatch (σ : Type) where
  index : Nat
  outcome : Outcome σ

namespace Matcher

variable {σ : Type} [Scale σ]

------------------------------------------------------------
-- One pattern

/-- Matches a candidate against all tokens of a call. `index` tells the candidate in a
rejection.
-/
def attempt (m : Matcher) (index : Nat) (p : Pattern) (tokens : List Token) (raw : String)
    : Except Fault (Attempt σ) :=
  match m.run p tokens (.start raw) with
  | (.ok [], tally) => .ok (.ok tally.outcome)
  | (.ok (extra :: _), tally) =>
      .ok (.error ⟨index, tally.score, .tooManyArguments extra tally.hint⟩)
  | (.error (.mismatch reason), tally) => .ok (.error ⟨index, tally.score, reason⟩)
  | (.error (.fault fault), _) => .error fault

/-- Matches a call against a pattern. -/
def matchCall (m : Matcher) (p : Pattern) (raw : String) : Except (Failure σ) (Outcome σ) :=
  match m.tokenize raw with
  | .error fault => .error (.fault fault)
  | .ok tokens =>
      match m.attempt 0 p tokens raw with
      | .error fault => .error (.fault fault)
      | .ok (.error rejection) => .error (.mismatch rejection.reason)
      | .ok (.ok outcome) => .ok outcome

------------------------------------------------------------
-- Several patterns

/-- The attempts of candidates up to the first fault, and that fault. -/
def attemptAll (m : Matcher) (index : Nat) (ps : List Pattern) (tokens : List Token)
    (raw : String) : List (Attempt σ) × Option Fault :=
  match ps with
  | [] => ([], none)
  | p :: rest =>
      match m.attempt index p tokens raw with
      | .error fault => ([], some fault)
      | .ok attempt =>
          let (attempts, fault) := m.attemptAll (index + 1) rest tokens raw
          (attempt :: attempts, fault)

/-- The rejections among attempts, in order. -/
def rejections (attempts : List (Attempt σ)) : List (Rejection σ) :=
  attempts.filterMap (fun attempt =>
    match attempt with
    | .error rejection => some rejection
    | .ok _ => none)

/-- Chooses the earliest candidate of greatest score. -/
def choose (attempts : List (Attempt σ)) : Except (Mismatch σ) (BestMatch σ) :=
  match earliestBest Outcome.score none 0 attempts with
  | some (index, outcome) => .ok ⟨index, outcome⟩
  | none => .error (.noCandidate (rejections attempts))

/-- Matches a call against several patterns. A fault of any candidate is the answer, even where
an earlier one matched.
-/
def matchBest (m : Matcher) (ps : List Pattern) (raw : String)
    : Except (Failure σ) (BestMatch σ) :=
  match m.tokenize raw with
  | .error fault => .error (.fault fault)
  | .ok tokens =>
      match m.attemptAll 0 ps tokens raw with
      | (_, some fault) => .error (.fault fault)
      | (attempts, none) => (choose attempts).mapError .mismatch

------------------------------------------------------------
-- Events

/-- What an attempt of a `subject` tells a log. -/
def attemptEvent (subject : String) (index : Nat) : Attempt σ → Event
  | .ok outcome =>
      ⟨.debug, subject ++ " matched",
        [("index", toString index), ("score", Scale.text outcome.score)]⟩
  | .error rejection =>
      ⟨.debug, subject ++ " rejected",
        [("index", toString index), ("progress", Scale.text rejection.progress),
          ("reason", rejection.reason.message)]⟩

/-- What matching a call against several patterns tells a log: every attempt, then the choice. -/
def bestEvents (scale : Type) [Scale scale] (m : Matcher) (ps : List Pattern) (raw : String)
    : List Event :=
  match m.tokenize raw with
  | .error _ => []
  | .ok tokens =>
      let (attempts, fault) : List (Attempt scale) × Option Fault := m.attemptAll 0 ps tokens raw
      let chosen :=
        match fault, choose attempts with
        | none, .ok best =>
            [⟨.debug, "best match",
              [("index", toString best.index), ("score", Scale.text best.outcome.score)]⟩]
        | _, _ => []
      attempts.mapIdx (attemptEvent "candidate") ++ chosen

end Matcher

end CallGrammar

import CallGrammar.Proofs.Dispatch.Survey
import CallGrammar.Proofs.Matching.RoundedScores

/-! Dispatching a call agrees with matching it against the patterns of all commands, where no command
brings a matcher of its own.
-/

namespace CallGrammar

variable {σ ρ : Type} [Scale σ]

namespace Dispatcher

/-- The best match of a call among the patterns of all commands, under the matcher for all. -/
def bestMatch (d : Dispatcher σ ρ) (raw : String) : Except (Failure σ) (BestMatch σ) :=
  d.matcher.matchBest (d.commands.map Command.pattern) raw

/-- The attempts of all candidates, or the first fault among them. -/
def attemptsOf : List (Attempt σ) × Option Fault → Except Fault (List (Attempt σ))
  | (_, some fault) => .error fault
  | (attempts, none) => .ok attempts

/-- Commands without matchers of their own, tried by themselves, are tried as the candidates that
their patterns are, by list induction.
-/
theorem tryEach_eq_attemptAll {d : Dispatcher σ ρ} {raw : String} {tokens : List Token}
    (ht : d.matcher.tokenize raw = .ok tokens) {commands : List (Command σ ρ)}
    (plain : ∀ command ∈ commands, command.matcher = none) (index : Nat)
    : d.tryEach raw index commands
      = attemptsOf (d.matcher.attemptAll index (commands.map Command.pattern) tokens raw) := by
  induction commands generalizing index with
  | nil => rfl
  | cons command rest ih =>
      have hm : d.matcherOf command = d.matcher := by
        rw [matcherOf, plain command List.mem_cons_self, Option.getD_none]
      have hr := ih (fun other ho => plain other (List.mem_cons_of_mem command ho)) (index + 1)
      rw [tryEach, tryAlone, hm, ht, hr, List.map_cons, Matcher.attemptAll]
      cases ha : (d.matcher.attempt index command.pattern tokens raw : Except Fault (Attempt σ)) with
      | error fault =>
          simp only [Except.bind, ha]
          rfl
      | ok attempt =>
          simp only [Except.bind, ha]
          rcases d.matcher.attemptAll (index + 1) (rest.map Command.pattern) tokens raw with
            ⟨attempts, _ | fault⟩
          · rfl
          · rfl

/-- Matching a call against the patterns of some commands is choosing among the commands tried by
themselves. There must be a command for the tokens of the call to be read.
-/
theorem bestMatch_eq {d : Dispatcher σ ρ} (filled : d.commands ≠ [])
    (plain : ∀ command ∈ d.commands, command.matcher = none) (raw : String)
    : d.bestMatch raw
      = match d.tryEach raw 0 d.commands with
        | .error fault => .error (.fault fault)
        | .ok attempts => (Matcher.choose attempts).mapError .mismatch := by
  unfold bestMatch Matcher.matchBest
  cases ht : d.matcher.tokenize raw with
  | error fault =>
      obtain ⟨command, rest, hc⟩ := List.exists_cons_of_ne_nil filled
      have hm : d.matcherOf command = d.matcher := by
        rw [matcherOf, plain command (hc ▸ List.mem_cons_self), Option.getD_none]
      rw [hc, tryEach, tryAlone, hm, ht]
      rfl
  | ok tokens =>
      rw [tryEach_eq_attemptAll ht plain]
      dsimp only
      rcases d.matcher.attemptAll 0 (d.commands.map Command.pattern) tokens raw with
        ⟨attempts, _ | fault⟩
      · rfl
      · rfl

/-- What a dispatcher selects and what the best match is, where they agree. The rejection that is
reported got somewhere; where none did, the command is unknown.
-/
inductive Agrees (commands : List (Command σ ρ))
    : Except (DispatchError σ) (Match σ ρ) → Except (Failure σ) (BestMatch σ) → Prop
  | fault {fault} : Agrees commands (.error (.fault fault)) (.error (.fault fault))
  | matched {index command outcome} (found : commands[index]? = some command)
    : Agrees commands (.ok ⟨index, command, outcome⟩) (.ok ⟨index, outcome⟩)
  | mismatch {rejections best} (furthest : Rejected.furthest? rejections = some best)
    (member : best ∈ rejections) (progress : 0 < best.progress)
    : Agrees commands (.error (.mismatch best.reason))
        (.error (.mismatch (.noCandidate rejections)))
  | unknown {rejections} (idle : ∀ rejection ∈ rejections, rejection.progress = 0)
    (member : ∀ best, Rejected.furthest? rejections = some best → best ∈ rejections)
    : Agrees commands (.error .unknownCommand) (.error (.mismatch (.noCandidate rejections)))

namespace Agrees

variable {commands : List (Command σ ρ)} {selected : Except (DispatchError σ) (Match σ ρ)}
  {best : Except (Failure σ) (BestMatch σ)}

theorem ok_iff (h : Agrees commands selected best) (result : ρ)
    : selected.map (fun found => found.command.execute found.outcome) = .ok result
      ↔ ∃ index command outcome,
          best = .ok ⟨index, outcome⟩
          ∧ commands[index]? = some command
          ∧ result = command.callback outcome := by
  cases h with
  | @matched index command outcome found =>
      constructor
      · intro hr
        cases hr
        exact ⟨index, command, outcome, rfl, found, rfl⟩
      · rintro ⟨_, other, _, he, ho, rfl⟩
        cases he
        cases found.symm.trans ho
        rfl
  | fault => simp [Except.map]
  | mismatch => simp [Except.map]
  | unknown => simp [Except.map]

theorem fault_iff (h : Agrees commands selected best) (fault : Fault)
    : selected = .error (.fault fault) ↔ best = .error (.fault fault) := by
  cases h <;> simp

variable [OrderedScale σ]

theorem mismatch_iff (h : Agrees commands selected best) (reason : Mismatch σ)
    : selected = .error (.mismatch reason)
      ↔ ∃ rejections furthest,
          best = .error (.mismatch (.noCandidate rejections))
          ∧ (Mismatch.noCandidate rejections).bestRejection? = some furthest
          ∧ 0 < furthest.progress
          ∧ furthest.reason = reason := by
  cases h with
  | @mismatch rejections reported furthest member progress =>
      constructor
      · intro hr
        cases hr
        exact ⟨rejections, reported, rfl, furthest, progress, rfl⟩
      · rintro ⟨_, other, he, ho, _, rfl⟩
        cases he
        cases furthest.symm.trans ho
        rfl
  | unknown idle member =>
      refine ⟨nofun, ?_⟩
      rintro ⟨_, furthest, he, hf, progress, _⟩
      cases he
      exact absurd (idle furthest (member furthest hf)) (OrderedScale.ne_zero_of_pos progress)
  | fault => simp
  | matched => simp

theorem unknown_iff (h : Agrees commands selected best)
    : selected = .error .unknownCommand
      ↔ ∃ rejections : List (Rejection σ),
          best = .error (.mismatch (.noCandidate rejections))
          ∧ ∀ rejection ∈ rejections, rejection.progress = 0 := by
  cases h with
  | @unknown rejections idle _ => exact ⟨fun _ => ⟨rejections, rfl, idle⟩, fun _ => rfl⟩
  | mismatch furthest member progress =>
      refine ⟨nofun, ?_⟩
      rintro ⟨_, he, idle⟩
      cases he
      exact absurd (idle _ member) (OrderedScale.ne_zero_of_pos progress)
  | fault => simp
  | matched => simp

/-- Rejections that were collected are reported as the furthest one of them is. -/
theorem of_rejections (commands : List (Command σ ρ)) {rejections : List (Rejection σ)}
    (scores : ∀ rejection ∈ rejections, IsScore rejection.progress)
    : Agrees commands
        (match Rejected.furthest? rejections with
        | some rejection =>
            if rejection.progress > 0 then .error (.mismatch rejection.reason)
            else .error .unknownCommand
        | none => .error .unknownCommand)
        (.error (.mismatch (.noCandidate rejections))) := by
  have member : ∀ best, Rejected.furthest? rejections = some best → best ∈ rejections := by
    intro best hf
    exact (Rejected.isFurthest_of_eq scores hf).mem
  cases hf : Rejected.furthest? rejections with
  | none =>
      cases rejections with
      | nil => exact .unknown nofun member
      | cons first rest => cases hf
  | some best =>
      have hb := scores best (member best hf)
      dsimp only
      split
      · rename_i progress
        exact .mismatch hf (member best hf) progress
      · rename_i idle
        have zero : best.progress = 0 := OrderedScale.eq_zero_of_not_pos hb idle
        apply unknown _ member
        intro rejection hr
        -- Nothing got further than the best, which got nowhere.
        have hle := (Rejected.isFurthest_of_eq scores hf).le scores hr
        exact OrderedScale.eq_zero_of_le (scores rejection hr) (zero ▸ hle)

end Agrees

theorem dispatch_eq_error_iff (d : Dispatcher σ ρ) (raw : String) (error : DispatchError σ)
    : d.dispatch raw = .error error ↔ d.select raw = .error error := by
  unfold dispatch
  cases d.select raw <;> simp [Except.map]

variable [OrderedScale σ]

/-- A dispatcher selects as the best match is chosen, by cases on the commands tried by
themselves.
-/
theorem agrees_select {d : Dispatcher σ ρ} (filled : d.commands ≠ [])
    (plain : ∀ command ∈ d.commands, command.matcher = none) (raw : String)
    : Agrees d.commands (d.select raw) (d.bestMatch raw) := by
  rw [bestMatch_eq filled plain]
  cases he : d.tryEach raw 0 d.commands with
  | error fault =>
      rw [select_of_fault he]
      exact .fault
  | ok attempts =>
      dsimp only
      cases hb : earliestBest Outcome.score none 0 attempts with
      | some best =>
          rcases best with ⟨index, outcome⟩
          obtain ⟨command, found, hs⟩ := select_of_best he hb
          rw [hs, Matcher.choose, hb]
          exact .matched found
      | none =>
          rw [select_of_rejections he hb, Matcher.choose, hb]
          exact .of_rejections d.commands (isScore_of_tryEach he)

/-- Dispatching agrees with matching against the patterns of all commands, where there are commands
and none of them has a matcher of its own. The command that runs is the one at the index of the best
match, on its outcome. Faults are the same. Where no pattern matches, the furthest rejection is
reported if it got anywhere, and the command is unknown exactly if no rejection did.
-/
theorem dispatch_agrees_bestMatch {d : Dispatcher σ ρ} (filled : d.commands ≠ [])
    (plain : ∀ command ∈ d.commands, command.matcher = none) (raw : String)
    : (∀ result, d.dispatch raw = .ok result
        ↔ ∃ index command outcome,
            d.bestMatch raw = .ok ⟨index, outcome⟩
            ∧ d.commands[index]? = some command
            ∧ result = command.callback outcome)
      ∧ (∀ fault, d.dispatch raw = .error (.fault fault)
        ↔ d.bestMatch raw = .error (.fault fault))
      ∧ (∀ reason, d.dispatch raw = .error (.mismatch reason)
        ↔ ∃ rejections furthest,
            d.bestMatch raw = .error (.mismatch (.noCandidate rejections))
            ∧ (Mismatch.noCandidate rejections).bestRejection? = some furthest
            ∧ 0 < furthest.progress
            ∧ furthest.reason = reason)
      ∧ (d.dispatch raw = .error .unknownCommand
        ↔ ∃ rejections : List (Rejection σ),
            d.bestMatch raw = .error (.mismatch (.noCandidate rejections))
            ∧ ∀ rejection ∈ rejections, rejection.progress = 0) := by
  have agrees := agrees_select filled plain raw
  refine ⟨agrees.ok_iff, ?_, ?_, ?_⟩
  · intro fault
    rw [dispatch_eq_error_iff, agrees.fault_iff]
  · intro reason
    rw [dispatch_eq_error_iff, agrees.mismatch_iff]
  · rw [dispatch_eq_error_iff, agrees.unknown_iff]

/-- Two commands that get equally far in a call, of which the first is reported. -/
theorem dispatch_agrees_bestMatch_tied_rejections
    : ∃ d : Dispatcher Float String,
        d.commands.map Command.pattern =
          [.sequence [.literal "take" true, .parameter "item" none, .literal "now" true],
           .sequence [.parameter "deed" none, .literal "lamp" true, .literal "soon" true]]
        ∧ (∀ command ∈ d.commands, command.matcher = none)
        ∧ d.dispatch "take lamp" = .error (.mismatch (.expectedLiteral "now" none false))
        ∧ ∃ rejections furthest,
            d.bestMatch "take lamp" = .error (.mismatch (.noCandidate rejections))
            ∧ (Mismatch.noCandidate rejections).bestRejection? = some furthest
            ∧ 0 < furthest.progress
            ∧ furthest.reason = .expectedLiteral "now" none false := by
  let take : Command Float String :=
    { pattern := .sequence [.literal "take" true, .parameter "item" none, .literal "now" true],
      callback := fun _ => "taken", description := none, matcher := none }
  let other : Command Float String :=
    { pattern := .sequence [.parameter "deed" none, .literal "lamp" true, .literal "soon" true],
      callback := fun _ => "done", description := none, matcher := none }
  let d : Dispatcher Float String := ⟨[take, other], .standard, .standard⟩
  have filled : d.commands ≠ [] := List.cons_ne_nil _ _
  have plain : ∀ command ∈ d.commands, command.matcher = none := by
    simp [d, take, other]
  have reported : d.dispatch "take lamp" = .error (.mismatch (.expectedLiteral "now" none false)) := by
    with_unfolding_all rfl
  have agrees := dispatch_agrees_bestMatch filled plain "take lamp"
  exact ⟨d, rfl, plain, reported, (agrees.2.2.1 _).mp reported⟩

end Dispatcher

end CallGrammar

import CallGrammar.Proofs.Dispatch.Agreement
import CallGrammar.Proofs.Matching.Trace

/-! When a command is unknown. Every command is rejected, and whatever matched in it was on a branch
that was given up. So a call may be unknown although words of it matched in a group; where a command
has no groups, none of its words matched.
-/

namespace CallGrammar

variable {σ ρ : Type}

theorem Matcher.mem_rejections_iff {attempts : List (Attempt σ)} {rejection : Rejection σ}
    : rejection ∈ rejections attempts ↔ .error rejection ∈ attempts := by
  rw [rejections, List.mem_filterMap]
  constructor
  · rintro ⟨_ | outcome, member, h⟩
    · cases h
      exact member
    · cases h
  · intro member
    exact ⟨_, member, rfl⟩

variable [Scale σ]

/-- A rejected attempt progressed as far as its run scored. -/
theorem Matcher.progress_of_attempt {m : Matcher} {index : Nat} {p : Pattern}
    {tokens : List Token} {raw : String} {rejection : Rejection σ}
    (h : m.attempt index p tokens raw = .ok (.error rejection))
    : rejection.progress = (m.run p tokens (.start raw)).2.score := by
  unfold attempt at h
  generalize m.run p tokens (.start raw : Tally σ) = result at h
  obtain ⟨(_ | _) | (_ | _), tally⟩ := result
  · cases h
    rfl
  · cases h
  · cases h
  · cases h
    rfl

namespace Dispatcher

------------------------------------------------------------
-- One command

/-- A command tried by itself is rejected without progress. -/
def Fails (d : Dispatcher σ ρ) (raw : String) (index : Nat) (command : Command σ ρ) : Prop :=
  ∃ rejection : Rejection σ,
    d.tryAlone raw index command = .ok (.error rejection) ∧ rejection.progress = 0

/-- A command fails exactly if it is rejected and nothing that matched was kept. -/
theorem fails_iff [PositiveScale σ] {d : Dispatcher σ ρ} {raw : String} {index : Nat}
    {command : Command σ ρ}
    : d.Fails raw index command
      ↔ ∃ tokens, ∃ rejection : Rejection σ,
          (d.matcherOf command).tokenize raw = .ok tokens
          ∧ (d.matcherOf command).attempt index command.pattern tokens raw = .ok (.error rejection)
          ∧ (d.matcherOf command).IsQuiet
              ((d.matcherOf command).visits command.pattern tokens (.start raw : Tally σ)) := by
  have quiet {tokens : List Token} {rejection : Rejection σ}
      (h : (d.matcherOf command).attempt index command.pattern tokens raw
        = .ok (.error rejection))
      : rejection.progress = 0
        ↔ (d.matcherOf command).IsQuiet
            ((d.matcherOf command).visits command.pattern tokens (.start raw : Tally σ)) := by
    rw [Matcher.progress_of_attempt h]
    exact (Matcher.countsKept _ _ tokens (.start raw) .zero).trans (and_iff_right rfl)
  rw [Fails, tryAlone]
  cases (d.matcherOf command).tokenize raw with
  | error fault => simp [Except.bind]
  | ok tokens =>
      constructor
      · rintro ⟨rejection, h, zero⟩
        exact ⟨tokens, rejection, rfl, h, (quiet h).mp zero⟩
      · rintro ⟨_, rejection, ht, h, hq⟩
        cases ht
        exact ⟨rejection, h, (quiet h).mpr hq⟩

------------------------------------------------------------
-- All commands

/-- Attempts that were all rejected without progress. -/
def AllFail (attempts : List (Attempt σ)) : Prop :=
  ∀ attempt ∈ attempts, ∃ rejection : Rejection σ,
    attempt = .error rejection ∧ rejection.progress = 0

/-- The attempts on some commands all fail exactly if the first one and all others do. -/
theorem tryEach_cons_allFail_iff {d : Dispatcher σ ρ} {raw : String} {index : Nat}
    {first : Command σ ρ} {rest : List (Command σ ρ)}
    : (∃ attempts, d.tryEach raw index (first :: rest) = .ok attempts ∧ AllFail attempts)
      ↔ d.Fails raw index first
        ∧ ∃ others, d.tryEach raw (index + 1) rest = .ok others ∧ AllFail others := by
  rw [tryEach, Fails]
  constructor
  · rintro ⟨attempts, h, fail⟩
    cases hfirst : d.tryAlone raw index first with
    | error fault =>
        rw [hfirst] at h
        cases h
    | ok attempt =>
        cases hothers : d.tryEach raw (index + 1) rest with
        | error fault =>
            rw [hfirst, hothers] at h
            cases h
        | ok others =>
            rw [hfirst, hothers] at h
            cases h
            obtain ⟨⟨rejection, rfl, zero⟩, others⟩ := List.forall_mem_cons.mp fail
            exact ⟨⟨rejection, rfl, zero⟩, _, rfl, others⟩
  · rintro ⟨⟨rejection, hfirst, zero⟩, others, hothers, fail⟩
    refine ⟨.error rejection :: others, ?_, ?_⟩
    · rw [hfirst, hothers]
      rfl
    · exact List.forall_mem_cons.mpr ⟨⟨rejection, rfl, zero⟩, fail⟩

/-- All attempts fail exactly if each command fails by itself, by induction on the commands. -/
theorem tryEach_allFail_iff {d : Dispatcher σ ρ} {raw : String} (commands : List (Command σ ρ))
    (index : Nat)
    : (∃ attempts, d.tryEach raw index commands = .ok attempts ∧ AllFail attempts)
      ↔ ∀ place command, commands[place]? = some command
          → d.Fails raw (index + place) command := by
  induction commands generalizing index with
  | nil => exact ⟨fun _ => nofun, fun _ => ⟨[], rfl, nofun⟩⟩
  | cons first rest ih =>
      have hnext (place : Nat) : index + 1 + place = index + (place + 1) := by omega
      rw [tryEach_cons_allFail_iff, ih]
      constructor
      · rintro ⟨hfirst, hrest⟩ place command found
        cases place with
        | zero =>
            cases found
            exact hfirst
        | succ place => exact hnext place ▸ hrest place command found
      · intro fails
        refine ⟨fails 0 first rfl, fun place command found => ?_⟩
        rw [hnext]
        exact fails (place + 1) command found

variable [OrderedScale σ]

/-- A command is unknown exactly if all attempts fail, by cases on what is chosen. -/
theorem select_eq_unknownCommand_iff {d : Dispatcher σ ρ} {raw : String}
    : d.select raw = .error .unknownCommand
      ↔ ∃ attempts, d.tryEach raw 0 d.commands = .ok attempts ∧ AllFail attempts := by
  cases he : d.tryEach raw 0 d.commands with
  | error fault =>
      rw [select_of_fault he]
      exact ⟨nofun, nofun⟩
  | ok attempts =>
      cases hb : earliestBest Outcome.score none 0 attempts with
      | some best =>
          obtain ⟨index, outcome⟩ := best
          obtain ⟨command, -, hs⟩ := select_of_best he hb
          rw [hs]
          refine ⟨nofun, ?_⟩
          rintro ⟨_, ha, fail⟩
          cases ha
          have member := List.mem_of_getElem? (isChoice_of_eq hb).1
          obtain ⟨rejection, h, -⟩ := fail _ member
          cases h
      | none =>
          have matchless := isChoice_of_eq hb
          have agrees : Agrees d.commands (d.select raw)
              (.error (.mismatch (.noCandidate (Matcher.rejections attempts)))) := by
            rw [select_of_rejections he hb]
            exact .of_rejections d.commands (isScore_of_tryEach he)
          rw [agrees.unknown_iff]
          constructor
          · rintro ⟨_, h, idle⟩
            cases h
            refine ⟨attempts, rfl, fun attempt member => ?_⟩
            cases attempt with
            | ok outcome => exact absurd member (matchless outcome)
            | error rejection =>
                exact ⟨rejection, rfl, idle rejection (Matcher.mem_rejections_iff.mpr member)⟩
          · rintro ⟨_, h, fail⟩
            cases h
            refine ⟨_, rfl, fun rejection member => ?_⟩
            obtain ⟨other, h, zero⟩ := fail _ (Matcher.mem_rejections_iff.mp member)
            cases h
            exact zero

theorem dispatch_unknownCommand_iff_fails {d : Dispatcher σ ρ} {raw : String}
    : d.dispatch raw = .error .unknownCommand
      ↔ ∀ index command, d.commands[index]? = some command → d.Fails raw index command := by
  rw [dispatch_eq_error_iff, select_eq_unknownCommand_iff, tryEach_allFail_iff]
  simp only [Nat.zero_add]

/-- When a command is unknown: exactly if every command is rejected and whatever matched in it was
on a branch that was given up. In a command without groups nothing matched at all.
-/
theorem dispatch_eq_unknownCommand_iff [PositiveScale σ] (d : Dispatcher σ ρ) (raw : String)
    : (d.dispatch raw = .error .unknownCommand
        ↔ ∀ index command, d.commands[index]? = some command
          → ∃ tokens, ∃ rejection : Rejection σ,
              (d.matcherOf command).tokenize raw = .ok tokens
              ∧ (d.matcherOf command).attempt index command.pattern tokens raw
                = .ok (.error rejection)
              ∧ ∀ visit ∈ (d.matcherOf command).visits command.pattern tokens
                  (.start raw : Tally σ),
                (d.matcherOf command).isMatch visit = true → visit.kept = false)
      ∧ (d.dispatch raw = .error .unknownCommand
        → ∀ command ∈ d.commands, command.pattern.IsGroupFree
          → ∃ tokens,
              (d.matcherOf command).tokenize raw = .ok tokens
              ∧ ∀ visit ∈ (d.matcherOf command).visits command.pattern tokens
                  (.start raw : Tally σ),
                (d.matcherOf command).isMatch visit = false) := by
  refine ⟨?_, ?_⟩
  · simp only [dispatch_unknownCommand_iff_fails, fails_iff, Matcher.IsQuiet]
  · intro h command member groupFree
    obtain ⟨index, found⟩ := List.mem_iff_getElem?.mp member
    have fails := dispatch_unknownCommand_iff_fails.mp h index command found
    obtain ⟨tokens, rejection, ht, -, quiet⟩ := fails_iff.mp fails
    refine ⟨tokens, ht, fun visit hv => ?_⟩
    cases hm : (d.matcherOf command).isMatch visit with
    | false => rfl
    | true =>
        have kept := Matcher.kept_of_isGroupFree groupFree tokens _ visit hv
        cases kept.symm.trans (quiet visit hv hm)

/-- Two commands: to go home or stay, and to look around. -/
def homeOrStay : Dispatcher Float String :=
  let command (pattern : Pattern) : Command Float String := ⟨pattern, fun _ => "done", none, none⟩
  ⟨[command (.variant none false
      [.sequence [.literal "go" true, .literal "home" true], .sequence [.literal "stay" true]]),
    command (.sequence [.literal "look" true, .literal "around" true])], .standard, .standard⟩

/-- Going away is unknown, although the first word of going home matches. -/
theorem homeOrStay_unknownCommand
    : ((Definition.Compiler.compile .standard "go home|stay").toOption
          = homeOrStay.commands[0]?.map Command.pattern
        ∧ (Definition.Compiler.compile .standard "look around").toOption
          = homeOrStay.commands[1]?.map Command.pattern)
      ∧ homeOrStay.dispatch "go away" = .error .unknownCommand
      ∧ ∃ command ∈ homeOrStay.commands, ∃ tokens,
          (homeOrStay.matcherOf command).tokenize "go away" = .ok tokens
          ∧ ∃ visit ∈ (homeOrStay.matcherOf command).visits command.pattern tokens
              (.start "go away" : Tally Float),
            (homeOrStay.matcherOf command).isMatch visit = true := by
  refine ⟨⟨rfl, rfl⟩, ?_, _, .head _, [⟨"go", ⟨0, 2⟩⟩, ⟨"away", ⟨3, 7⟩⟩], rfl,
    List.any_eq_true.mp ?_⟩
  · rw [dispatch_unknownCommand_iff_fails]
    intro index command found
    match index, found with
    | 0, rfl => exact ⟨_, rfl, rfl⟩
    | 1, rfl => exact ⟨_, rfl, rfl⟩
  · with_unfolding_all rfl

theorem dispatch_eq_unknownCommand_iff_go_away
    : homeOrStay.dispatch "go away" = .error .unknownCommand
      ∧ (∃ command ∈ homeOrStay.commands, ∃ tokens,
          (homeOrStay.matcherOf command).tokenize "go away" = .ok tokens
          ∧ (∀ visit ∈ (homeOrStay.matcherOf command).visits command.pattern tokens
              (.start "go away" : Tally Float),
            (homeOrStay.matcherOf command).isMatch visit = true → visit.kept = false)
          ∧ ∃ visit ∈ (homeOrStay.matcherOf command).visits command.pattern tokens
              (.start "go away" : Tally Float),
            (homeOrStay.matcherOf command).isMatch visit = true)
      ∧ ∃ command ∈ homeOrStay.commands, command.pattern.IsGroupFree
          ∧ ∃ tokens,
            (homeOrStay.matcherOf command).tokenize "go away" = .ok tokens
            ∧ ∀ visit ∈ (homeOrStay.matcherOf command).visits command.pattern tokens
                (.start "go away" : Tally Float),
              (homeOrStay.matcherOf command).isMatch visit = false := by
  obtain ⟨-, unknown, command, member, tokens, ht, matched⟩ := homeOrStay_unknownCommand
  have told := dispatch_eq_unknownCommand_iff homeOrStay "go away"
  refine ⟨unknown, ⟨command, member, tokens, ht, ?_, matched⟩, ?_⟩
  · obtain ⟨index, found⟩ := List.mem_iff_getElem?.mp member
    obtain ⟨_, -, ht', -, dropped⟩ := told.1.mp unknown index command found
    cases ht.symm.trans ht'
    exact dropped
  · have groupFree : (homeOrStay.commands.get ⟨1, by decide⟩).pattern.IsGroupFree := by
      rw [Pattern.IsGroupFree, Pattern.traverse_eq_preorder]
      decide
    exact ⟨_, List.get_mem _ _, groupFree, told.2 unknown _ (List.get_mem _ _) groupFree⟩

/-- That a command is unknown does not mean that nothing matched in any command. -/
theorem not_nothing_matched_of_unknownCommand
    : ¬ ∀ (d : Dispatcher Float String) (raw : String),
        d.dispatch raw = .error .unknownCommand
        → ∀ command ∈ d.commands, ∀ tokens,
            (d.matcherOf command).tokenize raw = .ok tokens
            → ∀ visit ∈ (d.matcherOf command).visits command.pattern tokens
                (.start raw : Tally Float),
              (d.matcherOf command).isMatch visit = false := by
  intro h
  obtain ⟨-, unknown, command, member, tokens, ht, visit, hv, matched⟩ :=
    homeOrStay_unknownCommand
  cases matched.symm.trans (h homeOrStay "go away" unknown command member tokens ht visit hv)

end Dispatcher

end CallGrammar

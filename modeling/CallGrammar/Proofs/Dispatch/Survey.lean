import CallGrammar.Dispatch.Dispatcher
import CallGrammar.Proofs.Matching.Scores

/-! What a dispatcher finds out about its commands. It tries them in turn on shared tokens and keeps
the best match and the furthest rejection so far. The result is as if every command had been tried
by itself and the choice been made at the end.
-/

namespace CallGrammar

/-- The choice among the first results goes on among the others, by list induction. -/
theorem earliestBest_append {σ ε α : Type} [Scale σ] (score : α → σ) (best : Option (Nat × α))
    (index : Nat) (first second : List (Except ε α))
    : earliestBest score best index (first ++ second)
      = earliestBest score (earliestBest score best index first) (index + first.length) second := by
  induction first generalizing best index with
  | nil => rfl
  | cons result rest ih =>
      have hn : index + (rest.length + 1) = index + 1 + rest.length := by omega
      cases result with
      | error e => simp only [List.cons_append, earliestBest, ih, List.length_cons, hn]
      | ok candidate =>
          simp only [List.cons_append, earliestBest, List.length_cons, hn]
          split
          · exact ih _ _
          · exact ih _ _

theorem rejections_append {σ : Type} (first second : List (Attempt σ))
    : Matcher.rejections (first ++ second) = Matcher.rejections first ++ Matcher.rejections second :=
  List.filterMap_append

variable {σ ρ : Type} [Scale σ]

------------------------------------------------------------
-- Standings

/-- A standing that sums up attempts of the first of some commands: the best match is the one that
is chosen among them and belongs to the command at its place, and the furthest rejection is that of
all rejections.
-/
structure Standing.Tracks (commands : List (Command σ ρ)) (attempts : List (Attempt σ))
    (standing : Standing σ ρ) : Prop where
  best_eq
    : standing.best.map (fun best => (best.index, best.outcome))
      = earliestBest Outcome.score none 0 attempts
  command_eq : ∀ best ∈ standing.best, commands[best.index]? = some best.command
  scores : ∀ rejection ∈ Matcher.rejections attempts, IsScore rejection.progress
  furthest_eq : standing.furthest = Rejected.furthest? (Matcher.rejections attempts)

namespace Standing.Tracks

variable {commands : List (Command σ ρ)} {attempts : List (Attempt σ)} {standing : Standing σ ρ}

theorem start (commands : List (Command σ ρ)) : Standing.start.Tracks commands [] where
  best_eq := rfl
  command_eq := nofun
  scores := nofun
  furthest_eq := rfl

/-- The shared tokens do not count. -/
theorem sharing (h : standing.Tracks commands attempts) (shared : Option (List Token))
    : Standing.Tracks commands attempts { standing with shared } :=
  ⟨h.best_eq, h.command_eq, h.scores, h.furthest_eq⟩

/-- A match is noted as the choice is made: only if it is better than the best one before. -/
theorem note_match (h : standing.Tracks commands attempts) {command : Command σ ρ}
    (found : commands[attempts.length]? = some command) (outcome : Outcome σ)
    : (standing.note attempts.length command (.ok outcome)).Tracks commands
        (attempts ++ [.ok outcome]) := by
  have hr : Matcher.rejections (attempts ++ [.ok outcome]) = Matcher.rejections attempts := by
    rw [rejections_append]
    exact List.append_nil _
  have hb
      : earliestBest Outcome.score none 0 (attempts ++ [.ok outcome])
        = if standing.best.all (fun best => outcome.score > best.outcome.score)
          then some (attempts.length, outcome)
          else standing.best.map (fun best => (best.index, best.outcome)) := by
    rw [earliestBest_append, ← h.best_eq, Nat.zero_add]
    simp only [earliestBest, Option.all_map]
  rw [Standing.note]
  split
  · rename_i better
    rw [if_pos better] at hb
    refine ⟨hb.symm, ?_, hr ▸ h.scores, hr ▸ h.furthest_eq⟩
    intro best hm
    cases hm
    exact found
  · rename_i worse
    rw [if_neg worse] at hb
    exact ⟨hb.symm, h.command_eq, hr ▸ h.scores, hr ▸ h.furthest_eq⟩

/-- A rejection is noted only if it got further than the furthest one before. On reachable scores
that is the same as keeping the one before where it got at least as far.
-/
theorem note_rejection [OrderedScale σ] (h : standing.Tracks commands attempts) (command : Command σ ρ)
    {rejection : Rejection σ} (score : IsScore rejection.progress)
    : (standing.note attempts.length command (.error rejection)).Tracks commands
        (attempts ++ [.error rejection]) := by
  have hb
      : earliestBest Outcome.score none 0 (attempts ++ [.error rejection])
        = earliestBest Outcome.score none 0 attempts := by
    rw [earliestBest_append]
    rfl
  have hr
      : Matcher.rejections (attempts ++ [.error rejection])
        = Matcher.rejections attempts ++ [rejection] :=
    rejections_append attempts _
  have scores : ∀ other ∈ Matcher.rejections (attempts ++ [.error rejection]),
      IsScore other.progress := by
    intro other hm
    rw [hr] at hm
    rcases List.mem_append.mp hm with hm | hm
    · exact h.scores other hm
    · rwa [List.mem_singleton.mp hm]
  have furthest
      : (standing.note attempts.length command (.error rejection)).furthest
        = Rejected.furthest? (Matcher.rejections (attempts ++ [.error rejection])) := by
    rw [hr, Rejected.furthest?_snoc, ← h.furthest_eq]
    rw [Standing.note]
    cases hf : standing.furthest with
    | none => rfl
    | some before =>
        have member := (Rejected.isFurthest_of_eq h.scores (h.furthest_eq.symm.trans hf)).mem
        have hn := OrderedScale.not_lt (h.scores before member) score
        by_cases further : before.progress < rejection.progress
        · simp [Rejected.further, further, ← hn]
        · simp [Rejected.further, further, ← hn, hf]
  have best : (standing.note attempts.length command (.error rejection)).best = standing.best := by
    rw [Standing.note]
    split <;> rfl
  refine ⟨?_, ?_, scores, furthest⟩
  · rw [best, hb, h.best_eq]
  · rw [best]
    exact h.command_eq

end Standing.Tracks

------------------------------------------------------------
-- Commands tried by themselves

namespace Dispatcher

/-- The matcher that a command is tried with: its own one, or the one for all. -/
def matcherOf (d : Dispatcher σ ρ) (command : Command σ ρ) : Matcher :=
  command.matcher.getD d.matcher

/-- Tries a command by itself, on tokens that are read for it alone. -/
def tryAlone (d : Dispatcher σ ρ) (raw : String) (index : Nat) (command : Command σ ρ)
    : Except Fault (Attempt σ) :=
  ((d.matcherOf command).tokenize raw).bind
    (fun tokens => (d.matcherOf command).attempt index command.pattern tokens raw)

/-- Tries commands by themselves, up to the first fault. -/
def tryEach (d : Dispatcher σ ρ) (raw : String) (index : Nat)
    : List (Command σ ρ) → Except Fault (List (Attempt σ))
  | [] => .ok []
  | command :: rest =>
      (d.tryAlone raw index command).bind
        (fun attempt => (d.tryEach raw (index + 1) rest).map (attempt :: ·))

/-- A command tried by itself gets to a reachable score. -/
theorem isScore_of_tryAlone {d : Dispatcher σ ρ} {raw : String} {index : Nat}
    {command : Command σ ρ} {attempt : Attempt σ}
    (h : d.tryAlone raw index command = .ok attempt)
    : IsScore (Matcher.attemptScore attempt) := by
  unfold tryAlone at h
  cases ht : (d.matcherOf command).tokenize raw with
  | error fault =>
      rw [ht] at h
      cases h
  | ok tokens =>
      rw [ht] at h
      exact Matcher.isScore_of_attempt h

/-- The shared tokens, if any, are those of the call under the matcher for all. -/
def Shares (d : Dispatcher σ ρ) (raw : String) (standing : Standing σ ρ) : Prop :=
  ∀ tokens ∈ standing.shared, d.matcher.tokenize raw = .ok tokens

/-- Noting an attempt leaves the shared tokens as they are. -/
theorem Shares.note {d : Dispatcher σ ρ} {raw : String} {standing : Standing σ ρ}
    (h : d.Shares raw standing) (index : Nat) (command : Command σ ρ) (attempt : Attempt σ)
    : d.Shares raw (standing.note index command attempt) := by
  have shared : (standing.note index command attempt).shared = standing.shared := by
    unfold Standing.note
    split <;> split <;> rfl
  rw [Shares, shared]
  exact h

/-- Trying a command on shared tokens is trying it by itself, by cases on its matcher and on
whether the tokens were read before.
-/
theorem tryCommand_eq {d : Dispatcher σ ρ} {raw : String} {standing : Standing σ ρ}
    (h : d.Shares raw standing) (index : Nat) (command : Command σ ρ)
    : ∃ shared,
        d.Shares raw { standing with shared }
        ∧ d.tryCommand raw index command standing
          = (d.tryAlone raw index command).map (·, { standing with shared }) := by
  unfold tryCommand tryAlone matcherOf
  cases command.matcher with
  | some own =>
      refine ⟨standing.shared, h, ?_⟩
      dsimp only [Option.getD_some]
      cases own.tokenize raw <;> rfl
  | none =>
      dsimp only [Option.getD_none]
      cases hs : standing.shared with
      | some tokens =>
          refine ⟨standing.shared, h, ?_⟩
          rw [h tokens hs]
          rfl
      | none =>
          cases ht : d.matcher.tokenize raw with
          | error fault => exact ⟨standing.shared, h, rfl⟩
          | ok tokens =>
              refine ⟨some tokens, ?_, rfl⟩
              intro others hm
              cases hm
              exact ht

/-- A survey that came to the same end as commands tried by themselves: to the same fault, or to a
standing that sums up the attempts.
-/
inductive Surveyed (commands : List (Command σ ρ)) (seen : List (Attempt σ))
    : Except Fault (Standing σ ρ) → Except Fault (List (Attempt σ)) → Prop
  | fault {fault} : Surveyed commands seen (.error fault) (.error fault)
  | done {standing attempts} (tracks : standing.Tracks commands (seen ++ attempts))
    : Surveyed commands seen (.ok standing) (.ok attempts)

theorem Surveyed.cons {commands : List (Command σ ρ)} {seen : List (Attempt σ)}
    {attempt : Attempt σ} {result : Except Fault (Standing σ ρ)}
    {results : Except Fault (List (Attempt σ))}
    (h : Surveyed commands (seen ++ [attempt]) result results)
    : Surveyed commands seen result (results.map (attempt :: ·)) := by
  cases h with
  | fault => exact .fault
  | done tracks => exact .done (by simpa using tracks)

variable [OrderedScale σ]

/-- A survey comes to the same end as the commands tried by themselves, by induction on the
commands that are left.
-/
theorem surveyed_survey {d : Dispatcher σ ρ} {raw : String} {standing : Standing σ ρ}
    {commands done rest : List (Command σ ρ)} {seen : List (Attempt σ)}
    (shares : d.Shares raw standing) (tracks : standing.Tracks commands seen)
    (split : commands = done ++ rest) (place : done.length = seen.length)
    : Surveyed commands seen (d.survey raw seen.length standing rest).2
        (d.tryEach raw seen.length rest) := by
  induction rest generalizing done seen standing with
  | nil => exact .done (by simpa using tracks)
  | cons command rest ih =>
      obtain ⟨shared, hs, he⟩ := tryCommand_eq shares seen.length command
      rw [survey, tryEach, he]
      cases ha : d.tryAlone raw seen.length command with
      | error fault => exact .fault
      | ok attempt =>
          have found : commands[seen.length]? = some command := by
            simp [split, ← place]
          have next
              : ({ standing with shared }.note seen.length command attempt).Tracks commands
                  (seen ++ [attempt]) := by
            cases attempt with
            | ok outcome => exact (tracks.sharing shared).note_match found outcome
            | error rejection =>
                exact (tracks.sharing shared).note_rejection command (isScore_of_tryAlone ha)
          have split' : commands = (done ++ [command]) ++ rest := by
            rw [split, List.append_assoc]
            rfl
          have place' : (done ++ [command]).length = (seen ++ [attempt]).length := by
            simp [place]
          have more := ih (hs.note seen.length command attempt) next split' place'
          rw [List.length_append] at more
          exact more.cons

theorem surveyed_commands (d : Dispatcher σ ρ) (raw : String)
    : Surveyed d.commands [] (d.survey raw 0 .start d.commands).2
        (d.tryEach raw 0 d.commands) :=
  surveyed_survey nofun (.start d.commands) (List.nil_append _).symm rfl

/-- The whole survey of a dispatcher ends at the first fault of a command tried by itself. -/
theorem survey_of_fault {d : Dispatcher σ ρ} {raw : String} {fault : Fault}
    (h : d.tryEach raw 0 d.commands = .error fault)
    : (d.survey raw 0 .start d.commands).2 = .error fault := by
  have surveyed := d.surveyed_commands raw
  rw [h] at surveyed
  generalize (d.survey raw 0 .start d.commands).2 = result at surveyed
  cases surveyed
  rfl

/-- Otherwise it sums up the attempts of all commands. -/
theorem survey_of_attempts {d : Dispatcher σ ρ} {raw : String} {attempts : List (Attempt σ)}
    (h : d.tryEach raw 0 d.commands = .ok attempts)
    : ∃ standing, (d.survey raw 0 .start d.commands).2 = .ok standing
      ∧ standing.Tracks d.commands attempts := by
  have surveyed := d.surveyed_commands raw
  rw [h] at surveyed
  generalize (d.survey raw 0 .start d.commands).2 = result at surveyed
  cases surveyed with
  | @done standing _ tracks => exact ⟨standing, rfl, tracks⟩

/-- Commands tried by themselves are rejected at reachable scores. -/
theorem isScore_of_tryEach {d : Dispatcher σ ρ} {raw : String} {attempts : List (Attempt σ)}
    (h : d.tryEach raw 0 d.commands = .ok attempts)
    : ∀ rejection ∈ Matcher.rejections attempts, IsScore rejection.progress := by
  obtain ⟨_, _, tracks⟩ := survey_of_attempts h
  exact tracks.scores

------------------------------------------------------------
-- Selection

/-- The dispatcher gives up at the first fault of a command tried by itself. -/
theorem select_of_fault {d : Dispatcher σ ρ} {raw : String} {fault : Fault}
    (h : d.tryEach raw 0 d.commands = .error fault)
    : d.select raw = .error (.fault fault) := by
  rw [select, survey_of_fault h]

/-- The dispatcher selects the command of the best attempt. -/
theorem select_of_best {d : Dispatcher σ ρ} {raw : String} {attempts : List (Attempt σ)}
    (h : d.tryEach raw 0 d.commands = .ok attempts) {index : Nat} {outcome : Outcome σ}
    (hb : earliestBest Outcome.score none 0 attempts = some (index, outcome))
    : ∃ command, d.commands[index]? = some command
      ∧ d.select raw = .ok ⟨index, command, outcome⟩ := by
  obtain ⟨standing, hs, tracks⟩ := survey_of_attempts h
  have best := tracks.best_eq
  rw [hb, Option.map_eq_some_iff] at best
  obtain ⟨⟨index, command, outcome⟩, hf, he⟩ := best
  cases he
  refine ⟨command, tracks.command_eq _ hf, ?_⟩
  obtain ⟨shared, best, furthest⟩ := standing
  cases hf
  rw [select, hs]

/-- Where no attempt succeeds, the furthest rejection tells why if it got anywhere. -/
theorem select_of_rejections {d : Dispatcher σ ρ} {raw : String} {attempts : List (Attempt σ)}
    (h : d.tryEach raw 0 d.commands = .ok attempts)
    (hb : earliestBest Outcome.score none 0 attempts = none)
    : d.select raw
      = match Rejected.furthest? (Matcher.rejections attempts) with
        | some rejection =>
            if rejection.progress > 0 then .error (.mismatch rejection.reason)
            else .error .unknownCommand
        | none => .error .unknownCommand := by
  obtain ⟨standing, hs, tracks⟩ := survey_of_attempts h
  have best := tracks.best_eq
  rw [hb, Option.map_eq_none_iff] at best
  obtain ⟨shared, _, furthest⟩ := standing
  cases best
  rw [select, hs, ← tracks.furthest_eq]
  cases furthest <;> rfl

end Dispatcher

end CallGrammar

import CallGrammar.Proofs.Dispatch.Agreement
import CallGrammar.Proofs.Matching.Selection

/-! Commands with and without matchers of their own. Dispatching a call comes to the same as trying
every command by itself, on tokens read for it alone, and selecting among the results. So it cannot
be told that commands without a matcher of their own share the tokens of the call.
-/

namespace CallGrammar.Dispatcher

variable {σ ρ : Type} [Scale σ]

/-- What the commands give, each tried by itself under its own matcher or else the one for all. -/
def results (d : Dispatcher σ ρ) (raw : String) : List (Except Fault (Attempt σ)) :=
  d.commands.mapIdx (d.tryAlone raw)

/-- Commands tried in turn collect what they give from an index on, by list induction. -/
theorem tryEach_eq_collected (d : Dispatcher σ ρ) (raw : String) (index : Nat)
    (commands : List (Command σ ρ))
    : d.tryEach raw index commands
      = collected
          (commands.mapIdx fun place command => d.tryAlone raw (index + place) command) := by
  induction commands generalizing index with
  | nil => rfl
  | cons command rest ih =>
      have hrest := ih (index + 1)
      simp only [Nat.add_assoc, Nat.add_comm 1] at hrest
      rw [tryEach, hrest, List.mapIdx_cons, Nat.add_zero]
      cases d.tryAlone raw index command with
      | error fault => rfl
      | ok attempt => rfl

theorem tryEach_commands_eq (d : Dispatcher σ ρ) (raw : String)
    : d.tryEach raw 0 d.commands = collected (d.results raw) := by
  rw [tryEach_eq_collected]
  simp only [Nat.zero_add]
  rfl

theorem isScore_of_results {d : Dispatcher σ ρ} {raw : String} {attempts : List (Attempt σ)}
    (h : d.results raw = attempts.map .ok)
    : ∀ attempt ∈ attempts, IsScore (Matcher.attemptScore attempt) := by
  intro attempt member
  have hresult : .ok attempt ∈ d.results raw := by
    rw [h]
    exact List.mem_map_of_mem member
  obtain ⟨index, _, hattempt⟩ := List.mem_mapIdx.mp hresult
  exact isScore_of_tryAlone hattempt

variable [OrderedScale σ]

/-- Where commands match and none has a fault, the match that leads all others runs. -/
theorem dispatch_of_match {d : Dispatcher σ ρ} {raw : String} {attempts : List (Attempt σ)}
    (h : d.results raw = attempts.map .ok) (hcollected : collected (d.results raw) = .ok attempts)
    (matched : ∃ outcome, .ok (.ok outcome) ∈ d.results raw)
    : ∃ index command outcome,
        Leads Outcome.score
          (fun place outcome => (d.results raw)[place]? = some (.ok (.ok outcome))) index outcome
        ∧ d.commands[index]? = some command
        ∧ d.dispatch raw = .ok (command.callback outcome) := by
  have succeeded : ∃ outcome, .ok outcome ∈ attempts := by
    obtain ⟨outcome, member⟩ := matched
    rw [h] at member
    exact ⟨outcome, by simpa using member⟩
  obtain ⟨index, outcome, hbest, leads⟩ :=
    Matcher.exists_leads_of_match (isScore_of_results h) succeeded
  rw [← tryEach_commands_eq] at hcollected
  obtain ⟨command, found, hselect⟩ := select_of_best hcollected hbest
  refine ⟨index, command, outcome, leads.congr ?_, found, ?_⟩
  · intro place other
    rw [h]
    simp [Succeeds]
  · rw [dispatch, hselect]
    rfl

/-- Where commands are rejected and none has a fault, the rejection that leads all others tells why
if it got anywhere.
-/
theorem dispatch_of_rejections {d : Dispatcher σ ρ} {raw : String} {attempts : List (Attempt σ)}
    (h : d.results raw = attempts.map .ok) (hcollected : collected (d.results raw) = .ok attempts)
    (unmatched : ∀ outcome, .ok outcome ∉ attempts) (filled : d.commands ≠ [])
    : ∃ index, ∃ rejection : Rejection σ,
        Leads Rejected.progress
          (fun place rejection => (d.results raw)[place]? = some (.ok (.error rejection)))
          index rejection
        ∧ ((0 < rejection.progress ∧ d.dispatch raw = .error (.mismatch rejection.reason))
          ∨ (rejection.progress = 0 ∧ d.dispatch raw = .error .unknownCommand)) := by
  have hrejected : d.results raw = ((Matcher.rejections attempts).map .error).map .ok := by
    rw [← Matcher.eq_map_rejections unmatched]
    exact h
  have scores : ∀ rejection ∈ Matcher.rejections attempts, IsScore rejection.progress := by
    intro rejection member
    exact isScore_of_results hrejected (.error rejection) (List.mem_map_of_mem member)
  have rejected : Matcher.rejections attempts ≠ [] := by
    intro empty
    rw [empty] at hrejected
    exact filled (List.mapIdx_eq_nil_iff.mp hrejected)
  obtain ⟨index, best, hbest, leads⟩ := Rejected.exists_leads scores rejected
  rw [← tryEach_commands_eq] at hcollected
  have hselect := select_of_rejections hcollected (Matcher.earliestBest_eq_none unmatched)
  rw [hbest] at hselect
  refine ⟨index, best, leads.congr ?_, ?_⟩
  · intro place rejection
    rw [hrejected]
    simp
  · by_cases progress : 0 < best.progress
    · refine .inl ⟨progress, (dispatch_eq_error_iff d raw _).mpr ?_⟩
      rw [hselect]
      exact if_pos progress
    · have zero := OrderedScale.eq_zero_of_not_pos
        (scores best (List.mem_of_getElem? leads.found)) progress
      refine .inr ⟨zero, (dispatch_eq_error_iff d raw _).mpr ?_⟩
      rw [hselect]
      exact if_neg progress

/-- Dispatching selects among what the commands give, each tried by itself under its own matcher or
else the one for all, on tokens that are read for it alone.

If a command gives a fault, the first fault is the answer; a call that has no tokens is one.
Otherwise, if a command matches, the earliest one of greatest score runs on its outcome. Otherwise
the earliest rejection of greatest progress tells why if it got anywhere; if it did not, or there
are no commands, the command is unknown.
-/
theorem dispatch_selects (d : Dispatcher σ ρ) (raw : String)
    : ((∃ fault, .error fault ∈ d.results raw)
        → ∃ index fault,
            FirstError (d.results raw) index fault
            ∧ d.dispatch raw = .error (.fault fault))
      ∧ ((∀ fault, .error fault ∉ d.results raw)
        → (∃ outcome, .ok (.ok outcome) ∈ d.results raw)
        → ∃ index command outcome,
            Leads Outcome.score
              (fun place outcome => (d.results raw)[place]? = some (.ok (.ok outcome)))
              index outcome
            ∧ d.commands[index]? = some command
            ∧ d.dispatch raw = .ok (command.callback outcome))
      ∧ ((∀ fault, .error fault ∉ d.results raw)
        → (∀ outcome, .ok (.ok outcome) ∉ d.results raw)
        → (d.commands = [] → d.dispatch raw = .error .unknownCommand)
          ∧ (d.commands ≠ []
            → ∃ index, ∃ rejection : Rejection σ,
                Leads Rejected.progress
                  (fun place rejection => (d.results raw)[place]? = some (.ok (.error rejection)))
                  index rejection
                ∧ ((0 < rejection.progress ∧ d.dispatch raw = .error (.mismatch rejection.reason))
                  ∨ (rejection.progress = 0 ∧ d.dispatch raw = .error .unknownCommand)))) := by
  refine ⟨?_, ?_, ?_⟩
  · intro faults
    obtain ⟨index, fault, first, hcollected⟩ := collected_of_errors faults
    rw [← tryEach_commands_eq] at hcollected
    exact ⟨index, fault, first, (dispatch_eq_error_iff d raw _).mpr (select_of_fault hcollected)⟩
  · intro faultless matched
    obtain ⟨attempts, hresults, hcollected⟩ := collected_of_no_errors faultless
    exact dispatch_of_match hresults hcollected matched
  · intro faultless unmatched
    obtain ⟨attempts, hresults, hcollected⟩ := collected_of_no_errors faultless
    have nothing : ∀ outcome, .ok outcome ∉ attempts := by
      intro outcome member
      apply unmatched outcome
      rw [hresults]
      exact List.mem_map_of_mem member
    refine ⟨?_, dispatch_of_rejections hresults hcollected nothing⟩
    intro empty
    rw [dispatch, select, empty]
    rfl

/-- A saying of one word in which quotes count as any other character, and one under the matcher
for all.
-/
def sayings : Dispatcher Float String :=
  let word : Pattern := .sequence [.literal "say" true, .parameter "word" none]
  ⟨[⟨word, fun _ => "plain", none, some { Matcher.standard with quotes := [] }⟩,
    ⟨word, fun _ => "quoted", none, none⟩], .standard, .standard⟩

/-- A quote that stays open is a fault of the second command, although the first one matches; two
words in quotes match the second command only; and another word is unknown to both.
-/
theorem dispatch_selects_sayings
    : (∃ index,
        FirstError (sayings.results "say 'hi") index (.unterminatedQuote '\'' 4)
        ∧ sayings.dispatch "say 'hi" = .error (.fault (.unterminatedQuote '\'' 4)))
      ∧ (∃ index outcome,
          Leads Outcome.score
            (fun place outcome =>
              (sayings.results "say 'big hi'")[place]? = some (.ok (.ok outcome)))
            index outcome
          ∧ sayings.dispatch "say 'big hi'" = .ok "quoted")
      ∧ ∃ index, ∃ rejection : Rejection Float,
          Leads Rejected.progress
            (fun place rejection =>
              (sayings.results "tell")[place]? = some (.ok (.error rejection)))
            index rejection
          ∧ sayings.dispatch "tell" = .error .unknownCommand := by
  refine ⟨?_, ?_, ?_⟩
  · have faults : .error (.unterminatedQuote '\'' 4) ∈ sayings.results "say 'hi" :=
      .tail _ (.head _)
    have hfault : sayings.dispatch "say 'hi" = .error (.fault (.unterminatedQuote '\'' 4)) := by
      with_unfolding_all rfl
    obtain ⟨index, fault, first, hfirst⟩ := (dispatch_selects sayings "say 'hi").1 ⟨_, faults⟩
    cases hfirst.symm.trans hfault
    exact ⟨index, first, hfault⟩
  · have matched : ∃ outcome, .ok (.ok outcome) ∈ sayings.results "say 'big hi'" :=
      ⟨_, .tail _ (.head _)⟩
    obtain ⟨index, command, outcome, leads, -, -⟩ :=
      (dispatch_selects sayings "say 'big hi'").2.1
        (error_not_mem_of_all_isOk (by with_unfolding_all rfl)) matched
    exact ⟨index, outcome, leads, by with_unfolding_all rfl⟩
  · have unmatched : ∀ outcome, .ok (.ok outcome) ∉ sayings.results "tell" := by
      have hall : (sayings.results "tell").all (fun result =>
          result.toOption.all fun attempt => !attempt.isOk) = true := by
        with_unfolding_all rfl
      intro outcome member
      cases List.all_eq_true.mp hall _ member
    obtain ⟨index, rejection, leads, -⟩ :=
      ((dispatch_selects sayings "tell").2.2
        (error_not_mem_of_all_isOk (by with_unfolding_all rfl)) unmatched).2 (List.cons_ne_nil _ _)
    exact ⟨index, rejection, leads, by with_unfolding_all rfl⟩

end CallGrammar.Dispatcher

import CallGrammar.Proofs.Definition.Frames
import CallGrammar.Proofs.Definition.ProblemSpans

/-! Open groups. The frames of a stack are those of the groups that the lexemes read so far leave
open, on top of the frame of the whole definition. So a frame is always there, and the groups that
are open in the end are the ones a definition is refused for.
-/

namespace CallGrammar.Definition

------------------------------------------------------------
-- Open groups

/-- The groups that are open behind a lexeme, from the innermost on. -/
def Lexeme.nest (groups : List Bracket) : Lexeme → List Bracket
  | .openRound => .round :: groups
  | .openSquare => .square :: groups
  | .closeRound | .closeSquare => groups.tail
  | _ => groups

/-- The groups that lexemes open and do not close, from the innermost on. -/
def unclosed (read : List Placed) : List Bracket :=
  read.foldl (fun groups placed => placed.lexeme.nest groups) []

theorem Draft.Step.map_bracket_openings {ignoreCase : Bool} {draft next : Draft}
    {placed : Placed} (h : Step ignoreCase draft placed next)
    : next.openings.map Opening.bracket
      = placed.lexeme.nest (draft.openings.map Opening.bracket) := by
  cases h with
  | openGroup bracket => cases bracket <;> rfl
  | @closeGroup _ bracket _ _ _ _ _ _ closed => cases bracket <;> rfl
  | _ => rfl

/-- A run opens and closes the groups that its lexemes do, by induction on the lexemes. -/
theorem Draft.Reaches.map_bracket_openings {ignoreCase : Bool} {draft last : Draft}
    {read : List Placed} (h : Reaches ignoreCase draft read last)
    : last.openings.map Opening.bracket
      = read.foldl (fun groups placed => placed.lexeme.nest groups)
          (draft.openings.map Opening.bracket) := by
  induction read generalizing draft with
  | nil =>
      cases h
      rfl
  | cons first rest ih =>
      obtain ⟨next, step, run⟩ := reaches_cons_iff.mp h
      rw [ih run, step.map_bracket_openings]
      rfl

/-- There is a frame for every open group, and one for the whole definition below them. -/
theorem Stack.map_bracket_of_run {ignoreCase : Bool} {read : List Placed} {stack : Stack}
    (h : run ignoreCase read = .ok stack)
    : stack.frames.map Frame.bracket = (unclosed read).map some ++ [none] := by
  obtain ⟨last, run, rfl⟩ := exists_reaches_of_run h
  have hopen : last.openings.map Opening.bracket = unclosed read := run.map_bracket_openings
  rw [← hopen]
  exact Draft.map_bracket_frames last.body last.openings

/-- Groups that are left open are told, from the outermost on. -/
theorem parse_of_open_groups {ignoreCase : Bool} {definition : String} {last : Draft}
    {groups : List Bracket} (run : Draft.Reaches ignoreCase .start (lexemes definition) last)
    (awaits : last.awaiting = .item) (hopen : last.openings.map Opening.bracket = groups)
    (isOpen : groups ≠ [])
    : ∃ span,
        parse ignoreCase definition = .error ⟨.unterminatedGroups groups.reverse, span⟩ := by
  have hrun : (lexemes definition).foldlM (Draft.feed ignoreCase) .start = .ok last := run
  obtain ⟨body, openings, awaiting, declared⟩ := last
  obtain rfl : awaiting = .item := awaits
  cases openings with
  | nil => exact absurd hopen.symm isOpen
  | cons opening openings =>
      refine ⟨opening.span.upTo (.point definition.utf8ByteSize), ?_⟩
      rw [parse, hrun, ← hopen, ← List.map_reverse]
      rfl

------------------------------------------------------------
-- Compiling with frames

/-- What holds of compiling a definition, whatever is written in it. -/
structure ReadsSoundly (compiler : Compiler) (definition : String) : Prop where
  /-- There is a pattern, or a fault of the definition with one of its spans. -/
  placed
    : (∃ p, compiler.compile definition = .ok p)
      ∨ ∃ malformed message span,
          compiler.compile definition = .error malformed
          ∧ malformed.report = ⟨.malformed message, some span⟩
          ∧ span.Within definition
  /-- After any leading lexemes the frames are those of the groups that are open, on top of the one
  of the whole definition.
  -/
  founded
    : ∀ read behind stack,
        lexemes definition = read ++ behind
        → Stack.run compiler.ignoreCase read = .ok stack
        → stack.frames.map Frame.bracket = (unclosed read).map some ++ [none]
  /-- So no frame is ever looked for that is not there, neither on the way nor in the end. -/
  unstuck
    : (∀ read behind,
        lexemes definition = read ++ behind
        → Stack.run compiler.ignoreCase read ≠ .error .noFrame)
      ∧ Stack.parse compiler.ignoreCase definition ≠ .error .noFrame
  /-- Reading with frames is how definitions are compiled. -/
  faithful
    : (Stack.parse compiler.ignoreCase definition).map (Compiler.simplified compiler.simplify)
      = (compiler.compile definition).mapError .malformed
  /-- Groups that are left open, where nothing else is, are all told from the outermost on. -/
  unterminated
    : ∀ stack groups,
        Stack.run compiler.ignoreCase (lexemes definition) = .ok stack
        → stack.awaiting = .item
        → stack.frames.map Frame.bracket = groups.map some ++ [none]
        → groups ≠ []
        → ∃ malformed,
            compiler.compile definition = .error malformed
            ∧ malformed.problem.message
              = "unterminated expression: "
                ++ String.intercalate " > " (groups.reverse.map Bracket.name)

/-- Definitions are read soundly: problems are shown inside the definition, the frame of the whole
definition stays below those of the open groups, and these are what the end tells about.
-/
theorem compile_reads_soundly (compiler : Compiler) (definition : String)
    : ReadsSoundly compiler definition where
  placed := by
    cases hc : compiler.compile definition with
    | ok p => exact .inl ⟨p, rfl⟩
    | error malformed =>
        have hin := within_of_parse_error (compile_eq_error_iff.mp hc)
        exact .inr ⟨malformed, malformed.problem.message, malformed.span, rfl, rfl, hin⟩
  founded := by
    intro read behind stack _ hrun
    exact Stack.map_bracket_of_run hrun
  unstuck := by
    refine ⟨fun read _ _ => Stack.run_ne_noFrame compiler.ignoreCase read, ?_⟩
    rw [Stack.parse_eq_mapError]
    exact Stack.mapError_ne_noFrame _
  faithful := by
    rw [Stack.parse_eq_mapError, Compiler.compile]
    cases parse compiler.ignoreCase definition <;> rfl
  unterminated := by
    intro stack groups hrun awaits hgroups isOpen
    obtain ⟨last, run, rfl⟩ := Stack.exists_reaches_of_run hrun
    have hopen : last.openings.map Opening.bracket = groups := by
      have hframes := (Draft.map_bracket_frames last.body last.openings).symm.trans hgroups
      exact (List.map_inj_right fun _ _ => Option.some.inj).mp (List.append_cancel_right hframes)
    obtain ⟨span, hparse⟩ := parse_of_open_groups run awaits hopen isOpen
    exact ⟨_, compile_eq_error_iff.mpr hparse, rfl⟩

/-- Two groups behind a character of two bytes are left open, and the inner one is shown up to the
end.
-/
theorem compile_reads_soundly_open_groups
    : ∃ malformed,
        Compiler.standard.compile "gö [nach (a" = .error malformed
        ∧ malformed.problem.message = "unterminated expression: optional > group"
        ∧ malformed.span = ⟨10, 12⟩
        ∧ malformed.span.Within "gö [nach (a" := by
  have compiled : Compiler.standard.compile "gö [nach (a"
      = .error ⟨.unterminatedGroups [.square, .round], ⟨10, 12⟩⟩ := by
    rfl
  have sound := compile_reads_soundly .standard "gö [nach (a"
  obtain ⟨malformed, hm, told⟩ :=
    sound.unterminated _ [.round, .square] rfl rfl rfl (List.cons_ne_nil _ _)
  rcases sound.placed with ⟨p, hp⟩ | ⟨shown, message, span, hs, hreport, within⟩
  · rw [compiled] at hp
    cases hp
  · obtain rfl : malformed = shown := Except.error.inj (hm.symm.trans hs)
    obtain rfl : malformed = _ := Except.error.inj (hm.symm.trans compiled)
    cases hreport
    exact ⟨_, compiled, told, rfl, within⟩

end CallGrammar.Definition

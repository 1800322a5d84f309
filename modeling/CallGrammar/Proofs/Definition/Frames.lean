import CallGrammar.Proofs.Definition.Steps

/-! Reading with a stack of frames. A frame is a group under way, and the bottom frame is the whole
definition. Unlike a draft, a stack may be empty and may hold the whole definition anywhere, so that
reading can look for a frame that is not there. No run gets there: a stack follows a draft.
-/

namespace CallGrammar.Definition

------------------------------------------------------------
-- Frames

/-- A group under way: its brackets, of which the whole definition has none, where it was opened and
what was read of it.
-/
structure Frame where
  bracket : Option Bracket
  opened : Span
  body : Body

/-- Closes a frame at a span. -/
def Frame.finish (frame : Frame) (last : Span) : Except Malformed Pattern :=
  match frame.bracket with
  | some bracket => frame.body.close bracket (frame.opened.upTo last)
  | none => frame.body.closeRoot (frame.opened.upTo last)

/-- The state between two lexemes: the frames from the innermost on, what comes next, and the names
declared so far.
-/
structure Stack where
  frames : List Frame
  awaiting : Awaiting
  declared : List String

/-- Why reading with frames stops: the definition is malformed, or a frame is looked for that is not
there.
-/
inductive Halt where
  | malformed (malformed : Malformed)
  | noFrame

namespace Body

/-- Lets the last item match in any case, which must be a word. -/
def foldCase (placed : Placed) (body : Body) : Except Malformed Body :=
  match body.items with
  | .literal text _ :: items => .ok { body with items := .literal text false :: items }
  | _ => .error placed.unexpected

/-- Checks that the last item can be named. -/
def requireNameable (placed : Placed) (body : Body) : Except Malformed Body :=
  match body.items with
  | .optional .. :: _ | .variant .. :: _ => .ok body
  | item :: _ => .error ⟨.unnameable item.kind, placed.span⟩
  | [] => .error placed.unexpected

/-- Names the last item. -/
def nameLast (identifier : String) (span : Span) (body : Body) : Except Malformed Body :=
  match body.items with
  | [] => .error ⟨.strayIdentifier, span⟩
  | item :: items =>
      match Draft.identified identifier item with
      | some group => .ok { body with items := group :: items }
      | none => .error ⟨.strayIdentifier, span⟩

/-- Goes on to the next alternative, if the current one has an item. -/
def endAlternative (span : Span) (body : Body) : Except Malformed Body :=
  match body.items with
  | [] => .error ⟨.emptyAlternative, span⟩
  | items => .ok ⟨items.reverse :: body.alternatives, []⟩

end Body

namespace Stack

/-- Nothing was read: there is the frame of the whole definition. -/
def start : Stack :=
  ⟨[⟨none, .point 0, .empty⟩], .item, []⟩

/-- Changes what was read of the innermost frame, which must be there. -/
def onTop (update : Body → Except Malformed Body) (stack : Stack) : Except Halt Stack :=
  match stack.frames with
  | [] => .error .noFrame
  | top :: below =>
      match update top.body with
      | .ok body => .ok { stack with frames := { top with body := body } :: below }
      | .error malformed => .error (.malformed malformed)

def await (awaiting : Awaiting) (stack : Stack) : Stack :=
  { stack with awaiting := awaiting }

/-- Awaits an item after adding one. -/
def pushItem (item : Pattern) (stack : Stack) : Except Halt Stack :=
  (stack.await .item).onTop fun body => .ok (body.push item)

/-- Awaits an item after naming the last one. -/
def nameLast (identifier : String) (span : Span) (stack : Stack) : Except Halt Stack :=
  (stack.await .item).onTop (Body.nameLast identifier span)

/-- Declares a name, which must be new. -/
def declare (name : String) (span : Span) (stack : Stack) : Except Halt Stack :=
  if name ∈ stack.declared then .error (.malformed ⟨.repeatedName name, span⟩)
  else .ok { stack with declared := name :: stack.declared }

/-- Puts a frame for a group on top. -/
def openGroup (bracket : Bracket) (span : Span) (stack : Stack) : Stack :=
  { stack with frames := ⟨some bracket, span, .empty⟩ :: stack.frames }

/-- Closes the innermost frame, which must have the given bracket and another frame below it, and
adds the group to the frame that is then the innermost.
-/
def closeGroup (bracket : Bracket) (placed : Placed) (stack : Stack) : Except Halt Stack :=
  match stack.frames with
  | [] => .error (.malformed placed.unexpected)
  | top :: below =>
      if below = [] ∨ top.bracket ≠ some bracket then .error (.malformed placed.unexpected)
      else
        match top.finish placed.span with
        | .ok group => { stack with frames := below }.onTop fun body => .ok (body.push group)
        | .error malformed => .error (.malformed malformed)

/-- Reads a lexeme where an item may start or the last one may be continued. -/
def feedItem (ignoreCase : Bool) (stack : Stack) (placed : Placed) : Except Halt Stack :=
  match placed.lexeme with
  | .word text => stack.pushItem (.literal text !ignoreCase)
  | .openAngle => .ok (stack.await (.parameterName placed.span))
  | .caret => stack.onTop (Body.foldCase placed)
  | .colon => (stack.onTop (Body.requireNameable placed)).map (await .identifier)
  | .bar => stack.onTop (Body.endAlternative placed.span)
  | .openRound => .ok (stack.openGroup .round placed.span)
  | .openSquare => .ok (stack.openGroup .square placed.span)
  | .closeRound => stack.closeGroup .round placed
  | .closeSquare => stack.closeGroup .square placed
  | .closeAngle | .ellipsis => .error (.malformed placed.unexpected)

/-- Reads one lexeme. -/
def feed (ignoreCase : Bool) (stack : Stack) (placed : Placed) : Except Halt Stack :=
  match stack.awaiting, placed.lexeme with
  | .item, _ => stack.feedItem ignoreCase placed
  | .parameterName opened, .word name => .ok (stack.await (.afterName opened name))
  | .parameterName opened, .closeAngle =>
      .error (.malformed ⟨.emptyName, opened.upTo placed.span⟩)
  | .afterName opened name, .colon => .ok (stack.await (.typeName opened name))
  | .typeName opened name, .word typeName => .ok (stack.await (.afterType opened name typeName))
  | .afterName opened name, .closeAngle =>
      (stack.declare name (opened.upTo placed.span)).bind (pushItem (.parameter name none))
  | .afterType opened name typeName, .closeAngle =>
      (stack.declare name (opened.upTo placed.span)).bind
        (pushItem (.parameter name (some typeName)))
  | .afterName opened name, .ellipsis =>
      (stack.declare name (opened.upTo placed.span)).bind fun stack =>
        (stack.pushItem (.tail name)).map (await (.tailEnd opened))
  | .tailEnd _, .closeAngle => .ok (stack.await .item)
  | .identifier, .word identifier =>
      (stack.declare identifier placed.span).bind (nameLast identifier placed.span)
  | _, _ => .error (.malformed placed.unexpected)

/-- Reads lexemes from the start on. -/
def run (ignoreCase : Bool) (read : List Placed) : Except Halt Stack :=
  read.foldlM (feed ignoreCase) start

/-- Ends a definition at its last offset: only the frame of the whole definition may be left, and it
must be.
-/
def finish (stop : Nat) (stack : Stack) : Except Halt Pattern :=
  match stack.awaiting with
  | .identifier => .error (.malformed ⟨.missingIdentifier, .point stop⟩)
  | .parameterName opened | .afterName opened _ | .typeName opened _ | .afterType opened _ _
  | .tailEnd opened => .error (.malformed ⟨.unterminatedParameter, opened.upTo (.point stop)⟩)
  | .item =>
      match stack.frames with
      | [] => .error .noFrame
      | top :: below =>
          if below = [] then (top.finish (.point stop)).mapError .malformed
          else
            .error (.malformed
              ⟨.unterminatedGroups (stack.frames.dropLast.reverse.filterMap Frame.bracket),
                top.opened.upTo (.point stop)⟩)

/-- The pattern that a definition describes, read with frames and exactly as written. -/
def parse (ignoreCase : Bool) (definition : String) : Except Halt Pattern :=
  (run ignoreCase (lexemes definition)).bind (finish definition.utf8ByteSize)

end Stack

------------------------------------------------------------
-- A stack follows a draft

namespace Draft

/-- The frames of what was read: the innermost body and the bodies around the openings, the
outermost of which is the whole definition's.
-/
def frames (body : Body) : List Opening → List Frame
  | [] => [⟨none, .point 0, body⟩]
  | opening :: openings =>
      ⟨some opening.bracket, opening.span, body⟩ :: frames opening.around openings

/-- A draft as a stack of frames. -/
def stack (draft : Draft) : Stack :=
  ⟨frames draft.body draft.openings, draft.awaiting, draft.declared⟩

/-- What reading with frames answers where a draft gives the result. -/
def mirrored (result : Except Malformed Draft) : Except Halt Stack :=
  (result.map stack).mapError .malformed

@[simp]
theorem mirrored_ok (draft : Draft) : mirrored (.ok draft) = .ok draft.stack :=
  rfl

@[simp]
theorem mirrored_error (malformed : Malformed)
    : mirrored (.error malformed) = .error (.malformed malformed) :=
  rfl

theorem onTop_stack (draft : Draft) (update : Body → Except Malformed Body)
    : draft.stack.onTop update
      = mirrored ((update draft.body).map fun body => { draft with body := body }) := by
  obtain ⟨body, openings, awaiting, declared⟩ := draft
  cases openings <;> simp only [stack, frames, Stack.onTop] <;> cases update body <;> rfl

theorem pushItem_stack (draft : Draft) (item : Pattern)
    : draft.stack.pushItem item = .ok (draft.pushItem item).stack :=
  onTop_stack { draft with awaiting := .item } _

theorem nameLast_stack (draft : Draft) (identifier : String) (span : Span)
    : draft.stack.nameLast identifier span = mirrored (draft.nameLast identifier span) := by
  have h := onTop_stack { draft with awaiting := .item } (Body.nameLast identifier span)
  refine h.trans ?_
  obtain ⟨⟨alternatives, items⟩, openings, awaiting, declared⟩ := draft
  cases items with
  | nil => rfl
  | cons item items =>
      simp only [Body.nameLast, nameLast]
      cases identified identifier item <;> rfl

theorem declare_stack (draft : Draft) (name : String) (span : Span)
    : draft.stack.declare name span = mirrored (draft.declare name span) := by
  by_cases hname : name ∈ draft.declared <;>
    simp [Stack.declare, declare, stack, hname]

/-- A name is declared, and what goes on after it goes on in the same way. -/
theorem declare_bind_stack (draft : Draft) (name : String) (span : Span)
    {continuation : Draft → Except Malformed Draft} {mirror : Stack → Except Halt Stack}
    (h : ∀ next, mirror next.stack = mirrored (continuation next))
    : (draft.stack.declare name span).bind mirror
      = mirrored ((draft.declare name span).bind continuation) := by
  rw [declare_stack]
  cases draft.declare name span with
  | error malformed => rfl
  | ok next => exact h next

theorem declare_map_stack (draft : Draft) (name : String) (span : Span)
    {update : Draft → Draft} {mirror : Stack → Except Halt Stack}
    (h : ∀ next, mirror next.stack = .ok (update next).stack)
    : (draft.stack.declare name span).bind mirror
      = mirrored ((draft.declare name span).map update) := by
  rw [declare_stack]
  cases draft.declare name span with
  | error malformed => rfl
  | ok next => exact h next

theorem frames_ne_nil (body : Body) (openings : List Opening) : frames body openings ≠ [] := by
  cases openings <;> simp [frames]

/-- The frame below one that is closed is there. -/
theorem closeGroup_stack (draft : Draft) (bracket : Bracket) (placed : Placed)
    : draft.stack.closeGroup bracket placed = mirrored (draft.closeGroup bracket placed) := by
  obtain ⟨body, openings, awaiting, declared⟩ := draft
  cases openings with
  | nil => simp [Stack.closeGroup, closeGroup, stack, frames]
  | cons opening openings =>
      have hbelow := frames_ne_nil opening.around openings
      by_cases hb : opening.bracket = bracket
      · subst hb
        simp only [Stack.closeGroup, closeGroup, stack, frames, hbelow, Frame.finish, if_true,
          not_true_eq_false, ne_eq, or_false, if_false]
        cases body.close opening.bracket (opening.span.upTo placed.span) with
        | error malformed => rfl
        | ok group => exact onTop_stack ⟨opening.around, openings, awaiting, declared⟩ _
      · simp [Stack.closeGroup, closeGroup, stack, frames, hbelow, hb]

/-- Where an item may start, by cases on the lexeme. -/
theorem feedItem_stack (ignoreCase : Bool) (draft : Draft) (placed : Placed)
    (awaits : draft.awaiting = .item)
    : draft.stack.feedItem ignoreCase placed = mirrored (draft.feedItem ignoreCase placed) := by
  obtain ⟨lexeme, span⟩ := placed
  obtain ⟨⟨alternatives, items⟩, openings, awaiting, declared⟩ := draft
  obtain rfl : awaiting = .item := awaits
  unfold Stack.feedItem feedItem
  cases lexeme with
  | word text => exact pushItem_stack _ _
  | closeRound => exact closeGroup_stack _ _ _
  | closeSquare => exact closeGroup_stack _ _ _
  | caret =>
      refine (onTop_stack _ _).trans ?_
      cases items with
      | nil => rfl
      | cons item items => cases item <;> rfl
  | colon =>
      refine (congrArg (Except.map (Stack.await .identifier)) (onTop_stack _ _)).trans ?_
      cases items with
      | nil => rfl
      | cons item items => cases item <;> rfl
  | bar =>
      refine (onTop_stack _ _).trans ?_
      cases items <;> rfl
  | _ => rfl

/-- A stack reads a lexeme as the draft does, by cases on what it awaits. -/
theorem feed_stack (ignoreCase : Bool) (draft : Draft) (placed : Placed)
    : draft.stack.feed ignoreCase placed = mirrored (draft.feed ignoreCase placed) := by
  obtain ⟨body, openings, awaiting, declared⟩ := draft
  obtain ⟨lexeme, span⟩ := placed
  cases awaiting with
  | item =>
      simp only [Stack.feed, feed]
      exact feedItem_stack ignoreCase _ _ rfl
  | parameterName opened => cases lexeme <;> rfl
  | afterName opened name =>
      cases lexeme with
      | closeAngle => exact declare_map_stack _ _ _ fun next => pushItem_stack next _
      | ellipsis =>
          have hpush (next : Draft)
              : (next.stack.pushItem (.tail name)).map (Stack.await (.tailEnd opened))
                = .ok { next.pushItem (.tail name) with awaiting := .tailEnd opened }.stack := by
            rw [pushItem_stack]
            rfl
          exact declare_map_stack _ _ _ hpush
      | _ => rfl
  | typeName opened name => cases lexeme <;> rfl
  | afterType opened name typeName =>
      cases lexeme with
      | closeAngle => exact declare_map_stack _ _ _ fun next => pushItem_stack next _
      | _ => rfl
  | tailEnd opened => cases lexeme <;> rfl
  | identifier =>
      cases lexeme with
      | word name => exact declare_bind_stack _ _ _ fun next => nameLast_stack next name span
      | _ => rfl

/-- Reading with frames follows the draft, by induction on the lexemes. -/
theorem foldlM_feed_stack (ignoreCase : Bool) (draft : Draft) (read : List Placed)
    : read.foldlM (Stack.feed ignoreCase) draft.stack
      = mirrored (read.foldlM (feed ignoreCase) draft) := by
  induction read generalizing draft with
  | nil => rfl
  | cons first rest ih =>
      rw [List.foldlM_cons, List.foldlM_cons, feed_stack]
      cases draft.feed ignoreCase first with
      | error malformed => rfl
      | ok next => exact ih next

/-- The frames hold the open groups on top of the whole definition, by induction on the openings. -/
theorem map_bracket_frames (body : Body) (openings : List Opening)
    : (frames body openings).map Frame.bracket
      = (openings.map Opening.bracket).map some ++ [none] := by
  induction openings generalizing body with
  | nil => rfl
  | cons opening openings ih => simp [frames, ih]

theorem filterMap_bracket_frames (body : Body) (openings : List Opening)
    : (frames body openings).dropLast.filterMap Frame.bracket
      = openings.map Opening.bracket := by
  induction openings generalizing body with
  | nil => rfl
  | cons opening openings ih =>
      rw [frames, List.dropLast_cons_of_ne_nil (frames_ne_nil _ _), List.filterMap_cons, ih]
      rfl

/-- The frame of the whole definition is there in the end. -/
theorem finish_stack (draft : Draft) (stop : Nat)
    : draft.stack.finish stop = (draft.finish stop).mapError .malformed := by
  obtain ⟨body, openings, awaiting, declared⟩ := draft
  cases awaiting with
  | item =>
      cases openings with
      | nil => rfl
      | cons opening openings =>
          have hbelow := frames_ne_nil opening.around openings
          have hgroups := filterMap_bracket_frames body (opening :: openings)
          simp only [Stack.finish, finish, stack, List.filterMap_reverse, List.map_reverse, hgroups]
          simp only [frames, hbelow, if_false]
          rfl
  | _ => rfl

end Draft

namespace Stack

theorem run_eq_mirrored (ignoreCase : Bool) (read : List Placed)
    : run ignoreCase read = Draft.mirrored (read.foldlM (Draft.feed ignoreCase) .start) :=
  Draft.foldlM_feed_stack ignoreCase .start read

theorem parse_eq_mapError (ignoreCase : Bool) (definition : String)
    : parse ignoreCase definition
      = (Definition.parse ignoreCase definition).mapError .malformed := by
  unfold parse Definition.parse
  rw [run_eq_mirrored]
  cases (lexemes definition).foldlM (Draft.feed ignoreCase) .start with
  | error malformed => rfl
  | ok last => exact last.finish_stack definition.utf8ByteSize

/-- Where a definition is refused for a problem only, no frame is missing. -/
theorem mapError_ne_noFrame {α : Type} (result : Except Malformed α)
    : result.mapError Halt.malformed ≠ .error .noFrame := by
  cases result <;> nofun

/-- A frame is there whenever one is looked for. -/
theorem run_ne_noFrame (ignoreCase : Bool) (read : List Placed)
    : run ignoreCase read ≠ .error .noFrame := by
  rw [run_eq_mirrored]
  exact mapError_ne_noFrame _

/-- Where reading with frames arrives, a draft arrives, too. -/
theorem exists_reaches_of_run {ignoreCase : Bool} {read : List Placed} {stack : Stack}
    (h : run ignoreCase read = .ok stack)
    : ∃ last, Draft.Reaches ignoreCase .start read last ∧ stack = last.stack := by
  rw [run_eq_mirrored] at h
  cases hrun : read.foldlM (Draft.feed ignoreCase) .start with
  | error malformed =>
      rw [hrun] at h
      cases h
  | ok last =>
      rw [hrun] at h
      cases h
      exact ⟨last, hrun, rfl⟩

end Stack

end CallGrammar.Definition

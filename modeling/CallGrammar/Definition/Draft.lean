import CallGrammar.Definition.Problem

/-! Drafts: what was read of a definition, one lexeme at a time, until it makes a pattern. -/

namespace CallGrammar.Definition

------------------------------------------------------------
-- Bodies

/-- What was read of a group or of the whole definition: the finished alternatives and the
items of the current one. Both lists have the newest element first, each alternative is in
order.
-/
structure Body where
  alternatives : List (List Pattern)
  items : List Pattern

namespace Body

/-- The body of which nothing was read. -/
def empty : Body :=
  ⟨[], []⟩

/-- Adds an item to the current alternative. -/
def push (body : Body) (item : Pattern) : Body :=
  { body with items := item :: body.items }

/-- The choice between the finished alternatives and the current one. -/
def choice (body : Body) (parenthesized : Bool) : Pattern :=
  .variant none parenthesized ((body.items.reverse :: body.alternatives).reverse.map .sequence)

/-- Closes the body of a bracketed group that covers the given span. -/
def close (bracket : Bracket) (span : Span) (body : Body) : Except Malformed Pattern :=
  match body.alternatives, body.items with
  | [], [] => .error ⟨.emptyGroup bracket, span⟩
  | _ :: _, [] => .error ⟨.emptyAlternative, span⟩
  | [], _ :: _ =>
      .ok (match bracket with
        | .round => .sequence body.items.reverse
        | .square => .optional none (.sequence body.items.reverse))
  | _ :: _, _ :: _ =>
      .ok (match bracket with
        | .round => body.choice true
        | .square => .optional none (body.choice false))

/-- Closes the body of the whole definition. -/
def closeRoot (span : Span) (body : Body) : Except Malformed Pattern :=
  match body.alternatives, body.items with
  | [], _ => .ok (.sequence body.items.reverse)
  | _ :: _, [] => .error ⟨.emptyAlternative, span⟩
  | _ :: _, _ :: _ => .ok (.sequence [body.choice false])

end Body

------------------------------------------------------------
-- Drafts

/-- What the next lexeme has to continue. The states inside a parameter hold the span of its
opening mark.
-/
inductive Awaiting where
  | item
  | parameterName (opened : Span)
  | afterName (opened : Span) (name : String)
  | typeName (opened : Span) (name : String)
  | afterType (opened : Span) (name typeName : String)
  | tailEnd (opened : Span)
  | identifier
deriving DecidableEq

/-- A group that was opened and not closed yet: its bracket with its span, and the body around
the group.
-/
structure Opening where
  bracket : Bracket
  span : Span
  around : Body

/-- The state between two lexemes: the innermost body, the open groups around it from the
innermost on, what comes next, and the names declared so far.
-/
structure Draft where
  body : Body
  openings : List Opening
  awaiting : Awaiting
  declared : List String

namespace Draft

/-- Nothing was read. -/
def start : Draft :=
  ⟨.empty, [], .item, []⟩

/-- Awaits an item after adding one. -/
def pushItem (draft : Draft) (item : Pattern) : Draft :=
  { draft with body := draft.body.push item, awaiting := .item }

/-- Declares a name, which must be new. -/
def declare (draft : Draft) (name : String) (span : Span) : Except Malformed Draft :=
  if name ∈ draft.declared then .error ⟨.repeatedName name, span⟩
  else .ok { draft with declared := name :: draft.declared }

/-- Gives an identifier to a closed group. Brackets around a choice without parentheses of its
own pass the identifier on to the choice.
-/
def identified (identifier : String) : Pattern → Option Pattern
  | .optional own (.variant _ false alternatives) =>
      some (.optional own (.variant (some identifier) false alternatives))
  | .optional _ inner => some (.optional (some identifier) inner)
  | .variant _ parenthesized alternatives =>
      some (.variant (some identifier) parenthesized alternatives)
  | _ => none

/-- Names the last item, which must be a group. -/
def nameLast (draft : Draft) (identifier : String) (span : Span) : Except Malformed Draft :=
  match draft.body.items with
  | [] => .error ⟨.strayIdentifier, span⟩
  | item :: items =>
      match identified identifier item with
      | some group =>
          .ok { draft with
            body := { draft.body with items := group :: items }
            awaiting := .item }
      | none => .error ⟨.strayIdentifier, span⟩

/-- Closes the innermost group, which must have the given bracket. -/
def closeGroup (draft : Draft) (bracket : Bracket) (placed : Placed) : Except Malformed Draft :=
  match draft.openings with
  | [] => .error placed.unexpected
  | opening :: openings =>
      if opening.bracket = bracket then
        (draft.body.close bracket (opening.span.upTo placed.span)).map (fun group =>
          { draft with body := opening.around.push group, openings := openings })
      else
        .error placed.unexpected

/-- Opens a group. -/
def openGroup (draft : Draft) (bracket : Bracket) (span : Span) : Draft :=
  { draft with body := .empty, openings := ⟨bracket, span, draft.body⟩ :: draft.openings }

/-- Reads a lexeme where an item may start or the last one may be continued. -/
def feedItem (ignoreCase : Bool) (draft : Draft) (placed : Placed) : Except Malformed Draft :=
  match placed.lexeme with
  | .word text => .ok (draft.pushItem (.literal text !ignoreCase))
  | .openAngle => .ok { draft with awaiting := .parameterName placed.span }
  | .caret =>
      match draft.body.items with
      | .literal text _ :: items =>
          .ok { draft with body := { draft.body with items := .literal text false :: items } }
      | _ => .error placed.unexpected
  | .colon =>
      match draft.body.items with
      | .optional .. :: _ | .variant .. :: _ => .ok { draft with awaiting := .identifier }
      | item :: _ => .error ⟨.unnameable item.kind, placed.span⟩
      | [] => .error placed.unexpected
  | .bar =>
      match draft.body.items with
      | [] => .error ⟨.emptyAlternative, placed.span⟩
      | items => .ok { draft with body := ⟨items.reverse :: draft.body.alternatives, []⟩ }
  | .openRound => .ok (draft.openGroup .round placed.span)
  | .openSquare => .ok (draft.openGroup .square placed.span)
  | .closeRound => draft.closeGroup .round placed
  | .closeSquare => draft.closeGroup .square placed
  | .closeAngle | .ellipsis => .error placed.unexpected

/-- Reads one lexeme. -/
def feed (ignoreCase : Bool) (draft : Draft) (placed : Placed) : Except Malformed Draft :=
  match draft.awaiting, placed.lexeme with
  | .item, _ => draft.feedItem ignoreCase placed
  | .parameterName opened, .word name => .ok { draft with awaiting := .afterName opened name }
  | .parameterName opened, .closeAngle => .error ⟨.emptyName, opened.upTo placed.span⟩
  | .afterName opened name, .colon => .ok { draft with awaiting := .typeName opened name }
  | .typeName opened name, .word typeName =>
      .ok { draft with awaiting := .afterType opened name typeName }
  | .afterName opened name, .closeAngle =>
      (draft.declare name (opened.upTo placed.span)).map (·.pushItem (.parameter name none))
  | .afterType opened name typeName, .closeAngle =>
      (draft.declare name (opened.upTo placed.span)).map
        (·.pushItem (.parameter name (some typeName)))
  | .afterName opened name, .ellipsis =>
      (draft.declare name (opened.upTo placed.span)).map (fun draft =>
        { draft.pushItem (.tail name) with awaiting := .tailEnd opened })
  | .tailEnd _, .closeAngle => .ok { draft with awaiting := .item }
  | .identifier, .word identifier =>
      (draft.declare identifier placed.span).bind (·.nameLast identifier placed.span)
  | _, _ => .error placed.unexpected

/-- Ends a definition at its last offset: nothing may be left open. -/
def finish (draft : Draft) (stop : Nat) : Except Malformed Pattern :=
  match draft.awaiting with
  | .identifier => .error ⟨.missingIdentifier, .point stop⟩
  | .parameterName opened | .afterName opened _ | .typeName opened _ | .afterType opened _ _
  | .tailEnd opened => .error ⟨.unterminatedParameter, opened.upTo (.point stop)⟩
  | .item =>
      match draft.openings with
      | opening :: _ =>
          .error ⟨.unterminatedGroups (draft.openings.reverse.map Opening.bracket),
            opening.span.upTo (.point stop)⟩
      | [] => draft.body.closeRoot ⟨0, stop⟩

end Draft

/-- The pattern that a definition describes, exactly as written. -/
def parse (ignoreCase : Bool) (definition : String) : Except Malformed Pattern :=
  ((lexemes definition).foldlM (Draft.feed ignoreCase) .start).bind
    (·.finish definition.utf8ByteSize)

end CallGrammar.Definition

import CallGrammar.Definition.Compiler
import CallGrammar.Proofs.Pattern.Recasing

/-! Compiling a definition with case ignored everywhere. The reading goes through the same states
and stops at the same problem as otherwise; only the words it collects ignore case.
-/

namespace CallGrammar

/-- A pattern in which no word respects case. -/
abbrev Pattern.caseless (p : Pattern) : Pattern :=
  p.recased fun _ => false

namespace Definition

open Pattern (caseless)

/-- Two readings that go on alike from a common result. -/
theorem map_bind_of_alike {ε α α' β β' : Type} {f : α → α'} {g : β → β'}
    {next' : α' → Except ε β'} {next : α → Except ε β}
    (alike : ∀ result, next' (f result) = (next result).map g) (reading : Except ε α)
    : (reading.map f).bind next' = (reading.bind next).map g := by
  cases reading with
  | error problem => rfl
  | ok result => exact alike result

------------------------------------------------------------
-- Drafts

/-- A body whose words ignore case. -/
def Body.caseless (body : Body) : Body :=
  ⟨body.alternatives.map (List.map .caseless), body.items.map .caseless⟩

def Opening.caseless (opening : Opening) : Opening :=
  { opening with around := opening.around.caseless }

/-- A draft whose words ignore case. -/
def Draft.caseless (draft : Draft) : Draft :=
  { draft with body := draft.body.caseless, openings := draft.openings.map .caseless }

namespace Body

theorem choice_caseless (body : Body) (parenthesized : Bool)
    : body.caseless.choice parenthesized = (body.choice parenthesized).caseless := by
  simp [choice, caseless, Function.comp_def]

theorem close_caseless (bracket : Bracket) (span : Span) (body : Body)
    : body.caseless.close bracket span = (body.close bracket span).map .caseless := by
  have hc := body.choice_caseless
  obtain ⟨alternatives, items⟩ := body
  cases alternatives with
  | nil =>
      cases items with
      | nil => rfl
      | cons item items => cases bracket <;> simp [close, caseless, Except.map]
  | cons first others =>
      cases items with
      | nil => rfl
      | cons item items =>
          cases bracket with
          | round => exact congrArg Except.ok (hc true)
          | square => exact congrArg (fun p => Except.ok (Pattern.optional none p)) (hc false)

theorem closeRoot_caseless (span : Span) (body : Body)
    : body.caseless.closeRoot span = (body.closeRoot span).map .caseless := by
  have hc := body.choice_caseless false
  obtain ⟨alternatives, items⟩ := body
  cases alternatives with
  | nil => simp [closeRoot, caseless, Except.map]
  | cons first others =>
      cases items with
      | nil => rfl
      | cons item items => exact congrArg (fun p => Except.ok (Pattern.sequence [p])) hc

end Body

namespace Draft

theorem declare_caseless (draft : Draft) (name : String) (span : Span)
    : draft.caseless.declare name span = (draft.declare name span).map caseless := by
  have hd : draft.caseless.declared = draft.declared := rfl
  rw [declare, declare, hd]
  split <;> rfl

theorem identified_caseless (identifier : String) (p : Pattern)
    : identified identifier p.caseless = (identified identifier p).map .caseless := by
  cases p with
  | optional own inner =>
      cases inner with
      | variant other parenthesized alternatives =>
          cases parenthesized <;> simp [identified]
      | _ => rfl
  | variant own parenthesized alternatives => simp [identified]
  | _ => rfl

theorem nameLast_caseless (draft : Draft) (identifier : String) (span : Span)
    : draft.caseless.nameLast identifier span
      = (draft.nameLast identifier span).map caseless := by
  obtain ⟨⟨alternatives, items⟩, openings, awaiting, declared⟩ := draft
  cases items with
  | nil => rfl
  | cons item items =>
      simp only [nameLast, caseless, Body.caseless, List.map_cons, identified_caseless]
      cases identified identifier item <;> rfl

theorem closeGroup_caseless (draft : Draft) (bracket : Bracket) (placed : Placed)
    : draft.caseless.closeGroup bracket placed
      = (draft.closeGroup bracket placed).map caseless := by
  obtain ⟨body, openings, awaiting, declared⟩ := draft
  cases openings with
  | nil => rfl
  | cons opening openings =>
      simp only [closeGroup, caseless, List.map_cons, Opening.caseless, Body.close_caseless]
      split
      · cases body.close bracket (opening.span.upTo placed.span) <;> rfl
      · rfl

/-- Where an item may start, every lexeme is taken alike, by cases on the lexeme. -/
theorem feedItem_caseless (draft : Draft) (placed : Placed)
    : draft.caseless.feedItem true placed = (draft.feedItem false placed).map caseless := by
  have hclose := draft.closeGroup_caseless
  obtain ⟨⟨alternatives, items⟩, openings, awaiting, declared⟩ := draft
  obtain ⟨lexeme, span⟩ := placed
  cases lexeme with
  | word text => rfl
  | openAngle => rfl
  | caret =>
      cases items with
      | nil => rfl
      | cons item items => cases item <;> rfl
  | colon =>
      cases items with
      | nil => rfl
      | cons item items => cases item <;> rfl
  | bar =>
      cases items with
      | nil => rfl
      | cons item items => simp [feedItem, caseless, Body.caseless, Except.map]
  | openRound => rfl
  | openSquare => rfl
  | closeRound => exact hclose .round _
  | closeSquare => exact hclose .square _
  | closeAngle => rfl
  | ellipsis => rfl

/-- A step behind a declaration that looks at no word keeps the two drafts alike. -/
theorem declare_map_caseless (draft : Draft) (name : String) (span : Span)
    (next : Draft → Draft) (alike : ∀ d : Draft, next d.caseless = (next d).caseless)
    : (draft.caseless.declare name span).map next
      = ((draft.declare name span).map next).map caseless := by
  rw [declare_caseless]
  cases draft.declare name span with
  | error problem => rfl
  | ok declared => exact congrArg Except.ok (alike declared)

theorem declare_bind_caseless (draft : Draft) (name : String) (span : Span)
    (next : Draft → Except Malformed Draft)
    (alike : ∀ d : Draft, next d.caseless = (next d).map caseless)
    : (draft.caseless.declare name span).bind next
      = ((draft.declare name span).bind next).map caseless := by
  rw [declare_caseless]
  exact map_bind_of_alike alike _

/-- A lexeme is taken alike whether case is ignored or not, by cases on what is awaited. -/
theorem feed_caseless (draft : Draft) (placed : Placed)
    : draft.caseless.feed true placed = (draft.feed false placed).map caseless := by
  have hitem := draft.feedItem_caseless placed
  have hdeclare := draft.declare_map_caseless
  have hname := draft.declare_bind_caseless
  obtain ⟨body, openings, awaiting, declared⟩ := draft
  obtain ⟨lexeme, span⟩ := placed
  cases awaiting with
  | item => exact hitem
  | parameterName opened => cases lexeme <;> rfl
  | afterName opened name =>
      cases lexeme with
      | closeAngle => exact hdeclare name (opened.upTo span) _ fun _ => rfl
      | ellipsis => exact hdeclare name (opened.upTo span) _ fun _ => rfl
      | _ => rfl
  | typeName opened name => cases lexeme <;> rfl
  | afterType opened name typeName =>
      cases lexeme with
      | closeAngle => exact hdeclare name (opened.upTo span) _ fun _ => rfl
      | _ => rfl
  | tailEnd opened => cases lexeme <;> rfl
  | identifier =>
      cases lexeme with
      | word identifier =>
          exact hname identifier span (·.nameLast identifier span)
            fun named => named.nameLast_caseless identifier span
      | _ => rfl

/-- The whole reading goes alike, by induction on the lexemes. -/
theorem foldlM_feed_caseless (lexemes : List Placed) (draft : Draft)
    : lexemes.foldlM (feed true) draft.caseless
      = (lexemes.foldlM (feed false) draft).map caseless := by
  induction lexemes generalizing draft with
  | nil => rfl
  | cons placed rest ih =>
      rw [List.foldlM_cons, List.foldlM_cons, feed_caseless]
      cases draft.feed false placed with
      | error problem => rfl
      | ok next => exact ih next

theorem finish_caseless (draft : Draft) (stop : Nat)
    : draft.caseless.finish stop = (draft.finish stop).map .caseless := by
  have hroot := draft.body.closeRoot_caseless ⟨0, stop⟩
  obtain ⟨body, openings, awaiting, declared⟩ := draft
  cases awaiting with
  | item =>
      cases openings with
      | nil => exact hroot
      | cons opening openings =>
          simp [finish, caseless, Opening.caseless, Except.map, Function.comp_def]
  | _ => rfl

end Draft

------------------------------------------------------------
-- Definitions

theorem parse_caseless (definition : String)
    : parse true definition = (parse false definition).map .caseless := by
  have hrun := Draft.foldlM_feed_caseless (lexemes definition) .start
  have hstart : Draft.start.caseless = Draft.start := rfl
  rw [hstart] at hrun
  rw [parse, parse, hrun]
  exact map_bind_of_alike (fun draft => draft.finish_caseless definition.utf8ByteSize) _

namespace Compiler

theorem unwrapped_caseless (p : Pattern) : unwrapped p.caseless = (unwrapped p).caseless := by
  match p with
  | .literal .. | .parameter .. | .tail .. | .optional .. => rfl
  | .variant .. => simp [unwrapped]
  | .sequence [] | .sequence [_] | .sequence (_ :: _ :: _) => simp [unwrapped]

theorem simplified_caseless (simplify : Simplify) (p : Pattern)
    : simplified simplify p.caseless = (simplified simplify p).caseless := by
  cases simplify with
  | no => rfl
  | warn => exact unwrapped_caseless p
  | yes => rw [simplified, unwrapped_caseless, Pattern.flattened_recased, simplified]
  | silently => rw [simplified, unwrapped_caseless, Pattern.flattened_recased, simplified]

/-- Ignoring case gives the pattern that is compiled otherwise, with no word that respects case,
and the same problem where there is none.
-/
theorem compile_caseless (simplify : Simplify) (definition : String)
    : (Compiler.mk simplify true).compile definition
      = ((Compiler.mk simplify false).compile definition).map .caseless := by
  rw [compile, compile, parse_caseless]
  cases parse false definition with
  | error problem => rfl
  | ok p => exact congrArg Except.ok (simplified_caseless simplify p)

end Compiler

end Definition

end CallGrammar

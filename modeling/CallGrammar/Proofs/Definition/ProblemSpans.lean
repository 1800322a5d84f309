import CallGrammar.Definition.Compiler
import CallGrammar.Proofs.Definition.Placement
import CallGrammar.Proofs.Definition.Steps

/-! Where problems are shown. The span of a problem runs from a lexeme that was remembered when it
opened a group or a parameter, or from the lexeme just read, up to the lexeme just read or the end.
Everything remembered was read before, so the span is one of the definition's.
-/

namespace CallGrammar

------------------------------------------------------------
-- Spans of a text

/-- A span of a text: its ends are in order, within the text and between characters. -/
structure Span.Within (source : String) (span : Span) : Prop where
  ordered : span.start ≤ span.stop
  inside : span.stop ≤ source.utf8ByteSize
  startsBetween : String.Pos.Raw.IsValid source ⟨span.start⟩
  stopsBetween : String.Pos.Raw.IsValid source ⟨span.stop⟩

theorem isValid_of_toList_eq {source : String} {left right : List Char}
    (h : source.toList = left ++ right)
    : String.Pos.Raw.IsValid source ⟨Text.byteLength left⟩ := by
  apply String.Pos.Raw.isValid_iff_exists_append.mpr
  refine ⟨String.ofList left, String.ofList right, ?_, ?_⟩
  · rw [← String.ofList_append, ← h, String.ofList_toList]
  · rw [← Call.utf8ByteSize_ofList]
    rfl

namespace Span

variable {source : String}

/-- The end of a text is one of its spans, as is any other place between characters. -/
theorem within_point {offset : Nat} (valid : String.Pos.Raw.IsValid source ⟨offset⟩)
    : (point offset).Within source :=
  ⟨Nat.le_refl offset, valid.le_rawEndPos, valid, valid⟩

/-- A span may start at one span of a text and stop at another that does not stop before it. -/
theorem Within.upTo {first last : Span} (hf : first.Within source) (hl : last.Within source)
    (ordered : first.start ≤ last.stop)
    : (first.upTo last).Within source :=
  ⟨ordered, hl.inside, hf.startsBetween, hl.stopsBetween⟩

end Span

namespace Definition

theorem within_of_mem_lexemes {definition : String} {placed : Placed}
    (h : placed ∈ lexemes definition)
    : placed.span.Within definition := by
  obtain ⟨left, right, hsplit, hstart, hstop⟩ := (laid_lexemes definition).exists_spelling h
  rw [Nat.zero_add] at hstart hstop
  have hstops : String.Pos.Raw.IsValid definition ⟨placed.span.stop⟩ := by
    rw [hstop]
    exact isValid_of_toList_eq hsplit
  refine ⟨?_, hstops.le_rawEndPos, ?_, hstops⟩
  · rw [hstart, hstop, Text.byteLength_append]
    exact Nat.le_add_right _ _
  · rw [hstart]
    exact isValid_of_toList_eq (hsplit.trans (List.append_assoc left _ right))

------------------------------------------------------------
-- What a draft remembers

/-- Where the parameter under way was opened. -/
def Awaiting.opened : Awaiting → List Span
  | .item | .identifier => []
  | .parameterName opened | .afterName opened _ | .typeName opened _ | .afterType opened _ _
  | .tailEnd opened => [opened]

namespace Draft

/-- Where everything that is open was opened. -/
def opened (draft : Draft) : List Span :=
  draft.awaiting.opened ++ draft.openings.map Opening.span

/-- A step remembers at most the lexeme it reads. -/
theorem Step.mem_opened {ignoreCase : Bool} {draft next : Draft} {placed : Placed}
    (h : Step ignoreCase draft placed next) {span : Span} (hs : span ∈ next.opened)
    : span = placed.span ∨ span ∈ draft.opened := by
  cases h <;> simp_all [opened, Awaiting.opened]

/-- A run remembers lexemes it read, by induction on the lexemes. -/
theorem Reaches.mem_opened {ignoreCase : Bool} {draft last : Draft} {read : List Placed}
    (h : Reaches ignoreCase draft read last) {span : Span} (hs : span ∈ last.opened)
    : span ∈ read.map Placed.span ∨ span ∈ draft.opened := by
  induction read generalizing draft with
  | nil =>
      cases h
      exact .inr hs
  | cons first rest ih =>
      obtain ⟨next, step, run⟩ := reaches_cons_iff.mp h
      rcases ih run with hrest | hnext
      · exact .inl (List.mem_cons_of_mem _ hrest)
      · rcases step.mem_opened hnext with rfl | hdraft
        · exact .inl List.mem_cons_self
        · exact .inr hdraft

------------------------------------------------------------
-- What a refusal shows

/-- A declaration is refused where it stands, and only what goes on after it can be refused
elsewhere.
-/
theorem span_of_declare_bind_error {draft : Draft} {name : String} {span : Span}
    {continuation : Draft → Except Malformed Draft} {malformed : Malformed}
    (behind : ∀ next, continuation next = .error malformed → malformed.span = span)
    (h : (draft.declare name span).bind continuation = .error malformed)
    : malformed.span = span := by
  unfold declare at h
  split at h
  · cases h
    rfl
  · exact behind _ h

theorem span_of_declare_map_error {draft : Draft} {name : String} {span : Span}
    {update : Draft → Draft} {malformed : Malformed}
    (h : (draft.declare name span).map update = .error malformed)
    : malformed.span = span := by
  unfold declare at h
  split at h
  · cases h
    rfl
  · cases h

theorem span_of_nameLast_error {draft : Draft} {name : String} {span : Span}
    {malformed : Malformed} (h : draft.nameLast name span = .error malformed)
    : malformed.span = span := by
  unfold nameLast at h
  split at h
  · cases h
    rfl
  · split at h
    · cases h
    · cases h
      rfl

end Draft

theorem Body.span_of_close_error {bracket : Bracket} {span : Span} {body : Body}
    {malformed : Malformed} (h : body.close bracket span = .error malformed)
    : malformed.span = span := by
  unfold close at h
  split at h <;> cases h <;> rfl

theorem Body.span_of_closeRoot_error {span : Span} {body : Body} {malformed : Malformed}
    (h : body.closeRoot span = .error malformed)
    : malformed.span = span := by
  unfold closeRoot at h
  split at h <;> cases h
  rfl

/-- A problem is shown up to a span, from where something was opened or from the span itself. -/
def Malformed.ShownUpTo (opened : List Span) (last : Span) (malformed : Malformed) : Prop :=
  ∃ first ∈ last :: opened, malformed.span = first.upTo last

namespace Malformed.ShownUpTo

variable {opened : List Span} {first last : Span} {malformed : Malformed}

theorem here (h : malformed.span = last) : malformed.ShownUpTo opened last :=
  ⟨last, List.mem_cons_self, h⟩

theorem since (hf : first ∈ opened) (h : malformed.span = first.upTo last)
    : malformed.ShownUpTo opened last :=
  ⟨first, List.mem_cons_of_mem last hf, h⟩

end Malformed.ShownUpTo

namespace Draft

/-- A group that does not close is shown whole, or the lexeme that would close it. -/
theorem shown_of_closeGroup_error {draft : Draft} {bracket : Bracket} {placed : Placed}
    {malformed : Malformed} (h : draft.closeGroup bracket placed = .error malformed)
    : malformed.ShownUpTo draft.opened placed.span := by
  unfold closeGroup at h
  split at h
  · cases h
    exact .here rfl
  · rename_i opening openings ho
    have hopened : opening.span ∈ draft.opened := by simp [opened, ho]
    split at h
    · cases hc : draft.body.close bracket (opening.span.upTo placed.span) with
      | error refused =>
          rw [hc] at h
          cases h
          exact .since hopened (Body.span_of_close_error hc)
      | ok group =>
          rw [hc] at h
          cases h
    · cases h
      exact .here rfl

/-- Where an item may start, a refused lexeme is shown, unless it closes a group. -/
theorem shown_of_feedItem_error {ignoreCase : Bool} {draft : Draft} {placed : Placed}
    {malformed : Malformed} (h : draft.feedItem ignoreCase placed = .error malformed)
    : malformed.ShownUpTo draft.opened placed.span := by
  obtain ⟨lexeme, span⟩ := placed
  unfold feedItem at h
  cases lexeme with
  | word text => cases h
  | openAngle => cases h
  | openRound => cases h
  | openSquare => cases h
  | closeRound => exact shown_of_closeGroup_error h
  | closeSquare => exact shown_of_closeGroup_error h
  | closeAngle =>
      cases h
      exact .here rfl
  | ellipsis =>
      cases h
      exact .here rfl
  | caret =>
      dsimp only at h
      split at h <;> cases h
      exact .here rfl
  | colon =>
      dsimp only at h
      split at h <;> cases h
      all_goals exact .here rfl
  | bar =>
      dsimp only at h
      split at h <;> cases h
      exact .here rfl

/-- A refused lexeme is shown, or everything from where something was opened up to it, by cases on
what the draft awaits.
-/
theorem shown_of_feed_error {ignoreCase : Bool} {draft : Draft} {placed : Placed}
    {malformed : Malformed} (h : draft.feed ignoreCase placed = .error malformed)
    : malformed.ShownUpTo draft.opened placed.span := by
  obtain ⟨body, openings, awaiting, declared⟩ := draft
  obtain ⟨lexeme, span⟩ := placed
  cases awaiting with
  | item => exact shown_of_feedItem_error (by simpa only [feed] using h)
  | parameterName opened =>
      cases lexeme with
      | word name => cases h
      | closeAngle =>
          cases h
          exact .since List.mem_cons_self rfl
      | _ =>
          cases h
          exact .here rfl
  | afterName opened name =>
      cases lexeme with
      | colon => cases h
      | closeAngle => exact .since List.mem_cons_self (span_of_declare_map_error h)
      | ellipsis => exact .since List.mem_cons_self (span_of_declare_map_error h)
      | _ =>
          cases h
          exact .here rfl
  | typeName opened name =>
      cases lexeme with
      | word typeName => cases h
      | _ =>
          cases h
          exact .here rfl
  | afterType opened name typeName =>
      cases lexeme with
      | closeAngle => exact .since List.mem_cons_self (span_of_declare_map_error h)
      | _ =>
          cases h
          exact .here rfl
  | tailEnd opened =>
      cases lexeme with
      | closeAngle => cases h
      | _ =>
          cases h
          exact .here rfl
  | identifier =>
      cases lexeme with
      | word name =>
          exact .here (span_of_declare_bind_error (fun _ => span_of_nameLast_error) h)
      | _ =>
          cases h
          exact .here rfl

/-- What is left open at the end is shown from where it was opened, and a definition without its
last alternative is shown whole.
-/
theorem shown_of_finish_error {draft : Draft} {stop : Nat} {malformed : Malformed}
    (h : draft.finish stop = .error malformed)
    : malformed.ShownUpTo (.point 0 :: draft.opened) (.point stop) := by
  obtain ⟨body, openings, awaiting, declared⟩ := draft
  cases awaiting with
  | identifier =>
      cases h
      exact .here rfl
  | item =>
      cases openings with
      | nil => exact .since List.mem_cons_self (Body.span_of_closeRoot_error h)
      | cons opening openings =>
          cases h
          exact .since (List.mem_cons_of_mem _ List.mem_cons_self) rfl
  | _ =>
      cases h
      exact .since (List.mem_cons_of_mem _ List.mem_cons_self) rfl

/-- A run that fails does so at one lexeme, by induction on the lexemes. -/
theorem exists_feed_error {ignoreCase : Bool} {draft : Draft} {read : List Placed}
    {malformed : Malformed} (h : read.foldlM (feed ignoreCase) draft = .error malformed)
    : ∃ before placed behind middle,
        read = before ++ placed :: behind
        ∧ Reaches ignoreCase draft before middle
        ∧ middle.feed ignoreCase placed = .error malformed := by
  induction read generalizing draft with
  | nil => cases h
  | cons first rest ih =>
      rw [List.foldlM_cons] at h
      cases hf : draft.feed ignoreCase first with
      | error refused =>
          rw [hf] at h
          cases h
          exact ⟨[], first, rest, draft, rfl, .refl _ _, hf⟩
      | ok next =>
          rw [hf] at h
          obtain ⟨before, placed, behind, middle, rfl, run, refused⟩ := ih h
          exact ⟨first :: before, placed, behind, middle, rfl,
            .cons (feed_eq_ok_iff.mp hf) run, refused⟩

end Draft

------------------------------------------------------------
-- Problems of a definition

/-- What was remembered before a place is a span of the definition and starts before the place. -/
theorem within_of_shownUpTo {definition : String} {opened : List Span} {last : Span}
    {malformed : Malformed} (shown : malformed.ShownUpTo opened last)
    (hlast : last.Within definition)
    (hopened : ∀ first ∈ opened, first.Within definition ∧ first.start ≤ last.stop)
    : malformed.span.Within definition := by
  obtain ⟨first, hf, hspan⟩ := shown
  rw [hspan]
  rcases List.mem_cons.mp hf with rfl | hmem
  · exact hlast.upTo hlast hlast.ordered
  · exact (hopened first hmem).1.upTo hlast (hopened first hmem).2

/-- A run from the start remembers nothing but spans of lexemes it read. -/
theorem exists_of_mem_opened {ignoreCase : Bool} {last : Draft} {read : List Placed}
    (run : Draft.Reaches ignoreCase .start read last) {span : Span} (hs : span ∈ last.opened)
    : ∃ placed ∈ read, placed.span = span := by
  rcases run.mem_opened hs with hread | hstart
  · exact List.mem_map.mp hread
  · exact absurd hstart List.not_mem_nil

/-- A refused lexeme shows a span of the definition: what was remembered stands before it. -/
theorem within_of_run_error {ignoreCase : Bool} {definition : String} {malformed : Malformed}
    (h : (lexemes definition).foldlM (Draft.feed ignoreCase) .start = .error malformed)
    : malformed.span.Within definition := by
  obtain ⟨before, placed, behind, middle, hread, run, refused⟩ := Draft.exists_feed_error h
  have hordered := (laid_lexemes definition).ordered
  rw [hread] at hordered
  have hin : placed.span.Within definition :=
    within_of_mem_lexemes (by simp [hread])
  refine within_of_shownUpTo (Draft.shown_of_feed_error refused) hin ?_
  intro first hf
  obtain ⟨earlier, he, rfl⟩ := exists_of_mem_opened run hf
  have hearlier : earlier.span.Within definition :=
    within_of_mem_lexemes (hread ▸ List.mem_append_left _ he)
  have hle : earlier.span.stop ≤ placed.span.start :=
    (List.pairwise_append.mp hordered).2.2 earlier he placed List.mem_cons_self
  exact ⟨hearlier, hearlier.ordered.trans (hle.trans hin.ordered)⟩

/-- What is missing at the end shows a span of the definition. -/
theorem within_of_finish_error {ignoreCase : Bool} {definition : String} {last : Draft}
    {malformed : Malformed}
    (run : Draft.Reaches ignoreCase .start (lexemes definition) last)
    (h : last.finish definition.utf8ByteSize = .error malformed)
    : malformed.span.Within definition := by
  have hstop : (Span.point definition.utf8ByteSize).Within definition := by
    apply Span.within_point
    rw [← Call.byteLength_toList]
    exact isValid_of_toList_eq (List.append_nil _).symm
  refine within_of_shownUpTo (Draft.shown_of_finish_error h) hstop ?_
  intro first hf
  rcases List.mem_cons.mp hf with rfl | hmem
  · exact ⟨Span.within_point (isValid_of_toList_eq (List.nil_append _).symm), Nat.zero_le _⟩
  · obtain ⟨placed, hp, rfl⟩ := exists_of_mem_opened run hmem
    have hin := within_of_mem_lexemes hp
    exact ⟨hin, hin.ordered.trans hin.inside⟩

/-- Every problem of a definition is shown at one of the definition's spans. -/
theorem within_of_parse_error {ignoreCase : Bool} {definition : String} {malformed : Malformed}
    (h : parse ignoreCase definition = .error malformed)
    : malformed.span.Within definition := by
  unfold parse at h
  cases hrun : (lexemes definition).foldlM (Draft.feed ignoreCase) .start with
  | error refused =>
      rw [hrun] at h
      cases h
      exact within_of_run_error hrun
  | ok last =>
      rw [hrun] at h
      exact within_of_finish_error hrun h

theorem compile_eq_error_iff {compiler : Compiler} {definition : String} {malformed : Malformed}
    : compiler.compile definition = .error malformed
      ↔ parse compiler.ignoreCase definition = .error malformed := by
  unfold Compiler.compile
  cases parse compiler.ignoreCase definition <;> simp [Except.map]

end Definition

end CallGrammar

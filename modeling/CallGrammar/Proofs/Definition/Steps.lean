import CallGrammar.Proofs.Definition.Derivation

/-! What a draft does with one lexeme, and with several of them. Everything about drafts that
succeed follows from the steps listed here.
-/

namespace CallGrammar.Definition

/-- The steps of a draft, one for each way in which it accepts a lexeme. -/
inductive Draft.Step (ignoreCase : Bool) : Draft → Placed → Draft → Prop
  | word {body openings declared text span}
    : Step ignoreCase ⟨body, openings, .item, declared⟩ ⟨.word text, span⟩
        ⟨body.push (.literal text !ignoreCase), openings, .item, declared⟩
  | caret {alternatives text caseSensitive items openings declared span}
    : Step ignoreCase
        ⟨⟨alternatives, .literal text caseSensitive :: items⟩, openings, .item, declared⟩
        ⟨.caret, span⟩
        ⟨⟨alternatives, .literal text false :: items⟩, openings, .item, declared⟩
  | bar {alternatives items openings declared span} (filled : items ≠ [])
    : Step ignoreCase ⟨⟨alternatives, items⟩, openings, .item, declared⟩ ⟨.bar, span⟩
        ⟨⟨items.reverse :: alternatives, []⟩, openings, .item, declared⟩
  | openGroup {body openings declared span} (bracket : Bracket)
    : Step ignoreCase ⟨body, openings, .item, declared⟩ ⟨bracket.opening, span⟩
        ⟨.empty, ⟨bracket, span, body⟩ :: openings, .item, declared⟩
  | closeGroup {body bracket opened around openings declared span group}
    (closed : Body.close bracket (opened.upTo span) body = .ok group)
    : Step ignoreCase ⟨body, ⟨bracket, opened, around⟩ :: openings, .item, declared⟩
        ⟨bracket.closing, span⟩ ⟨around.push group, openings, .item, declared⟩
  | colon {alternatives group items openings declared span}
    (isGroup : group.kind = .optional ∨ group.kind = .variant)
    : Step ignoreCase ⟨⟨alternatives, group :: items⟩, openings, .item, declared⟩
        ⟨.colon, span⟩ ⟨⟨alternatives, group :: items⟩, openings, .identifier, declared⟩
  | identifier {alternatives group named items openings declared name span}
    (fresh : name ∉ declared) (naming : Draft.identified name group = some named)
    : Step ignoreCase ⟨⟨alternatives, group :: items⟩, openings, .identifier, declared⟩
        ⟨.word name, span⟩ ⟨⟨alternatives, named :: items⟩, openings, .item, name :: declared⟩
  | openAngle {body openings declared span}
    : Step ignoreCase ⟨body, openings, .item, declared⟩ ⟨.openAngle, span⟩
        ⟨body, openings, .parameterName span, declared⟩
  | parameterName {body openings opened declared name span}
    : Step ignoreCase ⟨body, openings, .parameterName opened, declared⟩ ⟨.word name, span⟩
        ⟨body, openings, .afterName opened name, declared⟩
  | typeMark {body openings opened declared name span}
    : Step ignoreCase ⟨body, openings, .afterName opened name, declared⟩ ⟨.colon, span⟩
        ⟨body, openings, .typeName opened name, declared⟩
  | typeName {body openings opened declared name typeName span}
    : Step ignoreCase ⟨body, openings, .typeName opened name, declared⟩ ⟨.word typeName, span⟩
        ⟨body, openings, .afterType opened name typeName, declared⟩
  | parameter {body openings opened declared name span} (fresh : name ∉ declared)
    : Step ignoreCase ⟨body, openings, .afterName opened name, declared⟩ ⟨.closeAngle, span⟩
        ⟨body.push (.parameter name none), openings, .item, name :: declared⟩
  | typed {body openings opened declared name typeName span} (fresh : name ∉ declared)
    : Step ignoreCase ⟨body, openings, .afterType opened name typeName, declared⟩
        ⟨.closeAngle, span⟩
        ⟨body.push (.parameter name (some typeName)), openings, .item, name :: declared⟩
  | tail {body openings opened declared name span} (fresh : name ∉ declared)
    : Step ignoreCase ⟨body, openings, .afterName opened name, declared⟩ ⟨.ellipsis, span⟩
        ⟨body.push (.tail name), openings, .tailEnd opened, name :: declared⟩
  | tailEnd {body openings opened declared span}
    : Step ignoreCase ⟨body, openings, .tailEnd opened, declared⟩ ⟨.closeAngle, span⟩
        ⟨body, openings, .item, declared⟩

namespace Draft

/-- What goes on after a declaration goes on after one of a new name. -/
theorem declare_bind_eq_ok {draft next : Draft} {name : String} {span : Span}
    {continuation : Draft → Except Malformed Draft}
    (h : (draft.declare name span).bind continuation = .ok next)
    : name ∉ draft.declared
      ∧ continuation { draft with declared := name :: draft.declared } = .ok next := by
  unfold declare at h
  split at h
  · cases h
  · rename_i hf
    exact ⟨hf, h⟩

theorem declare_map_eq_ok {draft next : Draft} {name : String} {span : Span}
    {update : Draft → Draft} (h : (draft.declare name span).map update = .ok next)
    : name ∉ draft.declared
      ∧ update { draft with declared := name :: draft.declared } = next := by
  unfold declare at h
  split at h
  · cases h
  · rename_i hf
    exact ⟨hf, Except.ok.inj h⟩

/-- A group that closes is the innermost one and has the given brackets. -/
theorem closeGroup_eq_ok {draft next : Draft} {bracket : Bracket} {placed : Placed}
    (h : draft.closeGroup bracket placed = .ok next)
    : ∃ opened around openings group,
        draft.openings = ⟨bracket, opened, around⟩ :: openings
        ∧ Body.close bracket (opened.upTo placed.span) draft.body = .ok group
        ∧ next = { draft with body := around.push group, openings := openings } := by
  unfold closeGroup at h
  split at h
  · cases h
  · rename_i opening openings ho
    split at h
    · rename_i hb
      subst hb
      cases hc : Body.close opening.bracket (opening.span.upTo placed.span) draft.body with
      | error malformed => simp [hc, Except.map] at h
      | ok group =>
          simp only [hc, Except.map, Except.ok.injEq] at h
          exact ⟨_, _, _, _, ho, hc, h.symm⟩
    · cases h

/-- An identifier goes to the last item, which can take one. -/
theorem nameLast_eq_ok {draft next : Draft} {name : String} {span : Span}
    (h : draft.nameLast name span = .ok next)
    : ∃ group named items,
        draft.body.items = group :: items
        ∧ identified name group = some named
        ∧ next
          = { draft with
              body := { draft.body with items := named :: items }
              awaiting := .item } := by
  unfold nameLast at h
  split at h
  · cases h
  · rename_i group items hi
    split at h
    · rename_i named hn
      exact ⟨group, named, items, hi, hn, (Except.ok.inj h).symm⟩
    · cases h

/-- Where an item may start, an accepted lexeme is a step, by cases on the lexeme. -/
theorem step_of_feedItem {ignoreCase : Bool} {body : Body} {openings : List Opening}
    {declared : List String} {placed : Placed} {next : Draft}
    (h : feedItem ignoreCase ⟨body, openings, .item, declared⟩ placed = .ok next)
    : Step ignoreCase ⟨body, openings, .item, declared⟩ placed next := by
  obtain ⟨lexeme, span⟩ := placed
  obtain ⟨alternatives, items⟩ := body
  cases lexeme with
  | word text =>
      cases h
      exact .word
  | openAngle =>
      cases h
      exact .openAngle
  | openRound =>
      cases h
      exact .openGroup .round
  | openSquare =>
      cases h
      exact .openGroup .square
  | closeRound =>
      obtain ⟨_, _, _, _, ho, hc, rfl⟩ := closeGroup_eq_ok h
      cases ho
      exact .closeGroup hc
  | closeSquare =>
      obtain ⟨_, _, _, _, ho, hc, rfl⟩ := closeGroup_eq_ok h
      cases ho
      exact .closeGroup hc
  | closeAngle => cases h
  | ellipsis => cases h
  | caret =>
      cases items with
      | nil => cases h
      | cons item items =>
          cases item with
          | literal text caseSensitive =>
              cases h
              exact .caret
          | _ => cases h
  | colon =>
      cases items with
      | nil => cases h
      | cons item items =>
          cases item with
          | optional identifier inner =>
              cases h
              exact .colon (.inl rfl)
          | variant identifier parenthesized alternatives =>
              cases h
              exact .colon (.inr rfl)
          | _ => cases h
  | bar =>
      cases items with
      | nil => cases h
      | cons item items =>
          cases h
          exact .bar (List.cons_ne_nil item items)

/-- An accepted lexeme is a step, by cases on what the draft awaits. -/
theorem step_of_feed {ignoreCase : Bool} {draft next : Draft} {placed : Placed}
    (h : draft.feed ignoreCase placed = .ok next)
    : Step ignoreCase draft placed next := by
  obtain ⟨body, openings, awaiting, declared⟩ := draft
  obtain ⟨lexeme, span⟩ := placed
  cases awaiting with
  | item => exact step_of_feedItem (by simpa only [feed] using h)
  | parameterName opened =>
      cases lexeme with
      | word name =>
          cases h
          exact .parameterName
      | _ => cases h
  | afterName opened name =>
      cases lexeme with
      | colon =>
          cases h
          exact .typeMark
      | closeAngle =>
          obtain ⟨hf, rfl⟩ := declare_map_eq_ok h
          exact .parameter hf
      | ellipsis =>
          obtain ⟨hf, rfl⟩ := declare_map_eq_ok h
          exact .tail hf
      | _ => cases h
  | typeName opened name =>
      cases lexeme with
      | word typeName =>
          cases h
          exact .typeName
      | _ => cases h
  | afterType opened name typeName =>
      cases lexeme with
      | closeAngle =>
          obtain ⟨hf, rfl⟩ := declare_map_eq_ok h
          exact .typed hf
      | _ => cases h
  | tailEnd opened =>
      cases lexeme with
      | closeAngle =>
          cases h
          exact .tailEnd
      | _ => cases h
  | identifier =>
      cases lexeme with
      | word name =>
          obtain ⟨hf, hb⟩ := declare_bind_eq_ok h
          obtain ⟨group, named, items, hi, hn, rfl⟩ := nameLast_eq_ok hb
          obtain ⟨alternatives, _⟩ := body
          cases hi
          exact .identifier hf hn
      | _ => cases h

/-- A draft accepts a lexeme exactly by a step. -/
theorem feed_eq_ok_iff {ignoreCase : Bool} {draft next : Draft} {placed : Placed}
    : draft.feed ignoreCase placed = .ok next ↔ Step ignoreCase draft placed next := by
  refine ⟨step_of_feed, fun h => ?_⟩
  cases h with
  | bar filled =>
      rename_i items _ _ _
      cases items with
      | nil => exact absurd rfl filled
      | cons item items => rfl
  | openGroup bracket => cases bracket <;> rfl
  | @closeGroup _ bracket _ _ _ _ _ _ closed =>
      cases bracket <;> simp [feed, feedItem, closeGroup, Bracket.closing, closed, Except.map]
  | @colon _ group _ _ _ _ isGroup =>
      cases group <;> simp_all [feed, feedItem, Pattern.kind]
  | identifier fresh naming =>
      simp [feed, declare, fresh, Except.bind, nameLast, naming]
  | parameter fresh => simp [feed, declare, fresh, Except.map, pushItem]
  | typed fresh => simp [feed, declare, fresh, Except.map, pushItem]
  | tail fresh => simp [feed, declare, fresh, Except.map, pushItem]
  | _ => rfl

------------------------------------------------------------
-- A run is steps one after the other

/-- Reading the lexemes one after the other leads from a draft to another. -/
def Reaches (ignoreCase : Bool) (draft : Draft) (placed : List Placed) (last : Draft) : Prop :=
  placed.foldlM (Draft.feed ignoreCase) draft = .ok last

theorem Reaches.refl (ignoreCase : Bool) (draft : Draft) : Reaches ignoreCase draft [] draft :=
  rfl

/-- A run takes a step and goes on. -/
theorem reaches_cons_iff {ignoreCase : Bool} {draft last : Draft} {first : Placed}
    {rest : List Placed}
    : Reaches ignoreCase draft (first :: rest) last
      ↔ ∃ next, Step ignoreCase draft first next ∧ Reaches ignoreCase next rest last := by
  unfold Reaches
  rw [List.foldlM_cons]
  cases hf : draft.feed ignoreCase first with
  | error malformed =>
      constructor
      · intro h
        cases h
      · rintro ⟨next, hs, _⟩
        rw [feed_eq_ok_iff.mpr hs] at hf
        cases hf
  | ok next =>
      refine ⟨fun h => ⟨next, feed_eq_ok_iff.mp hf, h⟩, ?_⟩
      rintro ⟨next', hs, hr⟩
      rw [feed_eq_ok_iff.mpr hs] at hf
      cases hf
      exact hr

theorem Reaches.cons {ignoreCase : Bool} {draft next last : Draft} {first : Placed}
    {rest : List Placed} (step : Step ignoreCase draft first next)
    (run : Reaches ignoreCase next rest last)
    : Reaches ignoreCase draft (first :: rest) last :=
  reaches_cons_iff.mpr ⟨next, step, run⟩

/-- Runs compose, by induction on the lexemes of the first one. -/
theorem Reaches.append {ignoreCase : Bool} {draft middle last : Draft}
    {left right : List Placed} (hl : Reaches ignoreCase draft left middle)
    (hr : Reaches ignoreCase middle right last)
    : Reaches ignoreCase draft (left ++ right) last := by
  induction left generalizing draft with
  | nil =>
      cases hl
      exact hr
  | cons first rest ih =>
      obtain ⟨next, hs, hm⟩ := reaches_cons_iff.mp hl
      exact .cons hs (ih hm)

/-- A run over lexemes passes through a draft between any two of them. -/
theorem Reaches.split {ignoreCase : Bool} {draft last : Draft} {left right : List Placed}
    (h : Reaches ignoreCase draft (left ++ right) last)
    : ∃ middle, Reaches ignoreCase draft left middle ∧ Reaches ignoreCase middle right last := by
  induction left generalizing draft with
  | nil => exact ⟨draft, .refl _ _, h⟩
  | cons first rest ih =>
      obtain ⟨next, hs, hm⟩ := reaches_cons_iff.mp h
      obtain ⟨middle, hl, hr⟩ := ih hm
      exact ⟨middle, .cons hs hl, hr⟩

end Draft

end CallGrammar.Definition

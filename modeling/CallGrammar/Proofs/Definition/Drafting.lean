import CallGrammar.Proofs.Definition.Steps

/-! Drafts along derivations. The lexemes of a derivation take a draft from any body to the body
that the derivation describes, whatever was read before.
-/

namespace CallGrammar.Definition

namespace Body

/-- The pattern of a bracketed group with the given body. -/
def group (bracket : Bracket) (body : Body) : Pattern :=
  match bracket, body.alternatives with
  | .round, [] => .sequence body.items.reverse
  | .square, [] => .optional none (.sequence body.items.reverse)
  | .round, _ :: _ => body.choice true
  | .square, _ :: _ => .optional none (body.choice false)

/-- A group closes exactly if its last alternative has an item. -/
theorem close_eq_ok_iff {bracket : Bracket} {span : Span} {body : Body} {group : Pattern}
    : body.close bracket span = .ok group ↔ body.items ≠ [] ∧ group = body.group bracket := by
  obtain ⟨alternatives, items⟩ := body
  cases alternatives <;> cases items <;> cases bracket <;> simp [close, Body.group, eq_comm]

/-- The pattern of a whole definition with the given body. -/
def root (body : Body) : Pattern :=
  match body.alternatives with
  | [] => .sequence body.items.reverse
  | _ :: _ => .sequence [body.choice false]

/-- A definition closes exactly if it has no alternatives or its last one has an item. -/
theorem closeRoot_eq_ok_iff {span : Span} {body : Body} {root : Pattern}
    : body.closeRoot span = .ok root
      ↔ (body.alternatives = [] ∨ body.items ≠ []) ∧ root = body.root := by
  obtain ⟨alternatives, items⟩ := body
  cases alternatives <;> cases items <;> simp [closeRoot, Body.root, eq_comm]

end Body

/-- The body of alternatives behind finished ones: all but the last are finished, too. -/
def Alternatives.body (ignoreCase : Bool) (finished : List (List Pattern)) : Alternatives → Body
  | .last items => ⟨finished, (items.patterns ignoreCase).reverse⟩
  | .cons items rest => rest.body ignoreCase (items.patterns ignoreCase :: finished)

theorem Items.patterns_ne_nil (ignoreCase : Bool) (items : Items)
    : items.patterns ignoreCase ≠ [] := by
  cases items <;> simp [Items.patterns]

/-- The body holds all alternatives in order, the last of them not empty, by induction on the
alternatives.
-/
theorem Alternatives.body_alternatives (ignoreCase : Bool) (finished : List (List Pattern))
    (contents : Alternatives)
    : let body := contents.body ignoreCase finished
      body.items ≠ []
      ∧ (body.items.reverse :: body.alternatives).reverse
        = finished.reverse ++ contents.patterns ignoreCase := by
  match contents with
  | .last items => simp [Alternatives.body, Alternatives.patterns, items.patterns_ne_nil]
  | .cons items rest =>
      have h := rest.body_alternatives ignoreCase (items.patterns ignoreCase :: finished)
      simpa [Alternatives.body, Alternatives.patterns] using h

/-- Alternatives behind finished ones leave finished ones, by induction on the alternatives. -/
theorem Alternatives.body_finished (ignoreCase : Bool) {finished : List (List Pattern)}
    (begun : finished ≠ []) (contents : Alternatives)
    : (contents.body ignoreCase finished).alternatives ≠ [] := by
  match contents with
  | .last items => exact begun
  | .cons items rest => exact rest.body_finished ignoreCase (List.cons_ne_nil _ _)

/-- Two or more alternatives make a choice. -/
theorem Alternatives.choice_body (ignoreCase parenthesized : Bool) (items : Items)
    (rest : Alternatives)
    : ((Alternatives.cons items rest).body ignoreCase []).choice parenthesized
      = .variant none parenthesized
          ((items.patterns ignoreCase :: rest.patterns ignoreCase).map .sequence) := by
  rw [Body.choice, ((Alternatives.cons items rest).body_alternatives ignoreCase []).2]
  rfl

/-- What brackets around alternatives close to. -/
theorem Alternatives.group_square (ignoreCase : Bool) (contents : Alternatives)
    : (contents.body ignoreCase []).group .square
      = (Item.bracketed contents []).pattern ignoreCase := by
  cases contents with
  | last items => simp [Body.group, Alternatives.body, Item.pattern]
  | cons items rest =>
      have hf := rest.body_finished ignoreCase (List.cons_ne_nil (items.patterns ignoreCase) [])
      have hc := choice_body ignoreCase false items rest
      unfold Body.group
      split <;> simp_all [Alternatives.body, Item.pattern]

/-- What parentheses around one alternative close to. -/
theorem Items.group_round (ignoreCase : Bool) (items : Items)
    : ((Alternatives.last items).body ignoreCase []).group .round
      = (Item.grouped items).pattern ignoreCase := by
  simp [Body.group, Alternatives.body, Item.pattern]

/-- What parentheses around two or more alternatives close to. -/
theorem Alternatives.group_round (ignoreCase : Bool) (items : Items) (rest : Alternatives)
    : ((Alternatives.cons items rest).body ignoreCase []).group .round
      = (Item.choice items rest []).pattern ignoreCase := by
  have hf := rest.body_finished ignoreCase (List.cons_ne_nil (items.patterns ignoreCase) [])
  have hc := choice_body ignoreCase true items rest
  unfold Body.group
  split <;> simp_all [Alternatives.body, Item.pattern]

/-- What a whole definition closes to. -/
theorem Alternatives.root_body (ignoreCase : Bool) (contents : Alternatives)
    : (contents.body ignoreCase []).root
      = (Derivation.ofAlternatives contents).pattern ignoreCase := by
  cases contents with
  | last items => simp [Body.root, Alternatives.body, Derivation.pattern]
  | cons items rest =>
      have hf := rest.body_finished ignoreCase (List.cons_ne_nil (items.patterns ignoreCase) [])
      have hc := choice_body ignoreCase false items rest
      unfold Body.root
      split <;> simp_all [Alternatives.body, Derivation.pattern]

------------------------------------------------------------
-- Every derivation is read, whatever body it goes on from

/-- Reading the given lexemes, wherever they stand, leads from a draft to another. -/
def Draft.Follows (ignoreCase : Bool) (draft : Draft) (lexemes : List Lexeme) (last : Draft)
    : Prop :=
  ∀ placed, placed.map Placed.lexeme = lexemes → Reaches ignoreCase draft placed last

namespace Draft.Follows

variable {ignoreCase : Bool} {draft middle last : Draft}

theorem refl : Follows ignoreCase draft [] draft := by
  intro placed hp
  obtain rfl := List.map_eq_nil_iff.mp hp
  exact .refl _ _

theorem cons {lexeme : Lexeme} {lexemes : List Lexeme}
    (h : ∀ span, ∃ next, Step ignoreCase draft ⟨lexeme, span⟩ next
      ∧ Follows ignoreCase next lexemes last)
    : Follows ignoreCase draft (lexeme :: lexemes) last := by
  intro placed hp
  obtain ⟨⟨_, span⟩, rest, rfl, rfl, hr⟩ := List.map_eq_cons_iff.mp hp
  obtain ⟨next, hs, hf⟩ := h span
  exact .cons hs (hf rest hr)

theorem append {left right : List Lexeme} (hl : Follows ignoreCase draft left middle)
    (hr : Follows ignoreCase middle right last)
    : Follows ignoreCase draft (left ++ right) last := by
  intro placed hp
  obtain ⟨first, rest, rfl, hf, hp⟩ := List.map_eq_append_iff.mp hp
  exact (hl first hf).append (hr rest hp)

end Draft.Follows

/-- A group seen as a function of its identifier, which a draft can set. -/
structure Naming (group : Option String → Pattern) : Prop where
  isGroup : ∀ own, (group own).kind = .optional ∨ (group own).kind = .variant
  identified : ∀ own name, Draft.identified name (group own) = some (group (some name))

theorem Naming.optional (children : List Pattern)
    : Naming (fun own => .optional own (.sequence children)) :=
  ⟨fun _ => .inl rfl, fun _ _ => rfl⟩

theorem Naming.bareChoice (alternatives : List Pattern)
    : Naming (fun own => .optional none (.variant own false alternatives)) :=
  ⟨fun _ => .inl rfl, fun _ _ => rfl⟩

theorem Naming.choice (alternatives : List Pattern)
    : Naming (fun own => .variant own true alternatives) :=
  ⟨fun _ => .inr rfl, fun _ _ => rfl⟩

/-- Identifiers behind a group set its identifier to the last one, by list induction. -/
theorem Naming.follows {ignoreCase : Bool} {group : Option String → Pattern}
    (naming : Naming group) {body : Body} {openings : List Opening}
    (identifiers : List String) (own : Option String) {declared : List String}
    (fresh : (identifiers.reverse ++ declared).Nodup)
    : Draft.Follows ignoreCase ⟨body.push (group own), openings, .item, declared⟩
        (suffixLexemes identifiers)
        ⟨body.push (group (identifiers.getLast?.or own)), openings, .item,
          identifiers.reverse ++ declared⟩ := by
  induction identifiers generalizing own declared with
  | nil => exact .refl
  | cons name rest ih =>
      simp only [List.reverse_cons, List.append_assoc, List.singleton_append] at fresh ⊢
      have hn := (List.nodup_cons.mp (List.nodup_append.mp fresh).2.1).1
      have hr := ih (some name) fresh
      have hl : (name :: rest).getLast?.or own = rest.getLast?.or (some name) := by
        cases h : rest.getLast? <;> simp [List.getLast?_cons, h]
      rw [hl]
      exact .cons fun _ => ⟨_, .colon (naming.isGroup own),
        .cons fun _ => ⟨_, .identifier hn (naming.identified own name), hr⟩⟩

/-- Carets behind a word make it ignore case, by induction on their number. -/
theorem follows_carets {ignoreCase : Bool} {body : Body} {text : String}
    {caseSensitive : Bool} {openings : List Opening} {declared : List String} (carets : Nat)
    : Draft.Follows ignoreCase
        ⟨body.push (.literal text caseSensitive), openings, .item, declared⟩
        (List.replicate carets .caret)
        ⟨body.push (.literal text (carets == 0 && caseSensitive)), openings, .item,
          declared⟩ := by
  induction carets generalizing caseSensitive with
  | zero => exact .refl
  | succ n ih =>
      have hr := @ih false
      rw [Bool.and_false] at hr
      exact .cons fun _ => ⟨_, .caret, hr⟩

/-- A group is opened, filled and closed. -/
theorem follows_group {ignoreCase : Bool} (bracket : Bracket) (contents : Alternatives)
    {body : Body} {openings : List Opening} {declared declared' : List String}
    (h : ∀ opening, Draft.Follows ignoreCase
      ⟨.empty, opening :: openings, .item, declared⟩ contents.lexemes
      ⟨contents.body ignoreCase [], opening :: openings, .item, declared'⟩)
    : Draft.Follows ignoreCase ⟨body, openings, .item, declared⟩
        (bracket.opening :: (contents.lexemes ++ [bracket.closing]))
        ⟨body.push ((contents.body ignoreCase []).group bracket), openings, .item,
          declared'⟩ := by
  have hc := (contents.body_alternatives ignoreCase []).1
  exact .cons fun _ => ⟨_, .openGroup bracket, (h _).append
    (.cons fun _ => ⟨_, .closeGroup (Body.close_eq_ok_iff.mpr ⟨hc, rfl⟩), .refl⟩)⟩

/-- A bar finishes the current alternative, and the next one starts. -/
theorem follows_bar {ignoreCase : Bool} {items : Items} {rest : Alternatives}
    {finished : List (List Pattern)} {openings : List Opening}
    {declared declared' declared'' : List String}
    (hi : Draft.Follows ignoreCase ⟨⟨finished, []⟩, openings, .item, declared⟩ items.lexemes
      ⟨⟨finished, (items.patterns ignoreCase).reverse ++ []⟩, openings, .item, declared'⟩)
    (hr : Draft.Follows ignoreCase
      ⟨⟨items.patterns ignoreCase :: finished, []⟩, openings, .item, declared'⟩ rest.lexemes
      ⟨rest.body ignoreCase (items.patterns ignoreCase :: finished), openings, .item,
        declared''⟩)
    : Draft.Follows ignoreCase ⟨⟨finished, []⟩, openings, .item, declared⟩
        (Alternatives.cons items rest).lexemes
        ⟨(Alternatives.cons items rest).body ignoreCase finished, openings, .item,
          declared''⟩ := by
  have hb : (items.patterns ignoreCase).reverse ≠ [] := by
    simp [items.patterns_ne_nil]
  rw [List.append_nil] at hi
  refine hi.append (.cons fun _ => ⟨_, .bar hb, ?_⟩)
  rw [List.reverse_reverse]
  exact hr

mutual

/-- The lexemes of an item add its pattern to the current alternative and its names to the
declared ones, by induction on the item.
-/
theorem Item.follows {ignoreCase : Bool} (item : Item) {body : Body}
    {openings : List Opening} {declared : List String}
    (fresh : (item.names.reverse ++ declared).Nodup)
    : Draft.Follows ignoreCase ⟨body, openings, .item, declared⟩ item.lexemes
        ⟨body.push (item.pattern ignoreCase), openings, .item,
          item.names.reverse ++ declared⟩ := by
  cases item with
  | word text carets => exact .cons fun _ => ⟨_, .word, follows_carets carets⟩
  | parameter name =>
      have hn := (List.nodup_cons.mp fresh).1
      exact .cons fun _ => ⟨_, .openAngle, .cons fun _ => ⟨_, .parameterName,
        .cons fun _ => ⟨_, .parameter hn, .refl⟩⟩⟩
  | typed name typeName =>
      have hn := (List.nodup_cons.mp fresh).1
      exact .cons fun _ => ⟨_, .openAngle, .cons fun _ => ⟨_, .parameterName,
        .cons fun _ => ⟨_, .typeMark, .cons fun _ => ⟨_, .typeName,
          .cons fun _ => ⟨_, .typed hn, .refl⟩⟩⟩⟩⟩
  | tail name =>
      have hn := (List.nodup_cons.mp fresh).1
      exact .cons fun _ => ⟨_, .openAngle, .cons fun _ => ⟨_, .parameterName,
        .cons fun _ => ⟨_, .tail hn, .cons fun _ => ⟨_, .tailEnd, .refl⟩⟩⟩⟩
  | bracketed contents identifiers =>
      have hl : (Item.bracketed contents identifiers).lexemes
          = (Bracket.square.opening :: (contents.lexemes ++ [Bracket.square.closing]))
            ++ suffixLexemes identifiers := by
        simp [Item.lexemes, Bracket.opening, Bracket.closing]
      simp only [Item.names, List.reverse_append, List.append_assoc] at fresh ⊢
      rw [hl]
      refine (follows_group .square contents
        (fun _ => contents.follows (List.nodup_append.mp fresh).2.1)).append ?_
      rw [contents.group_square]
      cases contents with
      | last items => simpa [Item.pattern] using (Naming.optional _).follows identifiers none fresh
      | cons items rest =>
          simpa [Item.pattern] using (Naming.bareChoice _).follows identifiers none fresh
  | grouped contents =>
      rw [← contents.group_round]
      refine follows_group .round (.last contents) (fun opening => ?_)
      have hi := @Items.follows ignoreCase contents [] [] (opening :: openings) declared fresh
      rwa [List.append_nil] at hi
  | choice first others identifiers =>
      have hl : (Item.choice first others identifiers).lexemes
          = (Bracket.round.opening
              :: ((Alternatives.cons first others).lexemes ++ [Bracket.round.closing]))
            ++ suffixLexemes identifiers := by
        simp [Item.lexemes, Alternatives.lexemes, Bracket.opening, Bracket.closing]
      simp only [Item.names, List.reverse_append, List.append_assoc] at fresh ⊢
      have ho := (List.nodup_append.mp fresh).2.1
      have hf := (List.nodup_append.mp ho).2.1
      rw [hl]
      refine (follows_group .round (.cons first others)
        (fun _ => follows_bar (first.follows hf) (others.follows ho))).append ?_
      rw [others.group_round ignoreCase first]
      simpa [Item.pattern] using (Naming.choice _).follows identifiers none fresh

/-- The lexemes of items add their patterns in order. -/
theorem Items.follows {ignoreCase : Bool} (items : Items) {alternatives : List (List Pattern)}
    {before : List Pattern} {openings : List Opening} {declared : List String}
    (fresh : (items.names.reverse ++ declared).Nodup)
    : Draft.Follows ignoreCase ⟨⟨alternatives, before⟩, openings, .item, declared⟩
        items.lexemes
        ⟨⟨alternatives, (items.patterns ignoreCase).reverse ++ before⟩, openings, .item,
          items.names.reverse ++ declared⟩ := by
  cases items with
  | last item => exact item.follows fresh
  | cons item rest =>
      simp only [Items.names, Items.patterns, List.reverse_append, List.reverse_cons,
        List.append_assoc, List.singleton_append] at fresh ⊢
      exact (item.follows (List.nodup_append.mp fresh).2.1).append (rest.follows fresh)

/-- The lexemes of alternatives fill an empty body behind finished alternatives. -/
theorem Alternatives.follows {ignoreCase : Bool} (contents : Alternatives)
    {finished : List (List Pattern)} {openings : List Opening} {declared : List String}
    (fresh : (contents.names.reverse ++ declared).Nodup)
    : Draft.Follows ignoreCase ⟨⟨finished, []⟩, openings, .item, declared⟩ contents.lexemes
        ⟨contents.body ignoreCase finished, openings, .item,
          contents.names.reverse ++ declared⟩ := by
  cases contents with
  | last items =>
      have hi := @Items.follows ignoreCase items finished [] openings declared fresh
      rwa [List.append_nil] at hi
  | cons items rest =>
      simp only [Alternatives.names, List.reverse_append, List.append_assoc] at fresh ⊢
      exact follows_bar (items.follows (List.nodup_append.mp fresh).2.1) (rest.follows fresh)

end

end CallGrammar.Definition

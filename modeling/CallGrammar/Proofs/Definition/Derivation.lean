import CallGrammar.Definition.Draft

/-! Derivations: how the lexemes of a definition come from its grammar, and the pattern that a
derivation describes. The types admit nothing but derivations: alternatives and items are
never missing, and parentheses around a single alternative have no room for an identifier.
-/

namespace CallGrammar.Definition

mutual

/-- One item of an alternative. -/
inductive Item where
  /-- A word with carets behind it. -/
  | word (text : String) (carets : Nat)
  | parameter (name : String)
  | typed (name typeName : String)
  | tail (name : String)
  /-- Brackets, with identifiers behind them. -/
  | bracketed (contents : Alternatives) (identifiers : List String)
  /-- Parentheses around a single alternative. -/
  | grouped (contents : Items)
  /-- Parentheses around several alternatives, with identifiers behind them. -/
  | choice (first : Items) (others : Alternatives) (identifiers : List String)

/-- One or more items. -/
inductive Items where
  | last (item : Item)
  | cons (item : Item) (rest : Items)

/-- One or more alternatives. -/
inductive Alternatives where
  | last (items : Items)
  | cons (items : Items) (rest : Alternatives)

end

/-- A whole definition: nothing, or alternatives. -/
inductive Derivation where
  | empty
  | ofAlternatives (contents : Alternatives)

/-- The mark that opens a group of the given brackets. -/
def Bracket.opening : Bracket → Lexeme
  | .round => .openRound
  | .square => .openSquare

/-- The mark that closes a group of the given brackets. -/
def Bracket.closing : Bracket → Lexeme
  | .round => .closeRound
  | .square => .closeSquare

/-- Identifiers behind a group, each after a colon. -/
def suffixLexemes : List String → List Lexeme
  | [] => []
  | identifier :: rest => .colon :: .word identifier :: suffixLexemes rest

mutual

/-- The lexemes that an item derives. -/
def Item.lexemes : Item → List Lexeme
  | .word text carets => .word text :: List.replicate carets .caret
  | .parameter name => [.openAngle, .word name, .closeAngle]
  | .typed name typeName => [.openAngle, .word name, .colon, .word typeName, .closeAngle]
  | .tail name => [.openAngle, .word name, .ellipsis, .closeAngle]
  | .bracketed contents identifiers =>
      .openSquare :: (contents.lexemes ++ .closeSquare :: suffixLexemes identifiers)
  | .grouped contents => .openRound :: (contents.lexemes ++ [.closeRound])
  | .choice first others identifiers =>
      .openRound :: (first.lexemes
        ++ .bar :: (others.lexemes ++ .closeRound :: suffixLexemes identifiers))

/-- The lexemes of items, one after the other. -/
def Items.lexemes : Items → List Lexeme
  | .last item => item.lexemes
  | .cons item rest => item.lexemes ++ rest.lexemes

/-- The lexemes of alternatives, with bars between them. -/
def Alternatives.lexemes : Alternatives → List Lexeme
  | .last items => items.lexemes
  | .cons items rest => items.lexemes ++ .bar :: rest.lexemes

end

/-- The lexemes of a whole definition. -/
def Derivation.lexemes : Derivation → List Lexeme
  | .empty => []
  | .ofAlternatives contents => contents.lexemes

mutual

/-- The names that an item declares, in the order of the text. -/
def Item.names : Item → List String
  | .word .. => []
  | .parameter name => [name]
  | .typed name _ => [name]
  | .tail name => [name]
  | .bracketed contents identifiers => contents.names ++ identifiers
  | .grouped contents => contents.names
  | .choice first others identifiers => first.names ++ others.names ++ identifiers

def Items.names : Items → List String
  | .last item => item.names
  | .cons item rest => item.names ++ rest.names

def Alternatives.names : Alternatives → List String
  | .last items => items.names
  | .cons items rest => items.names ++ rest.names

end

/-- The names that a whole definition declares. -/
def Derivation.names : Derivation → List String
  | .empty => []
  | .ofAlternatives contents => contents.names

mutual

/-- The pattern that an item describes. Of several identifiers behind a group the last one
counts; brackets around several alternatives give it to the choice inside.
-/
def Item.pattern (ignoreCase : Bool) : Item → Pattern
  | .word text carets => .literal text (carets == 0 && !ignoreCase)
  | .parameter name => .parameter name none
  | .typed name typeName => .parameter name (some typeName)
  | .tail name => .tail name
  | .bracketed (.last items) identifiers =>
      .optional identifiers.getLast? (.sequence (items.patterns ignoreCase))
  | .bracketed (.cons items rest) identifiers =>
      .optional none
        (.variant identifiers.getLast? false
          ((items.patterns ignoreCase :: rest.patterns ignoreCase).map .sequence))
  | .grouped contents => .sequence (contents.patterns ignoreCase)
  | .choice first others identifiers =>
      .variant identifiers.getLast? true
        ((first.patterns ignoreCase :: others.patterns ignoreCase).map .sequence)

/-- The patterns of items, in order. -/
def Items.patterns (ignoreCase : Bool) : Items → List Pattern
  | .last item => [item.pattern ignoreCase]
  | .cons item rest => item.pattern ignoreCase :: rest.patterns ignoreCase

/-- The patterns of each alternative, in order. -/
def Alternatives.patterns (ignoreCase : Bool) : Alternatives → List (List Pattern)
  | .last items => [items.patterns ignoreCase]
  | .cons items rest => items.patterns ignoreCase :: rest.patterns ignoreCase

end

/-- The pattern that a whole definition describes: a sequence, in which several alternatives
make a single choice.
-/
def Derivation.pattern (ignoreCase : Bool) : Derivation → Pattern
  | .empty => .sequence []
  | .ofAlternatives (.last items) => .sequence (items.patterns ignoreCase)
  | .ofAlternatives (.cons items rest) =>
      .sequence
        [.variant none false
          ((items.patterns ignoreCase :: rest.patterns ignoreCase).map .sequence)]

------------------------------------------------------------
-- No lexemes have two derivations

/-- A lexeme that extends the item before it. -/
def Lexeme.extendsItem : Lexeme → Bool
  | .caret | .colon => true
  | _ => false

/-- A lexeme that extends the items before it: it belongs to the last one or starts another. -/
def Lexeme.extendsItems : Lexeme → Bool
  | .caret | .colon | .word _ | .openAngle | .openRound | .openSquare => true
  | _ => false

/-- A lexeme that extends the alternatives before it. -/
def Lexeme.extendsAlternatives : Lexeme → Bool
  | .bar => true
  | lexeme => lexeme.extendsItems

/-- What follows does not begin with a lexeme that would extend what came before. -/
def Ends (extending : Lexeme → Bool) (rest : List Lexeme) : Prop :=
  ∀ lexeme ∈ rest.head?, extending lexeme = false

theorem Ends.nil (extending : Lexeme → Bool) : Ends extending [] := by
  simp [Ends]

theorem ends_cons {extending : Lexeme → Bool} {lexeme : Lexeme} {rest : List Lexeme}
    : Ends extending (lexeme :: rest) ↔ extending lexeme = false := by
  simp [Ends]

/-- What ends items ends their last item. -/
theorem Ends.item {rest : List Lexeme} (h : Ends Lexeme.extendsItems rest)
    : Ends Lexeme.extendsItem rest := by
  intro lexeme hl
  have hn := h lexeme hl
  cases lexeme <;> simp_all [Lexeme.extendsItem, Lexeme.extendsItems]

/-- What ends alternatives ends the items of the last one. -/
theorem Ends.items {rest : List Lexeme} (h : Ends Lexeme.extendsAlternatives rest)
    : Ends Lexeme.extendsItems rest := by
  intro lexeme hl
  have hn := h lexeme hl
  cases lexeme <;> simp_all [Lexeme.extendsItems, Lexeme.extendsAlternatives]

/-- An item starts with a lexeme that extends items but not an item, by cases on the item. -/
theorem Item.lexemes_eq_cons (item : Item)
    : ∃ lexeme rest,
        item.lexemes = lexeme :: rest
        ∧ lexeme.extendsItems = true
        ∧ lexeme.extendsItem = false := by
  cases item <;> exact ⟨_, _, rfl, rfl, rfl⟩

/-- So do items, by their first one. -/
theorem Items.lexemes_eq_cons (items : Items)
    : ∃ lexeme rest,
        items.lexemes = lexeme :: rest
        ∧ lexeme.extendsItems = true
        ∧ lexeme.extendsItem = false := by
  cases items with
  | last item => exact item.lexemes_eq_cons
  | cons item rest =>
      obtain ⟨lexeme, more, he, hs, hn⟩ := item.lexemes_eq_cons
      exact ⟨lexeme, more ++ rest.lexemes, by rw [Items.lexemes, he, List.cons_append], hs, hn⟩

/-- Items behind an item end it. -/
theorem Items.ends_lexemes_append (items : Items) (rest : List Lexeme)
    : Ends Lexeme.extendsItem (items.lexemes ++ rest) := by
  obtain ⟨lexeme, more, he, _, hn⟩ := items.lexemes_eq_cons
  rw [he, List.cons_append]
  exact ends_cons.mpr hn

/-- Items never stand where items have ended. -/
theorem Items.lexemes_append_not_ends (items : Items) (rest : List Lexeme)
    : ¬ Ends Lexeme.extendsItems (items.lexemes ++ rest) := by
  obtain ⟨lexeme, more, he, hs, _⟩ := items.lexemes_eq_cons
  rw [he, List.cons_append, ends_cons, hs]
  exact Bool.noConfusion

/-- Carets are counted exactly where no caret follows, by induction on the first count. -/
theorem replicate_caret_unique {carets carets' : Nat} {rest rest' : List Lexeme}
    (h : List.replicate carets Lexeme.caret ++ rest = List.replicate carets' .caret ++ rest')
    (hr : Ends Lexeme.extendsItem rest) (hr' : Ends Lexeme.extendsItem rest')
    : carets = carets' ∧ rest = rest' := by
  induction carets generalizing carets' with
  | zero =>
      cases carets' with
      | zero => exact ⟨rfl, h⟩
      | succ n =>
          have he : rest = .caret :: (List.replicate n .caret ++ rest') := h
          exact absurd (ends_cons.mp (he ▸ hr)) Bool.noConfusion
  | succ n ih =>
      cases carets' with
      | zero =>
          have he : .caret :: (List.replicate n .caret ++ rest) = rest' := h
          exact absurd (ends_cons.mp (he ▸ hr')) Bool.noConfusion
      | succ n' =>
          obtain ⟨hn, he⟩ := ih (List.cons.inj h).2
          exact ⟨congrArg Nat.succ hn, he⟩

/-- Identifiers are read back exactly where no colon follows, by list induction. -/
theorem suffixLexemes_unique {identifiers identifiers' : List String}
    {rest rest' : List Lexeme}
    (h : suffixLexemes identifiers ++ rest = suffixLexemes identifiers' ++ rest')
    (hr : Ends Lexeme.extendsItem rest) (hr' : Ends Lexeme.extendsItem rest')
    : identifiers = identifiers' ∧ rest = rest' := by
  induction identifiers generalizing identifiers' with
  | nil =>
      cases identifiers' with
      | nil => exact ⟨rfl, h⟩
      | cons name more =>
          have he : rest = .colon :: .word name :: (suffixLexemes more ++ rest') := h
          exact absurd (ends_cons.mp (he ▸ hr)) Bool.noConfusion
  | cons name more ih =>
      cases identifiers' with
      | nil =>
          have he : .colon :: .word name :: (suffixLexemes more ++ rest) = rest' := h
          exact absurd (ends_cons.mp (he ▸ hr')) Bool.noConfusion
      | cons name' more' =>
          simp only [suffixLexemes, List.cons_append, List.cons.injEq, Lexeme.word.injEq,
            true_and] at h
          obtain ⟨rfl, h⟩ := h
          obtain ⟨rfl, he⟩ := ih h
          exact ⟨rfl, he⟩

mutual

/-- An item is determined by its lexemes and what may follow them, by induction on the item. -/
theorem Item.lexemes_unique (item item' : Item) {rest rest' : List Lexeme}
    (h : item.lexemes ++ rest = item'.lexemes ++ rest')
    (hr : Ends Lexeme.extendsItem rest) (hr' : Ends Lexeme.extendsItem rest')
    : item = item' ∧ rest = rest' := by
  cases item with
  | word text carets =>
      cases item' with
      | word text' carets' =>
          obtain ⟨ht, h⟩ := List.cons.inj h
          obtain ⟨rfl, he⟩ := replicate_caret_unique h hr hr'
          exact ⟨congrArg (Item.word · carets) (Lexeme.word.inj ht), he⟩
      | _ => simp [Item.lexemes] at h
  | parameter name =>
      cases item' <;> simp [Item.lexemes] at h ⊢
      exact h
  | typed name typeName =>
      cases item' <;> simp [Item.lexemes] at h ⊢
      exact ⟨⟨h.1, h.2.1⟩, h.2.2⟩
  | tail name =>
      cases item' <;> simp [Item.lexemes] at h ⊢
      exact h
  | bracketed contents identifiers =>
      cases item' with
      | bracketed contents' identifiers' =>
          simp only [Item.lexemes, List.cons_append, List.append_assoc, List.cons.injEq,
            true_and] at h
          obtain ⟨rfl, ht⟩ := contents.lexemes_unique contents' h (ends_cons.mpr rfl)
            (ends_cons.mpr rfl)
          obtain ⟨rfl, he⟩ := suffixLexemes_unique (List.cons.inj ht).2 hr hr'
          exact ⟨rfl, he⟩
      | _ => simp [Item.lexemes] at h
  | grouped contents =>
      cases item' with
      | grouped contents' =>
          simp only [Item.lexemes, List.cons_append, List.append_assoc, List.cons.injEq,
            true_and] at h
          obtain ⟨rfl, ht⟩ := contents.lexemes_unique contents' h (ends_cons.mpr rfl)
            (ends_cons.mpr rfl)
          exact ⟨rfl, (List.cons.inj ht).2⟩
      | choice first' others' identifiers' =>
          simp only [Item.lexemes, List.cons_append, List.append_assoc, List.cons.injEq,
            true_and] at h
          -- Both start alike, but one group is closed where the other one goes on with a bar.
          have he := (contents.lexemes_unique first' h (ends_cons.mpr rfl)
            (ends_cons.mpr rfl)).2
          simp at he
      | _ => simp [Item.lexemes] at h
  | choice first others identifiers =>
      cases item' with
      | grouped contents' =>
          simp only [Item.lexemes, List.cons_append, List.append_assoc, List.cons.injEq,
            true_and] at h
          have he := (first.lexemes_unique contents' h (ends_cons.mpr rfl)
            (ends_cons.mpr rfl)).2
          simp at he
      | choice first' others' identifiers' =>
          simp only [Item.lexemes, List.cons_append, List.append_assoc, List.cons.injEq,
            true_and] at h
          obtain ⟨rfl, ht⟩ := first.lexemes_unique first' h (ends_cons.mpr rfl)
            (ends_cons.mpr rfl)
          obtain ⟨rfl, hs⟩ := others.lexemes_unique others' (List.cons.inj ht).2
            (ends_cons.mpr rfl) (ends_cons.mpr rfl)
          obtain ⟨rfl, he⟩ := suffixLexemes_unique (List.cons.inj hs).2 hr hr'
          exact ⟨rfl, he⟩
      | _ => simp [Item.lexemes] at h

/-- Items are determined by their lexemes, item by item. -/
theorem Items.lexemes_unique (items items' : Items) {rest rest' : List Lexeme}
    (h : items.lexemes ++ rest = items'.lexemes ++ rest')
    (hr : Ends Lexeme.extendsItems rest) (hr' : Ends Lexeme.extendsItems rest')
    : items = items' ∧ rest = rest' := by
  cases items with
  | last item =>
      cases items' with
      | last item' =>
          obtain ⟨rfl, he⟩ := item.lexemes_unique item' h hr.item hr'.item
          exact ⟨rfl, he⟩
      | cons item' more' =>
          rw [Items.lexemes, Items.lexemes, List.append_assoc] at h
          have he := (item.lexemes_unique item' h hr.item (more'.ends_lexemes_append _)).2
          exact absurd (he ▸ hr) (more'.lexemes_append_not_ends _)
  | cons item more =>
      cases items' with
      | last item' =>
          rw [Items.lexemes, Items.lexemes, List.append_assoc] at h
          have he := (item.lexemes_unique item' h (more.ends_lexemes_append _) hr'.item).2
          exact absurd (he ▸ hr') (more.lexemes_append_not_ends _)
      | cons item' more' =>
          rw [Items.lexemes, Items.lexemes, List.append_assoc, List.append_assoc] at h
          obtain ⟨rfl, ht⟩ := item.lexemes_unique item' h (more.ends_lexemes_append _)
            (more'.ends_lexemes_append _)
          obtain ⟨rfl, he⟩ := more.lexemes_unique more' ht hr hr'
          exact ⟨rfl, he⟩

/-- Alternatives are determined by their lexemes, from bar to bar. -/
theorem Alternatives.lexemes_unique (contents contents' : Alternatives)
    {rest rest' : List Lexeme}
    (h : contents.lexemes ++ rest = contents'.lexemes ++ rest')
    (hr : Ends Lexeme.extendsAlternatives rest) (hr' : Ends Lexeme.extendsAlternatives rest')
    : contents = contents' ∧ rest = rest' := by
  cases contents with
  | last items =>
      cases contents' with
      | last items' =>
          obtain ⟨rfl, he⟩ := items.lexemes_unique items' h hr.items hr'.items
          exact ⟨rfl, he⟩
      | cons items' more' =>
          rw [Alternatives.lexemes, Alternatives.lexemes, List.append_assoc] at h
          have he := (items.lexemes_unique items' h hr.items (ends_cons.mpr rfl)).2
          exact absurd (ends_cons.mp (he ▸ hr)) Bool.noConfusion
  | cons items more =>
      cases contents' with
      | last items' =>
          rw [Alternatives.lexemes, Alternatives.lexemes, List.append_assoc] at h
          have he := (items.lexemes_unique items' h (ends_cons.mpr rfl) hr'.items).2
          exact absurd (ends_cons.mp (he ▸ hr')) Bool.noConfusion
      | cons items' more' =>
          rw [Alternatives.lexemes, Alternatives.lexemes, List.append_assoc,
            List.append_assoc] at h
          obtain ⟨rfl, ht⟩ := items.lexemes_unique items' h (ends_cons.mpr rfl)
            (ends_cons.mpr rfl)
          obtain ⟨rfl, he⟩ := more.lexemes_unique more' (List.cons.inj ht).2 hr hr'
          exact ⟨rfl, he⟩

end

/-- Alternatives derive at least one lexeme. -/
theorem Alternatives.lexemes_ne_nil (contents : Alternatives) : contents.lexemes ≠ [] := by
  cases contents with
  | last items =>
      obtain ⟨lexeme, rest, he, _⟩ := items.lexemes_eq_cons
      simp [Alternatives.lexemes, he]
  | cons items rest => simp [Alternatives.lexemes]

/-- The grammar is unambiguous: lexemes have at most one derivation. -/
theorem Derivation.lexemes_injective {derivation derivation' : Derivation}
    (h : derivation.lexemes = derivation'.lexemes)
    : derivation = derivation' := by
  cases derivation with
  | empty =>
      cases derivation' with
      | empty => rfl
      | ofAlternatives contents' => exact absurd h.symm contents'.lexemes_ne_nil
  | ofAlternatives contents =>
      cases derivation' with
      | empty => exact absurd h contents.lexemes_ne_nil
      | ofAlternatives contents' =>
          have he : contents.lexemes ++ [] = contents'.lexemes ++ [] :=
            congrArg (· ++ []) h
          exact congrArg _ (contents.lexemes_unique contents' he (.nil _) (.nil _)).1

end CallGrammar.Definition

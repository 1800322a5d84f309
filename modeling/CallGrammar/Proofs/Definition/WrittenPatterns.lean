import CallGrammar.Proofs.Definition.Shape

/-! What patterns look like that are kept exactly as written. Groups are never empty, alternatives
and the contents of brackets are sequences even around a single item, and a choice without
parentheses of its own stands in brackets or is the whole definition.
-/

namespace CallGrammar

open Definition (IsWord)

namespace Pattern

/-- The texts that a pattern holds itself, apart from its parts. -/
def ownTexts : Pattern → List String
  | .literal text _ => [text]
  | .parameter name typeName => name :: typeName.toList
  | .tail name => [name]
  | .optional identifier _ => identifier.toList
  | .variant identifier _ _ => identifier.toList
  | .sequence _ => []

/-- A sequence that is not empty. -/
def IsFilled : Pattern → Prop
  | .sequence children => children ≠ []
  | _ => False

/-- A choice without parentheses of its own. -/
def isBare : Pattern → Bool
  | .variant _ parenthesized _ => !parenthesized
  | _ => false

/-- What a group holds directly where it is kept as written. -/
def WrittenParts : Pattern → Prop
  | .literal .. | .parameter .. | .tail .. => True
  | .optional identifier inner => inner.IsFilled ∨ (inner.isBare = true ∧ identifier = none)
  | .variant _ _ alternatives => 2 ≤ alternatives.length ∧ ∀ p ∈ alternatives, p.IsFilled
  | .sequence children => children ≠ [] ∧ ∀ child ∈ children, child.isBare = false

/-- All texts of a pattern are words of a definition, and all its groups hold what they do as
written.
-/
def IsWritten (p : Pattern) : Prop :=
  ∀ q ∈ p.traverse, (∀ text ∈ q.ownTexts, IsWord text.toList) ∧ q.WrittenParts

theorem isWritten_iff {p : Pattern}
    : p.IsWritten
      ↔ ((∀ text ∈ p.ownTexts, IsWord text.toList) ∧ p.WrittenParts)
        ∧ ∀ child ∈ p.children, child.IsWritten :=
  forall_mem_traverse_iff

theorem IsFilled.exists_children {p : Pattern} (h : p.IsFilled)
    : ∃ children, p = .sequence children ∧ children ≠ [] := by
  cases p with
  | sequence children => exact ⟨children, rfl, h⟩
  | _ => exact False.elim h

/-- Items that are written make a sequence that is. -/
theorem isWritten_sequence {children : List Pattern} (filled : children ≠ [])
    (items : ∀ child ∈ children, child.IsWritten ∧ child.isBare = false)
    : (sequence children).IsWritten := by
  refine isWritten_iff.mpr ⟨⟨?_, filled, fun child hc => (items child hc).2⟩, ?_⟩
  · intro text member
    cases member
  · exact fun child hc => (items child hc).1

/-- Several alternatives that are written make a choice that is. -/
theorem isWritten_variant {identifier : Option String} {alternatives : List (List Pattern)}
    (isWord : ∀ word ∈ identifier, IsWord word.toList) (several : 2 ≤ alternatives.length)
    (written : ∀ ps ∈ alternatives, (sequence ps).IsWritten ∧ ps ≠ []) (parenthesized : Bool)
    : (variant identifier parenthesized (alternatives.map .sequence)).IsWritten := by
  refine isWritten_iff.mpr ⟨⟨?_, by simpa using several, ?_⟩, ?_⟩
  · intro text member
    exact isWord text (Option.mem_toList.mp member)
  · intro p member
    obtain ⟨ps, hps, rfl⟩ := List.mem_map.mp member
    exact (written ps hps).2
  · intro p member
    obtain ⟨ps, hps, rfl⟩ := List.mem_map.mp member
    exact (written ps hps).1

end Pattern

namespace Definition

------------------------------------------------------------
-- Derivations describe written patterns

mutual

/-- An item describes a written pattern that is no choice without parentheses, by induction on the
item.
-/
theorem Item.isWritten (ignoreCase : Bool) (item : Item) (words : Worded item.lexemes)
    : (item.pattern ignoreCase).IsWritten ∧ (item.pattern ignoreCase).isBare = false := by
  cases item with
  | word text carets =>
      have isWord := words text (by simp [Item.lexemes])
      refine ⟨Pattern.isWritten_iff.mpr ⟨⟨?_, trivial⟩, nofun⟩, rfl⟩
      simpa [Item.pattern, Pattern.ownTexts] using isWord
  | parameter name =>
      have isWord := words name (by simp [Item.lexemes])
      refine ⟨Pattern.isWritten_iff.mpr ⟨⟨?_, trivial⟩, nofun⟩, rfl⟩
      simpa [Item.pattern, Pattern.ownTexts] using isWord
  | typed name typeName =>
      have isWord := words name (by simp [Item.lexemes])
      have typeIsWord := words typeName (by simp [Item.lexemes])
      refine ⟨Pattern.isWritten_iff.mpr ⟨⟨?_, trivial⟩, nofun⟩, rfl⟩
      simpa [Item.pattern, Pattern.ownTexts] using ⟨isWord, typeIsWord⟩
  | tail name =>
      have isWord := words name (by simp [Item.lexemes])
      refine ⟨Pattern.isWritten_iff.mpr ⟨⟨?_, trivial⟩, nofun⟩, rfl⟩
      simpa [Item.pattern, Pattern.ownTexts] using isWord
  | bracketed contents identifiers =>
      simp only [Item.lexemes, worded_cons, worded_append] at words
      obtain ⟨-, inside, -, behind⟩ := words
      have isWord := isWord_of_getLast? behind
      have written := contents.isWritten ignoreCase inside
      cases contents with
      | last items =>
          have filled := items.patterns_ne_nil ignoreCase
          refine ⟨Pattern.isWritten_iff.mpr ⟨⟨?_, .inl filled⟩, ?_⟩, rfl⟩
          · intro text member
            exact isWord text (Option.mem_toList.mp member)
          · exact List.forall_mem_singleton.mpr (written _ (by simp [Alternatives.patterns])).1
      | cons items rest =>
          have several := rest.one_le_length_patterns ignoreCase
          refine ⟨Pattern.isWritten_iff.mpr ⟨⟨nofun, .inr ⟨rfl, rfl⟩⟩, ?_⟩, rfl⟩
          refine List.forall_mem_singleton.mpr (Pattern.isWritten_variant isWord ?_ ?_ false)
          · simpa using several
          · simpa [Alternatives.patterns] using written
  | grouped contents =>
      simp only [Item.lexemes, worded_cons, worded_append] at words
      have filled := contents.patterns_ne_nil ignoreCase
      exact ⟨Pattern.isWritten_sequence filled (contents.isWritten ignoreCase words.2.1), rfl⟩
  | choice first others identifiers =>
      simp only [Item.lexemes, worded_cons, worded_append] at words
      obtain ⟨-, inFirst, -, inOthers, -, behind⟩ := words
      have filled := first.patterns_ne_nil ignoreCase
      have firstWritten :=
        Pattern.isWritten_sequence filled (first.isWritten ignoreCase inFirst)
      have several := others.one_le_length_patterns ignoreCase
      refine ⟨Pattern.isWritten_variant (isWord_of_getLast? behind) ?_ ?_ true, rfl⟩
      · simpa using several
      · simpa using ⟨⟨firstWritten, filled⟩, others.isWritten ignoreCase inOthers⟩

/-- Items describe such patterns one by one. -/
theorem Items.isWritten (ignoreCase : Bool) (items : Items) (words : Worded items.lexemes)
    : ∀ p ∈ items.patterns ignoreCase, p.IsWritten ∧ p.isBare = false := by
  cases items with
  | last item => simpa [Items.patterns] using item.isWritten ignoreCase words
  | cons item rest =>
      rw [Items.lexemes, worded_append] at words
      simpa [Items.patterns]
        using ⟨item.isWritten ignoreCase words.1, rest.isWritten ignoreCase words.2⟩

/-- Alternatives describe sequences of such patterns. -/
theorem Alternatives.isWritten (ignoreCase : Bool) (contents : Alternatives)
    (words : Worded contents.lexemes)
    : ∀ ps ∈ contents.patterns ignoreCase, (Pattern.sequence ps).IsWritten ∧ ps ≠ [] := by
  cases contents with
  | last items =>
      have filled := items.patterns_ne_nil ignoreCase
      have written := Pattern.isWritten_sequence filled (items.isWritten ignoreCase words)
      simpa [Alternatives.patterns] using ⟨written, filled⟩
  | cons items rest =>
      rw [Alternatives.lexemes, worded_append, worded_cons] at words
      have filled := items.patterns_ne_nil ignoreCase
      have written := Pattern.isWritten_sequence filled (items.isWritten ignoreCase words.1)
      simpa [Alternatives.patterns] using ⟨⟨written, filled⟩, rest.isWritten ignoreCase words.2.2⟩

end

/-- The items of a whole definition are written; a choice without parentheses among them is alone
and has no identifier.
-/
structure WrittenItems (items : List Pattern) : Prop where
  written : ∀ item ∈ items, item.IsWritten
  bareAlone
    : ∀ identifier alternatives, .variant identifier false alternatives ∈ items
      → identifier = none ∧ items = [.variant identifier false alternatives]

/-- A derivation of words describes a sequence of such items. -/
theorem Derivation.exists_writtenItems (ignoreCase : Bool) (derivation : Derivation)
    (words : Worded derivation.lexemes)
    : ∃ items, derivation.pattern ignoreCase = .sequence items ∧ WrittenItems items := by
  cases derivation with
  | empty => exact ⟨[], rfl, nofun, nofun⟩
  | ofAlternatives contents =>
      cases contents with
      | last items =>
          have written := items.isWritten ignoreCase words
          refine ⟨items.patterns ignoreCase, rfl, fun item hi => (written item hi).1, ?_⟩
          intro identifier alternatives member
          have bare := (written _ member).2
          cases bare
      | cons items rest =>
          have written := (Alternatives.cons items rest).isWritten ignoreCase words
          refine ⟨_, rfl, List.forall_mem_singleton.mpr ?_, ?_⟩
          · have several := rest.one_le_length_patterns ignoreCase
            refine Pattern.isWritten_variant (by simp) ?_ ?_ false
            · simpa using several
            · simpa [Alternatives.patterns] using written
          · intro identifier alternatives member
            cases List.mem_singleton.mp member
            exact ⟨rfl, rfl⟩

------------------------------------------------------------
-- Compiling without simplification

/-- The nine characters that are marks. -/
def markCharacters : List Char :=
  ['<', '>', '(', ')', '[', ']', ':', '|', '^']

theorem not_mem_markCharacters {c : Char} (h : mark? c = none) : c ∉ markCharacters := by
  intro member
  simp only [markCharacters, List.mem_cons, List.not_mem_nil, or_false] at member
  rcases member with rfl | rfl | rfl | rfl | rfl | rfl | rfl | rfl | rfl
  all_goals cases h

/-- The shape of a whole definition that is kept as written. -/
structure AsWritten (root : Pattern) : Prop where
  rooted : root.kind = .sequence
  /-- No sequence but the root is empty. -/
  filled : ∀ child ∈ root.children, .sequence [] ∉ child.traverse
  several
    : ∀ identifier parenthesized alternatives,
        .variant identifier parenthesized alternatives ∈ root.traverse
        → 2 ≤ alternatives.length
          ∧ ∀ p ∈ alternatives, ∃ children, p = .sequence children ∧ children ≠ []
  bracketed
    : ∀ identifier inner, .optional identifier inner ∈ root.traverse
      → (∃ children, inner = .sequence children ∧ children ≠ [])
        ∨ (∃ own alternatives, inner = .variant own false alternatives) ∧ identifier = none
  /-- Whatever holds a choice without parentheses directly is an optional group, or the root of
  which it is the only part.
  -/
  bare
    : ∀ p ∈ root.traverse, ∀ identifier alternatives,
        .variant identifier false alternatives ∈ p.children
        → p.kind = .optional
          ∨ p = root ∧ root.children = [.variant identifier false alternatives]
            ∧ identifier = none
  texts
    : ∀ p ∈ root.traverse, ∀ text ∈ p.ownTexts,
        text ≠ ""
        ∧ (∀ c ∈ text.toList, Text.isBlank c = false ∧ c ∉ markCharacters)
        ∧ ¬ "...".toList <:+: text.toList

/-- A choice without parentheses that is held directly stands in brackets. -/
theorem kind_of_bare_child {p : Pattern} (h : p.IsWritten) {identifier : Option String}
    {alternatives : List Pattern} (member : .variant identifier false alternatives ∈ p.children)
    : p.kind = .optional := by
  obtain ⟨⟨-, parts⟩, -⟩ := Pattern.isWritten_iff.mp h
  cases p with
  | literal text caseSensitive => cases member
  | parameter name typeName => cases member
  | tail name => cases member
  | optional own inner => rfl
  | variant own parenthesized others => exact False.elim (parts.2 _ member)
  | sequence children =>
      have bare := parts.2 _ member
      cases bare

theorem IsWord.spelled {text : String} (h : IsWord text.toList)
    : text ≠ ""
      ∧ (∀ c ∈ text.toList, Text.isBlank c = false ∧ c ∉ markCharacters)
      ∧ ¬ "...".toList <:+: text.toList := by
  refine ⟨?_, fun c hc => ⟨h.notBlank c hc, not_mem_markCharacters (h.notMark c hc)⟩, h.notPoints⟩
  rintro rfl
  exact h.filled rfl

/-- A sequence of such items has the shape of a whole definition. -/
theorem WrittenItems.asWritten {items : List Pattern} (h : WrittenItems items)
    : AsWritten (.sequence items) := by
  -- Below the root, everything is written.
  have below {q : Pattern} (visited : q ∈ (Pattern.sequence items).traverse)
      : q = .sequence items ∨ q.IsWritten := by
    rcases Pattern.mem_traverse_iff.mp visited with same | ⟨item, member, hq⟩
    · exact .inl same
    · exact .inr (fun r hr => h.written item member r (Pattern.mem_traverse_trans hq hr))
  refine ⟨rfl, ?_, ?_, ?_, ?_, ?_⟩
  · intro item member empty
    exact (h.written item member _ empty).2.1 rfl
  · intro identifier parenthesized alternatives visited
    rcases below visited with same | written
    · cases same
    · have parts := (Pattern.isWritten_iff.mp written).1.2
      exact ⟨parts.1, fun p hp => (parts.2 p hp).exists_children⟩
  · intro identifier inner visited
    rcases below visited with same | written
    · cases same
    · rcases (Pattern.isWritten_iff.mp written).1.2 with filled | ⟨isBare, anonymous⟩
      · exact .inl filled.exists_children
      · cases inner with
        | variant own parenthesized alternatives =>
            cases parenthesized with
            | true => cases isBare
            | false => exact .inr ⟨⟨own, alternatives, rfl⟩, anonymous⟩
        | _ => cases isBare
  · intro p visited identifier alternatives member
    rcases below visited with rfl | written
    · obtain ⟨anonymous, alone⟩ := h.bareAlone identifier alternatives member
      exact .inr ⟨rfl, alone, anonymous⟩
    · exact .inl (kind_of_bare_child written member)
  · intro p visited text member
    rcases below visited with rfl | written
    · cases member
    · exact ((Pattern.isWritten_iff.mp written).1.1 text member).spelled

/-- The shape of patterns that are compiled exactly as written. The root is a sequence, and no other
sequence is empty. A choice has two or more alternatives, each a sequence that is not empty. Brackets
hold such a sequence, or a choice without parentheses of its own, and then have no identifier
themselves. Such a choice stands nowhere else but alone in the whole definition, without an
identifier. Every text is a word: not empty, without blanks and marks, and without three points in a
row.
-/
theorem asWritten_of_compile (ignoreCase : Bool) (definition : String) (root : Pattern)
    (h : Compiler.compile ⟨.no, ignoreCase⟩ definition = .ok root)
    : AsWritten root := by
  obtain ⟨written, parsed, rfl⟩ := compile_eq_ok_iff.mp h
  obtain ⟨derivation, derived, -, rfl⟩ := parse_eq_ok_iff.mp parsed
  have words : Worded derivation.lexemes := derived ▸ worded_lexemes definition
  obtain ⟨items, same, writtenItems⟩ := derivation.exists_writtenItems ignoreCase words
  have shape := writtenItems.asWritten
  rwa [← same] at shape

/-- Groups inside alternatives, with identifiers on a choice in brackets and on one in parentheses,
and a choice that is a whole definition.
-/
theorem asWritten_of_compile_groups
    : ∃ groups choice,
        Compiler.compile ⟨.no, false⟩ "go [to|<place: int>]:how (now^|(later [<why...>])):when"
          = .ok groups
        ∧ AsWritten groups
        ∧ Compiler.compile ⟨.no, true⟩ "stay|go home" = .ok choice
        ∧ AsWritten choice := by
  let groups : Pattern :=
    .sequence
      [.literal "go" true,
       .optional none
        (.variant (some "how") false
          [.sequence [.literal "to" true], .sequence [.parameter "place" (some "int")]]),
       .variant (some "when") true
        [.sequence [.literal "now" false],
         .sequence
          [.sequence [.literal "later" true, .optional none (.sequence [.tail "why"])]]]]
  let choice : Pattern :=
    .sequence
      [.variant none false
        [.sequence [.literal "stay" false],
         .sequence [.literal "go" false, .literal "home" false]]]
  have compiledGroups
      : Compiler.compile ⟨.no, false⟩ "go [to|<place: int>]:how (now^|(later [<why...>])):when"
        = .ok groups := by
    with_unfolding_all rfl
  have compiledChoice : Compiler.compile ⟨.no, true⟩ "stay|go home" = .ok choice := by
    with_unfolding_all rfl
  exact ⟨groups, choice, compiledGroups, asWritten_of_compile _ _ _ compiledGroups,
    compiledChoice, asWritten_of_compile _ _ _ compiledChoice⟩

end Definition

end CallGrammar

import CallGrammar.Proofs.Definition.DeclaredNames
import CallGrammar.Proofs.Pattern.Places
import Mathlib.Data.List.Forall2

/-! The order of names. A visit of a compiled pattern meets the items of its definition in the order
in which they start, so its names are ordered by the starts of the items that carry them: the
identifier of a group comes before the names inside the group, although it is written behind them.
-/

namespace CallGrammar.Definition

------------------------------------------------------------
-- Items that carry names

/-- The name that an item carries: that of an argument or the rest of a call, or the last identifier
behind a group.
-/
def Item.name? : Item → Option String
  | .word .. | .grouped _ => none
  | .parameter name | .typed name _ | .tail name => some name
  | .bracketed _ identifiers | .choice _ _ identifiers => identifiers.getLast?

/-- An item that carries a name starts at a position among lexemes and ends where it is not
extended.
-/
def CarriedFrom (lexemes : List Lexeme) (position : Nat) (name : String) : Prop :=
  ∃ (item : Item) (before after : List Lexeme),
    lexemes = before ++ item.lexemes ++ after
    ∧ before.length = position
    ∧ Ends Lexeme.extendsItem after
    ∧ item.name? = some name

/-- Names in the order in which items that carry them start in a stretch of lexemes. -/
def NamedInOrder (before stretch after : List Lexeme) (names : List String) : Prop :=
  ∃ positions : List Nat,
    positions.Pairwise (· < ·)
    ∧ (∀ position ∈ positions,
        before.length ≤ position ∧ position < (before ++ stretch).length)
    ∧ List.Forall₂ (CarriedFrom (before ++ stretch ++ after)) positions names

theorem NamedInOrder.nil (before stretch after : List Lexeme)
    : NamedInOrder before stretch after [] :=
  ⟨[], .nil, by simp, .nil⟩

/-- The names of a stretch come before those of the next one. -/
theorem NamedInOrder.append {before first second after : List Lexeme} {names others : List String}
    (left : NamedInOrder before first (second ++ after) names)
    (right : NamedInOrder (before ++ first) second after others)
    : NamedInOrder before (first ++ second) after (names ++ others) := by
  obtain ⟨positions, sorted, within, carried⟩ := left
  obtain ⟨positions', sorted', within', carried'⟩ := right
  refine ⟨positions ++ positions', ?_, ?_, ?_⟩
  · refine List.pairwise_append.mpr ⟨sorted, sorted', fun position earlier position' later => ?_⟩
    exact Nat.lt_of_lt_of_le (within position earlier).2 (within' position' later).1
  · simp only [List.length_append] at within within' ⊢
    intro position member
    rcases List.mem_append.mp member with earlier | later
    · have bounds := within position earlier
      omega
    · have bounds := within' position later
      omega
  · simp only [List.append_assoc] at carried carried' ⊢
    exact List.rel_append carried carried'

/-- So do those of two stretches with a bar between them. -/
theorem NamedInOrder.barred {before first second after : List Lexeme} {names others : List String}
    (left : NamedInOrder before first (.bar :: (second ++ after)) names)
    (right : NamedInOrder (before ++ first ++ [.bar]) second after others)
    : NamedInOrder before (first ++ .bar :: second) after (names ++ others) := by
  have bar : NamedInOrder (before ++ first) [.bar] (second ++ after) [] := .nil _ _ _
  exact left.append (bar.append right)

/-- An item carries its name from its first lexeme on, before the names inside the item. -/
theorem Item.named_around {item : Item} {lexeme : Lexeme} {inner rest : List Lexeme}
    (starts : item.lexemes = lexeme :: (inner ++ rest)) (before : List Lexeme)
    {after : List Lexeme} (ends : Ends Lexeme.extendsItem after) {names : List String}
    (inside : NamedInOrder (before ++ [lexeme]) inner (rest ++ after) names)
    : NamedInOrder before item.lexemes after (item.name?.toList ++ names) := by
  have own : NamedInOrder before [lexeme] (inner ++ rest ++ after) item.name?.toList := by
    cases carries : item.name? with
    | none => exact .nil _ _ _
    | some name =>
        refine ⟨[before.length], List.pairwise_singleton _ _, by simp, .cons ?_ .nil⟩
        exact ⟨item, before, after, by simp [starts], rfl, ends, carries⟩
  have behind : NamedInOrder (before ++ [lexeme] ++ inner) rest after [] := .nil _ _ _
  have all := own.append (inside.append behind)
  rw [List.append_nil] at all
  exact starts ▸ all

/-- Brackets bind their last identifier and then what is inside, by cases on the alternatives. -/
theorem bindingNames_bracketed (ignoreCase : Bool) (contents : Alternatives)
    (identifiers : List String)
    : ((Item.bracketed contents identifiers).pattern ignoreCase).bindingNames
      = identifiers.getLast?.toList
        ++ (contents.patterns ignoreCase).flatMap (·.flatMap Pattern.bindingNames) := by
  cases contents <;> simp [Item.pattern, Alternatives.patterns, List.flatMap_map]

theorem bindingNames_choice (ignoreCase : Bool) (first : Items) (others : Alternatives)
    (identifiers : List String)
    : ((Item.choice first others identifiers).pattern ignoreCase).bindingNames
      = identifiers.getLast?.toList
        ++ ((first.patterns ignoreCase).flatMap Pattern.bindingNames
          ++ (others.patterns ignoreCase).flatMap (·.flatMap Pattern.bindingNames)) := by
  simp [Item.pattern, List.flatMap_map]

theorem ends_bar (rest : List Lexeme) : Ends Lexeme.extendsItem (.bar :: rest) :=
  ends_cons.mpr rfl

theorem ends_closing (bracket : Bracket) (rest : List Lexeme)
    : Ends Lexeme.extendsItem (bracket.closing :: rest) := by
  cases bracket <;> exact ends_cons.mpr rfl

mutual

/-- The names of an item are ordered by the items that carry them, by recursion on the derivation.
-/
theorem Item.namedInOrder (ignoreCase : Bool) (item : Item) (before : List Lexeme)
    {after : List Lexeme} (ends : Ends Lexeme.extendsItem after)
    : NamedInOrder before item.lexemes after (item.pattern ignoreCase).bindingNames := by
  match item with
  | .word text carets =>
      rw [Item.pattern, Pattern.bindingNames_literal]
      exact .nil _ _ _
  | .parameter name =>
      rw [Item.pattern, Pattern.bindingNames_parameter]
      exact (Item.parameter name).named_around rfl before ends (.nil _ [] _)
  | .typed name typeName =>
      rw [Item.pattern, Pattern.bindingNames_parameter]
      exact (Item.typed name typeName).named_around rfl before ends (.nil _ [] _)
  | .tail name =>
      rw [Item.pattern, Pattern.bindingNames_tail]
      exact (Item.tail name).named_around rfl before ends (.nil _ [] _)
  | .bracketed contents identifiers =>
      rw [bindingNames_bracketed]
      refine (Item.bracketed contents identifiers).named_around rfl before ends ?_
      exact contents.namedInOrder ignoreCase _ (ends_closing .square _)
  | .grouped contents =>
      rw [Item.pattern, Pattern.bindingNames_sequence]
      refine (Item.grouped contents).named_around rfl before ends ?_
      exact contents.namedInOrder ignoreCase _ (ends_closing .round _)
  | .choice first others identifiers =>
      have starts : (Item.choice first others identifiers).lexemes
          = .openRound :: ((first.lexemes ++ .bar :: others.lexemes)
            ++ .closeRound :: suffixLexemes identifiers) := by
        simp [Item.lexemes]
      rw [bindingNames_choice]
      refine Item.named_around starts before ends (NamedInOrder.barred ?_ ?_)
      · exact first.namedInOrder ignoreCase _ (ends_bar _)
      · exact others.namedInOrder ignoreCase _ (ends_closing .round _)

theorem Items.namedInOrder (ignoreCase : Bool) (items : Items) (before : List Lexeme)
    {after : List Lexeme} (ends : Ends Lexeme.extendsItem after)
    : NamedInOrder before items.lexemes after
        ((items.patterns ignoreCase).flatMap Pattern.bindingNames) := by
  match items with
  | .last item =>
      have own := item.namedInOrder ignoreCase before ends
      simpa [Items.patterns, Items.lexemes] using own
  | .cons item rest =>
      have own := item.namedInOrder ignoreCase before (rest.ends_lexemes_append after)
      have others := rest.namedInOrder ignoreCase (before ++ item.lexemes) ends
      rw [Items.patterns, Items.lexemes, List.flatMap_cons]
      exact own.append others

theorem Alternatives.namedInOrder (ignoreCase : Bool) (contents : Alternatives)
    (before : List Lexeme) {after : List Lexeme} (ends : Ends Lexeme.extendsItem after)
    : NamedInOrder before contents.lexemes after
        ((contents.patterns ignoreCase).flatMap (·.flatMap Pattern.bindingNames)) := by
  match contents with
  | .last items =>
      have own := items.namedInOrder ignoreCase before ends
      simpa [Alternatives.patterns, Alternatives.lexemes] using own
  | .cons items rest =>
      rw [Alternatives.patterns, Alternatives.lexemes, List.flatMap_cons]
      refine NamedInOrder.barred ?_ ?_
      · exact items.namedInOrder ignoreCase before (ends_bar _)
      · exact rest.namedInOrder ignoreCase _ ends

end

/-- The names of a whole definition are ordered by the items that carry them. -/
theorem Derivation.namedInOrder (ignoreCase : Bool) (derivation : Derivation)
    : NamedInOrder [] derivation.lexemes [] (derivation.pattern ignoreCase).bindingNames := by
  match derivation with
  | .empty =>
      rw [Derivation.pattern, Pattern.bindingNames_sequence]
      exact .nil _ _ _
  | .ofAlternatives (.last items) =>
      rw [Derivation.pattern, Pattern.bindingNames_sequence]
      exact items.namedInOrder ignoreCase [] (.nil _)
  | .ofAlternatives (.cons items rest) =>
      have all := (Alternatives.cons items rest).namedInOrder ignoreCase [] (.nil _)
      simpa [Derivation.pattern, Derivation.lexemes, Alternatives.patterns, List.flatMap_map]
        using all

------------------------------------------------------------
-- Traversal

/-- A visit is the recursive pre-order. An iterator with a stack, which puts the parts of a pattern
on it in reverse, ends for every pattern and gives out exactly the pattern and then the visits of
its parts from left to right. So the visit goes along the paths to all parts in lexicographic order,
each once. The names of a pattern are those of its parts in this order, as many as there are
parameters, tails and named groups. For a compiled pattern this is the order in which the items that
carry the names start in the definition.
-/
theorem traversal_is_preorder
    : (∀ p : Pattern,
        (∀ given, Pattern.Yields [p] given ↔ given = p.traverse)
        ∧ p.traverse = p :: p.children.flatMap Pattern.traverse
        ∧ (∃ paths,
            p.Visited paths
            ∧ p.bindingNames = paths.filterMap fun path => (p.part? path).bind Pattern.boundName?)
        ∧ p.bindingNames.length
            = p.traverse.countP (·.kind = .parameter)
              + p.traverse.countP (·.kind = .tail)
              + p.traverse.countP Pattern.isNamedGroup)
      ∧ ∀ (compiler : Compiler) (definition : String) (p : Pattern),
          compiler.compile definition = .ok p
          → ∃ positions : List Nat,
              positions.Pairwise (· < ·)
              ∧ List.Forall₂ (CarriedFrom ((lexemes definition).map Placed.lexeme)) positions
                  p.bindingNames := by
  constructor
  · intro p
    obtain ⟨paths, visited⟩ := p.exists_visited
    refine ⟨fun given => Pattern.yields_iff_traverse, p.traverse_eq, ?_, p.length_bindingNames⟩
    exact ⟨paths, visited, visited.bindingNames_eq⟩
  · intro compiler definition p compiled
    obtain ⟨root, parsed, rfl⟩ := compile_eq_ok_iff.mp compiled
    obtain ⟨derivation, derives, -, rfl⟩ := parse_eq_ok_iff.mp parsed
    obtain ⟨positions, sorted, -, carried⟩ := derivation.namedInOrder compiler.ignoreCase
    rw [List.nil_append, List.append_nil, derives] at carried
    refine ⟨positions, sorted, ?_⟩
    rw [bindingNames_simplified]
    exact carried

/-- A named group around an argument, and the rest of a call. -/
theorem traversal_is_preorder_named_group
    : ∃ p,
        Compiler.standard.compile "[<x>]:y <z...>" = .ok p
        ∧ p.bindingNames = ["y", "x", "z"]
        ∧ ∃ positions : List Nat,
            positions.Pairwise (· < ·)
            ∧ List.Forall₂ (CarriedFrom ((lexemes "[<x>]:y <z...>").map Placed.lexeme)) positions
                ["y", "x", "z"] := by
  let p : Pattern :=
    .sequence [.optional (some "y") (.sequence [.parameter "x" none]), .tail "z"]
  have compiled : Compiler.standard.compile "[<x>]:y <z...>" = .ok p := by
    with_unfolding_all rfl
  have names : p.bindingNames = ["y", "x", "z"] := by simp [p]
  have ordered := traversal_is_preorder.2 Compiler.standard _ _ compiled
  rw [names] at ordered
  exact ⟨p, compiled, names, ordered⟩

/-- Names are not always in the order in which the definition writes and declares them: the
identifier of a group comes before the names inside, and is written and declared behind them.
-/
theorem names_not_in_written_order
    : ∃ (p : Pattern) (last : Draft),
        Compiler.standard.compile "[<x>]:y" = .ok p
        ∧ p.bindingNames = ["y", "x"]
        ∧ ¬ p.bindingNames.Sublist ((lexemes "[<x>]:y").map (·.lexeme.spelling))
        ∧ Draft.Reaches Compiler.standard.ignoreCase .start (lexemes "[<x>]:y") last
        ∧ last.declared.reverse = ["x", "y"] := by
  let group : Pattern := .optional (some "y") (.sequence [.parameter "x" none])
  let last : Draft := ⟨⟨[], [group]⟩, [], .item, ["y", "x"]⟩
  have names : group.bindingNames = ["y", "x"] := by simp [group]
  have written : (lexemes "[<x>]:y").map (·.lexeme.spelling)
      = ["[", "<", "x", ">", "]", ":", "y"] := rfl
  have run : Draft.Reaches Compiler.standard.ignoreCase .start (lexemes "[<x>]:y") last := by
    with_unfolding_all rfl
  refine ⟨group, last, rfl, names, ?_, run, rfl⟩
  rw [names, written]
  decide

end CallGrammar.Definition

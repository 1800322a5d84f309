import CallGrammar.Proofs.Definition.DistinctNames

/-! What becomes of declared names. A group takes any number of identifiers behind it and keeps the
last one, so the others are declared and never bound. All other names that a definition declares are
bound in its pattern.
-/

namespace CallGrammar.Definition

------------------------------------------------------------
-- Identifiers that another one replaces

mutual

/-- The identifiers in an item behind which another one follows. -/
def Item.replaced : Item → List String
  | .word .. | .parameter _ | .typed .. | .tail _ => []
  | .bracketed contents identifiers => contents.replaced ++ identifiers.dropLast
  | .grouped contents => contents.replaced
  | .choice first others identifiers =>
      first.replaced ++ others.replaced ++ identifiers.dropLast

def Items.replaced : Items → List String
  | .last item => item.replaced
  | .cons item rest => item.replaced ++ rest.replaced

def Alternatives.replaced : Alternatives → List String
  | .last items => items.replaced
  | .cons items rest => items.replaced ++ rest.replaced

end

/-- The identifiers of a whole definition behind which another one follows. -/
def Derivation.replaced : Derivation → List String
  | .empty => []
  | .ofAlternatives contents => contents.replaced

/-- Of the identifiers behind a group all but the last one are replaced. -/
theorem count_dropLast_add_getLast? (identifiers : List String) (name : String)
    : identifiers.dropLast.count name + identifiers.getLast?.toList.count name
      = identifiers.count name := by
  rcases List.eq_nil_or_concat identifiers with rfl | ⟨before, last, rfl⟩
  · rfl
  · simp [List.count_append]

------------------------------------------------------------
-- Declared names are bound or replaced

mutual

/-- Every name of an item is bound by its pattern or replaced, by recursion on the derivation. -/
theorem Item.count_names (ignoreCase : Bool) (name : String) (item : Item)
    : (item.pattern ignoreCase).bindingNames.count name + item.replaced.count name
      = item.names.count name := by
  match item with
  | .word text carets => simp [Item.pattern, Item.replaced, Item.names]
  | .parameter own => simp [Item.pattern, Item.replaced, Item.names]
  | .typed own typeName => simp [Item.pattern, Item.replaced, Item.names]
  | .tail own => simp [Item.pattern, Item.replaced, Item.names]
  | .bracketed (.last items) identifiers =>
      have hi := items.count_names ignoreCase name
      have hid := count_dropLast_add_getLast? identifiers name
      simp only [Item.pattern, Item.replaced, Alternatives.replaced, Item.names,
        Alternatives.names, Pattern.bindingNames_optional, Pattern.bindingNames_sequence,
        List.count_append]
      omega
  | .bracketed (.cons items rest) identifiers =>
      have hi := items.count_names ignoreCase name
      have hr := rest.count_names ignoreCase name
      have hid := count_dropLast_add_getLast? identifiers name
      simp only [Item.pattern, Item.replaced, Alternatives.replaced, Item.names,
        Alternatives.names, Pattern.bindingNames_optional, Pattern.bindingNames_variant,
        Option.toList_none, List.nil_append, List.map_cons, List.flatMap_cons,
        List.flatMap_map, Pattern.bindingNames_sequence, List.count_append]
      omega
  | .grouped contents =>
      have hc := contents.count_names ignoreCase name
      simpa only [Item.pattern, Item.replaced, Item.names, Pattern.bindingNames_sequence] using hc
  | .choice first others identifiers =>
      have hf := first.count_names ignoreCase name
      have ho := others.count_names ignoreCase name
      have hid := count_dropLast_add_getLast? identifiers name
      simp only [Item.pattern, Item.replaced, Item.names, Pattern.bindingNames_variant,
        List.map_cons, List.flatMap_cons, List.flatMap_map, Pattern.bindingNames_sequence,
        List.count_append]
      omega

theorem Items.count_names (ignoreCase : Bool) (name : String) (items : Items)
    : ((items.patterns ignoreCase).flatMap Pattern.bindingNames).count name
        + items.replaced.count name
      = items.names.count name := by
  match items with
  | .last item =>
      have hi := item.count_names ignoreCase name
      simpa [Items.patterns, Items.replaced, Items.names] using hi
  | .cons item rest =>
      have hi := item.count_names ignoreCase name
      have hr := rest.count_names ignoreCase name
      simp only [Items.patterns, Items.replaced, Items.names, List.flatMap_cons,
        List.count_append]
      omega

theorem Alternatives.count_names (ignoreCase : Bool) (name : String) (contents : Alternatives)
    : ((contents.patterns ignoreCase).flatMap (·.flatMap Pattern.bindingNames)).count name
        + contents.replaced.count name
      = contents.names.count name := by
  match contents with
  | .last items =>
      have hi := items.count_names ignoreCase name
      simpa [Alternatives.patterns, Alternatives.replaced, Alternatives.names] using hi
  | .cons items rest =>
      have hi := items.count_names ignoreCase name
      have hr := rest.count_names ignoreCase name
      simp only [Alternatives.patterns, Alternatives.replaced, Alternatives.names,
        List.flatMap_cons, List.count_append]
      omega

end

/-- The names that a definition declares are those that its pattern binds and those replaced. -/
theorem Derivation.names_perm (ignoreCase : Bool) (derivation : Derivation)
    : derivation.names.Perm
        ((derivation.pattern ignoreCase).bindingNames ++ derivation.replaced) := by
  refine List.perm_iff_count.mpr fun name => ?_
  rw [List.count_append]
  match derivation with
  | .empty => simp [Derivation.pattern, Derivation.replaced, Derivation.names]
  | .ofAlternatives (.last items) =>
      have hi := items.count_names ignoreCase name
      simpa [Derivation.pattern, Derivation.replaced, Derivation.names, Alternatives.replaced,
        Alternatives.names] using hi.symm
  | .ofAlternatives (.cons items rest) =>
      have hc := (Alternatives.cons items rest).count_names ignoreCase name
      simpa [Derivation.pattern, Derivation.replaced, Derivation.names, Alternatives.patterns,
        List.flatMap_map] using hc.symm

/-- Where declared names are distinct, a name is bound exactly if it is declared and not replaced. -/
theorem Derivation.mem_bindingNames_iff {derivation : Derivation}
    (distinct : derivation.names.Nodup) (ignoreCase : Bool) (name : String)
    : name ∈ (derivation.pattern ignoreCase).bindingNames
      ↔ name ∈ derivation.names ∧ name ∉ derivation.replaced := by
  have names := derivation.names_perm ignoreCase
  have apart := (List.nodup_append.mp (names.nodup_iff.mp distinct)).2.2
  rw [names.mem_iff, List.mem_append]
  constructor
  · intro bound
    exact ⟨.inl bound, fun replaced => apart name bound name replaced rfl⟩
  · rintro ⟨bound | replaced, kept⟩
    · exact bound
    · exact absurd replaced kept

------------------------------------------------------------
-- Compiling

/-- A compiled pattern binds exactly the names that its definition declares, but for the identifiers
of groups behind which another identifier follows: the names that the draft at the end of the
definition holds as declared are those of the derivation, and a name is bound if and only if it is
among them and is not replaced.
-/
theorem bound_iff_declared_of_compile (compiler : Compiler) (definition : String) (p : Pattern)
    (h : compiler.compile definition = .ok p)
    : ∃ (derivation : Derivation) (last : Draft),
        derivation.lexemes = (lexemes definition).map Placed.lexeme
        ∧ Draft.Reaches compiler.ignoreCase .start (lexemes definition) last
        ∧ last.declared = derivation.names.reverse
        ∧ ∀ name,
            name ∈ p.bindingNames ↔ name ∈ last.declared ∧ name ∉ derivation.replaced := by
  obtain ⟨root, hp, rfl⟩ := compile_eq_ok_iff.mp h
  obtain ⟨last, run, finished⟩ := parse_eq_ok_iff_reaches.mp hp
  obtain ⟨derivation, hl, distinct, declared, rfl⟩ := exists_derivation_of_finish run finished
  refine ⟨derivation, last, hl, run, declared, fun name => ?_⟩
  rw [bindingNames_simplified, derivation.mem_bindingNames_iff distinct, declared,
    List.mem_reverse]

/-- A choice with three identifiers around a group with two, and a tail: of the seven names four are
bound.
-/
theorem bound_iff_declared_of_compile_renamed
    : ∃ p,
        Compiler.compile ⟨.yes, false⟩ "(<a>|[b]:c:d):e:f:g <t...>" = .ok p
        ∧ p.bindingNames = ["g", "a", "d", "t"]
        ∧ ∃ (derivation : Derivation) (last : Draft),
            derivation.lexemes = (lexemes "(<a>|[b]:c:d):e:f:g <t...>").map Placed.lexeme
            ∧ derivation.replaced = ["c", "e", "f"]
            ∧ Draft.Reaches false .start (lexemes "(<a>|[b]:c:d):e:f:g <t...>") last
            ∧ last.declared = ["t", "g", "f", "e", "d", "c", "a"]
            ∧ ∀ name,
                name ∈ p.bindingNames ↔ name ∈ last.declared ∧ name ∉ derivation.replaced := by
  let p : Pattern :=
    .sequence
      [.variant (some "g") true [.parameter "a" none, .optional (some "d") (.literal "b" true)],
       .tail "t"]
  have compiled : Compiler.compile ⟨.yes, false⟩ "(<a>|[b]:c:d):e:f:g <t...>" = .ok p := by
    with_unfolding_all rfl
  let derived : Derivation :=
    .ofAlternatives (.last (.cons
      (.choice (.last (.parameter "a"))
        (.last (.last (.bracketed (.last (.last (.word "b" 0))) ["c", "d"]))) ["e", "f", "g"])
      (.last (.tail "t"))))
  obtain ⟨derivation, last, hl, run, declared, bound⟩ :=
    bound_iff_declared_of_compile ⟨.yes, false⟩ _ _ compiled
  have hd : derived.lexemes = (lexemes "(<a>|[b]:c:d):e:f:g <t...>").map Placed.lexeme := rfl
  obtain rfl : derivation = derived := Derivation.lexemes_injective (hl.trans hd.symm)
  exact ⟨p, compiled, by with_unfolding_all rfl, _, last, hl, rfl, run, declared, bound⟩

/-- Not every declared name is bound: behind a group with two identifiers the first one is declared
and then lost.
-/
theorem declared_and_not_bound
    : ∃ (p : Pattern) (last : Draft),
        Compiler.standard.compile "[a]:x:y" = .ok p
        ∧ Draft.Reaches Compiler.standard.ignoreCase .start (lexemes "[a]:x:y") last
        ∧ "x" ∈ last.declared
        ∧ "x" ∉ p.bindingNames := by
  let group : Pattern := .optional (some "y") (.sequence [.literal "a" true])
  let last : Draft := ⟨⟨[], [group]⟩, [], .item, ["y", "x"]⟩
  have run : Draft.Reaches Compiler.standard.ignoreCase .start (lexemes "[a]:x:y") last := by
    with_unfolding_all rfl
  exact ⟨group, last, rfl, run, by decide, by simp [group]⟩

end CallGrammar.Definition

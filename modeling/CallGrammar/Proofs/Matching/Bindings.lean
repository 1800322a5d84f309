import CallGrammar.Proofs.Definition.Shape
import CallGrammar.Proofs.Matching.Soundness
import Mathlib.Algebra.Group.Nat.Defs
import Mathlib.Data.List.Perm.Basic

/-! What a match of a compiled definition binds. The names of a compiled pattern are different, so
no binding replaces another one: the outcome binds exactly what its resolution decides about, and
nothing from what the resolution left out.
-/

namespace CallGrammar

variable {σ : Type} [Scale σ]

------------------------------------------------------------
-- Names of a resolution

namespace Resolution

/-- The names that a resolution binds, in pre-order. -/
def names (r : Resolution) : List String :=
  r.entries.map Prod.fst

/-- A leaf binds the names of its pattern. -/
theorem names_leaf (taken : Leaf) : (leaf taken).names = taken.pattern.bindingNames := by
  cases taken with
  | literal text caseSensitive token => simp [Leaf.pattern]; rfl
  | parameter name typeName token value => simp [Leaf.pattern]; rfl
  | tail name tokens text => simp [Leaf.pattern]; rfl

theorem names_absent (identifier : Option String)
    : (absent identifier).names = identifier.toList := by
  cases identifier <;> rfl

theorem names_present (identifier : Option String) (inner : Resolution)
    : (present identifier inner).names = identifier.toList ++ inner.names := by
  cases identifier <;> rfl

theorem names_chosen (identifier : Option String) (index : Nat) (alternative : Resolution)
    : (chosen identifier index alternative).names = identifier.toList ++ alternative.names := by
  cases identifier <;> rfl

theorem decisionsAll_eq_flatMap (parts : List Resolution)
    : decisionsAll parts = parts.flatMap decisions := by
  induction parts with
  | nil => rfl
  | cons r rest ih => rw [decisionsAll, ih, List.flatMap_cons]

theorem names_sequence (parts : List Resolution)
    : (sequence parts).names = parts.flatMap names := by
  rw [names, entries, decisions, decisionsAll_eq_flatMap, List.filterMap_flatMap,
    List.map_flatMap]
  rfl

end Resolution

------------------------------------------------------------
-- Resolutions have the shape of their patterns

section Induction

variable {motive : Pattern → Resolution → Prop}
  (leaf : ∀ taken, motive taken.pattern (.leaf taken))
  (absent : ∀ identifier inner, motive (.optional identifier inner) (.absent identifier))
  (present : ∀ identifier inner r, motive inner r
    → motive (.optional identifier inner) (.present identifier r))
  (chosen : ∀ identifier parenthesized alternatives index alternative r,
    alternatives[index]? = some alternative → motive alternative r
    → motive (.variant identifier parenthesized alternatives) (.chosen identifier index r))
  (sequence : ∀ children parts, List.Forall₂ motive children parts
    → motive (.sequence children) (.sequence parts))
  {m : Matcher} {raw : String}

include leaf absent present chosen sequence

set_option linter.unusedSectionVars false in
mutual

/-- Induction over resolutions without regard to tokens: a property holds of a pattern and its
resolution if it does so as soon as it holds of the parts that were resolved.
-/
theorem Resolves.induction {depth : Nat} {p : Pattern} {tokens rest : List Token}
    {r : Resolution} (h : Resolves σ m raw depth p tokens r rest)
    : motive p r := by
  cases h with
  | leaf accepted whole => exact leaf _
  | absent unfit => exact absent _ _
  | present fits resolved => exact present _ _ _ resolved.induction
  | chosen found fits resolved best => exact chosen _ _ _ _ _ _ found resolved.induction
  | sequence resolved => exact sequence _ _ resolved.induction

theorem ResolvesAll.induction {depth : Nat} {ps : List Pattern} {tokens rest : List Token}
    {parts : List Resolution} (h : ResolvesAll σ m raw depth ps tokens parts rest)
    : List.Forall₂ motive ps parts := by
  cases h with
  | nil => exact .nil
  | cons first others => exact .cons first.induction others.induction

end

end Induction

/-- A decision is about a pattern: a leaf about the pattern it belongs to, and the decision about a
group about one with the same identifier. An alternative is chosen among those that there are.
-/
inductive Decision.About : Decision → Pattern → Prop
  | leaf {taken} : About (.leaf taken) taken.pattern
  | optional {identifier present inner}
    : About (.optional identifier present) (.optional identifier inner)
  | variant {identifier index parenthesized alternatives} (inside : index < alternatives.length)
    : About (.variant identifier index) (.variant identifier parenthesized alternatives)

/-- Parts of a sequence pass a property of their decisions on to it, by induction on the parts. -/
theorem forall_mem_decisionsAll {children : List Pattern} {parts : List Resolution}
    {motive : Pattern → Decision → Prop}
    (h : List.Forall₂ (fun p r => ∀ decision ∈ r.decisions, motive p decision) children parts)
    : ∀ decision ∈ Resolution.decisionsAll parts, ∃ child ∈ children, motive child decision := by
  induction h with
  | nil => nofun
  | @cons child r children parts first others ih =>
      intro decision hd
      rcases List.mem_append.mp hd with hd | hd
      · exact ⟨child, List.mem_cons_self, first decision hd⟩
      · obtain ⟨other, ho, hm⟩ := ih decision hd
        exact ⟨other, List.mem_cons_of_mem child ho, hm⟩

/-- Every decision of a resolution is about a part of the pattern, by induction on the resolution.
-/
theorem Resolves.exists_about {m : Matcher} {raw : String} {depth : Nat} {p : Pattern}
    {tokens rest : List Token} {r : Resolution} (h : Resolves σ m raw depth p tokens r rest)
    : ∀ decision ∈ r.decisions, ∃ q ∈ p.traverse, decision.About q := by
  have below {p child : Pattern} (member : child ∈ p.children) {decision : Decision}
      (h : ∃ q ∈ child.traverse, decision.About q)
      : ∃ q ∈ p.traverse, decision.About q := by
    obtain ⟨q, hq, about⟩ := h
    exact ⟨q, Pattern.mem_traverse_of_child member hq, about⟩
  apply Resolves.induction (motive := fun p r =>
    ∀ decision ∈ r.decisions, ∃ q ∈ p.traverse, decision.About q) (h := h)
  case leaf =>
    intro taken
    exact List.forall_mem_singleton.mpr ⟨_, Pattern.mem_traverse_self _, .leaf⟩
  case absent =>
    intro identifier inner
    exact List.forall_mem_singleton.mpr ⟨_, Pattern.mem_traverse_self _, .optional⟩
  case present =>
    intro identifier inner r ih
    refine List.forall_mem_cons.mpr ⟨⟨_, Pattern.mem_traverse_self _, .optional⟩, ?_⟩
    intro decision hd
    exact below (List.mem_singleton.mpr rfl) (ih decision hd)
  case chosen =>
    intro identifier parenthesized alternatives index alternative r found ih
    have inside := (List.getElem?_eq_some_iff.mp found).1
    refine List.forall_mem_cons.mpr ⟨⟨_, Pattern.mem_traverse_self _, .variant inside⟩, ?_⟩
    intro decision hd
    exact below (List.mem_of_getElem? found) (ih decision hd)
  case sequence =>
    intro children parts ih decision hd
    obtain ⟨child, hc, about⟩ := forall_mem_decisionsAll ih decision hd
    exact below hc about

------------------------------------------------------------
-- What a resolution leaves out

namespace Resolution

mutual

/-- The names that a resolution leaves out of its pattern: those in the contents of absent groups
and in the alternatives that were not chosen.
-/
def omitted : Resolution → Pattern → List String
  | .leaf _, _ => []
  | .absent _, .optional _ inner => inner.bindingNames
  | .present _ r, .optional _ inner => r.omitted inner
  | .chosen _ index r, .variant _ _ alternatives =>
      (match alternatives[index]? with
        | some alternative => r.omitted alternative
        | none => [])
        ++ (alternatives.eraseIdx index).flatMap Pattern.bindingNames
  | .sequence parts, .sequence children => omittedAll parts children
  | _, _ => []

def omittedAll : List Resolution → List Pattern → List String
  | r :: parts, p :: children => r.omitted p ++ omittedAll parts children
  | _, _ => []

end

end Resolution

/-- A pattern has the names that its resolution binds and those that it leaves out, by induction on
the resolution.
-/
theorem Resolves.names_perm {m : Matcher} {raw : String} {depth : Nat} {p : Pattern}
    {tokens rest : List Token} {r : Resolution} (h : Resolves σ m raw depth p tokens r rest)
    : (r.names ++ r.omitted p).Perm p.bindingNames := by
  apply Resolves.induction (motive := fun p r => (r.names ++ r.omitted p).Perm p.bindingNames)
    (h := h)
  case leaf =>
    intro taken
    rw [Resolution.names_leaf, Resolution.omitted, List.append_nil]
  case absent =>
    intro identifier inner
    rw [Resolution.names_absent, Resolution.omitted, Pattern.bindingNames_optional]
  case present =>
    intro identifier inner r ih
    rw [Resolution.names_present, Resolution.omitted, Pattern.bindingNames_optional,
      List.append_assoc]
    exact ih.append_left _
  case chosen =>
    intro identifier parenthesized alternatives index alternative r found ih
    obtain ⟨inside, rfl⟩ := List.getElem?_eq_some_iff.mp found
    rw [Resolution.names_chosen, Resolution.omitted, found, Pattern.bindingNames_variant,
      List.append_assoc, ← List.append_assoc r.names]
    have others := List.getElem_cons_eraseIdx_perm inside
    exact ((ih.append_right _).trans (others.flatMap_right Pattern.bindingNames)).append_left _
  case sequence =>
    intro children parts ih
    rw [Resolution.names_sequence, Resolution.omitted, Pattern.bindingNames_sequence]
    induction ih with
    | nil => exact .refl _
    | @cons child r children parts first others ih =>
        rw [List.flatMap_cons, Resolution.omittedAll, List.flatMap_cons]
        rw [List.perm_iff_count] at first ih ⊢
        intro name
        have hf := first name
        have ho := ih name
        simp only [List.count_append] at hf ho ⊢
        omega

------------------------------------------------------------
-- Outcomes

/-- An index is bound as a number that is no greater, and equal where numbers go that far. -/
theorem exists_indexValue_eq (index : Nat)
    : ∃ number : Int64,
        Tally.indexValue index = .int number
        ∧ 0 ≤ number.toInt
        ∧ number.toInt ≤ index
        ∧ (index < 2 ^ 63 → number.toInt = index) := by
  have hmax : Int64.maxValue.toNatClampNeg = 2 ^ 63 - 1 := rfl
  have hnumber := Int64.toInt_ofNat_of_lt
    (n := min index Int64.maxValue.toNatClampNeg) (by omega)
  exact ⟨_, rfl, by omega, by omega, by omega⟩

/-- The bindings of an outcome are exactly what a resolution of the pattern decides. -/
structure Outcome.Tells (outcome : Outcome σ) (p : Pattern) (r : Resolution) : Prop where
  /-- Every name of the resolution is written once, with its own value, and there are no others. -/
  once : r.names.Nodup
  entries_perm : outcome.bindings.entries.Perm r.entries
  /-- The pattern has these names and those that were left out. -/
  names_perm : (outcome.bindings.names ++ r.omitted p).Perm p.bindingNames
  omitted : ∀ name ∈ r.omitted p, outcome.get? name = none
  optional
    : ∀ name present, .optional (some name) present ∈ r.decisions
      → outcome.get? name = some (.bool present)
  variant
    : ∀ name (index : Nat), .variant (some name) index ∈ r.decisions
      → ∃ parenthesized alternatives, ∃ number : Int64,
          .variant (some name) parenthesized alternatives ∈ p.traverse
          ∧ index < alternatives.length
          ∧ outcome.get? name = some (.int number)
          ∧ 0 ≤ number.toInt
          ∧ number.toInt < alternatives.length
          ∧ (index < 2 ^ 63 → number.toInt = index)

/-- Where a pattern has different names, binding the entries of a resolution in turn tells exactly
the resolution.
-/
theorem Resolves.tells {m : Matcher} {raw : String} {depth : Nat} {p : Pattern}
    {tokens rest : List Token} {r : Resolution} (h : Resolves σ m raw depth p tokens r rest)
    (distinct : p.bindingNames.Nodup) {outcome : Outcome σ}
    (bound : outcome.bindings = .ofList r.entries)
    : outcome.Tells p r := by
  have apart : (r.names ++ r.omitted p).Nodup := h.names_perm.nodup_iff.mpr distinct
  have once : r.names.Nodup := (List.nodup_append.mp apart).1
  have entries : outcome.bindings.entries.Perm r.entries := by
    rw [bound]
    exact NameMap.entries_ofList_perm once
  have names : outcome.bindings.names.Perm r.names := entries.map Prod.fst
  have get (decision : Decision) (hd : decision ∈ r.decisions) {name : String} {value : Value}
      (he : decision.entry? = some (name, value))
      : outcome.get? name = some value := by
    apply NameMap.get?_eq_some_iff.mpr
    exact entries.mem_iff.mpr (List.mem_filterMap.mpr ⟨decision, hd, he⟩)
  refine ⟨once, entries, (names.append_right _).trans h.names_perm, ?_, ?_, ?_⟩
  · intro name hn
    cases hg : outcome.get? name with
    | none => rfl
    | some value =>
        have member : name ∈ outcome.bindings.names :=
          List.mem_map_of_mem (NameMap.get?_eq_some_iff.mp hg)
        exact absurd rfl ((List.nodup_append.mp apart).2.2 name (names.mem_iff.mp member) name hn)
  · intro name present hd
    exact get _ hd rfl
  · intro name index hd
    obtain ⟨q, hq, about⟩ := h.exists_about _ hd
    cases about with
    | @variant _ _ parenthesized alternatives inside =>
        obtain ⟨number, hv, hlow, hle, heq⟩ := exists_indexValue_eq index
        refine ⟨parenthesized, alternatives, number, hq, inside, ?_, hlow, by omega, heq⟩
        exact get _ hd (congrArg (fun value => some (name, value)) hv)

/-- Bindings of compiled definitions neither collide nor leak. A call that matches a compiled
pattern has a greedy resolution of it, whose decisions about groups without identifier the outcome
lists, and the bindings are exactly what the resolution decides: every parameter, tail and named
group on it is bound once, and nothing else is.
-/
theorem matchCall_tells {compiler : Definition.Compiler} {definition : String} {p : Pattern}
    (compiled : compiler.compile definition = .ok p) {m : Matcher} {raw : String}
    {outcome : Outcome σ} (matched : m.matchCall p raw = .ok outcome)
    : ∃ tokens r,
        m.tokenize raw = .ok tokens
        ∧ Resolves σ m raw 0 p tokens r []
        ∧ outcome.optionals = r.optionals
        ∧ outcome.variants = r.variants
        ∧ outcome.Tells p r := by
  obtain ⟨tokens, tally, ht, hr, rfl⟩ := Matcher.matchCall_eq_ok matched
  obtain ⟨r, resolved, progress, -⟩ := accountable m p hr
  have distinct : p.bindingNames.Nodup := (Definition.rooted_of_compile compiled).2
  have notes := progress.notes
  exact ⟨tokens, r, ht, resolved, notes.optionals_eq, notes.variants_eq,
    resolved.tells distinct notes.bindings_eq⟩

/-- A named group that is present, a named choice, and names left out by the other alternative and
by an absent group.
-/
theorem matchCall_tells_go_to_rome
    : ∃ (p : Pattern) (outcome : Outcome Rat),
        Definition.Compiler.standard.compile
            "go [to <place>]:far (<days: int>|home <when>):aim [<rest...>]"
          = .ok p
        ∧ Matcher.standard.matchCall p "go to Rome 3" = .ok outcome
        ∧ outcome.bindings.names = ["aim", "days", "far", "place"]
        ∧ p.bindingNames = ["far", "place", "aim", "days", "when", "rest"]
        ∧ ∃ tokens r,
            Matcher.standard.tokenize "go to Rome 3" = .ok tokens
            ∧ Resolves Rat Matcher.standard "go to Rome 3" 0 p tokens r []
            ∧ r.optionals = [false]
            ∧ r.variants = []
            ∧ outcome.Tells p r := by
  let p : Pattern := .sequence
    [.literal "go" true,
     .optional (some "far") (.sequence [.literal "to" true, .parameter "place" none]),
     .variant (some "aim") true
      [.sequence [.parameter "days" (some "int")],
       .sequence [.literal "home" true, .parameter "when" none]],
     .optional none (.sequence [.tail "rest"])]
  let bindings : Bindings := .ofList
    [("far", .bool true), ("place", .str "Rome"), ("aim", .int 0), ("days", .int 3)]
  have compiled
      : Definition.Compiler.standard.compile
          "go [to <place>]:far (<days: int>|home <when>):aim [<rest...>]"
        = .ok p := by
    rfl
  have matched
      : Matcher.standard.matchCall p "go to Rome 3"
        = .ok (⟨bindings, [false], [], 3⟩ : Outcome Rat) := by
    with_unfolding_all rfl
  obtain ⟨tokens, r, ht, hr, ho, hv, tells⟩ := matchCall_tells compiled matched
  refine ⟨p, _, compiled, matched, rfl, ?_, tokens, r, ht, hr, ho.symm, hv.symm, tells⟩
  simp [p]

end CallGrammar

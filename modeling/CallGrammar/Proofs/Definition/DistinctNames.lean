import CallGrammar.Proofs.Definition.Acceptance
import CallGrammar.Proofs.Pattern.Flattening

/-! Compiled patterns bind distinct names. A draft only checks a name against those declared
before it, but whatever it moves between alternatives and groups, it never binds a name more often
than it was declared.
-/

namespace CallGrammar.Definition

/-- The names bound in a body, in the current alternative and in finished ones. -/
def Body.boundNames (body : Body) : List String :=
  (body.items :: body.alternatives).flatMap (·.flatMap Pattern.bindingNames)

/-- The names bound in a draft, in its body and in the bodies around open groups. -/
def Draft.boundNames (draft : Draft) : List String :=
  draft.body.boundNames ++ draft.openings.flatMap (·.around.boundNames)

/-- The invariant of a run: the declared names are distinct, and none is bound more often than it
is declared. It is bound less often where a group was given another identifier.
-/
structure Draft.Distinct (draft : Draft) : Prop where
  declared : draft.declared.Nodup
  bound : ∀ name, draft.boundNames.count name ≤ draft.declared.count name

theorem Draft.Distinct.nodup_boundNames {draft : Draft} (h : draft.Distinct)
    : draft.boundNames.Nodup :=
  List.nodup_iff_count.mpr fun name =>
    Nat.le_trans (h.bound name) (List.nodup_iff_count.mp h.declared name)

------------------------------------------------------------
-- Bodies

namespace Body

@[simp]
theorem boundNames_empty : Body.empty.boundNames = [] :=
  rfl

@[simp]
theorem boundNames_cons (alternatives : List (List Pattern)) (item : Pattern)
    (items : List Pattern)
    : (Body.mk alternatives (item :: items)).boundNames
      = item.bindingNames ++ (Body.mk alternatives items).boundNames :=
  List.append_assoc _ _ _

@[simp]
theorem boundNames_push (body : Body) (item : Pattern)
    : (body.push item).boundNames = item.bindingNames ++ body.boundNames :=
  boundNames_cons _ _ _

/-- Putting the items of an alternative in order, as a bar does, changes no name. -/
theorem boundNames_reverse_perm (alternatives : List (List Pattern)) (items : List Pattern)
    : (Body.mk alternatives items.reverse).boundNames.Perm
        (Body.mk alternatives items).boundNames :=
  ((List.reverse_perm items).flatMap_right _).append_right _

/-- A choice between the alternatives of a body binds what is bound in the body. -/
theorem bindingNames_choice_perm (body : Body) (parenthesized : Bool)
    : (body.choice parenthesized).bindingNames.Perm body.boundNames := by
  have hchoice : (body.choice parenthesized).bindingNames
      = (body.items.reverse :: body.alternatives).reverse.flatMap
          (·.flatMap Pattern.bindingNames) := by
    simp only [choice, Pattern.bindingNames_variant, Option.toList_none, List.nil_append,
      List.flatMap_map, Pattern.bindingNames_sequence]
  rw [hchoice]
  exact ((List.reverse_perm _).flatMap_right _).trans
    (boundNames_reverse_perm body.alternatives body.items)

/-- A sequence of the items of an only alternative does, too. -/
theorem bindingNames_sequence_perm (items : List Pattern)
    : (Pattern.sequence items.reverse).bindingNames.Perm (Body.mk [] items).boundNames := by
  have hitems : (Body.mk [] items).boundNames = items.flatMap Pattern.bindingNames :=
    List.append_nil _
  rw [Pattern.bindingNames_sequence, hitems]
  exact (List.reverse_perm items).flatMap_right _

/-- A group binds what is bound in its body. -/
theorem bindingNames_group_perm (bracket : Bracket) (body : Body)
    : (body.group bracket).bindingNames.Perm body.boundNames := by
  obtain ⟨alternatives, items⟩ := body
  cases alternatives with
  | nil => cases bracket <;> simpa [group] using bindingNames_sequence_perm items
  | cons first rest => cases bracket <;> simpa [group] using bindingNames_choice_perm _ _

/-- So does a whole definition. -/
theorem bindingNames_root_perm (body : Body)
    : body.root.bindingNames.Perm body.boundNames := by
  obtain ⟨alternatives, items⟩ := body
  cases alternatives with
  | nil => exact bindingNames_sequence_perm items
  | cons first rest => simpa [root] using bindingNames_choice_perm _ _

end Body

------------------------------------------------------------
-- Runs

namespace Draft

/-- A group that is given an identifier binds it instead of the one it had. -/
theorem count_bindingNames_identified {name : String} {group named : Pattern}
    (h : identified name group = some named) (other : String)
    : named.bindingNames.count other ≤ (name :: group.bindingNames).count other := by
  unfold identified at h
  split at h
  all_goals cases h
  all_goals
    simp only [Pattern.bindingNames_optional, Pattern.bindingNames_variant, Option.toList_some,
      List.count_append, List.count_cons, List.count_nil]
    omega

namespace Distinct

theorem start : Draft.start.Distinct :=
  ⟨List.nodup_nil, fun _ => Nat.le_refl 0⟩

/-- A step that declares nothing may only move what is bound. -/
theorem of_perm {draft next : Draft} (h : draft.Distinct)
    (declared : next.declared = draft.declared)
    (bound : next.boundNames.Perm draft.boundNames)
    : next.Distinct := by
  refine ⟨declared ▸ h.declared, fun name => ?_⟩
  rw [bound.count_eq, declared]
  exact h.bound name

/-- A step that declares a new name binds at most that. -/
theorem of_fresh {draft next : Draft} (h : draft.Distinct) {name : String}
    (fresh : name ∉ draft.declared) (declared : next.declared = name :: draft.declared)
    (bound : ∀ other, next.boundNames.count other ≤ (name :: draft.boundNames).count other)
    : next.Distinct := by
  refine ⟨declared ▸ List.nodup_cons.mpr ⟨fresh, h.declared⟩, fun other => ?_⟩
  have hbound := bound other
  have hold := h.bound other
  rw [declared]
  rw [List.count_cons] at hbound ⊢
  omega

/-- Every step keeps names distinct, by cases on the step. -/
theorem step {ignoreCase : Bool} {draft next : Draft} {placed : Placed} (h : draft.Distinct)
    (step : Step ignoreCase draft placed next)
    : next.Distinct := by
  cases step with
  | word => exact h.of_perm rfl (by simp [boundNames])
  | caret => exact h.of_perm rfl (by simp [boundNames])
  | @bar alternatives items =>
      exact h.of_perm rfl ((Body.boundNames_reverse_perm alternatives items).append_right _)
  | openGroup bracket => exact h.of_perm rfl (by simp [boundNames])
  | @closeGroup body bracket _ around _ _ _ _ closed =>
      obtain ⟨-, rfl⟩ := Body.close_eq_ok_iff.mp closed
      have hgroup := body.bindingNames_group_perm bracket
      refine h.of_perm rfl ?_
      rw [boundNames, Body.boundNames_push, List.append_assoc]
      exact hgroup.append_right _
  | colon isGroup => exact h.of_perm rfl .rfl
  | identifier fresh naming =>
      refine h.of_fresh fresh rfl fun other => ?_
      have hnamed := count_bindingNames_identified naming other
      simp only [boundNames, Body.boundNames_cons, List.count_append, List.count_cons] at hnamed ⊢
      omega
  | openAngle => exact h.of_perm rfl .rfl
  | parameterName => exact h.of_perm rfl .rfl
  | typeMark => exact h.of_perm rfl .rfl
  | typeName => exact h.of_perm rfl .rfl
  | parameter fresh => exact h.of_fresh fresh rfl (by simp [boundNames])
  | typed fresh => exact h.of_fresh fresh rfl (by simp [boundNames])
  | tail fresh => exact h.of_fresh fresh rfl (by simp [boundNames])
  | tailEnd => exact h.of_perm rfl .rfl

/-- So does a run, by induction on its lexemes. -/
theorem run {ignoreCase : Bool} {draft last : Draft} {placed : List Placed} (h : draft.Distinct)
    (run : Reaches ignoreCase draft placed last)
    : last.Distinct := by
  induction placed generalizing draft with
  | nil =>
      cases run
      exact h
  | cons first rest ih =>
      obtain ⟨next, hs, hr⟩ := reaches_cons_iff.mp run
      exact ih (h.step hs) hr

end Distinct

end Draft

/-- A parsed definition binds distinct names: those bound in the draft that it ends with. -/
theorem nodup_bindingNames_of_parse {ignoreCase : Bool} {definition : String} {root : Pattern}
    (h : parse ignoreCase definition = .ok root)
    : root.bindingNames.Nodup := by
  obtain ⟨last, hr, hf⟩ := parse_eq_ok_iff_reaches.mp h
  obtain ⟨-, ho, -, rfl⟩ := Draft.finish_eq_ok_iff.mp hf
  have distinct := (Draft.Distinct.start.run hr).nodup_boundNames
  have hbound : last.boundNames = last.body.boundNames := by
    rw [Draft.boundNames, ho, List.flatMap_nil, List.append_nil]
  exact (last.body.bindingNames_root_perm.nodup_iff).mpr (hbound ▸ distinct)

------------------------------------------------------------
-- Compiling

/-- No mode changes the names that a pattern binds. -/
theorem bindingNames_simplified (mode : Simplify) (p : Pattern)
    : (Compiler.simplified mode p).bindingNames = p.bindingNames := by
  have hu : (Compiler.unwrapped p).bindingNames = p.bindingNames := by
    unfold Compiler.unwrapped
    split <;> simp
  cases mode with
  | no => rfl
  | warn => exact hu
  | yes | silently => exact (Pattern.bindingNames_flattened _).trans hu

/-- Compiling is parsing and treating nesting. -/
theorem compile_eq_ok_iff {compiler : Compiler} {definition : String} {p : Pattern}
    : compiler.compile definition = .ok p
      ↔ ∃ root,
          parse compiler.ignoreCase definition = .ok root
          ∧ Compiler.simplified compiler.simplify root = p := by
  unfold Compiler.compile
  cases parse compiler.ignoreCase definition <;> simp [Except.map]

/-- Names are distinct in every compiled pattern: among parameters, tails and the identifiers of
groups, in all groups and all alternatives of choices, no name is bound twice.
-/
theorem bindingNames_nodup_of_compile (compiler : Compiler) (definition : String) (p : Pattern)
    (h : compiler.compile definition = .ok p)
    : p.bindingNames.Nodup := by
  obtain ⟨root, hp, rfl⟩ := compile_eq_ok_iff.mp h
  rw [bindingNames_simplified]
  exact nodup_bindingNames_of_parse hp

/-- A typed parameter in a choice in brackets that is given two identifiers, of which the later one
counts, and a tail.
-/
theorem bindingNames_nodup_of_compile_renamed
    : ∃ p,
        Compiler.compile ⟨.silently, true⟩ "[at <x: int>|by]:y:z <w...>" = .ok p
        ∧ p.bindingNames = ["z", "x", "w"]
        ∧ p.bindingNames.Nodup := by
  let p : Pattern :=
    .sequence
      [.optional none
        (.variant (some "z") false
          [.sequence [.literal "at" false, .parameter "x" (some "int")], .literal "by" false]),
       .tail "w"]
  have compiled : Compiler.compile ⟨.silently, true⟩ "[at <x: int>|by]:y:z <w...>" = .ok p := by
    with_unfolding_all rfl
  exact ⟨p, compiled, by with_unfolding_all rfl, bindingNames_nodup_of_compile _ _ _ compiled⟩

end CallGrammar.Definition

import CallGrammar.Pattern.Traversal

/-! Induction over patterns, and the visit of all their parts as a recursion over them. -/

namespace CallGrammar.Pattern

/-- Induction over patterns: a property holds of all of them if each kind of pattern has it as
soon as its parts do.
-/
@[elab_as_elim, induction_eliminator]
theorem induction {motive : Pattern → Prop}
    (literal : ∀ text caseSensitive, motive (.literal text caseSensitive))
    (parameter : ∀ name typeName, motive (.parameter name typeName))
    (tail : ∀ name, motive (.tail name))
    (optional : ∀ identifier inner, motive inner → motive (.optional identifier inner))
    (variant : ∀ identifier parenthesized alternatives,
      (∀ p ∈ alternatives, motive p)
      → motive (.variant identifier parenthesized alternatives))
    (sequence : ∀ children, (∀ p ∈ children, motive p) → motive (.sequence children))
    (p : Pattern)
    : motive p :=
  match p with
  | .literal text caseSensitive => literal text caseSensitive
  | .parameter name typeName => parameter name typeName
  | .tail name => tail name
  | .optional identifier inner =>
      optional identifier inner
        (induction literal parameter tail optional variant sequence inner)
  | .variant identifier parenthesized alternatives =>
      variant identifier parenthesized alternatives
        (fun p _ => induction literal parameter tail optional variant sequence p)
  | .sequence children =>
      sequence children
        (fun p _ => induction literal parameter tail optional variant sequence p)

/-- The same induction without regard to kinds. -/
theorem children_induction {motive : Pattern → Prop}
    (step : ∀ p, (∀ child ∈ p.children, motive child) → motive p) (p : Pattern)
    : motive p := by
  induction p with
  | literal text caseSensitive => exact step _ (by simp [children])
  | parameter name typeName => exact step _ (by simp [children])
  | tail name => exact step _ (by simp [children])
  | optional identifier inner ih => exact step _ (List.forall_mem_singleton.mpr ih)
  | variant identifier parenthesized alternatives ih => exact step _ ih
  | sequence children ih => exact step _ ih

theorem preorderAll_eq_flatMap (ps : List Pattern) : preorderAll ps = ps.flatMap preorder := by
  induction ps with
  | nil => rfl
  | cons p rest ih => rw [preorderAll, ih, List.flatMap_cons]

/-- A pattern comes before its parts, by cases on its kind. -/
theorem preorder_eq (p : Pattern) : p.preorder = p :: p.children.flatMap preorder := by
  cases p <;> simp [preorder, children, preorderAll_eq_flatMap]

/-- The walk along a stack visits the patterns on it one by one, by induction on the walk. -/
theorem walk_eq_flatMap (stack : List Pattern) : walk stack = stack.flatMap preorder := by
  fun_induction walk stack with
  | case1 => rfl
  | case2 p rest ih => rw [ih, List.flatMap_append, List.flatMap_cons, preorder_eq p,
      List.cons_append]

theorem traverse_eq_preorder (p : Pattern) : p.traverse = p.preorder := by
  rw [traverse, walk_eq_flatMap]
  simp

/-- A visited pattern is the first one or is visited below one of its parts. -/
theorem mem_traverse_iff {p q : Pattern}
    : q ∈ p.traverse ↔ q = p ∨ ∃ child ∈ p.children, q ∈ child.traverse := by
  simp only [traverse_eq_preorder]
  rw [preorder_eq p, List.mem_cons, List.mem_flatMap]

theorem mem_traverse_self (p : Pattern) : p ∈ p.traverse :=
  mem_traverse_iff.mpr (.inl rfl)

theorem mem_traverse_of_child {p child q : Pattern} (member : child ∈ p.children)
    (h : q ∈ child.traverse)
    : q ∈ p.traverse :=
  mem_traverse_iff.mpr (.inr ⟨child, member, h⟩)

/-- Parts of parts are visited, by induction on the pattern. -/
theorem mem_traverse_trans {p q r : Pattern} (hq : q ∈ p.traverse) (hr : r ∈ q.traverse)
    : r ∈ p.traverse := by
  induction p using children_induction with
  | step p ih =>
      rcases mem_traverse_iff.mp hq with rfl | ⟨child, member, below⟩
      · exact hr
      · exact mem_traverse_of_child member (ih child member below)

/-- All visited patterns have a property if the first one has it and those below its parts do. -/
theorem forall_mem_traverse_iff {p : Pattern} {motive : Pattern → Prop}
    : (∀ q ∈ p.traverse, motive q)
      ↔ motive p ∧ ∀ child ∈ p.children, ∀ q ∈ child.traverse, motive q := by
  constructor
  · intro h
    refine ⟨h p p.mem_traverse_self, fun child hc q hq => ?_⟩
    exact h q (mem_traverse_of_child hc hq)
  · rintro ⟨hp, hc⟩ q hq
    rcases mem_traverse_iff.mp hq with rfl | ⟨child, hm, hq⟩
    · exact hp
    · exact hc child hm q hq

/-- What is found along the visit of a pattern is found at the pattern itself and then along the
visits of its parts, in order.
-/
theorem filterMap_traverse {α : Type} (found : Pattern → Option α) (p : Pattern)
    : p.traverse.filterMap found
      = (found p).toList ++ p.children.flatMap (fun child => child.traverse.filterMap found) := by
  simp only [traverse_eq_preorder]
  rw [preorder_eq, List.filterMap_cons, List.filterMap_flatMap]
  cases found p <;> rfl

/-- The names of a pattern are its own and those of its parts, in order. -/
theorem bindingNames_eq (p : Pattern)
    : p.bindingNames = p.boundName?.toList ++ p.children.flatMap bindingNames :=
  filterMap_traverse boundName? p

@[simp]
theorem bindingNames_literal (text : String) (caseSensitive : Bool)
    : (literal text caseSensitive).bindingNames = [] := by
  rw [bindingNames_eq]
  rfl

@[simp]
theorem bindingNames_parameter (name : String) (typeName : Option String)
    : (parameter name typeName).bindingNames = [name] := by
  rw [bindingNames_eq]
  rfl

@[simp]
theorem bindingNames_tail (name : String) : (tail name).bindingNames = [name] := by
  rw [bindingNames_eq]
  rfl

@[simp]
theorem bindingNames_optional (identifier : Option String) (inner : Pattern)
    : (optional identifier inner).bindingNames = identifier.toList ++ inner.bindingNames := by
  rw [bindingNames_eq]
  simp [boundName?, children]

@[simp]
theorem bindingNames_variant (identifier : Option String) (parenthesized : Bool)
    (alternatives : List Pattern)
    : (variant identifier parenthesized alternatives).bindingNames
      = identifier.toList ++ alternatives.flatMap bindingNames := by
  rw [bindingNames_eq]
  rfl

@[simp]
theorem bindingNames_sequence (children : List Pattern)
    : (sequence children).bindingNames = children.flatMap bindingNames := by
  rw [bindingNames_eq]
  rfl

end CallGrammar.Pattern

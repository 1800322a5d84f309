import CallGrammar.Proofs.Pattern.Traversal

/-! What a pattern holds: its leaves in the order of its text, and its levels. -/

namespace CallGrammar.Pattern

------------------------------------------------------------
-- Leaves

/-- A word, an argument or the rest of a call, which takes tokens itself. -/
def isLeaf : Pattern → Bool
  | .literal .. | .parameter .. | .tail .. => true
  | .optional .. | .variant .. | .sequence .. => false

/-- The words, arguments and tails of a pattern, in the order of its text. -/
def leaves (p : Pattern) : List Pattern :=
  p.traverse.filter isLeaf

theorem leaves_eq_filterMap (p : Pattern)
    : p.leaves = p.traverse.filterMap (Option.guard isLeaf) := by
  rw [List.filterMap_eq_filter, leaves]

/-- The leaves of a pattern are the pattern itself or those of its parts. -/
theorem leaves_eq (p : Pattern)
    : p.leaves = (if p.isLeaf then [p] else []) ++ p.children.flatMap leaves := by
  have own : (Option.guard isLeaf p).toList = if p.isLeaf then [p] else [] := by
    cases h : p.isLeaf <;> simp [Option.guard, h]
  rw [leaves_eq_filterMap, filterMap_traverse, own, funext leaves_eq_filterMap]

@[simp]
theorem leaves_literal (text : String) (caseSensitive : Bool)
    : (literal text caseSensitive).leaves = [literal text caseSensitive] :=
  leaves_eq _

@[simp]
theorem leaves_parameter (name : String) (typeName : Option String)
    : (parameter name typeName).leaves = [parameter name typeName] :=
  leaves_eq _

@[simp]
theorem leaves_tail (name : String) : (tail name).leaves = [tail name] :=
  leaves_eq _

@[simp]
theorem leaves_sequence (children : List Pattern)
    : (sequence children).leaves = children.flatMap leaves :=
  leaves_eq _

------------------------------------------------------------
-- Levels

theorem depth_le_depthAll {p : Pattern} {ps : List Pattern} (member : p ∈ ps)
    : p.depth ≤ depthAll ps := by
  induction ps with
  | nil => cases member
  | cons first rest ih =>
      rw [depthAll]
      rcases List.mem_cons.mp member with rfl | hmem
      · exact Nat.le_max_left _ _
      · exact Nat.le_trans (ih hmem) (Nat.le_max_right _ _)

/-- Patterns have no more levels than a bound if none of them does, by list induction. -/
theorem depthAll_le {bound : Nat} {ps : List Pattern} (h : ∀ p ∈ ps, p.depth ≤ bound)
    : depthAll ps ≤ bound := by
  induction ps with
  | nil => exact Nat.zero_le bound
  | cons first rest ih =>
      obtain ⟨hfirst, hrest⟩ := List.forall_mem_cons.mp h
      rw [depthAll]
      exact Nat.max_le.mpr ⟨hfirst, ih hrest⟩

theorem depth_pos (p : Pattern) : 0 < p.depth := by
  cases p <;> rw [depth] <;> omega

/-- A part has fewer levels than its pattern, by cases on the kind. -/
theorem depth_lt_of_mem_children {p child : Pattern} (member : child ∈ p.children)
    : child.depth < p.depth := by
  have hall := depth_le_depthAll member
  cases p with
  | literal text caseSensitive => cases member
  | parameter name typeName => cases member
  | tail name => cases member
  | optional identifier inner =>
      obtain rfl := List.mem_singleton.mp member
      rw [depth]
      omega
  | variant identifier parenthesized alternatives =>
      rw [children] at hall
      rw [depth]
      omega
  | sequence children =>
      rw [Pattern.children] at hall
      rw [depth]
      omega

end CallGrammar.Pattern

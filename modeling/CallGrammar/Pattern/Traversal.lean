import CallGrammar.Pattern.Basic

/-! Visiting all parts of a pattern, a pattern before its parts and parts from left to right. -/

namespace CallGrammar.Pattern

------------------------------------------------------------
-- Counting

mutual

/-- The number of patterns in a tree, its root included. -/
def count : Pattern → Nat
  | .literal .. | .parameter .. | .tail .. => 1
  | .optional _ inner => 1 + inner.count
  | .variant _ _ alternatives => 1 + countAll alternatives
  | .sequence children => 1 + countAll children

def countAll : List Pattern → Nat
  | [] => 0
  | p :: rest => p.count + countAll rest

end

/-- A pattern counts one more than its parts, by cases on its kind. -/
theorem count_eq (p : Pattern) : p.count = 1 + countAll p.children := by
  cases p <;> simp [count, children, countAll]

/-- Counts add up over concatenation, by list induction. -/
theorem countAll_append (left right : List Pattern)
    : countAll (left ++ right) = countAll left + countAll right := by
  induction left with
  | nil => simp [countAll]
  | cons p rest ih => simp [countAll, ih, Nat.add_assoc]

------------------------------------------------------------
-- Walking

/-- Visits the patterns on a stack: the top one, then its parts, then what lies below. Every
step takes one pattern off the count.
-/
def walk : List Pattern → List Pattern
  | [] => []
  | p :: rest => p :: walk (p.children ++ rest)
termination_by stack => countAll stack
decreasing_by
  rw [countAll_append, countAll, count_eq]
  omega

/-- A pattern and all its parts. -/
def traverse (p : Pattern) : List Pattern :=
  walk [p]

/-- The names that a pattern can bind, in the order of the visit. -/
def bindingNames (p : Pattern) : List String :=
  p.traverse.filterMap boundName?

------------------------------------------------------------
-- Pre-order

mutual

/-- The same visit by recursion on the tree. -/
def preorder : Pattern → List Pattern
  | .literal text caseSensitive => [.literal text caseSensitive]
  | .parameter name typeName => [.parameter name typeName]
  | .tail name => [.tail name]
  | .optional identifier inner => .optional identifier inner :: inner.preorder
  | .variant identifier parenthesized alternatives =>
      .variant identifier parenthesized alternatives :: preorderAll alternatives
  | .sequence children => .sequence children :: preorderAll children

def preorderAll : List Pattern → List Pattern
  | [] => []
  | p :: rest => p.preorder ++ preorderAll rest

end

end CallGrammar.Pattern

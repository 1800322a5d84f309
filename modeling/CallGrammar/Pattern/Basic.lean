/-! Patterns: trees that describe which calls are accepted. -/

namespace CallGrammar

------------------------------------------------------------
-- Kinds

/-- The six kinds of patterns. -/
inductive Kind where
  | literal
  | parameter
  | tail
  | optional
  | variant
  | sequence
deriving DecidableEq

/-- The word for a kind in messages. -/
def Kind.name : Kind → String
  | .literal => "literal"
  | .parameter => "parameter"
  | .tail => "tail"
  | .optional => "optional"
  | .variant => "variant"
  | .sequence => "sequence"

------------------------------------------------------------
-- Patterns

/-- A pattern of calls. -/
inductive Pattern where
  /-- A fixed word, whose case may be ignored. -/
  | literal (text : String) (caseSensitive : Bool)
  /-- One argument, bound under a name and converted to a type if one is named. -/
  | parameter (name : String) (typeName : Option String)
  /-- The whole rest of the call, bound under a name as it stands. -/
  | tail (name : String)
  /-- Something that may be left out; its presence is bound under the identifier, or recorded
  in order without one.
  -/
  | optional (identifier : Option String) (inner : Pattern)
  /-- A choice; the index of the chosen alternative is bound under the identifier, or recorded
  in order without one. The flag tells a choice written in parentheses of its own.
  -/
  | variant (identifier : Option String) (parenthesized : Bool) (alternatives : List Pattern)
  /-- Patterns one after the other. -/
  | sequence (children : List Pattern)

namespace Pattern

mutual

/-- Equality of patterns is decided by comparing them part by part. -/
def decEq (left right : Pattern) : Decidable (left = right) :=
  match left with
  | .literal a c =>
      match right with
      | .literal b d => decidable_of_iff (a = b ∧ c = d) (by simp)
      | .parameter .. | .tail .. | .optional .. | .variant .. | .sequence .. => isFalse (by simp)
  | .parameter a s =>
      match right with
      | .parameter b t => decidable_of_iff (a = b ∧ s = t) (by simp)
      | .literal .. | .tail .. | .optional .. | .variant .. | .sequence .. => isFalse (by simp)
  | .tail a =>
      match right with
      | .tail b => decidable_of_iff (a = b) (by simp)
      | .literal .. | .parameter .. | .optional .. | .variant .. | .sequence .. =>
          isFalse (by simp)
  | .optional a p =>
      match right with
      | .optional b q =>
          match decEq p q with
          | isTrue h => decidable_of_iff (a = b) (by simp [h])
          | isFalse h => isFalse (by simp [h])
      | .literal .. | .parameter .. | .tail .. | .variant .. | .sequence .. => isFalse (by simp)
  | .variant a c ps =>
      match right with
      | .variant b d qs =>
          match decEqAll ps qs with
          | isTrue h => decidable_of_iff (a = b ∧ c = d) (by simp [h])
          | isFalse h => isFalse (by simp [h])
      | .literal .. | .parameter .. | .tail .. | .optional .. | .sequence .. => isFalse (by simp)
  | .sequence ps =>
      match right with
      | .sequence qs =>
          match decEqAll ps qs with
          | isTrue h => isTrue (by simp [h])
          | isFalse h => isFalse (by simp [h])
      | .literal .. | .parameter .. | .tail .. | .optional .. | .variant .. => isFalse (by simp)

/-- Equality of pattern lists is decided element by element. -/
def decEqAll (left right : List Pattern) : Decidable (left = right) :=
  match left, right with
  | [], [] => isTrue rfl
  | [], _ :: _ => isFalse (by simp)
  | _ :: _, [] => isFalse (by simp)
  | p :: ps, q :: qs =>
      match decEq p q, decEqAll ps qs with
      | isTrue h, isTrue hs => isTrue (by simp [h, hs])
      | isFalse h, _ => isFalse (by simp [h])
      | _, isFalse hs => isFalse (by simp [hs])

end

instance : DecidableEq Pattern :=
  decEq

/-- The kind of a pattern. -/
def kind : Pattern → Kind
  | .literal .. => .literal
  | .parameter .. => .parameter
  | .tail .. => .tail
  | .optional .. => .optional
  | .variant .. => .variant
  | .sequence .. => .sequence

/-- The direct parts of a pattern, in order. -/
def children : Pattern → List Pattern
  | .literal .. | .parameter .. | .tail .. => []
  | .optional _ inner => [inner]
  | .variant _ _ alternatives => alternatives
  | .sequence children => children

/-- The name that a pattern itself binds, apart from its parts. -/
def boundName? : Pattern → Option String
  | .parameter name _ => some name
  | .tail name => some name
  | .optional identifier _ => identifier
  | .variant identifier _ _ => identifier
  | .literal .. | .sequence .. => none

mutual

/-- How many levels a pattern has; one without parts has a single level. -/
def depth : Pattern → Nat
  | .literal .. | .parameter .. | .tail .. => 1
  | .optional _ inner => 1 + inner.depth
  | .variant _ _ alternatives => 1 + depthAll alternatives
  | .sequence children => 1 + depthAll children

/-- The levels of the deepest pattern of a list. -/
def depthAll : List Pattern → Nat
  | [] => 0
  | p :: rest => max p.depth (depthAll rest)

end

end Pattern

end CallGrammar

import CallGrammar.Proofs.Pattern.Traversal

/-! Where the parts of a pattern are. A part has a path of positions that leads to it, and a visit
goes along the paths in lexicographic order, so that it meets every part once and before its own
parts. The visit is what an iterator with a stack of patterns gives out.
-/

namespace CallGrammar.Pattern

------------------------------------------------------------
-- Iterating over a stack

/-- What an iterator gives out until its stack is empty. The top of the stack is its last pattern:
it is taken off and given out, and its parts are put on the stack from the last to the first one.
-/
inductive Yields : List Pattern → List Pattern → Prop
  | done : Yields [] []
  | next {below p given} (more : Yields (below ++ p.children.reverse) given)
    : Yields (below ++ [p]) (p :: given)

/-- The iterator ends with what a walk along its stack visits, by induction on the walk. -/
theorem yields_walk (tops : List Pattern) : Yields tops.reverse (walk tops) := by
  fun_induction walk tops with
  | case1 => exact .done
  | case2 p rest ih =>
      rw [List.reverse_append] at ih
      rw [List.reverse_cons]
      exact .next ih

/-- It gives out nothing else, by induction on what it gives out. -/
theorem Yields.eq_walk {stack given : List Pattern} (yields : Yields stack given)
    : given = walk stack.reverse := by
  induction yields with
  | done => rw [List.reverse_nil, walk]
  | @next below p given more ih =>
      rw [List.reverse_append, List.reverse_reverse] at ih
      rw [List.reverse_append, List.reverse_singleton, List.singleton_append, walk, ih]

theorem yields_iff_traverse {p : Pattern} {given : List Pattern}
    : Yields [p] given ↔ given = p.traverse := by
  constructor
  · exact Yields.eq_walk
  · rintro rfl
    exact yields_walk [p]

/-- A visit is the pattern and then the visits of its parts. -/
theorem traverse_eq (p : Pattern) : p.traverse = p :: p.children.flatMap traverse := by
  rw [traverse_eq_preorder, preorder_eq, funext traverse_eq_preorder]

------------------------------------------------------------
-- Paths

/-- The part of a pattern to which a path leads, a list of positions from the pattern down. -/
def part? : Pattern → List Nat → Option Pattern
  | p, [] => some p
  | p, position :: path => p.children[position]?.bind fun child => child.part? path

/-- Paths to all parts of a pattern in lexicographic order, along which a visit goes. -/
structure Visited (p : Pattern) (paths : List (List Nat)) : Prop where
  sorted : paths.Pairwise (List.Lex (· < ·))
  complete : ∀ path, path ∈ paths ↔ (p.part? path).isSome
  visits : paths.map p.part? = p.traverse.map some

/-- The same for the last parts of a pattern, those behind some first ones. -/
structure VisitedBehind (p : Pattern) (first : Nat) (last : List Pattern) (paths : List (List Nat))
    : Prop where
  sorted : paths.Pairwise (List.Lex (· < ·))
  complete
    : ∀ path,
        path ∈ paths
        ↔ ∃ position rest,
            path = position :: rest ∧ first ≤ position ∧ (p.part? path).isSome
  visits : paths.map p.part? = (last.flatMap traverse).map some

/-- One more part comes before those behind it. -/
theorem VisitedBehind.cons {p child : Pattern} {before last : List Pattern}
    {own paths : List (List Nat)} (children : p.children = before ++ child :: last)
    (inside : child.Visited own) (behind : p.VisitedBehind (before.length + 1) last paths)
    : p.VisitedBehind before.length (child :: last)
        (own.map (before.length :: ·) ++ paths) := by
  have found : p.children[before.length]? = some child := by simp [children]
  have below (path : List Nat) : p.part? (before.length :: path) = child.part? path := by
    rw [part?, found, Option.bind_some]
  refine ⟨?_, ?_, ?_⟩
  · refine List.pairwise_append.mpr ⟨?_, behind.sorted, ?_⟩
    · exact List.pairwise_map.mpr (inside.sorted.imp .cons)
    · intro path member next other
      obtain ⟨rest, -, rfl⟩ := List.mem_map.mp member
      obtain ⟨position, more, rfl, later, -⟩ := (behind.complete next).mp other
      exact .rel later
  · intro path
    rw [List.mem_append, List.mem_map, behind.complete]
    constructor
    · rintro (⟨rest, member, rfl⟩ | ⟨position, rest, rfl, later, leads⟩)
      · refine ⟨_, rest, rfl, Nat.le_refl _, ?_⟩
        rw [below]
        exact (inside.complete rest).mp member
      · exact ⟨position, rest, rfl, Nat.le_of_succ_le later, leads⟩
    · rintro ⟨position, rest, rfl, later, leads⟩
      rcases Nat.eq_or_lt_of_le later with rfl | further
      · rw [below] at leads
        exact .inl ⟨rest, (inside.complete rest).mpr leads, rfl⟩
      · exact .inr ⟨position, rest, rfl, further, leads⟩
  · have own : (own.map (before.length :: ·)).map p.part? = child.traverse.map some := by
      rw [List.map_map, ← inside.visits]
      exact List.map_congr_left fun path _ => below path
    rw [List.map_append, own, behind.visits, List.flatMap_cons, List.map_append]

/-- The last parts of a pattern have paths if each of them has, by list induction. -/
theorem exists_visitedBehind {p : Pattern} {before last : List Pattern}
    (children : p.children = before ++ last) (inside : ∀ child ∈ last, ∃ own, child.Visited own)
    : ∃ paths, p.VisitedBehind before.length last paths := by
  induction last generalizing before with
  | nil =>
      refine ⟨[], .nil, fun path => ?_, rfl⟩
      simp only [List.not_mem_nil, false_iff]
      rintro ⟨position, rest, rfl, late, leads⟩
      rw [List.append_nil] at children
      simp [part?, children, late] at leads
  | cons child last ih =>
      obtain ⟨⟨own, visited⟩, others⟩ := List.forall_mem_cons.mp inside
      obtain ⟨paths, behind⟩ := @ih (before ++ [child]) (by simp [children]) others
      rw [List.length_append, List.length_singleton] at behind
      exact ⟨_, .cons children visited behind⟩

/-- A visit goes along the paths to all parts in lexicographic order, by induction on the pattern.
-/
theorem exists_visited (p : Pattern) : ∃ paths, p.Visited paths := by
  induction p using children_induction with
  | step p ih =>
      obtain ⟨paths, sorted, complete, visits⟩ := @exists_visitedBehind p [] p.children rfl ih
      refine ⟨[] :: paths, ?_, ?_, ?_⟩
      · refine List.pairwise_cons.mpr ⟨fun path member => ?_, sorted⟩
        obtain ⟨position, rest, rfl, -⟩ := (complete path).mp member
        exact .nil
      · intro path
        rw [List.mem_cons, complete]
        cases path with
        | nil => simp [part?]
        | cons position rest => simp
      · rw [List.map_cons, visits, traverse_eq, List.map_cons, part?]

------------------------------------------------------------
-- Named parts

/-- The names of a pattern are those of its parts in the order of the visit. -/
theorem Visited.bindingNames_eq {p : Pattern} {paths : List (List Nat)} (visited : p.Visited paths)
    : p.bindingNames = paths.filterMap fun path => (p.part? path).bind boundName? := by
  calc p.bindingNames
    _ = (p.traverse.map some).filterMap (·.bind boundName?) := by
        rw [List.filterMap_map]
        rfl
    _ = paths.filterMap fun path => (p.part? path).bind boundName? := by
        rw [← visited.visits, List.filterMap_map]
        rfl

/-- An optional group or a choice with an identifier. -/
def isNamedGroup : Pattern → Bool
  | .optional (some _) _ | .variant (some _) _ _ => true
  | _ => false

/-- What binds a name is one of a parameter, a tail and a named group, by cases on the kind. -/
theorem countP_boundName?_singleton (p : Pattern)
    : [p].countP (·.boundName?.isSome)
      = [p].countP (·.kind = .parameter)
        + [p].countP (·.kind = .tail)
        + [p].countP isNamedGroup := by
  cases p with
  | literal text caseSensitive => rfl
  | parameter name typeName => rfl
  | tail name => rfl
  | optional identifier inner => cases identifier <;> rfl
  | variant identifier parenthesized alternatives => cases identifier <;> rfl
  | sequence children => rfl

/-- A pattern has as many names as parameters, tails and named groups, by induction on the visit. -/
theorem length_bindingNames (p : Pattern)
    : p.bindingNames.length
      = p.traverse.countP (·.kind = .parameter)
        + p.traverse.countP (·.kind = .tail)
        + p.traverse.countP isNamedGroup := by
  rw [bindingNames, List.length_filterMap_eq_countP]
  induction p.traverse with
  | nil => rfl
  | cons part rest ih =>
      have own := countP_boundName?_singleton part
      rw [← List.singleton_append]
      simp only [List.countP_append]
      omega

end CallGrammar.Pattern

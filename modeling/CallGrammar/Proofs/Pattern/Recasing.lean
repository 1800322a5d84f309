import CallGrammar.Pattern.Render
import CallGrammar.Proofs.Pattern.Flattening

/-! Changing which words of a pattern respect case. Nothing else about the pattern changes, so it
may be flattened before or after.
-/

namespace CallGrammar.Pattern

mutual

/-- A pattern in which `change` tells from whether a word respects case whether it does now. -/
def recased (change : Bool → Bool) : Pattern → Pattern
  | .literal text caseSensitive => .literal text (change caseSensitive)
  | .parameter name typeName => .parameter name typeName
  | .tail name => .tail name
  | .optional identifier inner => .optional identifier (inner.recased change)
  | .variant identifier parenthesized alternatives =>
      .variant identifier parenthesized (recasedAll change alternatives)
  | .sequence children => .sequence (recasedAll change children)

def recasedAll (change : Bool → Bool) : List Pattern → List Pattern
  | [] => []
  | p :: rest => p.recased change :: recasedAll change rest

end

theorem recasedAll_eq_map (change : Bool → Bool) (ps : List Pattern)
    : recasedAll change ps = ps.map (recased change) := by
  induction ps with
  | nil => rfl
  | cons p rest ih => rw [recasedAll, ih, List.map_cons]

@[simp]
theorem recased_literal (change : Bool → Bool) (text : String) (caseSensitive : Bool)
    : (literal text caseSensitive).recased change = literal text (change caseSensitive) :=
  rfl

@[simp]
theorem recased_parameter (change : Bool → Bool) (name : String) (typeName : Option String)
    : (parameter name typeName).recased change = parameter name typeName :=
  rfl

@[simp]
theorem recased_tail (change : Bool → Bool) (name : String)
    : (tail name).recased change = tail name :=
  rfl

@[simp]
theorem recased_optional (change : Bool → Bool) (identifier : Option String) (inner : Pattern)
    : (optional identifier inner).recased change = optional identifier (inner.recased change) :=
  rfl

@[simp]
theorem recased_variant (change : Bool → Bool) (identifier : Option String)
    (parenthesized : Bool) (alternatives : List Pattern)
    : (variant identifier parenthesized alternatives).recased change
      = variant identifier parenthesized (alternatives.map (recased change)) := by
  rw [recased, recasedAll_eq_map]

@[simp]
theorem recased_sequence (change : Bool → Bool) (children : List Pattern)
    : (sequence children).recased change = sequence (children.map (recased change)) := by
  rw [recased, recasedAll_eq_map]

/-- Changing nothing leaves a pattern as it is, by induction on the pattern. -/
theorem recased_id (p : Pattern) : p.recased id = p := by
  induction p with
  | literal text caseSensitive => rfl
  | parameter name typeName => rfl
  | tail name => rfl
  | optional identifier inner ih => rw [recased_optional, ih]
  | variant identifier parenthesized alternatives ih =>
      rw [recased_variant, List.map_congr_left ih, List.map_id']
  | sequence children ih => rw [recased_sequence, List.map_congr_left ih, List.map_id']

theorem map_recased_id (ps : List Pattern) : ps.map (recased id) = ps := by
  rw [List.map_congr_left fun p _ => p.recased_id, List.map_id']

theorem map_render_recased_id (ps : List Pattern)
    : ps.map render = (ps.map (recased id)).map render := by
  rw [map_recased_id]

@[simp]
theorem kind_recased (change : Bool → Bool) (p : Pattern)
    : (p.recased change).kind = p.kind := by
  cases p <;> rfl

theorem spliced_recased (change : Bool → Bool) (p : Pattern)
    : (p.recased change).spliced = p.spliced.map (recased change) := by
  cases p with
  | sequence children => rw [recased_sequence, spliced, spliced]
  | _ => rfl

theorem ofSequence_map_recased (change : Bool → Bool) (ps : List Pattern)
    : ofSequence (ps.map (recased change)) = (ofSequence ps).recased change := by
  match ps with
  | [] => rfl
  | [p] => rfl
  | p :: q :: rest => simp [ofSequence]

/-- Flattening looks at no word, by induction on the pattern. -/
theorem flattened_recased (change : Bool → Bool) (p : Pattern)
    : (p.recased change).flattened = p.flattened.recased change := by
  induction p with
  | literal text caseSensitive => rfl
  | parameter name typeName => rfl
  | tail name => rfl
  | optional identifier inner ih =>
      rw [recased_optional, flattened, ih, flattened, recased_optional]
  | variant identifier parenthesized alternatives ih =>
      by_cases hi : identifier = none ∧ alternatives.length = 1
      · obtain ⟨rfl, hl⟩ := hi
        obtain ⟨alternative, rfl⟩ := List.length_eq_one_iff.mp hl
        exact ih alternative (List.mem_singleton.mpr rfl)
      · have hn := Decidable.not_and_iff_not_or_not.mp hi
        have hn' : identifier ≠ none ∨ (alternatives.map (recased change)).length ≠ 1 := by
          rwa [List.length_map]
        have hc : alternatives.map (fun p => (p.recased change).flattened)
            = alternatives.map (fun p => p.flattened.recased change) := List.map_congr_left ih
        rw [recased_variant, flattened_variant hn', flattened_variant hn, recased_variant]
        simpa using hc
  | sequence children ih =>
      have hc (child : Pattern) (member : child ∈ children)
          : (child.recased change).flattened.spliced
            = child.flattened.spliced.map (recased change) := by
        rw [ih child member, spliced_recased]
      rw [recased_sequence, flattened_sequence, flattened_sequence, ← ofSequence_map_recased,
        List.flatMap_map, List.map_flatMap, List.flatMap_congr hc]

end CallGrammar.Pattern

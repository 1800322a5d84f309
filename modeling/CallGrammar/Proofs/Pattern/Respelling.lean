import CallGrammar.Pattern.Render
import CallGrammar.Proofs.Pattern.Flattening

/-! The pattern that the text of a pattern stands for. Text cannot tell a part from a sequence of
it alone, so contents of brackets and alternatives come back as sequences; flattening undoes that.
-/

namespace CallGrammar.Pattern

theorem renderAllAt_eq_map (place : Place) (ps : List Pattern)
    : renderAllAt place ps = ps.map (renderAt place) := by
  induction ps with
  | nil => rfl
  | cons p rest ih => rw [renderAllAt, ih, List.map_cons]

/-- A choice without parentheses alone inside brackets or in a definition. -/
theorem renderAt_bareChoice {place : Place} (top : place.isTop = true)
    (identifier : Option String) (alternatives : List Pattern)
    : (variant identifier false alternatives).renderAt place
      = String.intercalate "|" (alternatives.map (renderAt .alternative)) := by
  simp [renderAt, renderAllAt_eq_map, top]

/-- A choice in parentheses anywhere. -/
theorem renderAt_choice (place : Place) (identifier : Option String)
    (alternatives : List Pattern)
    : (variant identifier true alternatives).renderAt place
      = "(" ++ String.intercalate "|" (alternatives.map (renderAt .alternative)) ++ ")"
        ++ suffixText identifier := by
  simp [renderAt, renderAllAt_eq_map]

/-- A sequence beside others. -/
theorem renderAt_inner_sequence (children : List Pattern)
    : (sequence children).renderAt .inner
      = "(" ++ String.intercalate " " (children.map (renderAt .inner)) ++ ")" := by
  match children with
  | [] => rfl
  | [child] => simp [renderAt, Place.isTop]
  | first :: second :: rest => simp [renderAt, renderAllAt_eq_map]

/-- A pattern as a sequence. -/
def asSequence (p : Pattern) : Pattern :=
  .sequence p.spliced

/-- What brackets around the text of a pattern hold: a choice without parentheses as it stands,
anything else as a sequence.
-/
def insideBrackets : Pattern → Pattern
  | .variant identifier false alternatives => .variant identifier false alternatives
  | p => p.asSequence

mutual

/-- The pattern that the text of a pattern is read back as: contents of brackets and
alternatives are sequences there.
-/
def respelled : Pattern → Pattern
  | .literal text caseSensitive => .literal text caseSensitive
  | .parameter name typeName => .parameter name typeName
  | .tail name => .tail name
  | .optional identifier inner => .optional identifier inner.respelled.insideBrackets
  | .variant identifier parenthesized alternatives =>
      .variant identifier parenthesized ((respelledAll alternatives).map asSequence)
  | .sequence children => .sequence (respelledAll children)

/-- Every pattern of a list as it is read back. -/
def respelledAll : List Pattern → List Pattern
  | [] => []
  | p :: rest => p.respelled :: respelledAll rest

end

theorem respelledAll_eq_map (ps : List Pattern) : respelledAll ps = ps.map respelled := by
  induction ps with
  | nil => rfl
  | cons p rest ih => rw [respelledAll, ih, List.map_cons]

theorem respelled_variant (identifier : Option String) (parenthesized : Bool)
    (alternatives : List Pattern)
    : (variant identifier parenthesized alternatives).respelled
      = .variant identifier parenthesized
          (alternatives.map (fun p => p.respelled.asSequence)) := by
  rw [respelled, respelledAll_eq_map, List.map_map]
  rfl

theorem respelled_sequence (children : List Pattern)
    : (sequence children).respelled = .sequence (children.map respelled) := by
  rw [respelled, respelledAll_eq_map]

theorem spliced_respelled (p : Pattern) : p.respelled.spliced = p.spliced.map respelled := by
  cases p with
  | sequence children => rw [respelled_sequence]; rfl
  | _ => simp [respelled, spliced]

/-- A pattern as a sequence flattens as the pattern does. -/
theorem flattened_asSequence (p : Pattern) : p.asSequence.flattened = p.flattened := by
  by_cases hk : p.kind = .sequence
  · cases p with
    | sequence children => rfl
    | _ => cases hk
  · rw [asSequence, spliced_of_kind_ne hk, flattened_singleton]

theorem flattened_insideBrackets (p : Pattern) : p.insideBrackets.flattened = p.flattened := by
  unfold insideBrackets
  split
  · rfl
  · exact flattened_asSequence p

/-- Reading back changes nothing but nesting, by induction on the pattern. -/
theorem flattened_respelled (p : Pattern) : p.respelled.flattened = p.flattened := by
  induction p with
  | literal text caseSensitive => rfl
  | parameter name typeName => rfl
  | tail name => rfl
  | optional identifier inner ih =>
      rw [respelled, flattened, flattened_insideBrackets, ih, flattened]
  | variant identifier parenthesized alternatives ih =>
      rw [respelled_variant]
      by_cases hi : identifier = none ∧ alternatives.length = 1
      · obtain ⟨rfl, hl⟩ := hi
        obtain ⟨alternative, rfl⟩ := List.length_eq_one_iff.mp hl
        rw [List.map_singleton, flattened, flattened, flattened_asSequence,
          ih alternative (List.mem_singleton.mpr rfl)]
      · have hs := Decidable.not_and_iff_not_or_not.mp hi
        rw [flattened_variant hs, flattened_variant (by simpa using hs), List.map_map]
        refine congrArg _ (List.map_congr_left fun p hp => ?_)
        rw [Function.comp_apply, flattened_asSequence, ih p hp]
  | sequence children ih =>
      rw [respelled_sequence, flattened_sequence, flattened_sequence, List.flatMap_map]
      exact congrArg ofSequence (List.flatMap_congr fun p hp => by rw [ih p hp])

end CallGrammar.Pattern

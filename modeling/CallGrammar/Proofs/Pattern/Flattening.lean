import CallGrammar.Pattern.Flatten
import CallGrammar.Proofs.Pattern.Contents
import Mathlib.Data.List.Basic

/-! Flattening computes a normal form: its results are flat, flat patterns stay as they are,
the leaves and the names that a pattern binds stay in order, and no pattern gets deeper.
-/

namespace CallGrammar.Pattern

/-- A pattern is flat at its top if it is no sequence of one part or with a sequence as a part,
and no choice without identifier that has one alternative.
-/
def FlatNode : Pattern → Prop
  | .sequence children => children.length ≠ 1 ∧ ∀ child ∈ children, child.kind ≠ .sequence
  | .variant none _ alternatives => alternatives.length ≠ 1
  | _ => True

/-- A pattern is flat if all its parts are flat at their top. -/
def IsFlat (p : Pattern) : Prop :=
  ∀ q ∈ p.traverse, q.FlatNode

theorem isFlat_iff {p : Pattern}
    : p.IsFlat ↔ p.FlatNode ∧ ∀ child ∈ p.children, child.IsFlat :=
  forall_mem_traverse_iff

theorem flattenedAll_eq_map (ps : List Pattern) : flattenedAll ps = ps.map flattened := by
  induction ps with
  | nil => rfl
  | cons p rest ih => rw [flattenedAll, ih, List.map_cons]

theorem flattened_sequence (children : List Pattern)
    : (sequence children).flattened
      = ofSequence (children.flatMap (fun child => child.flattened.spliced)) := by
  rw [flattened, flattenedAll_eq_map, List.flatMap_map]

/-- A choice with an identifier or of other than one alternative stays a choice. -/
theorem flattened_variant {identifier : Option String} {alternatives : List Pattern}
    (h : identifier ≠ none ∨ alternatives.length ≠ 1) (parenthesized : Bool)
    : (variant identifier parenthesized alternatives).flattened
      = variant identifier parenthesized (alternatives.map flattened) := by
  rw [flattened, flattenedAll_eq_map]
  rintro alternative rfl rfl
  rcases h with h | h <;> exact h rfl

/-- A pattern contributes itself to a sequence unless it is one. -/
theorem spliced_of_kind_ne {p : Pattern} (h : p.kind ≠ .sequence) : p.spliced = [p] := by
  cases p with
  | sequence children => exact absurd rfl h
  | _ => rfl

theorem ofSequence_of_length_ne {ps : List Pattern} (h : ps.length ≠ 1)
    : ofSequence ps = .sequence ps := by
  match ps with
  | [] => rfl
  | [p] => exact absurd rfl h
  | p :: q :: rest => rfl

/-- A flat pattern is the sequence of what it contributes to one. -/
theorem IsFlat.ofSequence_spliced {p : Pattern} (h : p.IsFlat) : ofSequence p.spliced = p := by
  cases p with
  | sequence children => exact ofSequence_of_length_ne (isFlat_iff.mp h).1.1
  | _ => rfl

/-- What a flat pattern contributes to a sequence is flat and no sequence. -/
theorem IsFlat.mem_spliced {p q : Pattern} (h : p.IsFlat) (member : q ∈ p.spliced)
    : q.IsFlat ∧ q.kind ≠ .sequence := by
  by_cases hk : p.kind = .sequence
  · cases p with
    | sequence children =>
        obtain ⟨hn, hc⟩ := isFlat_iff.mp h
        exact ⟨hc q member, hn.2 q member⟩
    | _ => cases hk
  · rw [spliced_of_kind_ne hk] at member
    obtain rfl := List.mem_singleton.mp member
    exact ⟨h, hk⟩

/-- A sequence of flat patterns that are no sequences flattens to a flat pattern. -/
theorem isFlat_ofSequence {ps : List Pattern}
    (h : ∀ p ∈ ps, p.IsFlat ∧ p.kind ≠ .sequence)
    : (ofSequence ps).IsFlat := by
  by_cases hl : ps.length = 1
  · obtain ⟨p, rfl⟩ := List.length_eq_one_iff.mp hl
    exact (h p (List.mem_singleton.mpr rfl)).1
  · rw [ofSequence_of_length_ne hl]
    exact isFlat_iff.mpr ⟨⟨hl, fun p hp => (h p hp).2⟩, fun p hp => (h p hp).1⟩

/-- Flattening makes patterns flat, by induction on the pattern. -/
theorem isFlat_flattened (p : Pattern) : p.flattened.IsFlat := by
  induction p with
  | literal text caseSensitive => exact isFlat_iff.mpr ⟨trivial, by simp [flattened, children]⟩
  | parameter name typeName => exact isFlat_iff.mpr ⟨trivial, by simp [flattened, children]⟩
  | tail name => exact isFlat_iff.mpr ⟨trivial, by simp [flattened, children]⟩
  | optional identifier inner ih =>
      exact isFlat_iff.mpr ⟨trivial, by simpa [flattened, children] using ih⟩
  | variant identifier parenthesized alternatives ih =>
      by_cases hi : identifier = none ∧ alternatives.length = 1
      · obtain ⟨rfl, hl⟩ := hi
        obtain ⟨alternative, rfl⟩ := List.length_eq_one_iff.mp hl
        exact ih alternative (List.mem_singleton.mpr rfl)
      · rw [flattened_variant (Decidable.not_and_iff_not_or_not.mp hi)]
        refine isFlat_iff.mpr ⟨?_, by simpa [children] using ih⟩
        cases identifier with
        | none => simpa [FlatNode] using hi
        | some name => trivial
  | sequence children ih =>
      rw [flattened_sequence]
      refine isFlat_ofSequence (fun q hq => ?_)
      obtain ⟨child, hc, hq⟩ := List.mem_flatMap.mp hq
      exact (ih child hc).mem_spliced hq

/-- Flat patterns stay as they are, by induction on the pattern. -/
theorem IsFlat.flattened_eq {p : Pattern} (h : p.IsFlat) : p.flattened = p := by
  induction p with
  | literal text caseSensitive => rfl
  | parameter name typeName => rfl
  | tail name => rfl
  | optional identifier inner ih =>
      rw [flattened, ih ((isFlat_iff.mp h).2 inner (List.mem_singleton.mpr rfl))]
  | variant identifier parenthesized alternatives ih =>
      obtain ⟨hn, hc⟩ := isFlat_iff.mp h
      have hs : identifier ≠ none ∨ alternatives.length ≠ 1 := by
        cases identifier with
        | none => exact .inr hn
        | some name => exact .inl (Option.some_ne_none name)
      rw [flattened_variant hs, List.map_congr_left (fun p hp => ih p hp (hc p hp)),
        List.map_id']
  | sequence children ih =>
      obtain ⟨hn, hc⟩ := isFlat_iff.mp h
      have he : children.flatMap (fun child => child.flattened.spliced) = children := by
        calc children.flatMap (fun child => child.flattened.spliced)
            = children.flatMap (fun child => [child]) := by
              refine List.flatMap_congr fun child hm => ?_
              rw [ih child hm (hc child hm), spliced_of_kind_ne (hn.2 child hm)]
          _ = children := List.flatMap_singleton' children
      rw [flattened_sequence, he, ofSequence_of_length_ne hn.1]

/-- Flattening twice changes nothing more. -/
theorem flattened_flattened (p : Pattern) : p.flattened.flattened = p.flattened :=
  (isFlat_flattened p).flattened_eq

/-- Flattening computes a normal form, whatever empty sequences and choices a pattern holds. Nowhere
in its result is a sequence of one part, a sequence directly inside a sequence or a choice without
identifier of one alternative; it leaves a pattern as it is exactly if there is none of these in the
pattern; and doing it again changes nothing.
-/
theorem flattened_normal_form (p : Pattern)
    : p.flattened.IsFlat
      ∧ (p.flattened = p ↔ p.IsFlat)
      ∧ p.flattened.flattened = p.flattened := by
  refine ⟨isFlat_flattened p, ⟨?_, IsFlat.flattened_eq⟩, flattened_flattened p⟩
  intro unchanged
  have flat := isFlat_flattened p
  rwa [unchanged] at flat

/-- A choice of one alternative leaves a sequence inside a sequence, of which the empty parts go and
a single one stays.
-/
example
    : (sequence
        [.sequence [], .variant none true [.sequence [.literal "a" true, .sequence []]]]).flattened
      = .literal "a" true :=
  rfl

/-- A sequence of one part flattens as that part does. -/
theorem flattened_singleton (p : Pattern) : (sequence [p]).flattened = p.flattened := by
  rw [flattened_sequence, List.flatMap_singleton, (isFlat_flattened p).ofSequence_spliced]

------------------------------------------------------------
-- Flattening keeps patterns solid

/-- A pattern is solid at its top if it is no choice of one alternative and no sequence with an
empty sequence as a part.
-/
def SolidNode : Pattern → Prop
  | .variant _ _ alternatives => alternatives.length ≠ 1
  | .sequence children => ∀ child ∈ children, child ≠ .sequence []
  | _ => True

/-- A pattern is solid if all its parts are solid at their top: flattening removes no choice from
it and no part of it is empty.
-/
def IsSolid (p : Pattern) : Prop :=
  ∀ q ∈ p.traverse, q.SolidNode

theorem isSolid_iff {p : Pattern}
    : p.IsSolid ↔ p.SolidNode ∧ ∀ child ∈ p.children, child.IsSolid :=
  forall_mem_traverse_iff

/-- Flattening makes no sequence of another solid pattern. -/
theorem IsSolid.kind_flattened_ne {p : Pattern} (h : p.IsSolid) (hk : p.kind ≠ .sequence)
    : p.flattened.kind ≠ .sequence := by
  cases p with
  | variant identifier parenthesized alternatives =>
      rw [flattened_variant (.inr (isSolid_iff.mp h).1)]
      exact nofun
  | sequence children => exact absurd rfl hk
  | _ => exact nofun

theorem spliced_ofSequence {ps : List Pattern} (h : ∀ p ∈ ps, p.kind ≠ .sequence)
    : (ofSequence ps).spliced = ps := by
  by_cases hl : ps.length = 1
  · obtain ⟨p, rfl⟩ := List.length_eq_one_iff.mp hl
    exact spliced_of_kind_ne (h p (List.mem_singleton.mpr rfl))
  · rw [ofSequence_of_length_ne hl]
    rfl

/-- A flattened sequence contributes to a sequence what its flattened parts do. -/
theorem spliced_flattened_sequence (children : List Pattern)
    : (sequence children).flattened.spliced
      = children.flatMap (fun child => child.flattened.spliced) := by
  rw [flattened_sequence]
  refine spliced_ofSequence (fun q hq => ?_)
  obtain ⟨child, _, hq⟩ := List.mem_flatMap.mp hq
  exact ((isFlat_flattened child).mem_spliced hq).2

/-- A solid pattern that is not empty contributes something to a sequence, by induction on the
pattern.
-/
theorem IsSolid.spliced_flattened_ne_nil {p : Pattern} (h : p.IsSolid) (filled : p ≠ .sequence [])
    : p.flattened.spliced ≠ [] := by
  induction p with
  | sequence children ih =>
      obtain ⟨hn, hc⟩ := isSolid_iff.mp h
      cases children with
      | nil => exact absurd rfl filled
      | cons first rest =>
          rw [spliced_flattened_sequence, List.flatMap_cons]
          refine List.append_ne_nil_of_left_ne_nil ?_ _
          exact ih first List.mem_cons_self (hc first List.mem_cons_self)
            (hn first List.mem_cons_self)
  | _ =>
      rw [spliced_of_kind_ne (h.kind_flattened_ne nofun)]
      exact List.cons_ne_nil _ _

------------------------------------------------------------
-- Flattening keeps the contents

/-- What is found at a pattern itself ignores nesting: nothing is found at a sequence or at a choice
without identifier, and nothing about the parts of a group tells what is found at the group.
-/
structure IgnoresNesting {α : Type} (found : Pattern → Option α) : Prop where
  sequence : ∀ children, found (.sequence children) = none
  unnamed : ∀ parenthesized alternatives, found (.variant none parenthesized alternatives) = none
  optional
    : ∀ identifier left right,
        found (.optional identifier left) = found (.optional identifier right)
  variant
    : ∀ identifier parenthesized left right,
        found (.variant identifier parenthesized left)
        = found (.variant identifier parenthesized right)

section

variable {α : Type} {found : Pattern → Option α}

theorem IgnoresNesting.filterMap_sequence (h : IgnoresNesting found) (children : List Pattern)
    : (Pattern.sequence children).traverse.filterMap found
      = children.flatMap (fun child => child.traverse.filterMap found) := by
  rw [filterMap_traverse, h.sequence]
  rfl

theorem IgnoresNesting.flatMap_spliced (h : IgnoresNesting found) (p : Pattern)
    : p.spliced.flatMap (fun child => child.traverse.filterMap found)
      = p.traverse.filterMap found := by
  by_cases hk : p.kind = .sequence
  · cases p with
    | sequence children => exact (h.filterMap_sequence children).symm
    | _ => cases hk
  · rw [spliced_of_kind_ne hk, List.flatMap_singleton]

theorem IgnoresNesting.filterMap_ofSequence (h : IgnoresNesting found) (ps : List Pattern)
    : (ofSequence ps).traverse.filterMap found
      = ps.flatMap (fun p => p.traverse.filterMap found) := by
  by_cases hl : ps.length = 1
  · obtain ⟨p, rfl⟩ := List.length_eq_one_iff.mp hl
    rw [List.flatMap_singleton]
    rfl
  · rw [ofSequence_of_length_ne hl, h.filterMap_sequence]

/-- Flattening keeps what is found along the visit of a pattern, in order, by induction on the
pattern.
-/
theorem IgnoresNesting.filterMap_flattened (h : IgnoresNesting found) (p : Pattern)
    : p.flattened.traverse.filterMap found = p.traverse.filterMap found := by
  induction p with
  | literal text caseSensitive => rfl
  | parameter name typeName => rfl
  | tail name => rfl
  | optional identifier inner ih =>
      rw [flattened, filterMap_traverse, filterMap_traverse found (.optional identifier inner),
        h.optional identifier inner.flattened inner, children, children, List.flatMap_singleton,
        List.flatMap_singleton, ih]
  | variant identifier parenthesized alternatives ih =>
      by_cases hi : identifier = none ∧ alternatives.length = 1
      · obtain ⟨rfl, hl⟩ := hi
        obtain ⟨alternative, rfl⟩ := List.length_eq_one_iff.mp hl
        rw [flattened, filterMap_traverse found (.variant none parenthesized [alternative]),
          h.unnamed, children, List.flatMap_singleton, ih alternative (List.mem_singleton.mpr rfl)]
        rfl
      · rw [flattened_variant (Decidable.not_and_iff_not_or_not.mp hi), filterMap_traverse,
          filterMap_traverse found (.variant identifier parenthesized alternatives),
          h.variant identifier parenthesized _ alternatives, children, children, List.flatMap_map,
          List.flatMap_congr ih]
  | sequence children ih =>
      rw [flattened_sequence, h.filterMap_ofSequence, List.flatMap_assoc, h.filterMap_sequence]
      simp only [h.flatMap_spliced]
      exact List.flatMap_congr ih

end

theorem ignoresNesting_boundName? : IgnoresNesting boundName? :=
  ⟨fun _ => rfl, fun _ _ => rfl, fun _ _ _ => rfl, fun _ _ _ _ => rfl⟩

theorem ignoresNesting_isLeaf : IgnoresNesting (Option.guard isLeaf) :=
  ⟨fun _ => rfl, fun _ _ => rfl, fun _ _ _ => rfl, fun _ _ _ _ => rfl⟩

/-- What a pattern contributes to a sequence binds the names of the pattern. -/
theorem flatMap_bindingNames_spliced (p : Pattern)
    : p.spliced.flatMap bindingNames = p.bindingNames :=
  ignoresNesting_boundName?.flatMap_spliced p

/-- Flattening keeps the names that a pattern binds. -/
theorem bindingNames_flattened (p : Pattern) : p.flattened.bindingNames = p.bindingNames :=
  ignoresNesting_boundName?.filterMap_flattened p

/-- Flattening keeps the leaves of a pattern. -/
theorem leaves_flattened (p : Pattern) : p.flattened.leaves = p.leaves := by
  rw [leaves_eq_filterMap, leaves_eq_filterMap]
  exact ignoresNesting_isLeaf.filterMap_flattened p

/-- What a pattern contributes to a sequence has no more levels than the pattern. -/
theorem depth_le_of_mem_spliced {p q : Pattern} (member : q ∈ p.spliced)
    : q.depth ≤ p.depth := by
  by_cases hk : p.kind = .sequence
  · cases p with
    | sequence children =>
        have part : q ∈ (sequence children).children := member
        exact Nat.le_of_lt (depth_lt_of_mem_children part)
    | _ => cases hk
  · rw [spliced_of_kind_ne hk] at member
    exact Nat.le_of_eq (congrArg depth (List.mem_singleton.mp member))

theorem depth_ofSequence_le (ps : List Pattern) : (ofSequence ps).depth ≤ 1 + depthAll ps := by
  by_cases hl : ps.length = 1
  · obtain ⟨p, rfl⟩ := List.length_eq_one_iff.mp hl
    exact Nat.le_trans (depth_le_depthAll (List.mem_singleton.mpr rfl)) (Nat.le_add_left _ 1)
  · have heq : (ofSequence ps).depth = 1 + depthAll ps := by
      rw [ofSequence_of_length_ne hl, depth]
    exact Nat.le_of_eq heq

/-- Flattening makes no pattern deeper, by induction on the pattern. -/
theorem depth_flattened_le (p : Pattern) : p.flattened.depth ≤ p.depth := by
  induction p with
  | literal text caseSensitive => exact Nat.le_refl 1
  | parameter name typeName => exact Nat.le_refl 1
  | tail name => exact Nat.le_refl 1
  | optional identifier inner ih =>
      rw [flattened, depth, depth]
      exact Nat.add_le_add_left ih 1
  | variant identifier parenthesized alternatives ih =>
      by_cases hi : identifier = none ∧ alternatives.length = 1
      · obtain ⟨rfl, hl⟩ := hi
        obtain ⟨alternative, rfl⟩ := List.length_eq_one_iff.mp hl
        have part : alternative ∈ (variant none parenthesized [alternative]).children :=
          List.mem_singleton.mpr rfl
        rw [flattened]
        exact Nat.le_trans (ih alternative part) (Nat.le_of_lt (depth_lt_of_mem_children part))
      · rw [flattened_variant (Decidable.not_and_iff_not_or_not.mp hi), depth, depth]
        refine Nat.add_le_add_left (depthAll_le fun q hq => ?_) 1
        obtain ⟨alternative, ha, rfl⟩ := List.mem_map.mp hq
        exact Nat.le_trans (ih alternative ha) (depth_le_depthAll ha)
  | sequence children ih =>
      rw [flattened_sequence, depth]
      apply Nat.le_trans (depth_ofSequence_le _)
      refine Nat.add_le_add_left (depthAll_le fun q hq => ?_) 1
      obtain ⟨child, hc, hq⟩ := List.mem_flatMap.mp hq
      calc q.depth
          ≤ child.flattened.depth := depth_le_of_mem_spliced hq
        _ ≤ child.depth := ih child hc
        _ ≤ depthAll children := depth_le_depthAll hc

end CallGrammar.Pattern

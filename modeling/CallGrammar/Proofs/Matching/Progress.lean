import CallGrammar.Proofs.Matching.Resolution

/-! What decisions add to a tally, and how far they take a run through its tokens. Both add up
along a run, and survive the branches that groups are tried on.
-/

namespace CallGrammar

variable {σ : Type} [Scale σ]

/-- A tally after some decisions. Scores add up on an exact scale. -/
structure Tally.Notes (tally : Tally σ) (decisions : List Decision) (after : Tally σ) : Prop where
  raw_eq : after.raw = tally.raw
  score_eq [ExactScale σ]
    : after.score = tally.score + total (decisions.filterMap Decision.leaf?)
  bindings_eq
    : after.bindings = tally.bindings.insertAll (decisions.filterMap Decision.entry?)
  optionals_eq : after.optionals = tally.optionals ++ decisions.filterMap Decision.presence?
  variants_eq : after.variants = tally.variants ++ decisions.filterMap Decision.choice?
  terminated_eq
    : after.terminated
      = (tally.terminated || (decisions.filterMap Decision.leaf?).any Leaf.isTail)

namespace Tally.Notes

/-- Depth does not count. -/
theorem leave {tally after : Tally σ} {decisions : List Decision}
    (h : tally.enter.Notes decisions after)
    : tally.Notes decisions after.leave :=
  ⟨h.raw_eq, h.score_eq, h.bindings_eq, h.optionals_eq, h.variants_eq, h.terminated_eq⟩

/-- Nor does the hint. -/
theorem hinted {tally after : Tally σ} {decisions : List Decision}
    (h : tally.Notes decisions after) (hint : Option (Mismatch σ))
    : tally.Notes decisions { after with hint := hint } :=
  ⟨h.raw_eq, h.score_eq, h.bindings_eq, h.optionals_eq, h.variants_eq, h.terminated_eq⟩

theorem nil (tally : Tally σ) : tally.Notes [] tally where
  raw_eq := rfl
  score_eq := (ExactScale.add_zero _).symm
  bindings_eq := rfl
  optionals_eq := (List.append_nil _).symm
  variants_eq := (List.append_nil _).symm
  terminated_eq := (Bool.or_false _).symm

/-- Decisions one after the other add up. -/
theorem append {tally middle after : Tally σ} {first second : List Decision}
    (hf : tally.Notes first middle) (hs : middle.Notes second after)
    : tally.Notes (first ++ second) after where
  raw_eq := hs.raw_eq.trans hf.raw_eq
  score_eq := by
    intro exactScale
    rw [hs.score_eq, hf.score_eq, List.filterMap_append, total_append, ExactScale.add_assoc]
  bindings_eq := by
    rw [hs.bindings_eq, hf.bindings_eq, List.filterMap_append, NameMap.insertAll_append]
  optionals_eq := by
    rw [hs.optionals_eq, hf.optionals_eq, List.filterMap_append, List.append_assoc]
  variants_eq := by
    rw [hs.variants_eq, hf.variants_eq, List.filterMap_append, List.append_assoc]
  terminated_eq := by
    rw [hs.terminated_eq, hf.terminated_eq, List.filterMap_append, List.any_append, Bool.or_assoc]

/-- What a branch notes is noted by joining it. -/
theorem join {tally branch after : Tally σ} {decisions : List Decision}
    (h : tally.branch.Notes decisions branch)
    : after.Notes decisions (after.join branch) where
  raw_eq := rfl
  score_eq := by
    intro exactScale
    have hs : branch.score = 0 + total (decisions.filterMap Decision.leaf?) := h.score_eq
    rw [ExactScale.zero_add] at hs
    rw [← hs]
    rfl
  bindings_eq := by
    have hb : branch.bindings = NameMap.insertAll ∅ (decisions.filterMap Decision.entry?) :=
      h.bindings_eq
    have hj : (after.join branch).bindings = after.bindings.union branch.bindings := rfl
    rw [hj, hb, NameMap.union_insertAll, NameMap.union_empty]
  optionals_eq := by
    have ho : branch.optionals = decisions.filterMap Decision.presence? := h.optionals_eq
    rw [← ho]
    rfl
  variants_eq := by
    have hv : branch.variants = decisions.filterMap Decision.choice? := h.variants_eq
    rw [← hv]
    rfl
  terminated_eq := by
    have ht : branch.terminated = (decisions.filterMap Decision.leaf?).any Leaf.isTail :=
      h.terminated_eq
    rw [← ht]
    rfl

/-- Recording an optional group is deciding about it. -/
theorem recordOptional (tally : Tally σ) (identifier : Option String) (present : Bool)
    : tally.Notes [.optional identifier present] (tally.recordOptional identifier present) := by
  cases identifier with
  | none => exact { nil tally with optionals_eq := rfl }
  | some name => exact { nil tally with bindings_eq := rfl }

/-- So is recording a variant. -/
theorem recordVariant (tally : Tally σ) (identifier : Option String) (index : Nat)
    : tally.Notes [.variant identifier index] (tally.recordVariant identifier index) := by
  cases identifier with
  | none => exact { nil tally with variants_eq := rfl }
  | some name => exact { nil tally with bindings_eq := rfl }

theorem literal (tally : Tally σ) (text : String) (caseSensitive : Bool) (token : Token)
    : tally.Notes [.leaf (.literal text caseSensitive token)] (tally.award Scale.literal) :=
  { nil tally with score_eq := congrArg (tally.score + ·) (ExactScale.add_zero _).symm }

theorem parameter (tally : Tally σ) (name : String) (typeName : Option String) (token : Token)
    (value : Value)
    : tally.Notes [.leaf (.parameter name typeName token value)]
        ((tally.bind name value).award Scale.parameter) :=
  { nil tally with
    score_eq := congrArg (tally.score + ·) (ExactScale.add_zero _).symm
    bindings_eq := rfl }

theorem tail (tally : Tally σ) (name : String) (tokens : List Token) (text : String)
    : tally.Notes [.leaf (.tail name tokens text)]
        { (tally.bind name (.str text)).award Scale.tail with terminated := true } :=
  { nil tally with
    score_eq := congrArg (tally.score + ·) (ExactScale.add_zero _).symm
    bindings_eq := rfl
    terminated_eq := (Bool.or_true _).symm }

end Tally.Notes

/-- Decisions account for a stretch of a run: the tally notes them, their leaves take the tokens
in turn that the run took, and nothing is left behind a tail.
-/
structure Progress (m : Matcher) (tally : Tally σ) (tokens : List Token)
    (decisions : List Decision) (rest : List Token) (after : Tally σ) : Prop where
  notes : tally.Notes decisions after
  takes : ∃ taken,
    tokens = taken ++ rest
    ∧ TakeInTurn m tally.raw (decisions.filterMap Decision.leaf?) taken
  ended : after.terminated = true → rest = []

namespace Progress

theorem leave {m : Matcher} {tally after : Tally σ} {tokens rest : List Token}
    {decisions : List Decision} (h : Progress m tally.enter tokens decisions rest after)
    : Progress m tally tokens decisions rest after.leave :=
  ⟨h.notes.leave, h.takes, h.ended⟩

/-- A decision about a group takes no tokens. -/
theorem group {m : Matcher} {tally after : Tally σ} {decision : Decision}
    (notes : tally.Notes [decision] after) (hg : decision.leaf? = none)
    (ht : tally.terminated = false) (tokens : List Token)
    : Progress m tally tokens [decision] tokens after where
  notes := notes
  takes := ⟨[], rfl, by simpa [hg] using .done⟩
  ended h := by
    rw [notes.terminated_eq, ht] at h
    simp [hg] at h

theorem nil (m : Matcher) {tally : Tally σ} (ht : tally.terminated = false)
    (tokens : List Token)
    : Progress m tally tokens [] tokens tally where
  notes := .nil tally
  takes := ⟨[], rfl, .done⟩
  ended h := by simp [ht] at h

/-- Stretches of a run that is not ended in between add up. -/
theorem append {m : Matcher} {tally middle after : Tally σ} {tokens left rest : List Token}
    {first second : List Decision} (hf : Progress m tally tokens first left middle)
    (ht : middle.terminated = false) (hs : Progress m middle left second rest after)
    : Progress m tally tokens (first ++ second) rest after where
  notes := hf.notes.append hs.notes
  takes := by
    obtain ⟨taken, rfl, hl⟩ := hf.takes
    obtain ⟨others, rfl, hr⟩ := hs.takes
    have hn := hf.notes.terminated_eq
    rw [ht, eq_comm, Bool.or_eq_false_iff] at hn
    rw [hf.notes.raw_eq] at hr
    refine ⟨taken ++ others, (List.append_assoc _ _ _).symm, ?_⟩
    rw [List.filterMap_append]
    exact hl.append hn.2 hr
  ended := hs.ended

/-- What happened on a branch happened to the tally that it is joined to. -/
theorem join {m : Matcher} {tally after branch : Tally σ} {tokens rest : List Token}
    {decisions : List Decision} (h : Progress m tally.branch tokens decisions rest branch)
    (ht : after.terminated = false) (hr : after.raw = tally.raw)
    : Progress m after tokens decisions rest (after.join branch) where
  notes := h.notes.join
  takes := by
    rw [hr]
    exact h.takes
  ended hj := by
    have hb : (after.join branch).terminated = (after.terminated || branch.terminated) := rfl
    rw [hb, ht] at hj
    exact h.ended hj

/-- A decided group that holds what a branch found. -/
theorem grouped {m : Matcher} {tally after branch : Tally σ} {tokens rest : List Token}
    {decision : Decision} {decisions : List Decision} (notes : tally.Notes [decision] after)
    (hg : decision.leaf? = none) (ht : tally.terminated = false)
    (h : Progress m tally.branch tokens decisions rest branch)
    : Progress m tally tokens (decision :: decisions) rest (after.join branch) := by
  have ha : after.terminated = false := by
    rw [notes.terminated_eq, ht]
    simp [hg]
  exact (group notes hg ht tokens).append ha (h.join ha notes.raw_eq)

end Progress

end CallGrammar

import CallGrammar.Proofs.Decimal.FloatBits
import CallGrammar.Proofs.Matching.Scores

/-! Rounded scores. Sums of what matches are never negative and always numbers, whatever is
rounded on the way, so floating-point scores are ordered.
-/

namespace CallGrammar

/-- Floating-point scores are unsigned, by induction on the sum. -/
theorem IsScore.isUnsigned {score : Float} (h : IsScore score)
    : IsUnsigned score.toModel.unpack := by
  induction h with
  | zero => exact rfl
  | literal => exact rfl
  | parameter => exact rfl
  | tail => exact rfl
  | add _ _ hl hr => exact isUnsigned_unpack_pack (hl.add hr .binary64)

theorem IsScore.lt_iff_rank {a b : Float} (ha : IsScore a) (hb : IsScore b)
    : a < b ↔ rank a.toModel.unpack < rank b.toModel.unpack := by
  rw [← ha.isUnsigned.lt_iff hb.isUnsigned]
  exact decide_eq_true_iff

theorem IsScore.le_iff_rank {a b : Float} (ha : IsScore a) (hb : IsScore b)
    : a ≤ b ↔ rank a.toModel.unpack ≤ rank b.toModel.unpack := by
  rw [← ha.isUnsigned.le_iff hb.isUnsigned]
  exact decide_eq_true_iff

instance : OrderedScale Float where
  not_lt ha hb := by
    rw [ha.lt_iff_rank hb, hb.le_iff_rank ha]
    exact not_lt
  le_trans ha hb hc hab hbc := by
    rw [ha.le_iff_rank hb] at hab
    rw [hb.le_iff_rank hc] at hbc
    exact (ha.le_iff_rank hc).mpr (hab.trans hbc)
  le_total ha hb := by
    rw [ha.le_iff_rank hb, hb.le_iff_rank ha]
    exact le_total _ _
  eq_zero_of_le ha h :=
    eq_zero_of_unpack (ha.isUnsigned.eq_zero_of_rank_le ((ha.le_iff_rank .zero).mp h))

end CallGrammar

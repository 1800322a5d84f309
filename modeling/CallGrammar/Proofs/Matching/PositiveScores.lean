import CallGrammar.Proofs.Matching.RoundedScores
import Mathlib.Algebra.Order.Ring.Rat
import Mathlib.Tactic.Positivity

/-! Scores above zero. Everything that matches counts, and what counts is not lost in a sum: a sum
of reachable scores is zero only if both are, even where sums are rounded.
-/

namespace CallGrammar

/-- A scale is positive if whatever matches counts and no sum of reachable scores loses it. -/
class PositiveScale (σ : Type) [Scale σ] : Prop where
  literal_ne_zero : (Scale.literal : σ) ≠ 0
  parameter_ne_zero : (Scale.parameter : σ) ≠ 0
  tail_ne_zero : (Scale.tail : σ) ≠ 0
  add_eq_zero_iff {a b : σ} : IsScore a → IsScore b → (a + b = 0 ↔ a = 0 ∧ b = 0)

instance : PositiveScale Rat where
  literal_ne_zero := by decide
  parameter_ne_zero := by decide
  tail_ne_zero := by decide
  add_eq_zero_iff ha hb := add_eq_zero_iff_of_nonneg ha.nonneg hb.nonneg

------------------------------------------------------------
-- Rounding

open Float.Model Float.Model.UnpackedFloat

/-- A number above zero that can be stored but for being too large: its mantissa fits, and its
exponent is not below the least one.
-/
def IsPositive : UnpackedFloat → Prop
  | .notANumber | .zero _ => False
  | .infinity sign => sign = .positive
  | .finite sign mantissa exponent _ =>
      sign = .positive ∧ mantissa.log2 ≤ 52 ∧ -1074 ≤ exponent

/-- Shifting drops low bits, by induction on their number. -/
theorem mantissa_shiftRight (extended : ExtendedMantissa) (amount : Nat)
    : (extended >>> amount).mantissa = extended.mantissa / 2 ^ amount := by
  induction amount with
  | zero => exact (Nat.div_one _).symm
  | succ amount ih =>
      have hstep : (extended >>> (amount + 1)).mantissa = (extended >>> amount).mantissa / 2 := rfl
      rw [hstep, ih, Nat.div_div_eq_div_mul, pow_succ]

theorem mantissa_ofMantissaAndAccuracy (mantissa : Nat) (accuracy : Accuracy)
    : (ExtendedMantissa.ofMantissaAndAccuracy mantissa accuracy).mantissa = mantissa := by
  match accuracy with
  | .exact | .inexact .lt | .inexact .eq | .inexact .gt => rfl

theorem mantissa_le_roundedMantissa (extended : ExtendedMantissa)
    : extended.mantissa ≤ extended.roundedMantissa := by
  match extended with
  | ⟨mantissa, false, false⟩ | ⟨mantissa, false, true⟩ => exact Nat.le_refl mantissa
  | ⟨mantissa, true, false⟩ | ⟨mantissa, true, true⟩ => exact Nat.le_add_right mantissa _

/-- Shifting to the exponent that a number should have leaves its highest bit, unless the exponent
was below the least one.
-/
theorem shiftToTargetExponent_bounds {mantissa : Nat} {exponent : Int} (filled : 0 < mantissa)
    (least : -1074 ≤ exponent) (accuracy : Accuracy) {shifted : ExtendedMantissa} {target : Int}
    (h : shiftToTargetExponent .binary64 mantissa exponent accuracy = (shifted, target))
    : 0 < shifted.mantissa ∧ shifted.mantissa.log2 ≤ 52 ∧ -1074 ≤ target := by
  obtain ⟨rfl, rfl⟩ := Prod.mk.inj h
  generalize hamount : (Format.binary64.targetExponent (totalExponent mantissa exponent)
    - exponent).toNat = amount
  have hbounds : amount ≤ mantissa.log2 ∧ mantissa.log2 ≤ 52 + amount := by
    simp only [Format.targetExponent, totalExponent, Format.mantissaBits, Format.minExponent]
      at hamount
    norm_num at hamount
    omega
  rw [mantissa_shiftRight, mantissa_ofMantissaAndAccuracy]
  have hself : 2 ^ mantissa.log2 ≤ mantissa := Nat.log2_self_le (Nat.ne_of_gt filled)
  have hpos : 0 < mantissa / 2 ^ amount := by
    refine Nat.div_pos (Nat.le_trans ?_ hself) (by positivity)
    exact Nat.pow_le_pow_right (by decide) hbounds.1
  refine ⟨hpos, ?_, by omega⟩
  have hsmall : mantissa / 2 ^ amount < 2 ^ 53 := by
    rw [Nat.div_lt_iff_lt_mul (by positivity), ← pow_add]
    refine Nat.lt_of_lt_of_le Nat.lt_log2_self (Nat.pow_le_pow_right (by decide) ?_)
    omega
  exact Nat.le_of_lt_succ ((Nat.log2_lt (Nat.ne_of_gt hpos)).mpr hsmall)

/-- Rounding does not take a number to zero whose exponent is not below the least one. -/
theorem isPositive_round {mantissa : Nat} {exponent : Int} (filled : 0 < mantissa)
    (least : -1074 ≤ exponent)
    : IsPositive (UnpackedFloat.round .binary64 .positive mantissa exponent) := by
  unfold UnpackedFloat.round
  dsimp only [decreaseExponent]
  generalize htarget : Format.binary64.targetExponent (totalExponent mantissa exponent) = target
  have htarget' : -1074 ≤ target := by
    rw [← htarget]
    exact Int.le_max_right _ _
  have hshifted : 0 < mantissa <<< (exponent - target).toNat := by
    rw [Nat.shiftLeft_eq]
    positivity
  have hlower : -1074 ≤ exponent - (exponent - target).toNat := by omega
  -- The first shift keeps a bit, rounding takes none away, and so does the second shift.
  obtain ⟨first, middle, hfirst⟩ : ∃ first middle, shiftToTargetExponent .binary64
      (mantissa <<< (exponent - target).toNat) (exponent - (exponent - target).toNat) .exact
        = (first, middle) := ⟨_, _, rfl⟩
  obtain ⟨hpos, -, hmiddle⟩ := shiftToTargetExponent_bounds hshifted hlower .exact hfirst
  obtain ⟨second, last, hsecond⟩ : ∃ second last, shiftToTargetExponent .binary64
      first.roundedMantissa middle .exact = (second, last) := ⟨_, _, rfl⟩
  obtain ⟨hpos', hbits, hlast⟩ := shiftToTargetExponent_bounds
    (Nat.lt_of_lt_of_le hpos (mantissa_le_roundedMantissa first)) hmiddle .exact hsecond
  unfold roundWithAccuracy
  rw [hfirst]
  dsimp only
  rw [hsecond]
  dsimp only
  rw [dif_neg (Nat.ne_of_gt hpos')]
  exact ⟨rfl, hbits, hlast⟩

theorem isPositive_normalize {mantissa : Int} {exponent : Int} (filled : 0 < mantissa)
    (least : -1074 ≤ exponent)
    : IsPositive (UnpackedFloat.normalize .binary64 mantissa exponent .positive) := by
  have hc : compare mantissa 0 = .gt := Int.compare_eq_gt.mpr filled
  rw [UnpackedFloat.normalize, hc]
  exact isPositive_round (by omega) least

/-- Zero, or a number above it. -/
def IsZeroOrPositive (number : UnpackedFloat) : Prop :=
  number = .zero .positive ∨ IsPositive number

theorem IsPositive.zero_add {number : UnpackedFloat} (h : IsPositive number)
    : IsPositive (UnpackedFloat.add .binary64 (.zero .positive) number) := by
  cases number with
  | notANumber => exact h.elim
  | zero sign => exact h.elim
  | infinity sign => exact h
  | finite sign mantissa exponent filled => exact h

/-- Adding leaves a number above zero, by cases on what is added. -/
theorem IsPositive.add {left right : UnpackedFloat} (hl : IsPositive left)
    (hr : IsZeroOrPositive right)
    : IsPositive (UnpackedFloat.add .binary64 left right) := by
  cases left with
  | notANumber => exact hl.elim
  | zero sign => exact hl.elim
  | infinity sign =>
      cases hl
      rcases hr with rfl | hr
      · exact rfl
      · cases right with
        | notANumber => exact hr.elim
        | zero sign => exact rfl
        | infinity sign =>
            cases hr
            exact rfl
        | finite sign mantissa exponent filled => exact rfl
  | finite sign mantissa exponent filled =>
      rcases hr with rfl | hr
      · exact hl
      · obtain ⟨rfl, -, hleast⟩ := hl
        cases right with
        | notANumber => exact hr.elim
        | zero sign => exact hr.elim
        | infinity sign => exact hr
        | finite sign mantissa' exponent' filled' =>
            obtain ⟨rfl, -, hleast'⟩ := hr
            have hshift (bits amount : Nat) (filled : 0 < bits) : 0 < bits <<< amount := by
              rw [Nat.shiftLeft_eq]
              positivity
            refine isPositive_normalize (Int.add_pos ?_ ?_) (by omega)
            · exact Int.natCast_pos.mpr (hshift _ _ filled)
            · exact Int.natCast_pos.mpr (hshift _ _ filled')

------------------------------------------------------------
-- Storing

/-- Stored numbers without a sign are zero or above it. -/
theorem isZeroOrPositive_unpack {bits : BitVec Format.binary64.numBits}
    (h : IsUnsigned (unpack .binary64 bits))
    : IsZeroOrPositive (unpack .binary64 bits) := by
  have hbits {number : Nat} (hlt : number < 2 ^ 53) : number.log2 ≤ 52 := by
    by_cases hz : number = 0
    · simp [hz]
    · exact Nat.le_of_lt_succ ((Nat.log2_lt hz).mpr hlt)
  have hbias : (Format.binary64.exponentBias : Int) = 1023 := rfl
  unfold UnpackedFloat.unpack at h ⊢
  dsimp only at h ⊢
  split at h
  · rename_i hexponent
    rw [if_pos hexponent]
    split at h
    · rename_i hmantissa
      rw [if_pos hmantissa]
      exact .inr h
    · exact h.elim
  · rename_i hexponent
    rw [if_neg hexponent]
    split at h
    · rename_i hlow
      rw [if_pos hlow]
      split at h
      · rename_i hmantissa
        rw [dif_pos hmantissa]
        exact .inl (congrArg _ h)
      · rename_i hmantissa
        rw [dif_neg hmantissa]
        refine .inr ⟨h, hbits (Nat.lt_trans (unpackMantissa bits).isLt (by decide)), ?_⟩
        rw [hbias]
        omega
    · rename_i hlow
      rw [if_neg hlow]
      have hpos : 0 < (unpackExponent bits).toNat :=
        Nat.pos_of_ne_zero fun hz => hlow (BitVec.eq_of_toNat_eq hz)
      refine .inr ⟨h, hbits (1#1 ++ unpackMantissa bits).isLt, ?_⟩
      rw [hbias]
      omega

/-- Storing a number above zero does not make it zero. -/
theorem IsPositive.unpack_pack_ne_zero {number : UnpackedFloat} (h : IsPositive number)
    (sign : Sign)
    : unpack .binary64 (pack .binary64 number) ≠ .zero sign := by
  have stored {sign' : Sign} {exponent : BitVec 11} {mantissa : BitVec 52}
      (hparts : exponent = 0#11 → mantissa ≠ 0#52)
      : unpack .binary64 (packComponents .binary64 sign' exponent mantissa) ≠ .zero sign := by
    unfold UnpackedFloat.unpack
    simp only [unpackMantissa_packComponents, unpackExponent_packComponents]
    split
    · split <;> exact nofun
    · split
      · rename_i hlow
        rw [dif_neg (hparts hlow)]
        exact nofun
      · exact nofun
  cases number with
  | notANumber => exact h.elim
  | zero sign => exact h.elim
  | infinity sign => exact stored nofun
  | finite sign mantissa exponent filled =>
      obtain ⟨-, hbits, hleast⟩ := h
      have hbias : (Format.binary64.exponentBias : Int) = 1023 := rfl
      unfold UnpackedFloat.pack
      dsimp only
      rw [hbias]
      split
      · exact stored nofun
      · rename_i hlow
        split
        · refine stored fun he => ?_
          have hn := congrArg BitVec.toNat he
          rw [BitVec.toNat_ofNat, BitVec.toNat_ofNat] at hn
          omega
        · rename_i hsubnormal
          refine stored fun _ he => ?_
          have hn := congrArg BitVec.toNat he
          have hmantissaBits : Format.binary64.mantissaBits = 53 := rfl
          have hsmall : mantissa < 2 ^ 52 := by
            rw [← Nat.log2_lt (Nat.ne_of_gt filled)]
            omega
          rw [BitVec.toNat_ofNat, Nat.mod_eq_of_lt hsmall] at hn
          exact absurd hn (Nat.ne_of_gt filled)

------------------------------------------------------------
-- Scores

theorem IsScore.isZeroOrPositive {score : Float} (h : IsScore score)
    : IsZeroOrPositive score.toModel.unpack :=
  isZeroOrPositive_unpack h.isUnsigned

/-- A sum of floating-point scores is zero only if both are, by cases on both. -/
theorem IsScore.eq_zero_of_add_eq_zero {a b : Float} (ha : IsScore a) (hb : IsScore b)
    (h : a + b = 0)
    : a = 0 ∧ b = 0 := by
  have hsum : unpack .binary64 (pack .binary64
      (UnpackedFloat.add .binary64 a.toModel.unpack b.toModel.unpack)) = .zero .positive := by
    have hu : (a + b).toModel.unpack = (0 : Float).toModel.unpack := by rw [h]
    exact hu
  rcases ha.isZeroOrPositive with hza | hpa
  · rcases hb.isZeroOrPositive with hzb | hpb
    · exact ⟨eq_zero_of_unpack hza, eq_zero_of_unpack hzb⟩
    · rw [hza] at hsum
      exact absurd hsum (hpb.zero_add.unpack_pack_ne_zero _)
  · exact absurd hsum ((hpa.add hb.isZeroOrPositive).unpack_pack_ne_zero _)

instance : PositiveScale Float where
  literal_ne_zero := by decide
  parameter_ne_zero := by decide
  tail_ne_zero := by decide
  add_eq_zero_iff ha hb := by
    refine ⟨ha.eq_zero_of_add_eq_zero hb, ?_⟩
    rintro ⟨rfl, rfl⟩
    rfl

end CallGrammar

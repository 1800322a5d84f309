import Mathlib

/-! Floating-point numbers and the bits that store them. Sums of numbers without a minus sign have
none either, whatever is rounded on the way, and such numbers are ordered. The laws of storing are
taken from the library, of which only the whole has them.
-/

namespace CallGrammar

open Float.Model Float.Model.UnpackedFloat

/-- Whatever is a number equals itself. -/
theorem beq_self_of_isNaN {number : Float} (h : number.isNaN = false)
    : (number == number) = true := by
  rw [Float.isNaN_eq_decide_eq_nan, decide_eq_false_iff_not] at h
  exact Float.beq_self_iff.mpr h

/-- Only zero is stored as zero. -/
theorem eq_zero_of_unpack {number : Float} (h : number.toModel.unpack = .zero .positive)
    : number = 0 := by
  rcases number with ⟨⟨⟨bits⟩, valid⟩⟩
  cases (unpack_eq_zero_iff_of_valid valid).mp h
  rfl

------------------------------------------------------------
-- Numbers without a minus sign

/-- A number without a minus sign; infinity counts as one. -/
def IsUnsigned : UnpackedFloat → Prop
  | .notANumber => False
  | .infinity sign => sign = .positive
  | .zero sign => sign = .positive
  | .finite sign _ _ _ => sign = .positive

------------------------------------------------------------
-- Sums

theorem isUnsigned_round (format : Format) (mantissa : Nat) (exponent : Int)
    : IsUnsigned (UnpackedFloat.round format .positive mantissa exponent) := by
  unfold UnpackedFloat.round UnpackedFloat.roundWithAccuracy
  dsimp only
  split <;> exact rfl

theorem isUnsigned_normalize (format : Format) {mantissa : Int} (h : 0 ≤ mantissa)
    (exponent : Int)
    : IsUnsigned (UnpackedFloat.normalize format mantissa exponent .positive) := by
  unfold UnpackedFloat.normalize
  split
  · rename_i hlt
    rw [Int.compare_eq_lt] at hlt
    omega
  · exact rfl
  · exact isUnsigned_round format _ exponent

/-- Adding keeps numbers unsigned, by cases on both. -/
theorem IsUnsigned.add {left right : UnpackedFloat} (hl : IsUnsigned left)
    (hr : IsUnsigned right) (format : Format)
    : IsUnsigned (UnpackedFloat.add format left right) := by
  cases left with
  | notANumber => exact hl.elim
  | infinity sign =>
      cases hl
      cases right with
      | notANumber => exact hr.elim
      | infinity sign =>
          cases hr
          exact rfl
      | zero sign => exact rfl
      | finite sign mantissa exponent filled => exact rfl
  | zero sign =>
      cases hl
      cases right with
      | notANumber => exact hr.elim
      | infinity sign => exact hr
      | zero sign =>
          cases hr
          exact rfl
      | finite sign mantissa exponent filled => exact hr
  | finite sign mantissa exponent filled =>
      cases hl
      cases right with
      | notANumber => exact hr.elim
      | infinity sign => exact hr
      | zero sign => exact rfl
      | finite sign mantissa exponent filled =>
          cases hr
          apply isUnsigned_normalize
          exact Int.add_nonneg (Int.natCast_nonneg _) (Int.natCast_nonneg _)

------------------------------------------------------------
-- Storing

/-- Stored bits without a sign give a number unless they have the highest exponent and a mantissa.
-/
theorem isUnsigned_unpack {exponent : BitVec 11} {mantissa : BitVec 52}
    (h : exponent = -1#11 → mantissa = 0#52)
    : IsUnsigned (unpack .binary64 (packComponents .binary64 .positive exponent mantissa)) := by
  unfold UnpackedFloat.unpack
  simp only [unpackMantissa_packComponents, unpackExponent_packComponents,
    unpackSign_packComponents, Sign.ofBitVec_toBitVec]
  split
  · rename_i he
    rw [if_pos (h he)]
    exact rfl
  · split
    · split <;> exact rfl
    · exact rfl

/-- Storing a number keeps it unsigned: an exponent that would be too high makes it infinite. -/
theorem isUnsigned_unpack_pack {number : UnpackedFloat} (h : IsUnsigned number)
    : IsUnsigned (unpack .binary64 (pack .binary64 number)) := by
  cases number with
  | notANumber => exact h.elim
  | infinity sign =>
      cases h
      exact isUnsigned_unpack fun _ => rfl
  | zero sign =>
      cases h
      exact isUnsigned_unpack fun _ => rfl
  | finite sign mantissa exponent filled =>
      cases h
      unfold UnpackedFloat.pack
      dsimp only
      split
      · exact isUnsigned_unpack fun _ => rfl
      · rename_i hlow
        split
        · apply isUnsigned_unpack
          intro he
          have hn := congrArg BitVec.toNat he
          rw [BitVec.toNat_ofNat] at hn
          have hmax : (-1#11).toNat = 2047 := rfl
          omega
        · apply isUnsigned_unpack
          intro he
          cases he

------------------------------------------------------------
-- Order

/-- Zero is below all other numbers and infinity above, and the rest are in the order of their
exponents and then of their mantissas.
-/
def rank : UnpackedFloat → Nat ×ₗ Int ×ₗ Nat
  | .notANumber | .zero _ => toLex (0, toLex (0, 0))
  | .finite _ mantissa exponent _ => toLex (1, toLex (exponent, mantissa))
  | .infinity _ => toLex (2, toLex (0, 0))

/-- Unsigned numbers compare as their ranks, by cases on both. -/
theorem IsUnsigned.lt_iff {left right : UnpackedFloat} (hl : IsUnsigned left)
    (hr : IsUnsigned right)
    : left.lt right = true ↔ rank left < rank right := by
  cases left <;> cases right <;> cases hl <;> cases hr <;>
    simp [UnpackedFloat.lt, UnpackedFloat.compare, rank, Prod.Lex.toLex_lt_toLex,
      Ordering.then_eq_lt, Int.compare_eq_lt, Nat.compare_eq_lt]

theorem IsUnsigned.le_iff {left right : UnpackedFloat} (hl : IsUnsigned left)
    (hr : IsUnsigned right)
    : left.le right = true ↔ rank left ≤ rank right := by
  cases left <;> cases right <;> cases hl <;> cases hr <;>
    simp [UnpackedFloat.le, UnpackedFloat.compare, rank, Prod.Lex.toLex_le_toLex,
      Ordering.isLE_then_iff_or, Int.compare_eq_lt, Nat.isLE_compare]
  rfl

/-- Nothing but zero ranks as low as zero. -/
theorem IsUnsigned.eq_zero_of_rank_le {number : UnpackedFloat} (hu : IsUnsigned number)
    (h : rank number ≤ rank (.zero .positive))
    : number = .zero .positive := by
  cases number with
  | notANumber => exact hu.elim
  | zero sign =>
      cases hu
      rfl
  | infinity sign => simp [rank, Prod.Lex.toLex_le_toLex] at h
  | finite sign mantissa exponent filled => simp [rank, Prod.Lex.toLex_le_toLex] at h

end CallGrammar

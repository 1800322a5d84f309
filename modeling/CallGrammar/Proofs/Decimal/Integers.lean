import CallGrammar.Coercion
import Mathlib.Algebra.Group.Int.Defs
import Mathlib.Data.Nat.Basic

/-! Integers are read exactly. A text is accepted as an integer if it is a numeral of a 64-bit
integer with blanks around it, and it then stands for the number that the numeral writes.
-/

namespace CallGrammar

------------------------------------------------------------
-- Blanks around a text

namespace Text

/-- Trimming takes blanks around characters away that are none. -/
theorem trim_surrounded {before inner after : List Char}
    (blankBefore : ∀ c ∈ before, isBlank c = true) (blankAfter : ∀ c ∈ after, isBlank c = true)
    (filled : inner ≠ []) (notBlank : ∀ c ∈ inner, isBlank c = false)
    : trim (before ++ inner ++ after) = inner := by
  have stays (cs rest : List Char) (hf : cs ≠ []) (hn : ∀ c ∈ cs, isBlank c = false)
      : (cs ++ rest).dropWhile isBlank = cs ++ rest := by
    obtain ⟨c, cs, rfl⟩ := List.exists_cons_of_ne_nil hf
    exact List.dropWhile_cons_of_neg (by simp [hn c List.mem_cons_self])
  have hfront : (before ++ inner ++ after).dropWhile isBlank = inner ++ after := by
    rw [List.append_assoc, List.dropWhile_append_of_pos blankBefore, stays inner _ filled notBlank]
  have hback : (inner ++ after).reverse.dropWhile isBlank = inner.reverse := by
    have h := stays inner.reverse [] (by simpa using filled) (by simpa using notBlank)
    rw [List.append_nil] at h
    rw [List.reverse_append, List.dropWhile_append_of_pos (by simpa using blankAfter), h]
  rw [trim, hfront, hback, List.reverse_reverse]

/-- What trimming takes away are blanks on both sides. -/
theorem exists_surrounding (cs : List Char)
    : ∃ before after,
        cs = before ++ trim cs ++ after
        ∧ (∀ c ∈ before, isBlank c = true)
        ∧ ∀ c ∈ after, isBlank c = true := by
  have taken (cs : List Char) : ∀ c ∈ cs.takeWhile isBlank, isBlank c = true :=
    List.all_eq_true.mp List.all_takeWhile
  let rest := cs.dropWhile isBlank
  have hback : trim cs ++ (rest.reverse.takeWhile isBlank).reverse = rest := by
    rw [trim, ← List.reverse_append, List.takeWhile_append_dropWhile, List.reverse_reverse]
  refine ⟨cs.takeWhile isBlank, (rest.reverse.takeWhile isBlank).reverse, ?_, taken cs, ?_⟩
  · rw [List.append_assoc, hback, List.takeWhile_append_dropWhile]
  · simpa using taken rest.reverse

end Text

------------------------------------------------------------
-- Numerals

namespace Decimal

/-- One or more ASCII digits. -/
structure IsDigits (digits : List Char) : Prop where
  filled : digits ≠ []
  isDigit : ∀ c ∈ digits, c.isDigit = true

/-- Characters that write an integer: an optional sign and one or more digits, with any number of
zeros in front.
-/
inductive Numeral : List Char → Int → Prop
  | unsigned {digits : List Char} {number : Int} (written : IsDigits digits)
    (value : number = Nat.ofDigitChars 10 digits 0)
    : Numeral digits number
  | plus {digits : List Char} {number : Int} (written : IsDigits digits)
    (value : number = Nat.ofDigitChars 10 digits 0)
    : Numeral ('+' :: digits) number
  | minus {digits : List Char} {number : Int} (written : IsDigits digits)
    (value : number = -Nat.ofDigitChars 10 digits 0)
    : Numeral ('-' :: digits) number

/-- No digit is blank, by its code point. -/
theorem isBlank_of_isDigit {c : Char} (h : c.isDigit = true) : Text.isBlank c = false := by
  obtain ⟨low, high⟩ : 48 ≤ c.toNat ∧ c.toNat ≤ 57 := by
    simpa [Char.isDigit, UInt32.le_iff_toNat_le] using h
  simp only [Text.isBlank, Bool.or_eq_false_iff, Bool.and_eq_false_iff, decide_eq_false_iff_not,
    beq_eq_false_iff_ne]
  omega

theorem Numeral.filled {cs : List Char} {number : Int} (h : Numeral cs number) : cs ≠ [] := by
  cases h with
  | unsigned written value => exact written.filled
  | plus written value => exact List.cons_ne_nil _ _
  | minus written value => exact List.cons_ne_nil _ _

theorem Numeral.notBlank {cs : List Char} {number : Int} (h : Numeral cs number)
    : ∀ c ∈ cs, Text.isBlank c = false := by
  have digits {cs : List Char} (written : IsDigits cs) : ∀ c ∈ cs, Text.isBlank c = false :=
    fun c hc => isBlank_of_isDigit (written.isDigit c hc)
  cases h with
  | unsigned written value => exact digits written
  | plus written value => exact List.forall_mem_cons.mpr ⟨by decide, digits written⟩
  | minus written value => exact List.forall_mem_cons.mpr ⟨by decide, digits written⟩

/-- The text of an integer is a numeral of it, by cases on its sign. -/
theorem numeral_toString (number : Int) : Numeral (toString number).toList number := by
  have written (n : Nat) : IsDigits (Nat.toDigits 10 n) :=
    ⟨Nat.toDigits_ne_nil, fun c hc => Nat.isDigit_of_mem_toDigits (by decide) (by decide) hc⟩
  rw [Int.toString_eq_repr]
  cases number with
  | ofNat n =>
      have htext : (Int.ofNat n).repr.toList = Nat.toDigits 10 n := Nat.toList_repr
      rw [htext]
      exact .unsigned (written n) (congrArg Int.ofNat Nat.ofDigitChars_ten_toDigits.symm)
  | negSucc n =>
      have htext : (Int.negSucc n).repr.toList = '-' :: Nat.toDigits 10 (n + 1) := by
        simp [Int.repr]
      rw [htext]
      refine .minus (written (n + 1)) ?_
      rw [Nat.ofDigitChars_ten_toDigits]
      rfl

------------------------------------------------------------
-- Reading numerals

theorem digit?_of_isDigit {c : Char} (h : c.isDigit = true)
    : digit? c = some (c.toNat - '0'.toNat) :=
  if_pos h

/-- More digits make no number smaller, by list induction. -/
theorem le_ofDigitChars (digits : List Char) (value : Nat)
    : value ≤ Nat.ofDigitChars 10 digits value := by
  induction digits generalizing value with
  | nil => exact Nat.le_of_eq Nat.ofDigitChars_nil.symm
  | cons c rest ih =>
      rw [Nat.ofDigitChars_cons]
      have h := ih (10 * value + (c.toNat - '0'.toNat))
      omega

/-- Digits are read as the number they write behind a value, exactly if it stays within the limit,
by list induction.
-/
theorem readMagnitude_eq_ok_iff {limit value magnitude : Nat} {overflow : IntegerError}
    {digits : List Char} (small : value ≤ limit)
    : readMagnitude limit overflow value digits = .ok magnitude
      ↔ (∀ c ∈ digits, c.isDigit = true)
        ∧ magnitude = Nat.ofDigitChars 10 digits value
        ∧ magnitude ≤ limit := by
  induction digits generalizing value with
  | nil =>
      rw [readMagnitude, Nat.ofDigitChars_nil, Except.ok.injEq]
      constructor
      · rintro rfl
        exact ⟨nofun, rfl, small⟩
      · exact fun h => h.2.1.symm
  | cons c rest ih =>
      rw [readMagnitude, Nat.ofDigitChars_cons, List.forall_mem_cons]
      by_cases hc : c.isDigit = true
      · rw [digit?_of_isDigit hc]
        dsimp only
        by_cases hlimit : 10 * value + (c.toNat - '0'.toNat) ≤ limit
        · rw [if_pos hlimit, ih hlimit]
          simp only [hc, true_and]
        · rw [if_neg hlimit]
          have hle := le_ofDigitChars rest (10 * value + (c.toNat - '0'.toNat))
          constructor
          · nofun
          · rintro ⟨-, rfl, hm⟩
            exact absurd (Nat.le_trans hle hm) hlimit
      · have hnone : digit? c = none := if_neg hc
        rw [hnone]
        constructor
        · nofun
        · exact fun h => absurd h.1.1 hc

theorem map_readMagnitude_eq_ok_iff {limit : Nat} {overflow : IntegerError} {digits : List Char}
    {value : Int → Int64} {number : Int64}
    : (readMagnitude limit overflow 0 digits).map value = .ok number
      ↔ (∀ c ∈ digits, c.isDigit = true)
        ∧ Nat.ofDigitChars 10 digits 0 ≤ limit
        ∧ value (Nat.ofDigitChars 10 digits 0) = number := by
  constructor
  · intro h
    cases hm : readMagnitude limit overflow 0 digits with
    | error e =>
        rw [hm] at h
        cases h
    | ok magnitude =>
        rw [hm] at h
        obtain ⟨hd, rfl, hle⟩ := (readMagnitude_eq_ok_iff (Nat.zero_le limit)).mp hm
        exact ⟨hd, hle, Except.ok.inj h⟩
  · rintro ⟨hd, hle, rfl⟩
    rw [(readMagnitude_eq_ok_iff (Nat.zero_le limit)).mpr ⟨hd, rfl, hle⟩]
    rfl

/-- A 64-bit integer is made of an integer in its range exactly if that is its value. -/
theorem ofInt_eq_iff {z : Int} {number : Int64}
    : (-2 ^ 63 ≤ z ∧ z ≤ 2 ^ 63 - 1) ∧ Int64.ofInt z = number ↔ number.toInt = z := by
  constructor
  · rintro ⟨⟨low, high⟩, rfl⟩
    exact Int64.toInt_ofInt_of_le low (by omega)
  · rintro rfl
    have high := number.toInt_lt
    exact ⟨⟨number.le_toInt, by omega⟩, number.ofInt_toInt⟩

/-- Behind a minus sign the digits may write any number up to `2 ^ 63`. -/
theorem readInteger_minus_eq_ok_iff {digits : List Char} {number : Int64}
    : readInteger ('-' :: digits) = .ok number
      ↔ IsDigits digits ∧ number.toInt = -Nat.ofDigitChars 10 digits 0 := by
  cases digits with
  | nil => exact iff_of_false nofun fun h => h.1.filled rfl
  | cons c rest =>
      have hread : readInteger ('-' :: c :: rest)
          = (readMagnitude (greatest + 1) .tooSmall 0 (c :: rest)).map
            (fun n => Int64.ofInt (-n)) := rfl
      rw [hread, map_readMagnitude_eq_ok_iff, ← ofInt_eq_iff, greatest]
      constructor
      · rintro ⟨hd, hle, rfl⟩
        exact ⟨⟨List.cons_ne_nil c rest, hd⟩, ⟨by omega, by omega⟩, rfl⟩
      · rintro ⟨written, ⟨low, high⟩, rfl⟩
        exact ⟨written.isDigit, by omega, rfl⟩

/-- Where the digits write a number as it is, it may be any one below `2 ^ 63`. -/
theorem map_readMagnitude_greatest_eq_ok_iff {digits : List Char} {number : Int64}
    (filled : digits ≠ [])
    : (readMagnitude greatest .tooLarge 0 digits).map (fun n => Int64.ofInt n) = .ok number
      ↔ IsDigits digits ∧ number.toInt = Nat.ofDigitChars 10 digits 0 := by
  rw [map_readMagnitude_eq_ok_iff, ← ofInt_eq_iff, greatest]
  constructor
  · rintro ⟨hd, hle, rfl⟩
    exact ⟨⟨filled, hd⟩, ⟨by omega, by omega⟩, rfl⟩
  · rintro ⟨written, ⟨low, high⟩, rfl⟩
    exact ⟨written.isDigit, by omega, rfl⟩

theorem readInteger_plus_eq_ok_iff {digits : List Char} {number : Int64}
    : readInteger ('+' :: digits) = .ok number
      ↔ IsDigits digits ∧ number.toInt = Nat.ofDigitChars 10 digits 0 := by
  cases digits with
  | nil => exact iff_of_false nofun fun h => h.1.filled rfl
  | cons c rest => exact map_readMagnitude_greatest_eq_ok_iff (List.cons_ne_nil c rest)

theorem readInteger_unsigned_eq_ok_iff {c : Char} {rest : List Char} {number : Int64}
    (notPlus : c ≠ '+') (notMinus : c ≠ '-')
    : readInteger (c :: rest) = .ok number
      ↔ IsDigits (c :: rest) ∧ number.toInt = Nat.ofDigitChars 10 (c :: rest) 0 := by
  have hread : readInteger (c :: rest)
      = (readMagnitude greatest .tooLarge 0 (c :: rest)).map (fun n => Int64.ofInt n) := by
    rw [readInteger.eq_def]
    split <;> simp_all
  rw [hread]
  exact map_readMagnitude_greatest_eq_ok_iff (List.cons_ne_nil c rest)

/-- A 64-bit integer is read from exactly its numerals, by cases on the sign. -/
theorem readInteger_eq_ok_iff {cs : List Char} {number : Int64}
    : readInteger cs = .ok number ↔ Numeral cs number.toInt := by
  constructor
  · intro h
    cases cs with
    | nil => cases h
    | cons c rest =>
        by_cases hplus : c = '+'
        · subst hplus
          obtain ⟨written, value⟩ := readInteger_plus_eq_ok_iff.mp h
          exact .plus written value
        by_cases hminus : c = '-'
        · subst hminus
          obtain ⟨written, value⟩ := readInteger_minus_eq_ok_iff.mp h
          exact .minus written value
        obtain ⟨written, value⟩ := (readInteger_unsigned_eq_ok_iff hplus hminus).mp h
        exact .unsigned written value
  · intro h
    cases h with
    | plus written value => exact readInteger_plus_eq_ok_iff.mpr ⟨written, value⟩
    | minus written value => exact readInteger_minus_eq_ok_iff.mpr ⟨written, value⟩
    | unsigned written value =>
        cases cs with
        | nil => exact absurd rfl written.filled
        | cons c rest =>
            have hc : c.isDigit = true := written.isDigit c List.mem_cons_self
            refine (readInteger_unsigned_eq_ok_iff ?_ ?_).mpr ⟨written, value⟩
            · rintro rfl
              cases hc
            · rintro rfl
              cases hc

end Decimal

------------------------------------------------------------
-- The type of integers

/-- A text writes an integer if it is a numeral of the integer with any blanks around it. -/
def WritesInteger (raw : String) (number : Int) : Prop :=
  ∃ before numeral after,
    raw.toList = before ++ numeral ++ after
    ∧ (∀ c ∈ before, Text.isBlank c = true)
    ∧ (∀ c ∈ after, Text.isBlank c = true)
    ∧ Decimal.Numeral numeral number

theorem writesInteger_iff {raw : String} {number : Int}
    : WritesInteger raw number ↔ Decimal.Numeral (Text.trim raw.toList) number := by
  constructor
  · rintro ⟨before, numeral, after, hraw, blankBefore, blankAfter, written⟩
    rw [hraw, Text.trim_surrounded blankBefore blankAfter written.filled written.notBlank]
    exact written
  · intro written
    obtain ⟨before, after, hraw, blankBefore, blankAfter⟩ := Text.exists_surrounding raw.toList
    exact ⟨before, _, after, hraw, blankBefore, blankAfter, written⟩

namespace Types

theorem coerce_int (raw : String)
    : builtin.coerce "int" raw
      = match Coercion.int raw with
        | .ok value => .ok value
        | .error message => .error (.rejected message) :=
  rfl

theorem coerce_int_eq_ok_iff {raw : String} {value : Value}
    : builtin.coerce "int" raw = .ok value
      ↔ ∃ number : Int64, WritesInteger raw number.toInt ∧ value = .int number := by
  simp only [writesInteger_iff, ← Decimal.readInteger_eq_ok_iff]
  rw [coerce_int, Coercion.int]
  cases Decimal.readInteger (Text.trim raw.toList) with
  | error e => simp
  | ok number => simp [eq_comm]

/-- Integers are read exactly over the whole range of 64 bits. A text is accepted as an integer
exactly if it writes one from `-2 ^ 63` to `2 ^ 63 - 1`, in decimal with any number of leading
zeros, with or without a sign, and with any blanks around it; its value is then the number it
writes. Any other text is rejected as an argument, which is no fault. So the text of every 64-bit
integer, with any blanks around it, is read as this integer.
-/
theorem coerce_int_exact
    : (∀ raw value,
        builtin.coerce "int" raw = .ok value
        ↔ ∃ z, ∃ number : Int64,
            WritesInteger raw z
            ∧ -2 ^ 63 ≤ z
            ∧ z ≤ 2 ^ 63 - 1
            ∧ number.toInt = z
            ∧ value = .int number)
      ∧ (∀ raw,
          (∀ value, builtin.coerce "int" raw ≠ .ok value)
          → ∃ message, builtin.coerce "int" raw = .error (.rejected message))
      ∧ ∀ (number : Int64) (before after : String),
          (∀ c ∈ before.toList, Text.isBlank c = true)
          → (∀ c ∈ after.toList, Text.isBlank c = true)
          → builtin.coerce "int" (before ++ (Value.int number).text ++ after)
            = .ok (.int number) := by
  refine ⟨?_, ?_, ?_⟩
  · intro raw value
    rw [coerce_int_eq_ok_iff]
    constructor
    · rintro ⟨number, written, rfl⟩
      obtain ⟨⟨low, high⟩, -⟩ := Decimal.ofInt_eq_iff.mpr (Eq.refl number.toInt)
      exact ⟨number.toInt, number, written, low, high, rfl, rfl⟩
    · rintro ⟨_, number, written, -, -, rfl, rfl⟩
      exact ⟨number, written, rfl⟩
  · intro raw refused
    rw [coerce_int] at refused ⊢
    cases hint : Coercion.int raw with
    | ok value => exact absurd (by rw [hint]) (refused value)
    | error message => exact ⟨message, rfl⟩
  · intro number before after blankBefore blankAfter
    refine coerce_int_eq_ok_iff.mpr ⟨number, ?_, rfl⟩
    refine ⟨before.toList, (toString number.toInt).toList, after.toList, ?_, blankBefore,
      blankAfter, Decimal.numeral_toString number.toInt⟩
    rw [Value.text, String.toList_append, String.toList_append]

/-- The least integer between a wide space and a line break, and the number behind the greatest
integer.
-/
theorem coerce_int_exact_ends
    : builtin.coerce "int" "\u2003-9223372036854775808\n" = .ok (.int Int64.minValue)
      ∧ ∃ message, builtin.coerce "int" "9223372036854775808" = .error (.rejected message) := by
  constructor
  · exact coerce_int_exact.2.2 Int64.minValue "\u2003" "\n" (by simp [Text.isBlank])
      (by simp [Text.isBlank])
  · apply coerce_int_exact.2.1
    intro value accepted
    cases accepted

end Types

end CallGrammar

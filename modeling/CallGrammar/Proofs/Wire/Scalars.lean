import CallGrammar.Proofs.Decimal.FloatBits
import CallGrammar.Wire.Scalar
import Mathlib.Tactic.Ring

/-! Scalars are read back from their bytes, whatever bytes follow them, and from no fewer bytes. -/

namespace CallGrammar.Wire

/-- Some bytes are the shortest form of an element: a reader takes the element from all of them,
whatever follows, and never takes it from fewer.
-/
structure ShortestForm {α : Type} (read : Reader α) (bytes : List UInt8) (element : α) : Prop where
  reads : ∀ rest, read (bytes ++ rest) = some (element, rest)
  shortest : ∀ {input rest}, read input = some (element, rest)
    → bytes.length + rest.length ≤ input.length

------------------------------------------------------------
-- Naturals of fixed width

@[simp]
theorem length_bigEndian (count n : Nat) : (bigEndian count n).length = count := by
  induction count with
  | zero => rfl
  | succ count ih => rw [bigEndian, List.length_cons, ih]

/-- The lowest bytes of a natural are read behind a value, by induction on their number. -/
theorem readBigEndian_bigEndian (count value n : Nat) (rest : List UInt8)
    : readBigEndian count value (bigEndian count n ++ rest)
      = some (256 ^ count * value + n % 256 ^ count, rest) := by
  induction count generalizing value with
  | zero => simp [readBigEndian, bigEndian, Nat.mod_one]
  | succ count ih =>
      have hbyte : ((n >>> (8 * count)).toUInt8).toNat = n / 256 ^ count % 256 := by
        rw [Nat.shiftRight_eq_div_pow, pow_mul]
        rfl
      rw [bigEndian, List.cons_append, readBigEndian, ih, hbyte, pow_succ, Nat.mod_mul]
      congr 2
      ring

theorem readBigEndian_bigEndian_of_lt {count n : Nat} (h : n < 256 ^ count) (rest : List UInt8)
    : readBigEndian count 0 (bigEndian count n ++ rest) = some (n, rest) := by
  rw [readBigEndian_bigEndian, Nat.mod_eq_of_lt h, Nat.mul_zero, Nat.zero_add]

/-- What is read from some bytes fits in them, by induction on their number. -/
theorem bounds_of_readBigEndian {count value n : Nat} {input rest : List UInt8}
    (h : readBigEndian count value input = some (n, rest))
    : input.length = count + rest.length ∧ n < 256 ^ count * (value + 1) := by
  induction count generalizing value input with
  | zero =>
      rw [readBigEndian] at h
      cases h
      simp
  | succ count ih =>
      cases input with
      | nil => cases h
      | cons byte input =>
          obtain ⟨hl, hn⟩ := ih h
          refine ⟨by rw [List.length_cons, hl]; omega, hn.trans_le ?_⟩
          rw [pow_succ, mul_assoc]
          exact Nat.mul_le_mul_left _ (by have := byte.toNat_lt; omega)

theorem fits_of_readBigEndian {count n : Nat} {input rest : List UInt8}
    (h : readBigEndian count 0 input = some (n, rest))
    : n < 256 ^ count ∧ input.length = count + rest.length := by
  obtain ⟨hlength, hlt⟩ := bounds_of_readBigEndian h
  exact ⟨by simpa using hlt, hlength⟩

/-- Some input starts with a head of one byte, which is all that is read if it is short, and which
is followed by some number of bytes that fits otherwise.
-/
def Headed (short : Prop) (counts : List Nat) (fits : Nat → Prop) (input rest : List UInt8)
    : Prop :=
  short ∧ input.length = 1 + rest.length
  ∨ ∃ count ∈ counts, fits count ∧ input.length = 1 + count + rest.length

section Headed

variable {short : Prop} {counts : List Nat} {fits : Nat → Prop} {head : UInt8}
  {input rest : List UInt8}

theorem headed_short (h : short) : Headed short counts fits (head :: rest) rest :=
  .inl ⟨h, Nat.add_comm ..⟩

theorem headed_wide {count : Nat} (hc : count ∈ counts)
    (h : fits count ∧ input.length = count + rest.length)
    : Headed short counts fits (head :: input) rest :=
  .inr ⟨count, hc, h.1, by rw [List.length_cons, h.2]; omega⟩

end Headed

------------------------------------------------------------
-- Integers

theorem readUnsigned_bigEndian {count n : Nat} (h : n < 256 ^ count) (rest : List UInt8)
    : readUnsigned count (bigEndian count n ++ rest) = some ((n : Int), rest) := by
  rw [readUnsigned, readBigEndian_bigEndian_of_lt h]
  rfl

theorem shiftLeft_eight_mul (count : Nat) : 1 <<< (8 * count) = 256 ^ count := by
  rw [Nat.shiftLeft_eq, Nat.one_mul, pow_mul]
  rfl

/-- A negative integer is read back from its two's complement. -/
theorem readSigned_bigEndian {count n : Nat} (h : 2 * (n + 1) ≤ 256 ^ count) (rest : List UInt8)
    : readSigned count (bigEndian count (256 ^ count - 1 - n) ++ rest)
      = some (.negSucc n, rest) := by
  have hneg : Int.subNatNat (256 ^ count - 1 - n) (256 ^ count) = .negSucc n := by
    rw [Int.subNatNat_eq_coe]
    omega
  have hhigh : ¬2 * (256 ^ count - 1 - n) < 256 ^ count := by omega
  rw [readSigned, readBigEndian_bigEndian_of_lt (by omega)]
  simp only [Option.map_some, shiftLeft_eight_mul, if_neg hhigh, hneg]

/-- Integers are read back, by cases on their sign and width. -/
theorem readInt_encodeInt {number : Int} (hl : -2 ^ 63 ≤ number) (hu : number < 2 ^ 64)
    (rest : List UInt8)
    : readInt (encodeInt number ++ rest) = some (number, rest) := by
  cases number with
  | ofNat n =>
      have hn : n < 2 ^ 64 := Int.ofNat_lt.mp hu
      simp only [encodeInt, encodeNat]
      split_ifs with h1 h2 h3 h4
      · have hbyte : n.toUInt8.toNat = n := Nat.mod_eq_of_lt (by omega)
        have hhead : n.toUInt8 < 0x80 := by
          rw [UInt8.lt_iff_toNat_lt, hbyte]
          exact h1
        rw [List.singleton_append, readInt, if_pos hhead, hbyte]
        rfl
      -- From here on the head is a fixed byte, so which form is read is settled by computing.
      · exact readUnsigned_bigEndian (show n < 256 ^ 1 by omega) rest
      · exact readUnsigned_bigEndian (show n < 256 ^ 2 by omega) rest
      · exact readUnsigned_bigEndian (show n < 256 ^ 4 by omega) rest
      · exact readUnsigned_bigEndian (show n < 256 ^ 8 by omega) rest
  | negSucc n =>
      simp only [encodeInt, encodeNegSucc]
      split_ifs with h1 h2 h3 h4
      · have hbyte : (0xFF - n).toUInt8.toNat = 0xFF - n := Nat.mod_eq_of_lt (by omega)
        have hhead : 0xE0 ≤ (0xFF - n).toUInt8 := by
          rw [UInt8.le_iff_toNat_le, hbyte]
          change 0xE0 ≤ 0xFF - n
          omega
        have hlow : ¬(0xFF - n).toUInt8 < 0x80 := by
          rw [UInt8.lt_iff_toNat_lt, hbyte]
          change ¬0xFF - n < 0x80
          omega
        rw [List.singleton_append, readInt, if_neg hlow, if_pos hhead, hbyte]
        congr 2
        omega
      · exact readSigned_bigEndian (show 2 * (n + 1) ≤ 256 ^ 1 by omega) rest
      · exact readSigned_bigEndian (show 2 * (n + 1) ≤ 256 ^ 2 by omega) rest
      · exact readSigned_bigEndian (show 2 * (n + 1) ≤ 256 ^ 4 by omega) rest
      · exact readSigned_bigEndian (show 2 * (n + 1) ≤ 256 ^ 8 by omega) rest

/-- An integer fits in some bytes, be it with or without a sign. -/
def FitsIn (number : Int) (count : Nat) : Prop :=
  -256 ^ count ≤ 2 * number ∧ number < 256 ^ count

theorem fitsIn_of_readUnsigned {count : Nat} {number : Int} {input rest : List UInt8}
    (h : readUnsigned count input = some (number, rest))
    : FitsIn number count ∧ input.length = count + rest.length := by
  obtain ⟨⟨n, _⟩, hn, hnumber⟩ := Option.map_eq_some_iff.mp h
  cases hnumber
  obtain ⟨hlt, hlength⟩ := fits_of_readBigEndian hn
  have hlt : (n : Int) < 256 ^ count := by exact_mod_cast hlt
  exact ⟨⟨by omega, hlt⟩, hlength⟩

theorem fitsIn_of_readSigned {count : Nat} {number : Int} {input rest : List UInt8}
    (h : readSigned count input = some (number, rest))
    : FitsIn number count ∧ input.length = count + rest.length := by
  obtain ⟨⟨n, _⟩, hn, hnumber⟩ := Option.map_eq_some_iff.mp h
  cases hnumber
  obtain ⟨hlt, hlength⟩ := fits_of_readBigEndian hn
  have hlt : (n : Int) < 256 ^ count := by exact_mod_cast hlt
  refine ⟨?_, hlength⟩
  rw [shiftLeft_eight_mul]
  split_ifs with hlow
  · exact ⟨by omega, hlt⟩
  · have hhigh : (256 : Int) ^ count ≤ 2 * n := by exact_mod_cast not_lt.mp hlow
    rw [Int.subNatNat_eq_coe]
    push_cast
    exact ⟨by omega, by omega⟩

/-- The bytes an integer may be read from, by cases on their head. -/
theorem headed_of_readInt {number : Int} {input rest : List UInt8}
    (h : readInt input = some (number, rest))
    : Headed (-0x20 ≤ number ∧ number < 0x80) [1, 2, 4, 8] (FitsIn number) input rest := by
  cases input with
  | nil => cases h
  | cons head input =>
      rw [readInt] at h
      -- One alternative at a time: splitting all of them at once looks at every branch again.
      rcases ite_eq_iff.mp h with ⟨hlow, h⟩ | ⟨-, h⟩
      · cases h
        have hbyte : head.toNat < 0x80 := UInt8.lt_iff_toNat_lt.mp hlow
        exact headed_short (by omega)
      rcases ite_eq_iff.mp h with ⟨hhigh, h⟩ | ⟨-, h⟩
      · cases h
        have hbyte : 0xE0 ≤ head.toNat := UInt8.le_iff_toNat_le.mp hhigh
        have := head.toNat_lt
        exact headed_short (by omega)
      rcases ite_eq_iff.mp h with ⟨-, h⟩ | ⟨-, h⟩
      · exact headed_wide (by simp) (fitsIn_of_readUnsigned h)
      rcases ite_eq_iff.mp h with ⟨-, h⟩ | ⟨-, h⟩
      · exact headed_wide (by simp) (fitsIn_of_readUnsigned h)
      rcases ite_eq_iff.mp h with ⟨-, h⟩ | ⟨-, h⟩
      · exact headed_wide (by simp) (fitsIn_of_readUnsigned h)
      rcases ite_eq_iff.mp h with ⟨-, h⟩ | ⟨-, h⟩
      · exact headed_wide (by simp) (fitsIn_of_readUnsigned h)
      rcases ite_eq_iff.mp h with ⟨-, h⟩ | ⟨-, h⟩
      · exact headed_wide (by simp) (fitsIn_of_readSigned h)
      rcases ite_eq_iff.mp h with ⟨-, h⟩ | ⟨-, h⟩
      · exact headed_wide (by simp) (fitsIn_of_readSigned h)
      rcases ite_eq_iff.mp h with ⟨-, h⟩ | ⟨-, h⟩
      · exact headed_wide (by simp) (fitsIn_of_readSigned h)
      rcases ite_eq_iff.mp h with ⟨-, h⟩ | ⟨-, h⟩
      · exact headed_wide (by simp) (fitsIn_of_readSigned h)
      cases h

/-- No such bytes are fewer than those an integer is written as. -/
theorem length_encodeInt_le {number : Int} {input rest : List UInt8}
    (h : Headed (-0x20 ≤ number ∧ number < 0x80) [1, 2, 4, 8] (FitsIn number) input rest)
    : (encodeInt number).length + rest.length ≤ input.length := by
  simp only [Headed, FitsIn, List.mem_cons, List.not_mem_nil, or_false, exists_eq_or_imp,
    exists_eq_left] at h
  cases number with
  | ofNat n =>
      rw [Int.ofNat_eq_natCast] at h
      simp only [encodeInt, encodeNat]
      split_ifs <;> simp only [List.length_cons, List.length_nil, length_bigEndian] <;> omega
  | negSucc n =>
      simp only [encodeInt, encodeNegSucc]
      split_ifs <;> simp only [List.length_cons, List.length_nil, length_bigEndian] <;> omega

theorem shortestForm_int {number : Int} (hl : -2 ^ 63 ≤ number) (hu : number < 2 ^ 64)
    : ShortestForm readInt (encodeInt number) number :=
  ⟨readInt_encodeInt hl hu, fun h => length_encodeInt_le (headed_of_readInt h)⟩

theorem shortestForm_nat {n : Nat} (h : n < 2 ^ 64) : ShortestForm readNat (encodeNat n) n := by
  have hint : ShortestForm readInt (encodeInt n) n :=
    shortestForm_int (by omega) (by exact_mod_cast h)
  constructor
  · intro rest
    have hn : readInt (encodeNat n ++ rest) = some ((n : Int), rest) := hint.reads rest
    rw [readNat, hn]
  · intro input rest hread
    rw [readNat] at hread
    split at hread
    · rename_i hinput
      cases hread
      exact hint.shortest hinput
    · cases hread

------------------------------------------------------------
-- Truth values and floating-point numbers

theorem shortestForm_bool (truth : Bool) : ShortestForm readBool (encodeBool truth) truth := by
  constructor
  · intro rest
    cases truth <;> rfl
  · intro input rest h
    cases input with
    | nil => cases h
    | cons head input =>
        rw [readBool] at h
        split_ifs at h <;>
          · cases h
            exact (Nat.add_comm ..).le

/-- A number is read back from its bits. -/
theorem shortestForm_float (number : Float)
    : ShortestForm readFloat (encodeFloat number) number := by
  constructor
  · intro rest
    have hlt : number.toBits.toNat < 256 ^ 8 := number.toBits.toNat_lt
    have hbits : number.toBits.toNat.toUInt64 = number.toBits := UInt64.ofNat_toNat
    rw [encodeFloat, List.cons_append, readFloat, if_pos rfl,
      readBigEndian_bigEndian_of_lt hlt, Option.map_some]
    simp only [hbits, Float.ofBits_toBits]
  · intro input rest h
    cases input with
    | nil => cases h
    | cons head input =>
        rw [readFloat] at h
        split_ifs at h
        obtain ⟨⟨bits, _⟩, hbits, hnumber⟩ := Option.map_eq_some_iff.mp h
        cases hnumber
        have hlength := (fits_of_readBigEndian hbits).2
        simp only [encodeFloat, List.length_cons, length_bigEndian, hlength]
        omega

------------------------------------------------------------
-- Texts

/-- The length that stands in front of a text. -/
def encodeStrHead (length : Nat) : List UInt8 :=
  if length < 0x20 then [(0xA0 + length).toUInt8]
  else if length < 0x100 then 0xD9 :: bigEndian 1 length
  else if length < 0x10000 then 0xDA :: bigEndian 2 length
  else 0xDB :: bigEndian 4 length

theorem encodeStr_eq (text : String)
    : encodeStr text = encodeStrHead text.utf8ByteSize ++ text.toUTF8.data.toList :=
  rfl

/-- The bytes the length of a text may be read from, by cases on their head. -/
theorem headed_of_readStrHead {length : Nat} {input rest : List UInt8}
    (h : readStrHead input = some (length, rest))
    : Headed (length < 0x20) [1, 2, 4] (length < 256 ^ ·) input rest := by
  cases input with
  | nil => cases h
  | cons head input =>
      rw [readStrHead] at h
      split_ifs at h with hshort
      · obtain ⟨rfl, rfl⟩ := Prod.mk.inj (Option.some.inj h)
        simp only [Bool.and_eq_true, decide_eq_true_eq] at hshort
        have hbyte : head.toNat < 0xC0 := UInt8.lt_iff_toNat_lt.mp hshort.2
        exact headed_short (by omega)
      · exact headed_wide (by simp) (fits_of_readBigEndian h)
      · exact headed_wide (by simp) (fits_of_readBigEndian h)
      · exact headed_wide (by simp) (fits_of_readBigEndian h)

theorem shortestForm_strHead {length : Nat} (h : length < 2 ^ 32)
    : ShortestForm readStrHead (encodeStrHead length) length := by
  constructor
  · intro rest
    unfold encodeStrHead
    split_ifs with h1 h2 h3
    · have hbyte : (0xA0 + length).toUInt8.toNat = 0xA0 + length := Nat.mod_eq_of_lt (by omega)
      have hshort : (0xA0 ≤ (0xA0 + length).toUInt8 && (0xA0 + length).toUInt8 < 0xC0) = true := by
        simp only [Bool.and_eq_true, decide_eq_true_eq, UInt8.le_iff_toNat_le,
          UInt8.lt_iff_toNat_lt, hbyte]
        exact ⟨Nat.le_add_right .., Nat.add_lt_add_left h1 _⟩
      rw [List.singleton_append, readStrHead, if_pos hshort, hbyte, Nat.add_sub_cancel_left]
    · exact readBigEndian_bigEndian_of_lt (show length < 256 ^ 1 by omega) rest
    · exact readBigEndian_bigEndian_of_lt (show length < 256 ^ 2 by omega) rest
    · exact readBigEndian_bigEndian_of_lt (show length < 256 ^ 4 by omega) rest
  · intro input rest hread
    have hheaded := headed_of_readStrHead hread
    simp only [Headed, List.mem_cons, List.not_mem_nil, or_false, exists_eq_or_imp,
      exists_eq_left] at hheaded
    unfold encodeStrHead
    split_ifs <;> simp only [List.length_cons, List.length_nil, length_bigEndian] <;> omega

theorem fromUTF8?_eq_some_iff {bytes : ByteArray} {text : String}
    : String.fromUTF8? bytes = some text ↔ bytes = text.toUTF8 := by
  unfold String.fromUTF8?
  constructor
  · intro h
    split at h
    · cases h
      rfl
    · cases h
  · rintro rfl
    rw [String.toUTF8_eq_toByteArray, dif_pos text.isValidUTF8]
    rfl

/-- Texts are read back from the bytes behind their length. -/
theorem shortestForm_str {text : String} (h : text.utf8ByteSize < 2 ^ 32)
    : ShortestForm readStr (encodeStr text) text := by
  have hhead := shortestForm_strHead h
  have hlength : text.toUTF8.data.toList.length = text.utf8ByteSize := rfl
  constructor
  · intro rest
    have htake : (text.toUTF8.data.toList ++ rest).take text.utf8ByteSize
        = text.toUTF8.data.toList := List.take_left
    have hdrop : (text.toUTF8.data.toList ++ rest).drop text.utf8ByteSize = rest := List.drop_left
    have htext : String.fromUTF8? ⟨text.toUTF8.data.toList.toArray⟩ = some text :=
      fromUTF8?_eq_some_iff.mpr rfl
    have henough : text.utf8ByteSize ≤ (text.toUTF8.data.toList ++ rest).length := by
      rw [List.length_append, hlength]
      exact Nat.le_add_right ..
    rw [readStr, encodeStr_eq, List.append_assoc, hhead.reads]
    simp only [Option.bind_eq_bind, Option.bind_some, if_pos henough, htake, hdrop, htext]
    rfl
  · intro input rest hread
    simp only [readStr, Option.bind_eq_bind, Option.bind_eq_some_iff, Prod.exists] at hread
    obtain ⟨length, behind, hbehind, hread⟩ := hread
    split_ifs at hread with henough
    obtain ⟨_, hbytes, hread⟩ := Option.bind_eq_some_iff.mp hread
    cases hread
    rw [fromUTF8?_eq_some_iff] at hbytes
    have hsize : length = text.utf8ByteSize := by
      rw [← hlength, ← hbytes, List.length_take, Nat.min_eq_left henough]
    subst hsize
    have hshort := hhead.shortest hbehind
    rw [encodeStr_eq, List.length_append, hlength, List.length_drop]
    omega

------------------------------------------------------------
-- Heads of lists and records

/-- The bytes the length of a list may be read from, by cases on their head. -/
theorem headed_of_readListHead {length : Nat} {input rest : List UInt8}
    (h : readListHead input = some (length, rest))
    : Headed (length < 0x10) [2, 4] (length < 256 ^ ·) input rest := by
  cases input with
  | nil => cases h
  | cons head input =>
      rw [readListHead] at h
      split_ifs at h with hshort
      · obtain ⟨rfl, rfl⟩ := Prod.mk.inj (Option.some.inj h)
        simp only [Bool.and_eq_true, decide_eq_true_eq] at hshort
        have hbyte : head.toNat < 0xA0 := UInt8.lt_iff_toNat_lt.mp hshort.2
        exact headed_short (by omega)
      · exact headed_wide (by simp) (fits_of_readBigEndian h)
      · exact headed_wide (by simp) (fits_of_readBigEndian h)

theorem shortestForm_listHead {length : Nat} (h : length < 2 ^ 32)
    : ShortestForm readListHead (encodeListHead length) length := by
  constructor
  · intro rest
    unfold encodeListHead
    split_ifs with h1 h2
    · have hbyte : (0x90 + length).toUInt8.toNat = 0x90 + length := Nat.mod_eq_of_lt (by omega)
      have hshort : (0x90 ≤ (0x90 + length).toUInt8 && (0x90 + length).toUInt8 < 0xA0) = true := by
        simp only [Bool.and_eq_true, decide_eq_true_eq, UInt8.le_iff_toNat_le,
          UInt8.lt_iff_toNat_lt, hbyte]
        exact ⟨Nat.le_add_right .., Nat.add_lt_add_left h1 _⟩
      rw [List.singleton_append, readListHead, if_pos hshort, hbyte, Nat.add_sub_cancel_left]
    · exact readBigEndian_bigEndian_of_lt (show length < 256 ^ 2 by omega) rest
    · exact readBigEndian_bigEndian_of_lt (show length < 256 ^ 4 by omega) rest
  · intro input rest hread
    have hheaded := headed_of_readListHead hread
    simp only [Headed, List.mem_cons, List.not_mem_nil, or_false, exists_eq_or_imp,
      exists_eq_left] at hheaded
    unfold encodeListHead
    split_ifs <;> simp only [List.length_cons, List.length_nil, length_bigEndian] <;> omega

theorem shortestForm_recordHead {fields : Nat} (h : fields < 0x10)
    : ShortestForm (readRecordHead fields) (encodeRecordHead fields) () := by
  have hbyte : (0x80 + fields).toUInt8.toNat = 0x80 + fields := Nat.mod_eq_of_lt (by omega)
  constructor
  · intro rest
    rw [encodeRecordHead, List.singleton_append, readRecordHead, if_pos hbyte]
  · intro input rest hread
    cases input with
    | nil => cases hread
    | cons head input =>
        rw [readRecordHead] at hread
        split_ifs at hread
        cases hread
        exact (Nat.add_comm ..).le

end CallGrammar.Wire

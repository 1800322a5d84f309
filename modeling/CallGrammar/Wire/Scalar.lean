/-! Scalars of the MessagePack format, written in the shortest form that holds them and read in
any form.
-/

namespace CallGrammar.Wire

/-- A reader takes an element from the front of some bytes, if they start with one. -/
abbrev Reader (α : Type) :=
  List UInt8 → Option (α × List UInt8)

------------------------------------------------------------
-- Naturals of fixed width

/-- The lowest `count` bytes of a natural, the highest first. -/
def bigEndian (count n : Nat) : List UInt8 :=
  match count with
  | 0 => []
  | count + 1 => (n >>> (8 * count)).toUInt8 :: bigEndian count n

/-- Reads `count` bytes, the highest first, behind a value read before. -/
def readBigEndian (count : Nat) (value : Nat) : Reader Nat :=
  fun bytes =>
    match count, bytes with
    | 0, bytes => some (value, bytes)
    | _ + 1, [] => none
    | count + 1, byte :: rest => readBigEndian count (256 * value + byte.toNat) rest

------------------------------------------------------------
-- Integers

/-- A nonnegative integer. -/
def encodeNat (n : Nat) : List UInt8 :=
  if n < 0x80 then [n.toUInt8]
  else if n < 0x100 then 0xCC :: bigEndian 1 n
  else if n < 0x10000 then 0xCD :: bigEndian 2 n
  else if n < 0x100000000 then 0xCE :: bigEndian 4 n
  else 0xCF :: bigEndian 8 n

/-- The negative integer `-(n + 1)`, in two's complement. -/
def encodeNegSucc (n : Nat) : List UInt8 :=
  if n < 0x20 then [(0xFF - n).toUInt8]
  else if n < 0x80 then 0xD0 :: bigEndian 1 (0xFF - n)
  else if n < 0x8000 then 0xD1 :: bigEndian 2 (0xFFFF - n)
  else if n < 0x80000000 then 0xD2 :: bigEndian 4 (0xFFFFFFFF - n)
  else 0xD3 :: bigEndian 8 (0xFFFFFFFFFFFFFFFF - n)

/-- An integer of at most 64 bits. -/
def encodeInt : Int → List UInt8
  | .ofNat n => encodeNat n
  | .negSucc n => encodeNegSucc n

/-- Reads `count` bytes as a two's complement integer. -/
def readSigned (count : Nat) : Reader Int :=
  fun bytes =>
    (readBigEndian count 0 bytes).map (fun (n, rest) =>
      (if 2 * n < 1 <<< (8 * count) then (n : Int) else Int.subNatNat n (1 <<< (8 * count)), rest))

/-- Reads `count` bytes as a nonnegative integer. -/
def readUnsigned (count : Nat) : Reader Int :=
  fun bytes => (readBigEndian count 0 bytes).map (fun (n, rest) => ((n : Int), rest))

/-- Reads an integer of any width. -/
def readInt : Reader Int
  | [] => none
  | head :: rest =>
      if head < 0x80 then some (head.toNat, rest)
      else if 0xE0 ≤ head then some ((head.toNat : Int) - 0x100, rest)
      else if head = 0xCC then readUnsigned 1 rest
      else if head = 0xCD then readUnsigned 2 rest
      else if head = 0xCE then readUnsigned 4 rest
      else if head = 0xCF then readUnsigned 8 rest
      else if head = 0xD0 then readSigned 1 rest
      else if head = 0xD1 then readSigned 2 rest
      else if head = 0xD2 then readSigned 4 rest
      else if head = 0xD3 then readSigned 8 rest
      else none

/-- Reads an integer that is not negative. -/
def readNat : Reader Nat :=
  fun bytes =>
    match readInt bytes with
    | some (.ofNat n, rest) => some (n, rest)
    | _ => none

------------------------------------------------------------
-- Truth values and floating-point numbers

def encodeBool (truth : Bool) : List UInt8 :=
  [if truth then 0xC3 else 0xC2]

def readBool : Reader Bool
  | [] => none
  | head :: rest =>
      if head = 0xC3 then some (true, rest)
      else if head = 0xC2 then some (false, rest)
      else none

/-- A number by its bit pattern. -/
def encodeFloat (number : Float) : List UInt8 :=
  0xCB :: bigEndian 8 number.toBits.toNat

def readFloat : Reader Float
  | [] => none
  | head :: rest =>
      if head = 0xCB then
        (readBigEndian 8 0 rest).map (fun (bits, rest) => (Float.ofBits bits.toUInt64, rest))
      else
        none

------------------------------------------------------------
-- Texts

/-- A text behind its length in bytes. -/
def encodeStr (text : String) : List UInt8 :=
  let bytes := text.toUTF8.data.toList
  let head :=
    if bytes.length < 0x20 then [(0xA0 + bytes.length).toUInt8]
    else if bytes.length < 0x100 then 0xD9 :: bigEndian 1 bytes.length
    else if bytes.length < 0x10000 then 0xDA :: bigEndian 2 bytes.length
    else 0xDB :: bigEndian 4 bytes.length
  head ++ bytes

/-- Reads the length that stands in front of a text. -/
def readStrHead : Reader Nat
  | [] => none
  | head :: rest =>
      if 0xA0 ≤ head && head < 0xC0 then some (head.toNat - 0xA0, rest)
      else if head = 0xD9 then readBigEndian 1 0 rest
      else if head = 0xDA then readBigEndian 2 0 rest
      else if head = 0xDB then readBigEndian 4 0 rest
      else none

/-- Reads a text, which must be valid UTF-8. -/
def readStr : Reader String :=
  fun bytes => do
    let (length, rest) ← readStrHead bytes
    if length ≤ rest.length then
      let text ← String.fromUTF8? ⟨(rest.take length).toArray⟩
      return (text, rest.drop length)
    else
      none

------------------------------------------------------------
-- Heads of lists and records

/-- The head of a list of a given length. -/
def encodeListHead (length : Nat) : List UInt8 :=
  if length < 0x10 then [(0x90 + length).toUInt8]
  else if length < 0x10000 then 0xDC :: bigEndian 2 length
  else 0xDD :: bigEndian 4 length

def readListHead : Reader Nat
  | [] => none
  | head :: rest =>
      if 0x90 ≤ head && head < 0xA0 then some (head.toNat - 0x90, rest)
      else if head = 0xDC then readBigEndian 2 0 rest
      else if head = 0xDD then readBigEndian 4 0 rest
      else none

/-- The head of a record with a given number of fields, fewer than sixteen. -/
def encodeRecordHead (fields : Nat) : List UInt8 :=
  [(0x80 + fields).toUInt8]

/-- Reads the head of a record that must have the given number of fields. -/
def readRecordHead (fields : Nat) : Reader Unit
  | [] => none
  | head :: rest => if head.toNat = 0x80 + fields then some ((), rest) else none

end CallGrammar.Wire

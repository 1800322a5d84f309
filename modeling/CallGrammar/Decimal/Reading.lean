import CallGrammar.Text.Blank

/-! Reading numbers: signed 64-bit integers and floating-point numbers. -/

namespace CallGrammar.Decimal

/-- The value of an ASCII digit. -/
def digit? (c : Char) : Option Nat :=
  if c.isDigit then some (c.toNat - '0'.toNat) else none

------------------------------------------------------------
-- Integers

/-- Why a text is no integer. -/
inductive IntegerError where
  | empty
  | invalidDigit
  | tooLarge
  | tooSmall
deriving DecidableEq

def IntegerError.message : IntegerError → String
  | .empty => "cannot parse integer from empty string"
  | .invalidDigit => "invalid digit found in string"
  | .tooLarge => "number too large to fit in target type"
  | .tooSmall => "number too small to fit in target type"

/-- Appends digits to a magnitude that must stay within `limit`, left to right, so that the
first offence decides the error.
-/
def readMagnitude (limit : Nat) (overflow : IntegerError) (value : Nat)
    : List Char → Except IntegerError Nat
  | [] => .ok value
  | c :: rest =>
      match digit? c with
      | none => .error .invalidDigit
      | some d =>
          if 10 * value + d ≤ limit then readMagnitude limit overflow (10 * value + d) rest
          else .error overflow

/-- The greatest 64-bit integer: `2 ^ 63 - 1`. The least one is further from zero by one. -/
def greatest : Nat :=
  0x7FFFFFFFFFFFFFFF

/-- Reads an optional sign and decimal digits as a 64-bit integer. -/
def readInteger : List Char → Except IntegerError Int64
  | [] => .error .empty
  | ['+'] | ['-'] => .error .invalidDigit
  | '-' :: digits =>
      (readMagnitude (greatest + 1) .tooSmall 0 digits).map (fun n => Int64.ofInt (-n))
  | '+' :: digits => (readMagnitude greatest .tooLarge 0 digits).map (fun n => Int64.ofInt n)
  | digits => (readMagnitude greatest .tooLarge 0 digits).map (fun n => Int64.ofInt n)

------------------------------------------------------------
-- Floating-point numbers

/-- Why a text is no number. -/
inductive NumberError where
  | empty
  | invalid
deriving DecidableEq

def NumberError.message : NumberError → String
  | .empty => "cannot parse float from empty string"
  | .invalid => "invalid float literal"

/-- The natural that a list of digits writes. -/
def natOfDigits (digits : List Char) : Nat :=
  digits.foldl (fun value c => 10 * value + (digit? c).getD 0) 0

/-- The longest run of leading digits, and what follows it. -/
def splitDigits (cs : List Char) : List Char × List Char :=
  (cs.takeWhile Char.isDigit, cs.dropWhile Char.isDigit)

/-- Reads the exponent after the digits: nothing, or a mark, an optional sign and digits. -/
def readExponent : List Char → Option Int
  | [] => some 0
  | mark :: rest =>
      if mark = 'e' ∨ mark = 'E' then
        let (negative, digits) : Bool × List Char :=
          match rest with
          | '-' :: digits => (true, digits)
          | '+' :: digits => (false, digits)
          | digits => (false, digits)
        if digits.isEmpty || !digits.all Char.isDigit then none
        else some (if negative then -(natOfDigits digits : Int) else natOfDigits digits)
      else none

/-- The number nearest to `digits * 10 ^ exponent`. Magnitudes far outside the range are
decided by their leading place, before any power is formed.
-/
def nearest (digits : Nat) (exponent : Int) : Float :=
  if digits = 0 then 0.0
  else
    let top := ((Nat.toDigits 10 digits).length : Int) + exponent
    if 310 < top then 1.0 / 0.0
    else if top < -330 then 0.0
    else Float.ofScientific digits (exponent < 0) exponent.natAbs

/-- Reads digits with an optional point and exponent. -/
def readDecimal (cs : List Char) : Option Float :=
  let (whole, rest) := splitDigits cs
  let (fraction, rest) : List Char × List Char :=
    match rest with
    | '.' :: rest => splitDigits rest
    | rest => ([], rest)
  if whole.isEmpty && fraction.isEmpty then none
  else
    (readExponent rest).map (fun exponent =>
      nearest (natOfDigits (whole ++ fraction)) (exponent - (fraction.length : Int)))

/-- Reads an unsigned number, or one of the words for infinity and for no number. -/
def readUnsigned (cs : List Char) : Option Float :=
  let word := String.ofList (cs.map Char.toLower)
  if word = "inf" ∨ word = "infinity" then some (1.0 / 0.0)
  else if word = "nan" then some (0.0 / 0.0)
  else readDecimal cs

/-- Reads a number with an optional sign. -/
def readNumber : List Char → Except NumberError Float
  | [] => .error .empty
  | '-' :: rest => ((readUnsigned rest).map (fun x => -x)).elim (.error .invalid) .ok
  | '+' :: rest => (readUnsigned rest).elim (.error .invalid) .ok
  | cs => (readUnsigned cs).elim (.error .invalid) .ok

end CallGrammar.Decimal

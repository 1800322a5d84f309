import CallGrammar.Decimal.Shortest

/-! The text of a floating-point number, in its plain form without exponent and in the form
that keeps a point.
-/

namespace CallGrammar.Decimal

/-- A decimal written without exponent; a whole number has no point. -/
def Digits.positional (d : Digits) : String :=
  let text := toString d.digits
  match d.place with
  | .ofNat zeros => text ++ String.ofList (List.replicate zeros '0')
  | .negSucc places =>
      let places := places + 1
      if places < text.length then
        let whole := text.length - places
        String.ofList (text.toList.take whole) ++ "." ++ String.ofList (text.toList.drop whole)
      else
        "0." ++ String.ofList (List.replicate (places - text.length) '0') ++ text

/-- A decimal with one digit before the point and an exponent of ten. -/
def Digits.scientific (d : Digits) : String :=
  let text := toString d.digits
  let exponent := d.place + (text.length : Int) - 1
  let fraction := text.toList.drop 1
  String.ofList (text.toList.take 1)
    ++ (if fraction.isEmpty then "" else "." ++ String.ofList fraction)
    ++ "e" ++ toString exponent

/-- The bit of a pattern that tells a negative number: `2 ^ 63`. -/
def signBit : Nat :=
  0x8000000000000000

/-- Writes a number with a given form for positive finite magnitudes and a given zero. -/
def write (zero : String) (form : Digits → String) (x : Float) : String :=
  if x.isNaN then "NaN"
  else
    let bits := x.toBits.toNat
    let sign := if signBit ≤ bits then "-" else ""
    if x.isInf then sign ++ "inf"
    else if bits % signBit = 0 then sign ++ zero
    else sign ++ form (Binary.ofBits bits).shortest

/-- The plain text of a number: the fewest digits that read back, never an exponent. -/
def text (x : Float) : String :=
  write "0" Digits.positional x

/-- Whole numbers keep a point and one zero, and magnitudes from `10 ^ 16` on or below
`10 ^ -4` take an exponent.
-/
def Digits.pointed (d : Digits) : String :=
  let top := d.place + ((toString d.digits).length : Int)
  if 16 < top || top < -3 then d.scientific
  else if 0 ≤ d.place then d.positional ++ ".0"
  else d.positional

/-- The text of a number that always shows it is no integer. -/
def pointedText (x : Float) : String :=
  write "0.0" Digits.pointed x

end CallGrammar.Decimal

/-! The shortest decimal that reads back as a given floating-point number, found in exact
arithmetic on the interval of reals that round to it.
-/

namespace CallGrammar.Decimal

------------------------------------------------------------
-- Binary fractions

/-- A positive finite number `mantissa * 2 ^ exponent`. -/
structure Binary where
  mantissa : Nat
  exponent : Int

/-- The leading bit of a normal mantissa, which a pattern leaves out: `2 ^ 52`. -/
def leadingBit : Nat :=
  0x10000000000000

/-- The magnitude held in the low 63 bits of a finite number's pattern: eleven bits of exponent
above 52 bits of fraction.
-/
def Binary.ofBits (bits : Nat) : Binary :=
  let stored : Nat := bits / leadingBit % 0x800
  let fraction := bits % leadingBit
  if stored = 0 then ⟨fraction, -1074⟩ else ⟨leadingBit + fraction, (stored : Int) - 1075⟩

/-- A nonnegative fraction given by two naturals. -/
structure Fraction where
  num : Nat
  den : Nat

/-- The fraction `units * 2 ^ exponent`. -/
def Fraction.ofBinary (units : Nat) (exponent : Int) : Fraction :=
  match exponent with
  | .ofNat e => ⟨units <<< e, 1⟩
  | .negSucc e => ⟨units, 1 <<< (e + 1)⟩

/-- The fraction divided by `10 ^ place`. -/
def Fraction.scaled (f : Fraction) (place : Int) : Fraction :=
  match place with
  | .ofNat p => ⟨f.num, f.den * Nat.pow 10 p⟩
  | .negSucc p => ⟨f.num * Nat.pow 10 (p + 1), f.den⟩

/-- The reals that round to a number run from `below` to `above`, both included or both not. -/
structure Interval where
  below : Fraction
  value : Fraction
  above : Fraction
  closed : Bool

/-- The interval reaches half way to both neighbours; below a power of two the neighbour is
half as far. An even mantissa wins ties, so its interval is closed.
-/
def Binary.interval (b : Binary) : Interval :=
  let down := if b.mantissa = leadingBit ∧ b.exponent ≠ -1074 then 1 else 2
  { below := .ofBinary (4 * b.mantissa - down) (b.exponent - 2)
    value := .ofBinary (4 * b.mantissa) (b.exponent - 2)
    above := .ofBinary (4 * b.mantissa + 2) (b.exponent - 2)
    closed := b.mantissa % 2 == 0 }

/-- Whether `digits * 10 ^ place` rounds to the number. -/
def Interval.holds (i : Interval) (digits : Nat) (place : Int) : Bool :=
  let below := i.below.scaled place
  let above := i.above.scaled place
  if i.closed then
    below.num ≤ digits * below.den && digits * above.den ≤ above.num
  else
    below.num < digits * below.den && digits * above.den < above.num

------------------------------------------------------------
-- Digits

/-- The decimal `digits * 10 ^ place`. -/
structure Digits where
  digits : Nat
  place : Int

/-- Of the number's two neighbours on the grid of multiples of `10 ^ place`, the nearer one
that rounds to it; of two equally near ones the larger.
-/
def Interval.onGrid? (i : Interval) (place : Int) : Option Digits :=
  let scaled := i.value.scaled place
  let low := scaled.num / scaled.den
  let nearerHigh := scaled.den ≤ 2 * (scaled.num % scaled.den)
  match i.holds low place, i.holds (low + 1) place with
  | true, true => some ⟨if nearerHigh then low + 1 else low, place⟩
  | true, false => some ⟨low, place⟩
  | false, true => some ⟨low + 1, place⟩
  | false, false => none

/-- Tries grids from the coarsest on, each ten times finer than the one before. -/
def Interval.search (i : Interval) (place : Int) : Nat → Digits
  | 0 => ⟨0, place⟩
  | grids + 1 => (i.onGrid? place).getD (i.search (place - 1) grids)

/-- The least `place` found by counting digits with the number at most `10 ^ place`. -/
def Fraction.topPlace (f : Fraction) : Int :=
  if f.den ≤ f.num then
    ((Nat.toDigits 10 (f.num / f.den)).length : Int)
  else
    1 - ((Nat.toDigits 10 (f.den / f.num)).length : Int)

/-- The decimal with the fewest digits that rounds to the number. Seventeen digits always
suffice, and the first grid may be one place above the leading digit.
-/
def Binary.shortest (b : Binary) : Digits :=
  b.interval.search b.interval.value.topPlace 18

end CallGrammar.Decimal

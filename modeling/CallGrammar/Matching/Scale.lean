import CallGrammar.Decimal.Text

/-! Scales: the numbers in which matches are scored. -/

namespace CallGrammar

/-- A scale has a sum and an order of scores, and says how much a matched word, argument or
rest of a call counts. Matching works on any scale: calls are scored in floating-point
numbers, and the rationals are the same scale without rounding.
-/
class Scale (σ : Type) extends Zero σ, Add σ, LT σ, LE σ where
  literal : σ
  parameter : σ
  tail : σ
  decLT : DecidableLT σ
  decLE : DecidableLE σ
  /-- How a score is shown. -/
  text : σ → String

instance Scale.instDecidableLT {σ : Type} [scale : Scale σ] : DecidableLT σ :=
  scale.decLT

instance Scale.instDecidableLE {σ : Type} [scale : Scale σ] : DecidableLE σ :=
  scale.decLE

/-- A word counts one, an argument half of it, and the rest of a call a quarter. -/
instance : Scale Float where
  zero := 0.0
  toAdd := instAddFloat
  toLT := instLTFloat
  toLE := instLEFloat
  literal := 1.0
  parameter := 0.5
  tail := 0.25
  decLT := Float.decLt
  decLE := Float.decLe
  text := Decimal.text

instance : Scale Rat where
  zero := mkRat 0 1
  toAdd := Rat.instAdd
  toLT := Rat.instLT
  toLE := Rat.instLE
  literal := mkRat 1 1
  parameter := mkRat 1 2
  tail := mkRat 1 4
  decLT := Rat.instDecidableLt
  decLE := Rat.instDecidableLe
  text := fun score => toString score.num ++ "/" ++ toString score.den

end CallGrammar

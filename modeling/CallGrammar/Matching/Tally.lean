import CallGrammar.Matching.Mismatch
import CallGrammar.NameMap
import CallGrammar.Value

/-! Tallies: what one attempt to match a call has found so far. A group that may fail is matched
on a branch, which is joined back only if it succeeds.
-/

namespace CallGrammar

/-- The values bound under names. -/
abbrev Bindings :=
  NameMap Value

/-- What a matched call says. -/
structure Outcome (σ : Type) where
  bindings : Bindings
  /-- Presence of the optional groups without identifier, in order. -/
  optionals : List Bool
  /-- Chosen alternatives of the variants without identifier, in order. -/
  variants : List Nat
  score : σ

namespace Outcome

variable {σ : Type}

/-- The value bound under a name. -/
def get? (outcome : Outcome σ) (name : String) : Option Value :=
  outcome.bindings.get? name

/-- The text bound under a name. -/
def getStr? (outcome : Outcome σ) (name : String) : Option String :=
  (outcome.get? name).bind Value.str?

end Outcome

/-- What was found so far in the call `raw`. -/
structure Tally (σ : Type) where
  raw : String
  score : σ
  bindings : Bindings
  optionals : List Bool
  variants : List Nat
  /-- The rest of the call was taken, so nothing may follow. -/
  terminated : Bool
  /-- How many patterns are being matched around the next one. -/
  depth : Nat
  /-- Why the last omitted optional group did not fit. -/
  hint : Option (Mismatch σ)

namespace Tally

variable {σ : Type} [Scale σ]

/-- Nothing was found yet in a call. -/
def start (raw : String) : Tally σ :=
  { raw, score := 0, bindings := ∅, optionals := [], variants := [], terminated := false,
    depth := 0, hint := none }

/-- A tally of nothing, for a group inside the current patterns. -/
def branch (tally : Tally σ) : Tally σ :=
  { start tally.raw with depth := tally.depth }

/-- Adds what a branch found. Its bindings and its hint replace earlier ones. -/
def join (tally branch : Tally σ) : Tally σ :=
  { tally with
    score := tally.score + branch.score
    bindings := tally.bindings.union branch.bindings
    optionals := tally.optionals ++ branch.optionals
    variants := tally.variants ++ branch.variants
    terminated := tally.terminated || branch.terminated
    hint := branch.hint.or tally.hint }

/-- Binds a name to a value. -/
def bind (tally : Tally σ) (name : String) (value : Value) : Tally σ :=
  { tally with bindings := tally.bindings.insert name value }

/-- Adds to the score. -/
def award (tally : Tally σ) (points : σ) : Tally σ :=
  { tally with score := tally.score + points }

/-- Records whether an optional group is present. -/
def recordOptional (tally : Tally σ) (identifier : Option String) (present : Bool) : Tally σ :=
  match identifier with
  | some name => tally.bind name (.bool present)
  | none => { tally with optionals := tally.optionals ++ [present] }

/-- The value of an index; an index too large for an integer becomes the largest one. -/
def indexValue (index : Nat) : Value :=
  .int (Int64.ofNat (min index Int64.maxValue.toNatClampNeg))

/-- Records which alternative of a variant was chosen. -/
def recordVariant (tally : Tally σ) (identifier : Option String) (index : Nat) : Tally σ :=
  match identifier with
  | some name => tally.bind name (indexValue index)
  | none => { tally with variants := tally.variants ++ [index] }

/-- Goes one pattern deeper. -/
def enter (tally : Tally σ) : Tally σ :=
  { tally with depth := tally.depth + 1 }

/-- Comes back from one pattern. -/
def leave (tally : Tally σ) : Tally σ :=
  { tally with depth := tally.depth - 1 }

/-- What the tally says about the call once all of it was matched. -/
def outcome (tally : Tally σ) : Outcome σ :=
  ⟨tally.bindings, tally.optionals, tally.variants, tally.score⟩

end Tally

end CallGrammar

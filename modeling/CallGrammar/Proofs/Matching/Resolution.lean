import CallGrammar.Proofs.Matching.Scores
import CallGrammar.Proofs.NameMap

/-! Resolutions: what each group of a pattern was taken for in a call. A match has a resolution
that is greedy at every group, whose leaves take the tokens of the call in turn, and of which the
outcome is the account.
-/

namespace CallGrammar

/-- A leaf of a pattern with the tokens it takes. -/
inductive Leaf where
  | literal (text : String) (caseSensitive : Bool) (token : Token)
  | parameter (name : String) (typeName : Option String) (token : Token) (value : Value)
  | tail (name : String) (tokens : List Token) (text : String)

namespace Leaf

/-- The pattern that a leaf belongs to. -/
def pattern : Leaf → Pattern
  | .literal text caseSensitive _ => .literal text caseSensitive
  | .parameter name typeName _ _ => .parameter name typeName
  | .tail name _ _ => .tail name

/-- The tokens that a leaf takes. -/
def tokens : Leaf → List Token
  | .literal _ _ token => [token]
  | .parameter _ _ token _ => [token]
  | .tail _ tokens _ => tokens

def isTail : Leaf → Bool
  | .literal .. | .parameter .. => false
  | .tail .. => true

/-- The name that a leaf binds and its value. -/
def entry? : Leaf → Option (String × Value)
  | .literal .. => none
  | .parameter name _ _ value => some (name, value)
  | .tail name _ text => some (name, .str text)

/-- How much a leaf counts. -/
def weight {σ : Type} [Scale σ] : Leaf → σ
  | .literal .. => Scale.literal
  | .parameter .. => Scale.parameter
  | .tail .. => Scale.tail

/-- A leaf may take its tokens: a word equals its token, an argument has the value that its type
gives it, and a tail has the text of the call from its first to its last token.
-/
def Accepted (m : Matcher) (raw : String) : Leaf → Prop
  | .literal text caseSensitive token => m.accepts text token.value caseSensitive = true
  | .parameter _ none token value => value = .str token.value
  | .parameter _ (some typeName) token value =>
      m.types.coerce typeName token.value = .ok value
  | .tail _ tokens text =>
      ∃ first ∈ tokens.head?, ∃ last ∈ tokens.getLast?,
        text = (first.span.upTo last.span).text raw ∧ text ≠ ""

end Leaf

/-- The sum of what leaves count. -/
def total {σ : Type} [Scale σ] : List Leaf → σ
  | [] => 0
  | leaf :: rest => leaf.weight + total rest

theorem total_append {σ : Type} [Scale σ] [ExactScale σ] (left right : List Leaf)
    : (total (left ++ right) : σ) = total left + total right := by
  induction left with
  | nil => exact (ExactScale.zero_add _).symm
  | cons leaf rest ih => rw [List.cons_append, total, total, ih, ExactScale.add_assoc]

/-- Leaves take tokens in turn: every leaf takes one token that it may take, but the last one may
be a tail that takes all tokens left.
-/
inductive TakeInTurn (m : Matcher) (raw : String) : List Leaf → List Token → Prop
  | done : TakeInTurn m raw [] []
  | next {leaf leaves token tokens} (single : leaf.isTail = false) (takes : leaf.tokens = [token])
    (accepted : leaf.Accepted m raw) (others : TakeInTurn m raw leaves tokens)
    : TakeInTurn m raw (leaf :: leaves) (token :: tokens)
  | tail {leaf} (whole : leaf.isTail = true) (accepted : leaf.Accepted m raw)
    : TakeInTurn m raw [leaf] leaf.tokens

/-- Leaves without a tail let others take the tokens behind theirs, by induction on them. -/
theorem TakeInTurn.append {m : Matcher} {raw : String} {left right : List Leaf}
    {taken others : List Token} (h : TakeInTurn m raw left taken)
    (single : left.any Leaf.isTail = false) (ho : TakeInTurn m raw right others)
    : TakeInTurn m raw (left ++ right) (taken ++ others) := by
  induction h with
  | done => exact ho
  | next leaf takes accepted _ ih =>
      exact .next leaf takes accepted (ih (by simpa [leaf] using single))
  | tail whole accepted => simp [whole] at single

/-- A leaf that may take its tokens takes them. -/
theorem takeInTurn_singleton {m : Matcher} {raw : String} {leaf : Leaf}
    (accepted : leaf.Accepted m raw)
    : TakeInTurn m raw [leaf] leaf.tokens := by
  cases leaf with
  | literal text caseSensitive token => exact .next rfl rfl accepted .done
  | parameter name typeName token value => exact .next rfl rfl accepted .done
  | tail name tokens text => exact .tail rfl accepted

/-- What a pattern was taken for: every optional group that was reached is absent or present, and
every variant that was reached has a chosen alternative.
-/
inductive Resolution where
  | leaf (taken : Leaf)
  | absent (identifier : Option String)
  | present (identifier : Option String) (inner : Resolution)
  | chosen (identifier : Option String) (index : Nat) (alternative : Resolution)
  | sequence (parts : List Resolution)

/-- One item of a resolution: a leaf, or the decision about a group. -/
inductive Decision where
  | leaf (taken : Leaf)
  | optional (identifier : Option String) (present : Bool)
  | variant (identifier : Option String) (index : Nat)

namespace Decision

def leaf? : Decision → Option Leaf
  | .leaf taken => some taken
  | .optional .. | .variant .. => none

/-- The presence of an optional group without identifier. -/
def presence? : Decision → Option Bool
  | .optional none present => some present
  | .leaf _ | .optional (some _) _ | .variant .. => none

/-- The chosen alternative of a variant without identifier. -/
def choice? : Decision → Option Nat
  | .variant none index => some index
  | .leaf _ | .optional .. | .variant (some _) _ => none

/-- The name that a decision binds and its value. -/
def entry? : Decision → Option (String × Value)
  | .leaf taken => taken.entry?
  | .optional (some identifier) present => some (identifier, .bool present)
  | .variant (some identifier) index => some (identifier, Tally.indexValue index)
  | .optional none _ | .variant none _ => none

end Decision

namespace Resolution

mutual

/-- All items of a resolution in pre-order: a group before what is inside it, and parts from left
to right.
-/
def decisions : Resolution → List Decision
  | .leaf taken => [.leaf taken]
  | .absent identifier => [.optional identifier false]
  | .present identifier inner => .optional identifier true :: inner.decisions
  | .chosen identifier index alternative =>
      .variant identifier index :: alternative.decisions
  | .sequence parts => decisionsAll parts

def decisionsAll : List Resolution → List Decision
  | [] => []
  | r :: rest => r.decisions ++ decisionsAll rest

end

/-- The leaves from left to right. -/
def leaves (r : Resolution) : List Leaf :=
  r.decisions.filterMap Decision.leaf?

/-- The presences of optional groups without identifier, in pre-order. -/
def optionals (r : Resolution) : List Bool :=
  r.decisions.filterMap Decision.presence?

/-- The choices of variants without identifier, in pre-order. -/
def variants (r : Resolution) : List Nat :=
  r.decisions.filterMap Decision.choice?

/-- The names bound by parameters, tails and named groups, in pre-order. -/
def entries (r : Resolution) : List (String × Value) :=
  r.decisions.filterMap Decision.entry?

mutual

/-- A score to which is added what a resolution counts, in the order of a run: leaf by leaf, and
what a group counts by itself as a whole.
-/
def addedTo {σ : Type} [Scale σ] (before : σ) : Resolution → σ
  | .leaf taken => before + taken.weight
  | .absent _ => before
  | .present _ inner => before + inner.addedTo 0
  | .chosen _ _ alternative => before + alternative.addedTo 0
  | .sequence parts => addedAllTo before parts

def addedAllTo {σ : Type} [Scale σ] (before : σ) : List Resolution → σ
  | [] => before
  | r :: rest => addedAllTo (r.addedTo before) rest

end

/-- What a resolution counts by itself. -/
def score {σ : Type} [Scale σ] (r : Resolution) : σ :=
  r.addedTo 0

section Exact

variable {σ : Type} [Scale σ] [ExactScale σ]

mutual

/-- Where scores add up in any grouping, the leaves are added, by recursion on the resolution. -/
theorem addedTo_eq (before : σ) (r : Resolution) : r.addedTo before = before + total r.leaves := by
  match r with
  | .leaf taken =>
      have own : total [taken] = (taken.weight : σ) := ExactScale.add_zero _
      exact congrArg (before + ·) own.symm
  | .absent _ => exact (ExactScale.add_zero before).symm
  | .present _ inner =>
      rw [addedTo, addedTo_eq 0 inner, ExactScale.zero_add]
      rfl
  | .chosen _ _ alternative =>
      rw [addedTo, addedTo_eq 0 alternative, ExactScale.zero_add]
      rfl
  | .sequence parts => exact addedAllTo_eq before parts

theorem addedAllTo_eq (before : σ) (parts : List Resolution)
    : addedAllTo before parts
      = before + total ((decisionsAll parts).filterMap Decision.leaf?) := by
  match parts with
  | [] => exact (ExactScale.add_zero before).symm
  | r :: rest =>
      rw [addedAllTo, addedAllTo_eq _ rest, addedTo_eq before r, decisionsAll,
        List.filterMap_append, total_append, ExactScale.add_assoc]
      rfl

end

theorem score_eq_total (r : Resolution) : (r.score : σ) = total r.leaves := by
  rw [score, addedTo_eq, ExactScale.zero_add]

end Exact

end Resolution

/-- A tally of nothing at a depth. -/
def Tally.fresh {σ : Type} [Scale σ] (raw : String) (depth : Nat) : Tally σ :=
  { start raw with depth }

/-- What a pattern does by itself at a position of a call: the tokens it leaves and its own score,
or why it does not match there.
-/
def Matcher.fitAt {σ : Type} [Scale σ] (m : Matcher) (raw : String) (depth : Nat) (p : Pattern)
    (tokens : List Token) : Except (Failure σ) (List Token × σ) :=
  match m.run p tokens (.fresh raw depth) with
  | (.ok rest, tally) => .ok (rest, tally.score)
  | (.error failure, _) => .error failure

/-- A pattern fits a position if its run from nothing succeeds there. -/
theorem fitAt_eq_ok {σ : Type} [Scale σ] {m : Matcher} {raw : String} {depth : Nat} {p : Pattern}
    {tokens left : List Token} {own : σ} (h : m.fitAt raw depth p tokens = .ok (left, own))
    : ∃ tally, m.run p tokens (.fresh raw depth) = (.ok left, tally) ∧ tally.score = own := by
  unfold Matcher.fitAt at h
  split at h
  · rename_i hr
    cases h
    exact ⟨_, hr, rfl⟩
  · cases h

theorem fitAt_eq_error {σ : Type} [Scale σ] {m : Matcher} {raw : String} {depth : Nat}
    {p : Pattern} {tokens : List Token} {failure : Failure σ} {tally : Tally σ}
    (h : m.run p tokens (.fresh raw depth) = (.error failure, tally))
    : m.fitAt raw depth p tokens = .error failure := by
  rw [Matcher.fitAt, h]

/-- The alternative at a place fits a position, with the tokens it leaves and its own score. -/
def Matcher.FitsAt {σ : Type} [Scale σ] (m : Matcher) (raw : String) (depth : Nat)
    (alternatives : List Pattern) (tokens : List Token) (place : Nat) (fit : List Token × σ)
    : Prop :=
  ∃ alternative,
    alternatives[place]? = some alternative
    ∧ m.fitAt raw depth alternative tokens = .ok fit

mutual

/-- A pattern at a depth and at the front of some tokens is greedily resolved, and leaves a rest
of the tokens. An optional group is present if its contents fit there and absent if they do not;
a variant has an alternative that fits there. What fits has the score of its resolution as its own
score. On an ordered scale, as floating-point numbers are, the chosen alternative is the earliest
one among those of greatest own score that fit.
-/
inductive Resolves (scale : Type) [Scale scale] (m : Matcher) (raw : String)
    : Nat → Pattern → List Token → Resolution → List Token → Prop
  | leaf {depth leaf rest} (accepted : leaf.Accepted m raw)
    (whole : leaf.isTail = true → rest = [])
    : Resolves scale m raw depth leaf.pattern (leaf.tokens ++ rest) (.leaf leaf) rest
  | absent {depth identifier inner tokens reason}
    (unfit : (m.fitAt raw (depth + 1) inner tokens : Except (Failure scale) _)
      = .error (.mismatch reason))
    : Resolves scale m raw depth (.optional identifier inner) tokens (.absent identifier) tokens
  | present {depth identifier inner tokens r rest}
    (fits : m.fitAt raw (depth + 1) inner tokens = .ok (rest, (r.score : scale)))
    (resolved : Resolves scale m raw (depth + 1) inner tokens r rest)
    : Resolves scale m raw depth (.optional identifier inner) tokens (.present identifier r) rest
  | chosen {depth identifier parenthesized alternatives tokens index alternative r rest}
    (found : alternatives[index]? = some alternative)
    (fits : m.fitAt raw (depth + 1) alternative tokens = .ok (rest, (r.score : scale)))
    (resolved : Resolves scale m raw (depth + 1) alternative tokens r rest)
    (best : ∀ [OrderedScale scale],
      Leads Prod.snd (m.FitsAt raw (depth + 1) alternatives tokens) index
        (rest, (r.score : scale)))
    : Resolves scale m raw depth (.variant identifier parenthesized alternatives) tokens
        (.chosen identifier index r) rest
  | sequence {depth children tokens parts rest}
    (resolved : ResolvesAll scale m raw (depth + 1) children tokens parts rest)
    : Resolves scale m raw depth (.sequence children) tokens (.sequence parts) rest

/-- Patterns are greedily resolved one after the other. -/
inductive ResolvesAll (scale : Type) [Scale scale] (m : Matcher) (raw : String)
    : Nat → List Pattern → List Token → List Resolution → List Token → Prop
  | nil {depth tokens} : ResolvesAll scale m raw depth [] tokens [] tokens
  | cons {depth p ps tokens r middle parts rest}
    (first : Resolves scale m raw depth p tokens r middle)
    (others : ResolvesAll scale m raw depth ps middle parts rest)
    : ResolvesAll scale m raw depth (p :: ps) tokens (r :: parts) rest

end

/-- What a variant was taken for leads all its alternatives that fit, by cases on the resolution. -/
theorem Resolves.exists_leads {scale : Type} [Scale scale] [OrderedScale scale] {m : Matcher}
    {raw : String} {depth : Nat} {identifier : Option String} {parenthesized : Bool}
    {alternatives : List Pattern} {tokens rest : List Token} {r : Resolution}
    (h : Resolves scale m raw depth (.variant identifier parenthesized alternatives) tokens r rest)
    : ∃ index alternative,
        r = .chosen identifier index alternative
        ∧ Leads Prod.snd (m.FitsAt raw (depth + 1) alternatives tokens) index
          (rest, (alternative.score : scale)) := by
  generalize hp : Pattern.variant identifier parenthesized alternatives = p at h
  cases h with
  | @leaf _ leaf _ accepted whole => cases leaf <;> cases hp
  | absent unfit => cases hp
  | present fits resolved => cases hp
  | chosen found fits resolved best =>
      cases hp
      exact ⟨_, _, rfl, best⟩
  | sequence resolved => cases hp

end CallGrammar

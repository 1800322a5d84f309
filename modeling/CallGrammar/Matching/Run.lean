import CallGrammar.Matching.Matcher
import CallGrammar.Matching.Tally
import CallGrammar.Pattern.Render

/-! Matching patterns against tokens. A pattern takes tokens from the front, notes in a tally
what it found, and leaves the rest. A mismatch can be recovered from by an optional group, a
variant or another candidate, a fault by nothing.
-/

namespace CallGrammar

------------------------------------------------------------
-- Verdicts

/-- Why matching stopped. -/
inductive Failure (σ : Type) where
  | mismatch (reason : Mismatch σ)
  | fault (fault : Fault)

/-- The tokens left by a match, or why there was none. -/
abbrev Verdict (σ : Type) :=
  Except (Failure σ) (List Token)

namespace Verdict

variable {σ : Type}

def mismatch (reason : Mismatch σ) : Verdict σ :=
  .error (.mismatch reason)

def fault (fault : Fault) : Verdict σ :=
  .error (.fault fault)

end Verdict

------------------------------------------------------------
-- Choosing

/-- The success with the greatest score and its place, the earliest of several. `best` is what
was chosen among the results before `index`.
-/
def earliestBest {σ ε α : Type} [Scale σ] (score : α → σ) (best : Option (Nat × α))
    (index : Nat) : List (Except ε α) → Option (Nat × α)
  | [] => best
  | .error _ :: rest => earliestBest score best (index + 1) rest
  | .ok candidate :: rest =>
      if best.all (fun chosen => score candidate > score chosen.2) then
        earliestBest score (some (index, candidate)) (index + 1) rest
      else
        earliestBest score best (index + 1) rest

/-- The first error of a list of results. -/
def firstError? {ε α : Type} : List (Except ε α) → Option ε
  | [] => none
  | .error e :: _ => some e
  | .ok _ :: rest => firstError? rest

------------------------------------------------------------
-- Single patterns

namespace Matcher

variable {σ : Type} [Scale σ]

/-- Enters a pattern, unless the call was already taken to its end or the pattern is too deep,
and comes back from it.
-/
def visit (m : Matcher) (kind : Kind) (inside : Tally σ → Verdict σ × Tally σ) (tally : Tally σ)
    : Verdict σ × Tally σ :=
  if tally.terminated then (.fault (.matchAfterTermination kind), tally)
  else if tally.depth ≥ m.maxDepth then (.fault (.depthExceeded m.maxDepth), tally)
  else
    let (verdict, tally) := inside tally.enter
    (verdict, tally.leave)

/-- A fixed word takes a token equal to it. -/
def runLiteral (m : Matcher) (text : String) (caseSensitive : Bool) (tokens : List Token)
    (tally : Tally σ) : Verdict σ × Tally σ :=
  match tokens with
  | [] => (.mismatch (.expectedLiteral text none false), tally)
  | token :: rest =>
      if m.accepts text token.value caseSensitive then
        (.ok rest, tally.award Scale.literal)
      else
        (.mismatch (.expectedLiteral text (some token) (m.isSimilar text token.value)), tally)

/-- A parameter takes a token that its type accepts. A type that is not registered is a fault
even where no token is left.
-/
def runParameter (m : Matcher) (name : String) (typeName : Option String) (tokens : List Token)
    (tally : Tally σ) : Verdict σ × Tally σ :=
  match typeName, tokens with
  | none, [] => (.mismatch (.expectedArgument name), tally)
  | none, token :: rest =>
      (.ok rest, (tally.bind name (.str token.value)).award Scale.parameter)
  | some typeName, [] =>
      if m.types.contains typeName then (.mismatch (.expectedArgument name), tally)
      else (.fault (.undefinedType typeName), tally)
  | some typeName, token :: rest =>
      match m.types.coerce typeName token.value with
      | .ok value => (.ok rest, (tally.bind name value).award Scale.parameter)
      | .error (.undefinedType typeName) => (.fault (.undefinedType typeName), tally)
      | .error (.rejected cause) => (.mismatch (.typeMismatch name typeName token cause), tally)

/-- A tail takes all tokens that are left, bound as the text from the first to the last. -/
def runTail (name : String) (tokens : List Token) (tally : Tally σ) : Verdict σ × Tally σ :=
  match tokens.head?, tokens.getLast? with
  | some first, some last =>
      let text := (first.span.upTo last.span).text tally.raw
      if text.isEmpty then (.mismatch (.expectedTail name), tally)
      else
        (.ok [], { (tally.bind name (.str text)).award Scale.tail with terminated := true })
  | _, _ => (.mismatch (.expectedTail name), tally)

/-- An optional group is present if its contents matched on a branch, absent if they do not
fit.
-/
def settleOptional (identifier : Option String) (tokens : List Token) (tally : Tally σ)
    : Verdict σ × Tally σ → Verdict σ × Tally σ
  | (.ok rest, branch) => (.ok rest, (tally.recordOptional identifier true).join branch)
  | (.error (.mismatch reason), _) =>
      (.ok tokens, { tally.recordOptional identifier false with hint := some reason })
  | (.error (.fault fault), _) => (.fault fault, tally)

/-- A variant is the best of its alternatives that matched. -/
def settleVariant (identifier : Option String) (alternatives : List Pattern) (tally : Tally σ)
    : Except Fault (List (Except (Mismatch σ) (List Token × Tally σ))) → Verdict σ × Tally σ
  | .error fault => (.fault fault, tally)
  | .ok results =>
      match earliestBest (fun result => result.2.score) none 0 results with
      | some (index, rest, branch) =>
          (.ok rest, (tally.recordVariant identifier index).join branch)
      | none =>
          (.mismatch (.noVariant (alternatives.map Pattern.render) (firstError? results)), tally)

------------------------------------------------------------
-- Whole patterns

mutual

/-- Matches a pattern against the front of some tokens. -/
def run (m : Matcher) (p : Pattern) (tokens : List Token) (tally : Tally σ)
    : Verdict σ × Tally σ :=
  match p with
  | .literal text caseSensitive =>
      m.visit .literal (m.runLiteral text caseSensitive tokens) tally
  | .parameter name typeName => m.visit .parameter (m.runParameter name typeName tokens) tally
  | .tail name => m.visit .tail (runTail name tokens) tally
  | .optional identifier inner =>
      m.visit .optional
        (fun tally => settleOptional identifier tokens tally (m.run inner tokens tally.branch))
        tally
  | .variant identifier _ alternatives =>
      m.visit .variant
        (fun tally =>
          settleVariant identifier alternatives tally (m.runEach alternatives tokens tally.branch))
        tally
  | .sequence children => m.visit .sequence (m.runAll children tokens) tally

/-- Matches patterns one after the other. -/
def runAll (m : Matcher) (ps : List Pattern) (tokens : List Token) (tally : Tally σ)
    : Verdict σ × Tally σ :=
  match ps with
  | [] => (.ok tokens, tally)
  | p :: rest =>
      match m.run p tokens tally with
      | (.ok tokens, tally) => m.runAll rest tokens tally
      | (.error failure, tally) => (.error failure, tally)

/-- Matches each pattern on its own against the same tokens, up to the first fault. -/
def runEach (m : Matcher) (ps : List Pattern) (tokens : List Token) (branch : Tally σ)
    : Except Fault (List (Except (Mismatch σ) (List Token × Tally σ))) :=
  match ps with
  | [] => .ok []
  | p :: rest =>
      match m.run p tokens branch with
      | (.ok left, tally) => (m.runEach rest tokens branch).map (.ok (left, tally) :: ·)
      | (.error (.mismatch reason), _) => (m.runEach rest tokens branch).map (.error reason :: ·)
      | (.error (.fault fault), _) => .error fault

end

end Matcher

end CallGrammar

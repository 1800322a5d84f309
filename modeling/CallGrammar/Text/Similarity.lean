/-! The Jaro–Winkler similarity of two words: 1 for equal words, 0 for words without a common
character near the same place.
-/

namespace CallGrammar.Text

/-- Takes the first free character equal to `c` among those at places `low` to `high`, the
last excluded. Each character of the row comes with whether it is taken; `place` is the place
of the row's first one.
-/
def takeEqual (c : Char) (low high place : Nat)
    : List (Char × Bool) → Option (List (Char × Bool))
  | [] => none
  | (d, taken) :: rest =>
      if low ≤ place && place < high && !taken && d == c then
        some ((d, true) :: rest)
      else
        (takeEqual c low high (place + 1) rest).map ((d, taken) :: ·)

/-- Pairs the characters of the first word with equal free ones of the second at most `range`
places away, in order. Gives the paired characters of the first word and the second word with
its paired characters taken.
-/
def pairUp (range place : Nat) (row : List (Char × Bool))
    : List Char → List Char × List (Char × Bool)
  | [] => ([], row)
  | c :: rest =>
      match takeEqual c (place - range) (place + range + 1) 0 row with
      | some row =>
          let (paired, row) := pairUp range (place + 1) row rest
          (c :: paired, row)
      | none => pairUp range (place + 1) row rest

/-- Half the number of places at which the paired characters of the two words differ, rounded
down.
-/
def transpositions (left right : List Char) : Nat :=
  ((left.zip right).filter (fun pair => pair.1 != pair.2)).length / 2

/-- The Jaro similarity: the mean of the paired shares of both words and the share of pairs
that stand in order.
-/
def jaro (a b : List Char) : Float :=
  if a.isEmpty && b.isEmpty then 1.0
  else if a.isEmpty || b.isEmpty then 0.0
  else
    let range := max a.length b.length / 2 - 1
    let (left, row) := pairUp range 0 (b.map (·, false)) a
    let right := (row.filter (·.2)).map (·.1)
    let pairs := left.length
    if pairs = 0 then 0.0
    else
      let ordered := pairs - transpositions left right
      ((pairs.toFloat / a.length.toFloat + pairs.toFloat / b.length.toFloat)
        + ordered.toFloat / pairs.toFloat) / 3.0

/-- The number of leading characters that two words share. -/
def sharedStart : List Char → List Char → Nat
  | a :: as, b :: bs => if a = b then sharedStart as bs + 1 else 0
  | _, _ => 0

/-- The Jaro similarity, raised for words above 0.7 that share up to four leading characters. -/
def similarity (a b : String) : Float :=
  let base := jaro a.toList b.toList
  if 0.7 < base then
    base + (0.1 * (min (sharedStart a.toList b.toList) 4).toFloat) * (1.0 - base)
  else
    base

end CallGrammar.Text

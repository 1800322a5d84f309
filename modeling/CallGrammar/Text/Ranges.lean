/-! Tables of code point ranges, by which character classes are given. -/

namespace CallGrammar.Text

/-- A table of code point ranges holds a character if one of its ranges does, ends included. -/
def inRanges (ranges : List (Nat × Nat)) (c : Char) : Bool :=
  ranges.any (fun range => range.1 ≤ c.toNat && c.toNat ≤ range.2)

/-- A character is in a table if its code point lies between the ends of one of the ranges. -/
theorem inRanges_iff {ranges : List (Nat × Nat)} {c : Char}
    : inRanges ranges c = true
        ↔ ∃ range ∈ ranges, range.1 ≤ c.toNat ∧ c.toNat ≤ range.2 := by
  simp [inRanges]

end CallGrammar.Text

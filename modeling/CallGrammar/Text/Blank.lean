/-! Blank characters: the ones that separate words. -/

namespace CallGrammar.Text

/-- Blanks are the space, tab and line characters, the no-break and ideographic spaces, and
the fixed-width spaces; the zero-width characters are not blank.
-/
def isBlank (c : Char) : Bool :=
  (0x9 ≤ c.toNat && c.toNat ≤ 0xD)
  || c.toNat == 0x20 || c.toNat == 0x85 || c.toNat == 0xA0 || c.toNat == 0x1680
  || (0x2000 ≤ c.toNat && c.toNat ≤ 0x200A)
  || c.toNat == 0x2028 || c.toNat == 0x2029 || c.toNat == 0x202F || c.toNat == 0x205F
  || c.toNat == 0x3000

/-- The characters without the blanks at both ends. -/
def trim (cs : List Char) : List Char :=
  ((cs.dropWhile isBlank).reverse.dropWhile isBlank).reverse

end CallGrammar.Text

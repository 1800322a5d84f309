import CallGrammar.Text.Blank
import CallGrammar.Text.Mark
import CallGrammar.Text.Unassigned

/-! Which characters print. ASCII is decided before a table is searched. -/

namespace CallGrammar.Text

/-- Control characters take no room and never print. -/
def isControl (c : Char) : Bool :=
  c.toNat < 0x20 || (0x7F ≤ c.toNat && c.toNat < 0xA0)

/-- Characters that steer how their neighbours are laid out or read. -/
def formatRanges : List (Nat × Nat) :=
  [(0xAD, 0xAD), (0x600, 0x605), (0x61C, 0x61C), (0x6DD, 0x6DD), (0x70F, 0x70F), (0x890, 0x891),
   (0x8E2, 0x8E2), (0x180E, 0x180E), (0x200B, 0x200F), (0x202A, 0x202E), (0x2060, 0x2064),
   (0x2066, 0x206F), (0xFEFF, 0xFEFF), (0xFFF9, 0xFFFB), (0x110BD, 0x110BD), (0x110CD, 0x110CD),
   (0x13430, 0x1343F), (0x1BCA0, 0x1BCA3), (0x1D173, 0x1D17A), (0xE0001, 0xE0001),
   (0xE0020, 0xE007F)]

def isFormat (c : Char) : Bool :=
  0x80 ≤ c.toNat && inRanges formatRanges c

/-- Characters that a display leaves out when it has no special use for them. -/
def ignorableRanges : List (Nat × Nat) :=
  [(0xAD, 0xAD), (0x34F, 0x34F), (0x61C, 0x61C), (0x115F, 0x1160), (0x17B4, 0x17B5),
   (0x180B, 0x180F), (0x200B, 0x200F), (0x202A, 0x202E), (0x2060, 0x206F), (0x3164, 0x3164),
   (0xFE00, 0xFE0F), (0xFEFF, 0xFEFF), (0xFFA0, 0xFFA0), (0xFFF0, 0xFFF8), (0x1BCA0, 0x1BCA3),
   (0x1D173, 0x1D17A), (0xE0000, 0xE0FFF)]

def isIgnorable (c : Char) : Bool :=
  0x80 ≤ c.toNat && inRanges ignorableRanges c

/-- Code points whose meaning is left to private agreement. -/
def isPrivateUse (c : Char) : Bool :=
  (0xE000 ≤ c.toNat && c.toNat ≤ 0xF8FF)
  || (0xF0000 ≤ c.toNat && c.toNat ≤ 0xFFFFD)
  || (0x100000 ≤ c.toNat && c.toNat ≤ 0x10FFFD)

/-- A printable character shows as itself and stands alone: it is no control, format, ignorable
character, extender, private or unassigned code point, nor a blank other than the plain space.
-/
def isPrintable (c : Char) : Bool :=
  c == ' '
  || !(isControl c || isBlank c || isFormat c || isIgnorable c || isExtender c
    || isPrivateUse c || isUnassigned c)

end CallGrammar.Text

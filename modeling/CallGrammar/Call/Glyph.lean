/-! Glyphs: the characters of a call, with the pairs of a backslash and what it escapes read
as one.
-/

namespace CallGrammar.Call

/-- A character on its own, or one behind a backslash that escapes it. -/
inductive Glyph where
  | bare (c : Char)
  | escaped (c : Char)
deriving DecidableEq

/-- A backslash escapes another backslash and every quote character. -/
def isEscapable (quotes : List Char) (c : Char) : Bool :=
  c == '\\' || quotes.contains c

/-- Reads the glyphs of a call, pairs from left to right. A backslash before anything else
stands for itself.
-/
def glyphs (quotes : List Char) : List Char → List Glyph
  | [] => []
  | [c] => [.bare c]
  | c :: d :: rest =>
      if c = '\\' ∧ isEscapable quotes d then .escaped d :: glyphs quotes rest
      else .bare c :: glyphs quotes (d :: rest)

/-- The characters a glyph was read from. -/
def Glyph.source : Glyph → List Char
  | .bare c => [c]
  | .escaped c => ['\\', c]

/-- The bytes a glyph was read from. -/
def Glyph.size : Glyph → Nat
  | .bare c => c.utf8Size
  | .escaped c => 1 + c.utf8Size

/-- Reading glyphs loses nothing: their sources make up the call, by induction on the reading. -/
theorem flatMap_source_glyphs (quotes cs : List Char)
    : (glyphs quotes cs).flatMap Glyph.source = cs := by
  fun_induction glyphs quotes cs with
  | case1 => rfl
  | case2 c => rfl
  | case3 c d rest h ih => simp [Glyph.source, ih, h.1]
  | case4 c d rest h ih => simp [Glyph.source, ih]

end CallGrammar.Call

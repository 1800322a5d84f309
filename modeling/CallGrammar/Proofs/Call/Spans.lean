import CallGrammar.Proofs.Call.Cutting

/-! The spans of a call's tokens part the call: in order and without overlap they cover everything
but blanks, and only a quote lets a token start right where another one stops.
-/

namespace CallGrammar

/-- The byte at an offset is one of a span's. -/
def Span.covers (span : Span) (offset : Nat) : Bool :=
  span.start ≤ offset && offset < span.stop

theorem Span.covers_iff {span : Span} {offset : Nat}
    : span.covers offset = true ↔ span.start ≤ offset ∧ offset < span.stop := by
  simp [Span.covers]

/-- A quote character opened a token: its source text starts with one. -/
def Token.isOpenedByQuote (quotes : List Char) (raw : String) (token : Token) : Bool :=
  (token.text raw).toList.head?.any (Call.isQuote quotes)

namespace Call

/-- Tokens whose spans part a call. Spans are not empty, so that in order and without overlap they
run strictly from left to right.
-/
structure Parted (quotes : List Char) (raw : String) (tokens : List Token) : Prop where
  filled : ∀ token ∈ tokens, token.span.start < token.span.stop
  bounded
    : ∀ token ∈ tokens,
        ∃ left middle right,
          raw.toList = left ++ middle ++ right
          ∧ token.span.start = Text.byteLength left
          ∧ token.span.stop = Text.byteLength (left ++ middle)
  ordered : tokens.Pairwise fun token later => token.span.stop ≤ later.span.start
  blank
    : ∀ left c right,
        raw.toList = left ++ c :: right
        → (∀ token ∈ tokens, token.span.covers (Text.byteLength left) = false)
        → Text.isBlank c = true
  separate
    : tokens.IsChain fun token next =>
        token.span.stop = next.span.start
        → token.isOpenedByQuote quotes raw = true ∨ next.isOpenedByQuote quotes raw = true

------------------------------------------------------------
-- Order and coverage

variable {quotes : List Char} {offset : Nat} {gs : List Glyph} {tokens : List Token}

namespace Cut

theorem le_start (h : Cut quotes offset gs tokens) {token : Token} (ht : token ∈ tokens)
    : offset ≤ token.span.start := by
  obtain ⟨left, right, piece, -, -, rfl⟩ := h.exists_piece ht
  exact Nat.le_add_right offset (width left)

theorem ordered (h : Cut quotes offset gs tokens)
    : tokens.Pairwise fun token later => token.span.stop ≤ later.span.start := by
  induction h with
  | done => exact List.Pairwise.nil
  | blank _ _ _ ih => exact ih
  | piece _ _ hrest ih =>
      refine List.pairwise_cons.mpr ⟨?_, ih⟩
      intro later hlater
      exact hrest.le_start hlater

/-- A character is blank or covered by a token, by induction on the cut. -/
theorem blank_or_covered (h : Cut quotes offset gs tokens) {left right : List Char} {c : Char}
    (hc : sources gs = left ++ c :: right)
    : Text.isBlank c = true
      ∨ ∃ token ∈ tokens, token.span.covers (offset + Text.byteLength left) = true := by
  induction h generalizing left with
  | done => simp at hc
  | @blank offset first gs tokens hb hq hrest ih =>
      cases left with
      | nil =>
          obtain ⟨rfl, -⟩ := List.cons.inj hc
          exact .inl hb
      | cons d left =>
          obtain ⟨rfl, hgs⟩ := List.cons.inj hc
          rw [Text.byteLength, ← Nat.add_assoc]
          exact ih hgs
  | @piece offset gs tokens first hp he hrest ih =>
      -- The character stands behind the first piece or inside it.
      rw [sources_append] at hc
      rcases Text.behind_or_inside hc with ⟨between, rfl, hgs⟩ | ⟨inside, hfirst⟩
      · rw [Text.byteLength_append, ← Nat.add_assoc]
        rcases ih hgs with hb | ⟨token, ht, hcovers⟩
        · exact .inl hb
        · exact .inr ⟨token, List.mem_cons_of_mem _ ht, hcovers⟩
      · have hpos : 0 < c.utf8Size := c.utf8Size_pos
        have hwidth : width first.glyphs
            = Text.byteLength left + (c.utf8Size + Text.byteLength inside) := by
          rw [width, hfirst, Text.byteLength_append, Text.byteLength]
        have hlt : Text.byteLength left < width first.glyphs := by omega
        refine .inr ⟨first.token offset, List.mem_cons_self, Span.covers_iff.mpr ?_⟩
        exact ⟨Nat.le_add_right offset _, Nat.add_lt_add_left hlt offset⟩

end Cut

------------------------------------------------------------
-- Touching tokens

/-- A token that starts where its glyphs do is made up by the first of their pieces. -/
theorem Cut.starts_with_piece {token : Token} (h : Cut quotes offset gs (token :: tokens))
    (hstart : offset = token.span.start)
    : ∃ rest, ∃ piece : Piece,
        gs = piece.glyphs ++ rest ∧ piece.Proper quotes ∧ token = piece.token offset := by
  cases h with
  | @blank _ c gs _ hb hq hrest =>
      have hle : offset + c.utf8Size ≤ token.span.start := hrest.le_start List.mem_cons_self
      have hpos : 0 < c.utf8Size := c.utf8Size_pos
      omega
  | piece hp he hrest => exact ⟨_, _, rfl, hp, rfl⟩

/-- A quote opens the token of a quoted piece. -/
theorem Piece.isOpenedByQuote_token {raw : String} {left right : List Char} {quote : Char}
    {inner : List Glyph} (proper : (Piece.quoted quote inner).Proper quotes)
    (hraw : raw.toList = left ++ (sources (Piece.quoted quote inner).glyphs ++ right))
    : ((Piece.quoted quote inner).token (Text.byteLength left)).isOpenedByQuote quotes raw
      = true := by
  rw [Token.isOpenedByQuote, Piece.text_token hraw, Piece.glyphs, List.cons_append,
    head?_sources]
  exact proper.1

/-- Of two tokens that touch a quote opens one: behind a plain word there is no plain glyph, so a
piece that follows it directly is a quoted one.
-/
theorem Cut.separate (h : Cut quotes offset gs tokens) {raw : String} {left : List Char}
    (hraw : raw.toList = left ++ sources gs) (hoffset : offset = Text.byteLength left)
    : tokens.IsChain fun token next =>
        token.span.stop = next.span.start
        → token.isOpenedByQuote quotes raw = true ∨ next.isOpenedByQuote quotes raw = true := by
  induction h generalizing left with
  | done => exact List.isChain_nil
  | @blank offset c gs tokens hb hq hrest ih =>
      refine @ih (left ++ [c]) ?_ ?_
      · simpa [Glyph.source] using hraw
      · simp [hoffset, Text.byteLength_append, Text.byteLength]
  | @piece offset gs tokens piece hp he hrest ih =>
      subst hoffset
      have hbehind : raw.toList = left ++ sources piece.glyphs ++ sources gs := by
        simpa using hraw
      have hlength : Text.byteLength left + width piece.glyphs
          = Text.byteLength (left ++ sources piece.glyphs) := by
        rw [Text.byteLength_append, width]
      refine List.isChain_cons.mpr ⟨?_, ih hbehind hlength⟩
      intro next hnext htouch
      cases piece with
      | quoted quote inner =>
          exact .inl (Piece.isOpenedByQuote_token hp (by simpa using hraw))
      | plain word =>
          obtain ⟨others, rfl⟩ := List.head?_eq_some_iff.mp hnext
          obtain ⟨rest, second, rfl, hsecond, rfl⟩ := hrest.starts_with_piece htouch
          cases second with
          | quoted quote inner =>
              rw [hlength]
              exact .inr (Piece.isOpenedByQuote_token hsecond (by simpa using hbehind))
          | plain other =>
              obtain ⟨g, tail, rfl⟩ := List.exists_cons_of_ne_nil hsecond.1
              have hplain : g.isPlain quotes = true := hsecond.2 g List.mem_cons_self
              have hstop : g.isPlain quotes = false := he g rfl
              exact absurd hplain (by simp [hstop])

------------------------------------------------------------
-- Calls

/-- Token spans part the call: whatever characters quote, the spans of a call's tokens are not
empty, lie within the call on character boundaries, follow one another without overlap and leave
out nothing but blanks, and where two of them touch a quote opened one of the tokens.
-/
theorem parted_of_tokenize (quotes : List Char) (raw : String) (tokens : List Token)
    (h : tokenize quotes raw = .ok tokens)
    : Parted quotes raw tokens := by
  have hcut : Cut quotes 0 (glyphs quotes raw.toList) tokens := cut_of_tokenize h
  have hsources : raw.toList = sources (glyphs quotes raw.toList) := (sources_glyphs _ _).symm
  have hwhole : raw.toList = [] ++ sources (glyphs quotes raw.toList) := hsources
  refine ⟨?_, ?_, hcut.ordered, ?_, hcut.separate hwhole rfl⟩
  · intro token ht
    obtain ⟨left, right, piece, -, hp, rfl⟩ := hcut.exists_piece ht
    exact Nat.lt_add_of_pos_right (width_pos (Piece.glyphs_ne_nil hp))
  · intro token ht
    obtain ⟨left, right, piece, hgs, hp, rfl⟩ := hcut.exists_piece ht
    refine ⟨sources left, sources piece.glyphs, sources right, ?_, ?_, ?_⟩
    · rw [hsources, hgs, sources_append, sources_append]
    · rw [Nat.zero_add]
      rfl
    · rw [Nat.zero_add, Text.byteLength_append]
      rfl
  · intro left c right hraw huncovered
    rcases hcut.blank_or_covered (hsources.symm.trans hraw) with hb | ⟨token, ht, hcovers⟩
    · exact hb
    · rw [Nat.zero_add] at hcovers
      exact absurd hcovers (by simp [huncovered token ht])

/-- A plain word of a two-byte character, a quoted token that touches it, a plain token with an
escaped quote that touches the quoted one, and a backslash at the end, with the backslash and the
tab among the quote characters.
-/
theorem parted_of_tokenize_touching
    : tokenize ['"', '\\', '\t'] "é\"b c\"\\\"d \\"
        = .ok [⟨"é", ⟨0, 2⟩⟩, ⟨"b c", ⟨2, 7⟩⟩, ⟨"\\\"d", ⟨7, 10⟩⟩, ⟨"\\", ⟨11, 12⟩⟩]
      ∧ Parted ['"', '\\', '\t'] "é\"b c\"\\\"d \\"
        [⟨"é", ⟨0, 2⟩⟩, ⟨"b c", ⟨2, 7⟩⟩, ⟨"\\\"d", ⟨7, 10⟩⟩, ⟨"\\", ⟨11, 12⟩⟩] := by
  have h : tokenize ['"', '\\', '\t'] "é\"b c\"\\\"d \\"
      = .ok [⟨"é", ⟨0, 2⟩⟩, ⟨"b c", ⟨2, 7⟩⟩, ⟨"\\\"d", ⟨7, 10⟩⟩, ⟨"\\", ⟨11, 12⟩⟩] := by
    decide
  exact ⟨h, parted_of_tokenize _ _ _ h⟩

end Call

end CallGrammar

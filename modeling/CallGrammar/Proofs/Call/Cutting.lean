import CallGrammar.Call.Tokens
import CallGrammar.Proofs.Call.Glyphs

/-! How a call is cut. The glyphs of a call fall into blanks and pieces: plain words that run as far
as they can, and stretches between two equal quotes. Every token of a call is one of the pieces.
-/

namespace CallGrammar.Call

------------------------------------------------------------
-- Pieces

/-- The text of a glyph when pairs are replaced. -/
def Glyph.replace (pair : Char → List Char) : Glyph → List Char
  | .bare c => [c]
  | .escaped c => pair c

/-- What a glyph of a plain word adds to its value: only a backslash loses the one before it. -/
def Glyph.plainText : Glyph → List Char :=
  Glyph.replace fun c => if c = '\\' then ['\\'] else ['\\', c]

/-- What a glyph between quotes adds to the value. -/
def Glyph.quotedText : Glyph → List Char :=
  Glyph.replace fun c => [c]

/-- A glyph that goes on with a plain word. -/
def Glyph.isPlain (quotes : List Char) : Glyph → Bool
  | .bare c => !isQuote quotes c && !Text.isBlank c
  | .escaped _ => true

/-- What does not go on with a plain word is a bare quote or a bare blank. -/
theorem Glyph.isPlain_eq_false {quotes : List Char} {g : Glyph} (hg : g.isPlain quotes = false)
    : ∃ c, g = .bare c ∧ (isQuote quotes c = true ∨ Text.isBlank c = true) := by
  cases g with
  | bare c =>
      refine ⟨c, rfl, ?_⟩
      simpa [isPlain, Decidable.or_iff_not_imp_left] using hg
  | escaped c => exact absurd hg (by simp [isPlain])

/-- A stretch of glyphs that makes up a token. -/
inductive Piece where
  | plain (word : List Glyph)
  | quoted (quote : Char) (inner : List Glyph)

namespace Piece

/-- The glyphs of a piece. -/
def glyphs : Piece → List Glyph
  | .plain word => word
  | .quoted quote inner => .bare quote :: inner ++ [.bare quote]

/-- The value of the token that a piece makes up. -/
def value : Piece → List Char
  | .plain word => word.flatMap Glyph.plainText
  | .quoted _ inner => inner.flatMap Glyph.quotedText

/-- The token that a piece makes up at an offset. -/
def token (offset : Nat) (piece : Piece) : Token :=
  ⟨String.ofList piece.value, ⟨offset, offset + width piece.glyphs⟩⟩

theorem value_token (offset : Nat) (piece : Piece)
    : (piece.token offset).value.toList = piece.value :=
  String.toList_ofList

/-- A plain word is not empty and has nothing that ends it; a quoted piece ends at its first bare
quote.
-/
def Proper (quotes : List Char) : Piece → Prop
  | .plain word => word ≠ [] ∧ ∀ g ∈ word, g.isPlain quotes = true
  | .quoted quote inner => isQuote quotes quote = true ∧ .bare quote ∉ inner

/-- Glyphs that may follow a piece: whatever follows a plain word does not go on with it. -/
def Ends (quotes : List Char) (rest : List Glyph) : Piece → Prop
  | .plain _ => ∀ g ∈ rest.head?, g.isPlain quotes = false
  | .quoted .. => True

theorem glyphs_ne_nil {quotes : List Char} {piece : Piece} (h : piece.Proper quotes)
    : piece.glyphs ≠ [] := by
  cases piece with
  | plain word => exact h.1
  | quoted quote inner => exact List.cons_ne_nil _ _

end Piece

/-- Glyphs from an offset on are cut into tokens: blanks are left out, and every piece makes up a
token.
-/
inductive Cut (quotes : List Char) : Nat → List Glyph → List Token → Prop
  | done {offset} : Cut quotes offset [] []
  | blank {offset c gs tokens} (blank : Text.isBlank c = true)
    (unquoted : isQuote quotes c = false) (rest : Cut quotes (offset + c.utf8Size) gs tokens)
    : Cut quotes offset (.bare c :: gs) tokens
  | piece {offset gs tokens} {piece : Piece} (proper : piece.Proper quotes)
    (ends : piece.Ends quotes gs) (rest : Cut quotes (offset + width piece.glyphs) gs tokens)
    : Cut quotes offset (piece.glyphs ++ gs) (piece.token offset :: tokens)

------------------------------------------------------------
-- Reading

/-- What a cursor goes on to find in the glyphs from an offset on: the rest of the token under way,
and then tokens that the glyphs behind it are cut into.
-/
def Cursor.Continues (quotes : List Char) (offset : Nat) (gs : List Glyph) (tokens : List Token)
    : Cursor → Prop
  | .between => Cut quotes offset gs tokens
  | .plain start value =>
      ∃ word rest others,
        gs = word ++ rest
        ∧ (∀ g ∈ word, g.isPlain quotes = true)
        ∧ (∀ g ∈ rest.head?, g.isPlain quotes = false)
        ∧ tokens
          = ⟨value ++ String.ofList (word.flatMap Glyph.plainText), ⟨start, offset + width word⟩⟩
            :: others
        ∧ Cut quotes (offset + width word) rest others
  | .quoted quote start value =>
      ∃ inner rest others,
        gs = inner ++ .bare quote :: rest
        ∧ .bare quote ∉ inner
        ∧ tokens
          = ⟨value ++ String.ofList (inner.flatMap Glyph.quotedText),
              ⟨start, offset + width inner + quote.utf8Size⟩⟩
            :: others
        ∧ Cut quotes (offset + width inner + quote.utf8Size) rest others

namespace Cursor.Continues

variable {quotes : List Char} {offset start : Nat} {value : String} {g : Glyph} {gs : List Glyph}
  {tokens : List Token}

/-- A plain glyph starts a plain word. -/
theorem start_plain (hg : g.isPlain quotes = true)
    (h : (Cursor.plain offset (String.ofList g.plainText)).Continues quotes (offset + g.size) gs
      tokens)
    : Cut quotes offset (g :: gs) tokens := by
  obtain ⟨word, rest, others, rfl, hw, hr, rfl, hc⟩ := h
  have proper : (Piece.plain (g :: word)).Proper quotes :=
    ⟨List.cons_ne_nil g word, List.forall_mem_cons.mpr ⟨hg, hw⟩⟩
  have hp : Cut quotes offset _ _ := Cut.piece proper hr (by
    rw [Piece.glyphs, width_cons, ← Nat.add_assoc]
    exact hc)
  simpa [Piece.glyphs, Piece.token, Piece.value, String.ofList_append, Nat.add_assoc] using hp

/-- A plain glyph goes on with a plain word. -/
theorem extend_plain (hg : g.isPlain quotes = true)
    (h : (Cursor.plain start (value ++ String.ofList g.plainText)).Continues quotes
      (offset + g.size) gs tokens)
    : (Cursor.plain start value).Continues quotes offset (g :: gs) tokens := by
  obtain ⟨word, rest, others, rfl, hw, hr, rfl, hc⟩ := h
  refine ⟨g :: word, rest, others, rfl, List.forall_mem_cons.mpr ⟨hg, hw⟩, hr, ?_, ?_⟩
  · simp [String.ofList_append, String.append_assoc, Nat.add_assoc]
  · rw [width_cons, ← Nat.add_assoc]
    exact hc

/-- A plain word ends before a glyph that does not go on with it. -/
theorem end_plain (hg : g.isPlain quotes = false) (h : Cut quotes offset (g :: gs) tokens)
    : (Cursor.plain start value).Continues quotes offset (g :: gs)
        (⟨value, ⟨start, offset⟩⟩ :: tokens) := by
  refine ⟨[], g :: gs, tokens, rfl, by simp, by simpa using hg, ?_, h⟩
  simp

/-- A quote opens a quoted piece. -/
theorem open_quote {quote : Char} (hq : isQuote quotes quote = true)
    (h : (Cursor.quoted quote offset "").Continues quotes (offset + quote.utf8Size) gs tokens)
    : Cut quotes offset (.bare quote :: gs) tokens := by
  obtain ⟨inner, rest, others, rfl, hi, rfl, hc⟩ := h
  have proper : (Piece.quoted quote inner).Proper quotes := ⟨hq, hi⟩
  have hp : Cut quotes offset _ _ := Cut.piece proper trivial (by
    simpa [Piece.glyphs, Glyph.size, Nat.add_assoc] using hc)
  simpa [Piece.glyphs, Piece.token, Piece.value, Glyph.size, Nat.add_assoc] using hp

/-- Any glyph but the quote that opened it goes on with a quoted piece. -/
theorem extend_quoted {quote : Char} (hg : g ≠ .bare quote)
    (h : (Cursor.quoted quote start (value ++ String.ofList g.quotedText)).Continues quotes
      (offset + g.size) gs tokens)
    : (Cursor.quoted quote start value).Continues quotes offset (g :: gs) tokens := by
  obtain ⟨inner, rest, others, rfl, hi, rfl, hc⟩ := h
  refine ⟨g :: inner, rest, others, rfl, ?_, ?_, ?_⟩
  · simpa using ⟨Ne.symm hg, hi⟩
  · simp [String.ofList_append, String.append_assoc, Nat.add_assoc]
  · rw [width_cons, ← Nat.add_assoc offset]
    exact hc

/-- The quote that opened a quoted piece closes it. -/
theorem close_quote {quote : Char} (h : Cut quotes (offset + quote.utf8Size) gs tokens)
    : (Cursor.quoted quote start value).Continues quotes offset (.bare quote :: gs)
        (⟨value, ⟨start, offset + quote.utf8Size⟩⟩ :: tokens) := by
  refine ⟨[], gs, tokens, rfl, by simp, ?_, h⟩
  simp

end Cursor.Continues

namespace Cursor

/-- A quote is open. -/
def isQuoted : Cursor → Bool
  | .quoted .. => true
  | .between | .plain .. => false

variable {quotes : List Char} {offset : Nat} {g : Glyph} {gs : List Glyph} {tokens : List Token}

@[simp]
theorem isQuoted_push (cursor : Cursor) (offset : Nat) (text : String)
    : (cursor.push offset text).isQuoted = cursor.isQuoted := by
  cases cursor <;> rfl

/-- Outside quotes a character opens a quote, separates, or goes on with the token under way. -/
theorem read_bare {cursor : Cursor} (outside : cursor.isQuoted = false) (c : Char)
    : cursor.read quotes offset (.bare c)
      = if isQuote quotes c then (cursor.finishPlain offset, .quoted c offset "")
        else if Text.isBlank c then (cursor.finishPlain offset, .between)
        else ([], cursor.push offset c.toString) := by
  cases cursor with
  | between => rfl
  | plain start value => rfl
  | quoted quote start value => exact absurd outside (by simp [isQuoted])

theorem read_escaped {cursor : Cursor} (outside : cursor.isQuoted = false) (c : Char)
    : cursor.read quotes offset (.escaped c)
      = ([], cursor.push offset (String.ofList (Glyph.escaped c).plainText)) := by
  have htext : cursor.escapedText c = String.ofList (Glyph.escaped c).plainText := by
    cases cursor with
    | between =>
        simp only [escapedText, Glyph.plainText, Glyph.replace]
        split <;> simp
    | plain start value =>
        simp only [escapedText, Glyph.plainText, Glyph.replace]
        split <;> simp
    | quoted quote start value => exact absurd outside (by simp [isQuoted])
  rw [read, htext]

/-- Outside quotes a plain glyph goes on with the token under way. -/
theorem read_plain {cursor : Cursor} (outside : cursor.isQuoted = false)
    (hg : g.isPlain quotes = true)
    : cursor.read quotes offset g = ([], cursor.push offset (String.ofList g.plainText)) := by
  cases g with
  | escaped c => exact read_escaped outside c
  | bare c =>
      have hc : isQuote quotes c = false ∧ Text.isBlank c = false := by
        simpa [Glyph.isPlain] using hg
      rw [read_bare outside, if_neg (by simp [hc.1]), if_neg (by simp [hc.2])]
      rfl

/-- Outside quotes any other glyph ends the token under way, and leads to what starts with it. -/
theorem read_stop {cursor : Cursor} (outside : cursor.isQuoted = false)
    (hg : g.isPlain quotes = false)
    (h : (cursor.read quotes offset g).2.Continues quotes (offset + g.size) gs tokens)
    : (cursor.read quotes offset g).1 = cursor.finishPlain offset
      ∧ Cut quotes offset (g :: gs) tokens := by
  obtain ⟨c, rfl, hc⟩ := Glyph.isPlain_eq_false hg
  rw [read_bare outside] at h ⊢
  by_cases hq : isQuote quotes c = true
  · rw [if_pos hq] at h ⊢
    exact ⟨rfl, Continues.open_quote hq h⟩
  · have hb : Text.isBlank c = true := hc.resolve_left hq
    rw [if_neg hq, if_pos hb] at h ⊢
    exact ⟨rfl, Cut.blank hb (by simpa using hq) h⟩

/-- What is found behind a glyph is found from the glyph on, after the token that it finishes. -/
theorem continues_of_read (cursor : Cursor) (g : Glyph)
    (h : (cursor.read quotes offset g).2.Continues quotes (offset + g.size) gs tokens)
    : cursor.Continues quotes offset (g :: gs) ((cursor.read quotes offset g).1 ++ tokens) := by
  cases cursor with
  | quoted quote start value =>
      cases g with
      | escaped c => exact Continues.extend_quoted (by simp) h
      | bare c =>
          rw [read] at h ⊢
          by_cases hc : c = quote
          · rw [if_pos hc] at h ⊢
            subst hc
            exact Continues.close_quote h
          · rw [if_neg hc] at h ⊢
            exact Continues.extend_quoted (by simpa using hc) h
  | between =>
      cases hg : g.isPlain quotes with
      | true =>
          rw [read_plain rfl hg] at h ⊢
          exact Continues.start_plain hg h
      | false =>
          obtain ⟨hfinished, hcut⟩ := read_stop rfl hg h
          rw [hfinished]
          exact hcut
  | plain start value =>
      cases hg : g.isPlain quotes with
      | true =>
          rw [read_plain rfl hg] at h ⊢
          exact Continues.extend_plain hg h
      | false =>
          obtain ⟨hfinished, hcut⟩ := read_stop rfl hg h
          rw [hfinished]
          exact Continues.end_plain hg hcut

/-- A run of reads that ends outside quotes finds what its cursor goes on to find, by induction on
the glyphs.
-/
theorem continues_of_scan (cursor : Cursor) (gs : List Glyph) (offset : Nat)
    (outside : (scan quotes offset cursor gs).2.isQuoted = false)
    : cursor.Continues quotes offset gs
        ((scan quotes offset cursor gs).1
          ++ (scan quotes offset cursor gs).2.finishPlain (offset + width gs)) := by
  induction gs generalizing cursor offset with
  | nil =>
      cases cursor with
      | between => exact Cut.done
      | plain start value =>
          exact ⟨[], [], [], rfl, by simp, by simp, by simp [scan, finishPlain], Cut.done⟩
      | quoted quote start value => exact absurd outside (by simp [scan, isQuoted])
  | cons g rest ih =>
      -- The tokens behind the glyph come from the rest of the run, which ends at the same offset.
      simp only [scan] at outside ⊢
      have h := continues_of_read cursor g (ih _ _ outside)
      rwa [Nat.add_assoc, ← width_cons, ← List.append_assoc] at h

end Cursor

------------------------------------------------------------
-- Calls

theorem utf8ByteSize_ofList (cs : List Char)
    : (String.ofList cs).utf8ByteSize = Text.byteLength cs := by
  induction cs with
  | nil => rfl
  | cons c rest ih =>
      rw [String.ofList_cons]
      simp [ih, Text.byteLength]

theorem byteLength_toList (text : String) : Text.byteLength text.toList = text.utf8ByteSize := by
  rw [← utf8ByteSize_ofList, String.ofList_toList]

/-- The glyphs of a call are as wide as the call. -/
theorem width_glyphs (quotes : List Char) (raw : String)
    : width (glyphs quotes raw.toList) = raw.utf8ByteSize := by
  rw [width, sources_glyphs, byteLength_toList]

/-- Exactly the calls that end outside quotes have tokens. -/
theorem tokenize_eq_ok_iff {quotes : List Char} {raw : String} {tokens : List Token}
    : tokenize quotes raw = .ok tokens
      ↔ (scan quotes 0 .between (glyphs quotes raw.toList)).2.isQuoted = false
        ∧ tokens
          = (scan quotes 0 .between (glyphs quotes raw.toList)).1
            ++ (scan quotes 0 .between (glyphs quotes raw.toList)).2.finishPlain
              raw.utf8ByteSize := by
  rw [tokenize]
  split
  case h_1 _ quote start value heq =>
    simp [heq, Cursor.isQuoted]
  case h_2 _ found cursor unquoted heq =>
    have outside : cursor.isQuoted = false := by
      cases cursor with
      | between => rfl
      | plain start value => rfl
      | quoted quote start value => exact absurd rfl (unquoted quote start value)
    simp [heq, outside, eq_comm]

/-- The tokens of a call are what its glyphs are cut into. -/
theorem cut_of_tokenize {quotes : List Char} {raw : String} {tokens : List Token}
    (h : tokenize quotes raw = .ok tokens)
    : Cut quotes 0 (glyphs quotes raw.toList) tokens := by
  obtain ⟨outside, rfl⟩ := tokenize_eq_ok_iff.mp h
  have hsize : raw.utf8ByteSize = 0 + width (glyphs quotes raw.toList) := by
    rw [Nat.zero_add, width_glyphs]
  rw [hsize]
  exact Cursor.continues_of_scan .between _ 0 outside

------------------------------------------------------------
-- Tokens as pieces

/-- Every token is a piece of what was cut and stands where the piece does. -/
theorem Cut.exists_piece {quotes : List Char} {offset : Nat} {gs : List Glyph}
    {tokens : List Token} (h : Cut quotes offset gs tokens) {token : Token} (ht : token ∈ tokens)
    : ∃ left right, ∃ piece : Piece,
        gs = left ++ piece.glyphs ++ right
        ∧ piece.Proper quotes
        ∧ token = piece.token (offset + width left) := by
  induction h with
  | done => exact absurd ht List.not_mem_nil
  | @blank offset c gs tokens hb hq hrest ih =>
      obtain ⟨left, right, piece, rfl, hp, rfl⟩ := ih ht
      refine ⟨.bare c :: left, right, piece, rfl, hp, ?_⟩
      rw [width_cons, ← Nat.add_assoc]
      rfl
  | @piece offset gs tokens first hp he hrest ih =>
      rcases List.mem_cons.mp ht with rfl | hmem
      · exact ⟨[], gs, first, rfl, hp, rfl⟩
      · obtain ⟨left, right, piece, rfl, hp', rfl⟩ := ih hmem
        refine ⟨first.glyphs ++ left, right, piece, by simp, hp', ?_⟩
        rw [width_append, ← Nat.add_assoc]

/-- The span from the start to the end of a stretch covers the characters of the stretch. -/
theorem text?_stretch (left middle right : List Char)
    : (Span.mk (Text.byteLength left) (Text.byteLength left + Text.byteLength middle)).text?
        (left ++ (middle ++ right))
      = some middle := by
  have hdrop : Text.dropBytes? (Text.byteLength left) (left ++ (middle ++ right))
      = some (middle ++ right) := Text.dropBytes?_append left _
  have htake : Text.takeBytes? (Text.byteLength middle) (middle ++ right) = some middle :=
    Text.takeBytes?_append middle right
  simp [Span.text?, Span.length, hdrop, htake]

/-- The text of that span is the stretch. -/
theorem text_stretch {raw : String} {left middle right : List Char}
    (hraw : raw.toList = left ++ (middle ++ right))
    : (Span.mk (Text.byteLength left) (Text.byteLength left + Text.byteLength middle)).text raw
      = String.ofList middle := by
  rw [Span.text, hraw, text?_stretch, Option.getD_some]

/-- The source text of a piece's token is that of the piece. -/
theorem Piece.text_token {raw : String} {left right : List Char} {piece : Piece}
    (hraw : raw.toList = left ++ (sources piece.glyphs ++ right))
    : ((piece.token (Text.byteLength left)).text raw).toList = sources piece.glyphs := by
  have htext : (piece.token (Text.byteLength left)).text raw
      = String.ofList (sources piece.glyphs) := text_stretch hraw
  rw [htext, String.toList_ofList]

end CallGrammar.Call

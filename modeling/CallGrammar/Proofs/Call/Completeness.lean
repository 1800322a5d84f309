import CallGrammar.Proofs.Call.Cutting

/-! Every cut is found. Reading the glyphs of a cut gives its tokens, so a call has tokens exactly
if its glyphs are cut into them.
-/

namespace CallGrammar.Call

/-- Outside quotes a glyph that does not go on with a plain word finishes the one under way, and
leads to the same cursor from everywhere.
-/
theorem Cursor.exists_read_stop {quotes : List Char} {g : Glyph} (hg : g.isPlain quotes = false)
    (offset : Nat)
    : ∃ next : Cursor,
        ∀ cursor : Cursor,
          cursor.isQuoted = false
          → cursor.read quotes offset g = (cursor.finishPlain offset, next) := by
  obtain ⟨c, rfl, hc⟩ := Glyph.isPlain_eq_false hg
  by_cases hq : isQuote quotes c = true
  · refine ⟨.quoted c offset "", ?_⟩
    intro cursor outside
    rw [read_bare outside, if_pos hq]
  · refine ⟨.between, ?_⟩
    intro cursor outside
    rw [read_bare outside, if_neg hq, if_pos (hc.resolve_left hq)]

/-- The tokens found by a run of reads that ends outside quotes, a plain one that is under way at
its end included.
-/
structure Finds (quotes : List Char) (offset : Nat) (cursor : Cursor) (gs : List Glyph)
    (tokens : List Token) : Prop where
  outside : (scan quotes offset cursor gs).2.isQuoted = false
  tokens_eq
    : tokens
      = (scan quotes offset cursor gs).1
        ++ (scan quotes offset cursor gs).2.finishPlain (offset + width gs)

namespace Finds

variable {quotes : List Char} {offset start : Nat} {cursor next : Cursor} {value : String}
  {g : Glyph} {gs : List Glyph} {finished tokens : List Token}

/-- What a glyph finishes is found before what the rest of the run finds. -/
theorem cons_iff (read : cursor.read quotes offset g = (finished, next))
    : Finds quotes offset cursor (g :: gs) (finished ++ tokens)
      ↔ Finds quotes (offset + g.size) next gs tokens := by
  have hscan : scan quotes offset cursor (g :: gs)
      = (finished ++ (scan quotes (offset + g.size) next gs).1,
        (scan quotes (offset + g.size) next gs).2) := by
    rw [scan, read]
  constructor
  · intro h
    have htokens := h.tokens_eq
    rw [hscan, width_cons, ← Nat.add_assoc, List.append_assoc] at htokens
    exact ⟨by simpa [hscan] using h.outside, List.append_cancel_left htokens⟩
  · intro h
    refine ⟨by simpa [hscan] using h.outside, ?_⟩
    rw [hscan, h.tokens_eq, width_cons, Nat.add_assoc, List.append_assoc]

/-- Behind a glyph that finishes no token the run goes on. -/
theorem step (read : cursor.read quotes offset g = ([], next))
    (h : Finds quotes (offset + g.size) next gs tokens)
    : Finds quotes offset cursor (g :: gs) tokens :=
  (cons_iff read).mpr h

/-- A plain word is read into its value, by induction on the word. -/
theorem word {word : List Glyph} (plain : ∀ g ∈ word, g.isPlain quotes = true)
    (h : Finds quotes (offset + width word)
      (.plain start (value ++ String.ofList (word.flatMap Glyph.plainText))) gs tokens)
    : Finds quotes offset (.plain start value) (word ++ gs) tokens := by
  induction word generalizing offset value with
  | nil => simpa using h
  | cons g word ih =>
      obtain ⟨hg, hword⟩ := List.forall_mem_cons.mp plain
      refine step (Cursor.read_plain rfl hg) (ih hword ?_)
      simpa [String.ofList_append, String.append_assoc, Nat.add_assoc] using h

/-- What stands between quotes is read into the value, by induction on it. -/
theorem inner {quote : Char} {inner : List Glyph} (unquoted : .bare quote ∉ inner)
    (h : Finds quotes (offset + width inner)
      (.quoted quote start (value ++ String.ofList (inner.flatMap Glyph.quotedText))) gs tokens)
    : Finds quotes offset (.quoted quote start value) (inner ++ gs) tokens := by
  induction inner generalizing offset value with
  | nil => simpa using h
  | cons g inner ih =>
      obtain ⟨hg, hinner⟩ : g ≠ .bare quote ∧ .bare quote ∉ inner := by
        simpa [eq_comm] using unquoted
      have hread : (Cursor.quoted quote start value).read quotes offset g
          = ([], .quoted quote start (value ++ String.ofList g.quotedText)) := by
        cases g with
        | escaped c => rfl
        | bare c =>
            have hc : c ≠ quote := fun he => hg (congrArg _ he)
            rw [Cursor.read, if_neg hc]
            rfl
      refine step hread (ih hinner ?_)
      simpa [String.ofList_append, String.append_assoc, Nat.add_assoc] using h

/-- A plain word that nothing goes on with is found, and then whatever follows it. -/
theorem stop (ends : ∀ g ∈ gs.head?, g.isPlain quotes = false)
    (h : Finds quotes offset .between gs tokens) (start : Nat) (value : String)
    : Finds quotes offset (.plain start value) gs (⟨value, ⟨start, offset⟩⟩ :: tokens) := by
  cases gs with
  | nil =>
      obtain rfl : tokens = [] := h.tokens_eq
      exact ⟨rfl, rfl⟩
  | cons g rest =>
      obtain ⟨next, hread⟩ := Cursor.exists_read_stop (ends g rfl) offset
      have hbetween : Cursor.between.read quotes offset g = ([], next) := hread .between rfl
      have hrest : Finds quotes (offset + g.size) next rest tokens := (cons_iff hbetween).mp h
      exact (cons_iff (hread (.plain start value) rfl)).mpr hrest

/-- A piece is found where it stands, and then whatever follows it. -/
theorem piece {piece : Piece} (proper : piece.Proper quotes) (ends : piece.Ends quotes gs)
    (h : Finds quotes (offset + width piece.glyphs) .between gs tokens)
    : Finds quotes offset .between (piece.glyphs ++ gs) (piece.token offset :: tokens) := by
  cases piece with
  | plain plainWord =>
      obtain ⟨g, rest, rfl⟩ := List.exists_cons_of_ne_nil proper.1
      obtain ⟨hg, hrest⟩ := List.forall_mem_cons.mp proper.2
      refine step (Cursor.read_plain rfl hg) (word hrest ?_)
      have hstop := h.stop ends offset (String.ofList (Piece.plain (g :: rest)).value)
      simpa [Piece.glyphs, Piece.value, Piece.token, String.ofList_append, Nat.add_assoc]
        using hstop
  | quoted quote between =>
      have hopen : Cursor.between.read quotes offset (.bare quote)
          = ([], .quoted quote offset "") := by
        rw [Cursor.read_bare rfl, if_pos proper.1]
        rfl
      have hclose (closing : Nat) (value : String)
          : (Cursor.quoted quote offset value).read quotes closing (.bare quote)
            = ([⟨value, ⟨offset, closing + quote.utf8Size⟩⟩], .between) := by
        rw [Cursor.read, if_pos rfl]
      rw [Piece.glyphs, List.append_assoc, List.cons_append]
      refine step hopen (inner proper.2 ?_)
      have hbehind : Finds quotes
          (offset + (Glyph.bare quote).size + width between + (Glyph.bare quote).size)
          .between gs tokens := by
        simpa [Piece.glyphs, Nat.add_assoc] using h
      have hclosed :=
        (cons_iff (hclose _ (String.ofList (between.flatMap Glyph.quotedText)))).mpr hbehind
      simpa [Piece.token, Piece.value, Piece.glyphs, Glyph.size, Nat.add_assoc] using hclosed

end Finds

/-- Reading glyphs finds what they are cut into, by induction on the cut. -/
theorem Cut.finds {quotes : List Char} {offset : Nat} {gs : List Glyph} {tokens : List Token}
    (h : Cut quotes offset gs tokens)
    : Finds quotes offset .between gs tokens := by
  induction h with
  | done => exact ⟨rfl, rfl⟩
  | @blank offset c gs tokens hb hq hrest ih =>
      have hread : Cursor.between.read quotes offset (.bare c) = ([], .between) := by
        rw [Cursor.read_bare rfl, if_neg (by simp [hq]), if_pos hb]
        rfl
      exact ih.step hread
  | piece proper ends hrest ih => exact ih.piece proper ends

/-- A call has exactly the tokens that reading its glyphs finds. -/
theorem tokenize_eq_ok_iff_finds {quotes : List Char} {raw : String} {tokens : List Token}
    : tokenize quotes raw = .ok tokens
      ↔ Finds quotes 0 .between (glyphs quotes raw.toList) tokens := by
  have hsize : raw.utf8ByteSize = 0 + width (glyphs quotes raw.toList) := by
    rw [Nat.zero_add, width_glyphs]
  rw [tokenize_eq_ok_iff, hsize]
  exact ⟨fun h => ⟨h.1, h.2⟩, fun h => ⟨h.outside, h.tokens_eq⟩⟩

/-- A call has exactly the tokens that its glyphs are cut into. -/
theorem tokenize_eq_ok_iff_cut {quotes : List Char} {raw : String} {tokens : List Token}
    : tokenize quotes raw = .ok tokens ↔ Cut quotes 0 (glyphs quotes raw.toList) tokens :=
  ⟨cut_of_tokenize, fun h => tokenize_eq_ok_iff_finds.mpr h.finds⟩

end CallGrammar.Call

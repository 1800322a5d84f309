import CallGrammar.Proofs.Call.Quoting

/-! Blanks around a call. Its tokens move to the right by the blanks before it, and a quote that
stays open does so too. Blanks behind it end the last token where the call ended it, and neither a
backslash nor an open quote makes one of them count.
-/

namespace CallGrammar

/-- A span moved to the right. -/
def Span.raised (amount : Nat) (span : Span) : Span :=
  ⟨span.start + amount, span.stop + amount⟩

/-- A token moved to the right. -/
def Token.raised (amount : Nat) (token : Token) : Token :=
  ⟨token.value, token.span.raised amount⟩

/-- A fault with the place it mentions, if any, moved to the right. -/
def Fault.raised (amount : Nat) : Fault → Fault
  | .unterminatedQuote quote offset => .unterminatedQuote quote (offset + amount)
  | .undefinedType name => .undefinedType name
  | .matchAfterTermination kind => .matchAfterTermination kind
  | .depthExceeded limit => .depthExceeded limit
  | .malformed message => .malformed message

------------------------------------------------------------
-- Texts of spans elsewhere

/-- A span inside a text covers the same of it with something before and behind. -/
theorem Span.text_raised {span : Span} {raw : String} (h : span.stop ≤ raw.utf8ByteSize)
    (before after : String)
    : (span.raised before.utf8ByteSize).text (before ++ raw ++ after) = span.text raw := by
  have hbytes (text : String) : Text.byteLength text.toList = text.utf8ByteSize :=
    Call.byteLength_toList text
  have htext : (span.raised before.utf8ByteSize).text? (before ++ raw ++ after).toList
      = span.text? raw.toList := by
    rw [Span.text?, Span.text?]
    by_cases hordered : span.start ≤ span.stop
    · have hraised : (span.raised before.utf8ByteSize).start
          ≤ (span.raised before.utf8ByteSize).stop := Nat.add_le_add_right hordered _
      have hlength : (span.raised before.utf8ByteSize).length = span.length :=
        Nat.add_sub_add_right _ _ _
      rw [if_pos hraised, if_pos hordered, hlength,
        String.toList_append, String.toList_append, List.append_assoc, Span.raised, ← hbytes before,
        Text.dropBytes?_add, Text.dropBytes?_append_of_le (by rw [hbytes]; omega)]
      cases hdrop : Text.dropBytes? span.start raw.toList with
      | none => rfl
      | some rest =>
          have hrest := Text.byteLength_of_dropBytes? hdrop
          rw [hbytes] at hrest
          refine Text.takeBytes?_append_of_le ?_ after.toList
          rw [Span.length]
          omega
    · rw [if_neg hordered, if_neg (by simpa [Span.raised] using hordered)]
  rw [Span.text, htext, Span.text]

namespace Call

variable {quotes : List Char}

------------------------------------------------------------
-- Scanning elsewhere

/-- A cursor moved to the right. -/
def Cursor.raised (amount : Nat) : Cursor → Cursor
  | .between => .between
  | .plain start value => .plain (start + amount) value
  | .quoted quote start value => .quoted quote (start + amount) value

theorem Cursor.isQuoted_raised (amount : Nat) (cursor : Cursor)
    : (cursor.raised amount).isQuoted = cursor.isQuoted := by
  cases cursor <;> rfl

theorem Cursor.exists_of_isQuoted {cursor : Cursor} (h : cursor.isQuoted = true)
    : ∃ quote start value, cursor = .quoted quote start value := by
  cases cursor with
  | between => cases h
  | plain start value => cases h
  | quoted quote start value => exact ⟨quote, start, value, rfl⟩

theorem Cursor.finishPlain_raised (amount offset : Nat) (cursor : Cursor)
    : (cursor.raised amount).finishPlain (offset + amount)
      = (cursor.finishPlain offset).map (Token.raised amount) := by
  cases cursor <;> rfl

theorem Cursor.push_raised (amount offset : Nat) (text : String) (cursor : Cursor)
    : (cursor.raised amount).push (offset + amount) text
      = (cursor.push offset text).raised amount := by
  cases cursor <;> rfl

/-- A glyph is read alike wherever it stands. -/
theorem Cursor.read_raised (amount offset : Nat) (cursor : Cursor) (g : Glyph)
    : (cursor.raised amount).read quotes (offset + amount) g
      = ((cursor.read quotes offset g).1.map (Token.raised amount),
          (cursor.read quotes offset g).2.raised amount) := by
  cases g with
  | escaped c =>
      have htext : (cursor.raised amount).escapedText c = cursor.escapedText c := by
        cases cursor <;> rfl
      rw [read, read, htext, push_raised]
      rfl
  | bare c =>
      cases hq : cursor.isQuoted with
      | false =>
          rw [read_bare hq, read_bare ((cursor.isQuoted_raised amount).trans hq),
            finishPlain_raised, push_raised]
          split
          · rfl
          · split <;> rfl
      | true =>
          obtain ⟨quote, start, value, rfl⟩ := exists_of_isQuoted hq
          rw [raised, read, read]
          split
          · rw [Nat.add_right_comm]
            rfl
          · rfl

/-- Glyphs are read alike wherever they stand, by list induction. -/
theorem scan_raised (quotes : List Char) (amount offset : Nat) (cursor : Cursor) (gs : List Glyph)
    : scan quotes (offset + amount) (cursor.raised amount) gs
      = ((scan quotes offset cursor gs).1.map (Token.raised amount),
          (scan quotes offset cursor gs).2.raised amount) := by
  induction gs generalizing offset cursor with
  | nil => rfl
  | cons g rest ih =>
      simp only [scan]
      rw [Cursor.read_raised, Nat.add_right_comm, ih, List.map_append]

/-- The second part of some glyphs is read from where the first one ended, by list induction. -/
theorem scan_append (offset : Nat) (cursor : Cursor) (left right : List Glyph)
    : scan quotes offset cursor (left ++ right)
      = ((scan quotes offset cursor left).1
            ++ (scan quotes (offset + width left) (scan quotes offset cursor left).2 right).1,
          (scan quotes (offset + width left) (scan quotes offset cursor left).2 right).2) := by
  induction left generalizing offset cursor with
  | nil => rfl
  | cons g rest ih =>
      simp only [List.cons_append, scan]
      rw [ih, width_cons, Nat.add_assoc, List.append_assoc]

------------------------------------------------------------
-- Scanning blanks

/-- The glyphs of characters that stand for themselves. -/
def bares (cs : List Char) : List Glyph :=
  cs.map .bare

theorem sources_bares (cs : List Char) : sources (bares cs) = cs := by
  induction cs with
  | nil => rfl
  | cons c rest ih => exact congrArg (c :: ·) ih

theorem width_bares (text : String) : width (bares text.toList) = text.utf8ByteSize := by
  rw [width, sources_bares, byteLength_toList]

theorem ne_backslash_of_isBlank {c : Char} (h : Text.isBlank c = true) : c ≠ '\\' := by
  rintro rfl
  exact absurd h (by decide)

/-- Blanks before a text are read as they are, by list induction. -/
theorem glyphs_blanks_append {blanks : List Char}
    (h : ∀ c ∈ blanks, Text.isBlank c = true ∧ c ∉ quotes) (cs : List Char)
    : glyphs quotes (blanks ++ cs) = bares blanks ++ glyphs quotes cs := by
  induction blanks with
  | nil => rfl
  | cons c rest ih =>
      obtain ⟨⟨hblank, -⟩, hrest⟩ := List.forall_mem_cons.mp h
      rw [List.cons_append, glyphs_single fun hb => absurd hb (ne_backslash_of_isBlank hblank),
        ih hrest]
      rfl

/-- Blanks behind a text are read as they are, even behind a backslash. -/
theorem glyphs_append_blanks {blanks : List Char}
    (h : ∀ c ∈ blanks, Text.isBlank c = true ∧ c ∉ quotes) (cs : List Char)
    : glyphs quotes (cs ++ blanks) = glyphs quotes cs ++ bares blanks := by
  have hblanks : glyphs quotes blanks = bares blanks := by
    simpa [glyphs] using glyphs_blanks_append h []
  rcases glyphs_append cs blanks with happend | ⟨init, c, rest, -, rfl, hc, -⟩
  · rw [happend, hblanks]
  · obtain ⟨hblank, hquote⟩ := h c List.mem_cons_self
    exact absurd hc (by simp [isEscapable, hquote, ne_backslash_of_isBlank hblank])

/-- Outside quotes, blanks end the token under way where they start, by list induction. -/
theorem scan_blanks {blanks : List Char}
    (h : ∀ c ∈ blanks, Text.isBlank c = true ∧ c ∉ quotes) (cursor : Cursor)
    (outside : cursor.isQuoted = false) (offset : Nat)
    : (scan quotes offset cursor (bares blanks)).2.isQuoted = false
      ∧ (scan quotes offset cursor (bares blanks)).1
          ++ (scan quotes offset cursor (bares blanks)).2.finishPlain
            (offset + width (bares blanks))
        = cursor.finishPlain offset := by
  induction blanks generalizing cursor offset with
  | nil => exact ⟨outside, rfl⟩
  | cons c rest ih =>
      obtain ⟨⟨hblank, hquote⟩, hrest⟩ := List.forall_mem_cons.mp h
      obtain ⟨hlast, hfound⟩ := ih hrest .between rfl (offset + c.utf8Size)
      have hread : cursor.read quotes offset (.bare c) = (cursor.finishPlain offset, .between) := by
        rw [Cursor.read_bare outside, if_neg (by simp [isQuote, hquote]), if_pos hblank]
      have hscan : scan quotes offset cursor (bares (c :: rest))
          = (cursor.finishPlain offset
                ++ (scan quotes (offset + c.utf8Size) .between (bares rest)).1,
              (scan quotes (offset + c.utf8Size) .between (bares rest)).2) := by
        rw [bares, List.map_cons, scan, hread]
        rfl
      have hwidth : offset + width (bares (c :: rest))
          = offset + c.utf8Size + width (bares rest) := by
        rw [bares, List.map_cons, width_cons, Nat.add_assoc]
        rfl
      rw [hscan, hwidth]
      refine ⟨hlast, ?_⟩
      rw [List.append_assoc, hfound]
      exact List.append_nil _

/-- Between tokens, blanks are passed over. -/
theorem scan_blanks_between {blanks : List Char}
    (h : ∀ c ∈ blanks, Text.isBlank c = true ∧ c ∉ quotes) (offset : Nat)
    : scan quotes offset .between (bares blanks) = ([], .between) := by
  obtain ⟨outside, hfound⟩ := scan_blanks h .between rfl offset
  obtain ⟨hnone, hplain⟩ := List.append_eq_nil_iff.mp hfound
  refine Prod.ext hnone ?_
  generalize (scan quotes offset .between (bares blanks)).2 = last at outside hplain
  cases last with
  | between => rfl
  | plain start value => cases hplain
  | quoted quote start value => cases outside

/-- Inside quotes, blanks leave the quote open, by list induction. -/
theorem scan_blanks_quoted {blanks : List Char}
    (h : ∀ c ∈ blanks, Text.isBlank c = true ∧ c ∉ quotes) {quote : Char}
    (member : quote ∈ quotes) (start : Nat) (value : String) (offset : Nat)
    : ∃ longer,
        scan quotes offset (.quoted quote start value) (bares blanks)
        = ([], .quoted quote start longer) := by
  induction blanks generalizing value offset with
  | nil => exact ⟨value, rfl⟩
  | cons c rest ih =>
      obtain ⟨⟨-, hquote⟩, hrest⟩ := List.forall_mem_cons.mp h
      obtain ⟨longer, hlonger⟩ := ih hrest (value ++ c.toString) (offset + c.utf8Size)
      have hc : c ≠ quote := fun he => hquote (he ▸ member)
      refine ⟨longer, ?_⟩
      rw [bares, List.map_cons, scan, Cursor.read, if_neg hc]
      exact Prod.ext (congrArg Prod.fst hlonger) (congrArg Prod.snd hlonger)

/-- A cursor that no other character than a quote opened. -/
def Cursor.IsOpenedBy (quotes : List Char) : Cursor → Prop
  | .quoted quote _ _ => quote ∈ quotes
  | .between | .plain .. => True

/-- Only a quote opens a token, by cases on what is read. -/
theorem Cursor.IsOpenedBy.read {cursor : Cursor} (h : cursor.IsOpenedBy quotes) (offset : Nat)
    (g : Glyph)
    : (cursor.read quotes offset g).2.IsOpenedBy quotes := by
  cases g with
  | escaped c => cases cursor <;> exact h
  | bare c =>
      cases hq : cursor.isQuoted with
      | true =>
          obtain ⟨quote, start, value, rfl⟩ := exists_of_isQuoted hq
          rw [Cursor.read]
          split
          · trivial
          · exact h
      | false =>
          rw [read_bare hq]
          split
          · rename_i hquote
            exact (isQuote_iff.mp hquote).2
          · split
            · trivial
            · cases cursor <;> exact h

theorem Cursor.IsOpenedBy.scan {cursor : Cursor} (h : cursor.IsOpenedBy quotes) (offset : Nat)
    (gs : List Glyph)
    : (scan quotes offset cursor gs).2.IsOpenedBy quotes := by
  induction gs generalizing cursor offset with
  | nil => exact h
  | cons g rest ih => exact ih (h.read offset g) (offset + g.size)

------------------------------------------------------------
-- Calls

/-- A call in which a quote stays open has no tokens. -/
theorem tokenize_of_quoted {raw : String} {quote : Char} {start : Nat} {value : String}
    (h : (scan quotes 0 .between (glyphs quotes raw.toList)).2 = .quoted quote start value)
    : tokenize quotes raw = .error (.unterminatedQuote quote start) := by
  rw [tokenize]
  split
  · rename_i heq
    rw [heq] at h
    cases h
    rfl
  · rename_i unquoted heq
    rw [heq] at h
    exact absurd h (unquoted quote start value)

/-- A call with blanks around it is read as it is without them, further to the right, and then the
blanks behind it.
-/
theorem scan_padded {before after raw : String} (hbefore : IsSeparator quotes before)
    (hafter : IsSeparator quotes after) {tokens : List Token} {cursor : Cursor}
    (h : scan quotes 0 .between (glyphs quotes raw.toList) = (tokens, cursor))
    : scan quotes 0 .between (glyphs quotes (before ++ raw ++ after).toList)
      = (tokens.map (Token.raised before.utf8ByteSize)
            ++ (scan quotes (raw.utf8ByteSize + before.utf8ByteSize)
                (cursor.raised before.utf8ByteSize) (bares after.toList)).1,
          (scan quotes (raw.utf8ByteSize + before.utf8ByteSize)
            (cursor.raised before.utf8ByteSize) (bares after.toList)).2) := by
  have hraised : scan quotes before.utf8ByteSize .between (glyphs quotes raw.toList)
      = (tokens.map (Token.raised before.utf8ByteSize), cursor.raised before.utf8ByteSize) := by
    have hr := scan_raised quotes before.utf8ByteSize 0 .between (glyphs quotes raw.toList)
    rwa [h, Nat.zero_add] at hr
  rw [String.toList_append, String.toList_append, List.append_assoc,
    glyphs_blanks_append hbefore, glyphs_append_blanks hafter, scan_append,
    scan_blanks_between hbefore, width_bares, Nat.zero_add, List.nil_append, scan_append,
    hraised, width_glyphs, Nat.add_comm]

/-- A call with blanks around it is cut as it is without them, further to the right. -/
theorem tokenize_padded {before after : String} (hbefore : IsSeparator quotes before)
    (hafter : IsSeparator quotes after) (raw : String)
    : tokenize quotes (before ++ raw ++ after)
      = ((tokenize quotes raw).map (List.map (Token.raised before.utf8ByteSize))).mapError
          (Fault.raised before.utf8ByteSize) := by
  obtain ⟨tokens, cursor, hscan⟩ : ∃ tokens cursor,
      scan quotes 0 .between (glyphs quotes raw.toList) = (tokens, cursor) := ⟨_, _, rfl⟩
  have hpadded := scan_padded hbefore hafter hscan
  cases hq : cursor.isQuoted with
  | true =>
      obtain ⟨quote, start, value, rfl⟩ := Cursor.exists_of_isQuoted hq
      have member : quote ∈ quotes := by
        have hb : Cursor.between.IsOpenedBy quotes := trivial
        have hopened := hb.scan 0 (glyphs quotes raw.toList)
        rwa [hscan] at hopened
      obtain ⟨longer, hlonger⟩ := scan_blanks_quoted hafter member
        (start + before.utf8ByteSize) value (raw.utf8ByteSize + before.utf8ByteSize)
      rw [Cursor.raised, hlonger] at hpadded
      rw [tokenize_of_quoted (congrArg Prod.snd hpadded),
        tokenize_of_quoted (congrArg Prod.snd hscan)]
      rfl
  | false =>
      obtain ⟨hlast, hfound⟩ := scan_blanks hafter (cursor.raised before.utf8ByteSize)
        ((cursor.isQuoted_raised _).trans hq) (raw.utf8ByteSize + before.utf8ByteSize)
      have hraw : tokenize quotes raw = .ok (tokens ++ cursor.finishPlain raw.utf8ByteSize) := by
        rw [tokenize_eq_ok_iff, hscan]
        exact ⟨hq, rfl⟩
      have hsize : (before ++ raw ++ after).utf8ByteSize
          = raw.utf8ByteSize + before.utf8ByteSize + width (bares after.toList) := by
        rw [width_bares, String.utf8ByteSize_append, String.utf8ByteSize_append]
        omega
      rw [hraw]
      refine tokenize_eq_ok_iff.mpr ?_
      rw [hpadded, hsize]
      refine ⟨hlast, ?_⟩
      rw [List.append_assoc, hfound, Cursor.finishPlain_raised, List.map_append]

/-- The spans of tokens do not reach beyond the call. -/
theorem stop_le_of_tokenize {raw : String} {tokens : List Token}
    (h : tokenize quotes raw = .ok tokens) {token : Token} (ht : token ∈ tokens)
    : token.span.stop ≤ raw.utf8ByteSize := by
  obtain ⟨left, right, piece, hglyphs, -, rfl⟩ := (cut_of_tokenize h).exists_piece ht
  rw [← width_glyphs quotes raw, hglyphs, width_append, width_append, Piece.token]
  dsimp only
  omega

end Call

end CallGrammar

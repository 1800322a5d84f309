import CallGrammar.Proofs.Call.Locality

/-! The rest of a call from some token on. Its text runs from the start of that token to the end of
the call's last one, so nothing but blanks is left behind it, and it is cut into the same tokens.
-/

namespace CallGrammar.Call

/-- A text is all that some tokens at the end of a call were read from: it stands in the call from
the start of the first to the end of the last token, nothing but blanks is left behind it, and on
its own it has tokens of the same values.
-/
structure Captures (quotes : List Char) (raw : String) (tokens : List Token) (text : String)
    : Prop where
  filled : text ≠ ""
  placed
    : ∃ left right,
        raw.toList = left ++ text.toList ++ right
        ∧ tokens.head?.map (·.span.start) = some (Text.byteLength left)
        ∧ tokens.getLast?.map (·.span.stop) = some (Text.byteLength (left ++ text.toList))
        ∧ ∀ c ∈ right, Text.isBlank c = true
  values
    : (tokenize quotes text).map (List.map Token.value) = .ok (tokens.map Token.value)

variable {quotes : List Char} {offset : Nat} {gs : List Glyph} {tokens : List Token}

namespace Cut

/-- No token reaches behind the last one. -/
theorem stop_le_last (h : Cut quotes offset gs tokens) {last : Token}
    (hlast : tokens.getLast? = some last) {token : Token} (ht : token ∈ tokens)
    : token.span.stop ≤ last.span.stop := by
  obtain ⟨earlier, rfl⟩ := List.getLast?_eq_some_iff.mp hlast
  rcases List.mem_append.mp ht with ht | ht
  · have hbefore : token.span.stop ≤ last.span.start :=
      (List.pairwise_append.mp h.ordered).2.2 token ht last (List.mem_singleton_self last)
    have hmem : last ∈ earlier ++ [last] := by simp
    obtain ⟨left, right, piece, -, -, rfl⟩ := h.exists_piece hmem
    exact Nat.le_trans hbefore (Nat.le_add_right _ _)
  · rw [List.mem_singleton.mp ht]

/-- Behind the last token there are only blanks: no token covers a character there. -/
theorem blank_behind (h : Cut quotes offset gs tokens) {last : Token}
    (hlast : tokens.getLast? = some last) {left right : List Char}
    (hgs : sources gs = left ++ right) (hstop : last.span.stop = offset + Text.byteLength left)
    : ∀ c ∈ right, Text.isBlank c = true := by
  intro c hc
  obtain ⟨between, others, rfl⟩ := List.append_of_mem hc
  rw [← List.append_assoc] at hgs
  rcases h.blank_or_covered hgs with hb | ⟨token, ht, hcovers⟩
  · exact hb
  · have hle : token.span.stop ≤ last.span.stop := h.stop_le_last hlast ht
    have hlt := (Span.covers_iff.mp hcovers).2
    rw [Text.byteLength_append] at hlt
    omega

/-- Glyphs with a token are some. -/
theorem glyphs_ne_nil (h : Cut quotes offset gs tokens) {token : Token} (ht : token ∈ tokens)
    : gs ≠ [] := by
  obtain ⟨left, right, piece, rfl, proper, -⟩ := h.exists_piece ht
  simp [Piece.glyphs_ne_nil proper]

/-- The characters of canonical glyphs have the tokens on their own that the glyphs are cut into,
moved to the start.
-/
theorem tokenize_sources (h : Cut quotes offset gs tokens) (canonical : Canonical quotes gs)
    : tokenize quotes (String.ofList (sources gs)) = .ok (tokens.map (Token.lowered offset)) := by
  rw [tokenize_eq_ok_iff_cut, String.toList_ofList, canonical.glyphs_sources]
  exact h.lowered rfl

end Cut

/-- The text from the first of some tokens at the end of a call to the last one captures them. The
characters between are read as the glyphs that stand there in the call, so they are cut alike.
-/
theorem captures_of_suffix {raw : String} (h : tokenize quotes raw = .ok tokens)
    {run : List Token} (rest : run <:+ tokens) {first last : Token}
    (hfirst : run.head? = some first) (hlast : run.getLast? = some last)
    : Captures quotes raw run ((first.span.upTo last.span).text raw) := by
  obtain ⟨before, htokens⟩ := rest
  have hcut : Cut quotes 0 (glyphs quotes raw.toList) tokens := cut_of_tokenize h
  obtain ⟨left, middle, right, hgs, hstart, hstop, hrun⟩ :=
    hcut.stretch (by rw [List.append_nil, htokens]) hfirst hlast
  rw [Nat.zero_add] at hstart hstop hrun
  have hraw : raw.toList = sources left ++ sources middle ++ sources right := by
    rw [← sources_glyphs quotes raw.toList, hgs, sources_append, sources_append]
  have htext : (first.span.upTo last.span).text raw = String.ofList (sources middle) := by
    rw [Span.upTo, hstart, hstop]
    exact text_stretch (hraw.trans (List.append_assoc _ _ _))
  have hreach : last.span.stop = Text.byteLength (sources left ++ sources middle) := by
    rw [hstop, Text.byteLength_append]
    rfl
  have hend : tokens.getLast? = some last := by
    rw [← htokens, List.getLast?_append, hlast]
    rfl
  have canonical : Canonical quotes middle := by
    have hwhole := Canonical.glyphs quotes raw.toList
    rw [hgs] at hwhole
    exact hwhole.stretch
  rw [htext]
  refine ⟨?_, ⟨sources left, sources right, ?_, ?_, ?_, ?_⟩, ?_⟩
  · have hfilled : sources middle ≠ [] :=
      sources_ne_nil (hrun.glyphs_ne_nil (List.mem_of_head? hfirst))
    simpa using hfilled
  · rw [String.toList_ofList, hraw]
  · rw [hfirst, Option.map_some, hstart]
    rfl
  · rw [hlast, Option.map_some, hreach, String.toList_ofList]
  · refine hcut.blank_behind hend ?_ (hreach.trans (Nat.zero_add _).symm)
    rw [sources_glyphs, hraw]
  · rw [hrun.tokenize_sources canonical, Except.map, List.map_map]
    rfl

end CallGrammar.Call

import CallGrammar.Proofs.Call.Completeness
import CallGrammar.Proofs.Call.Spans

/-! Tokens are found locally. The text from the start of one token of a call to the end of the same
or a later one has the same tokens there as in the call, whatever stands around it.
-/

namespace CallGrammar

/-- A span moved to the left. -/
def Span.lowered (amount : Nat) (span : Span) : Span :=
  ⟨span.start - amount, span.stop - amount⟩

/-- A token moved to the left. -/
def Token.lowered (amount : Nat) (token : Token) : Token :=
  ⟨token.value, token.span.lowered amount⟩

namespace Call

variable {quotes : List Char} {offset : Nat} {gs : List Glyph} {tokens : List Token}

------------------------------------------------------------
-- Pieces elsewhere

theorem Piece.lowered_token (amount offset : Nat) (piece : Piece)
    : (piece.token (amount + offset)).lowered amount = piece.token offset := by
  have hstart : amount + offset - amount = offset := by omega
  have hstop : amount + offset + width piece.glyphs - amount = offset + width piece.glyphs := by
    omega
  simp [Piece.token, Token.lowered, Span.lowered, hstart, hstop]

/-- What may follow a piece may do so cut short. -/
theorem Piece.Ends.of_append {piece : Piece} {left right : List Glyph}
    (h : piece.Ends quotes (left ++ right))
    : piece.Ends quotes left := by
  cases piece with
  | quoted quote inner => trivial
  | plain word =>
      intro g hg
      obtain ⟨rest, rfl⟩ := List.head?_eq_some_iff.mp hg
      exact h g rfl

namespace Cut

/-- Glyphs are cut alike wherever they stand, by induction on the cut. -/
theorem lowered {amount place : Nat} (h : Cut quotes place gs tokens)
    (hplace : place = amount + offset)
    : Cut quotes offset gs (tokens.map (Token.lowered amount)) := by
  induction h generalizing offset with
  | done => exact .done
  | @blank place c gs tokens hb hq hrest ih =>
      refine .blank hb hq (ih ?_)
      rw [hplace, Nat.add_assoc]
  | @piece place gs tokens piece proper ends hrest ih =>
      subst hplace
      rw [List.map_cons, Piece.lowered_token]
      exact .piece proper ends (ih (Nat.add_assoc _ _ _))

------------------------------------------------------------
-- Stretches of a cut

/-- Glyphs are cut from any of their tokens on as they are as a whole, by induction on the cut. -/
theorem from_token (h : Cut quotes offset gs tokens) {before after : List Token} {first : Token}
    (htokens : tokens = before ++ first :: after)
    : ∃ left right,
        gs = left ++ right
        ∧ first.span.start = offset + width left
        ∧ Cut quotes (offset + width left) right (first :: after) := by
  induction h generalizing before with
  | done => simp at htokens
  | @blank offset c gs tokens hb hq hrest ih =>
      obtain ⟨left, right, rfl, hstart, hcut⟩ := ih htokens
      refine ⟨.bare c :: left, right, rfl, ?_, ?_⟩
      · rw [hstart, width_cons, ← Nat.add_assoc]
        rfl
      · rw [width_cons, ← Nat.add_assoc]
        exact hcut
  | @piece offset gs tokens piece proper ends hrest ih =>
      cases before with
      | nil =>
          obtain ⟨rfl, rfl⟩ := List.cons.inj htokens
          exact ⟨[], piece.glyphs ++ gs, rfl, rfl, .piece proper ends hrest⟩
      | cons token before =>
          obtain ⟨left, right, rfl, hstart, hcut⟩ := ih (List.cons.inj htokens).2
          refine ⟨piece.glyphs ++ left, right, (List.append_assoc _ _ _).symm, ?_, ?_⟩
          · rw [hstart, width_append, ← Nat.add_assoc]
          · rw [width_append, ← Nat.add_assoc]
            exact hcut

/-- Glyphs are cut up to any of their tokens as they are as a whole, by induction on the cut. What
follows a token there also followed it before.
-/
theorem up_to_token (h : Cut quotes offset gs tokens) {before after : List Token} {last : Token}
    (htokens : tokens = before ++ last :: after)
    : ∃ left right,
        gs = left ++ right
        ∧ last.span.stop = offset + width left
        ∧ Cut quotes offset left (before ++ [last]) := by
  induction h generalizing before with
  | done => simp at htokens
  | @blank offset c gs tokens hb hq hrest ih =>
      obtain ⟨left, right, rfl, hstop, hcut⟩ := ih htokens
      refine ⟨.bare c :: left, right, rfl, ?_, .blank hb hq hcut⟩
      rw [hstop, width_cons, ← Nat.add_assoc]
      rfl
  | @piece offset gs tokens piece proper ends hrest ih =>
      cases before with
      | nil =>
          obtain ⟨rfl, rfl⟩ := List.cons.inj htokens
          have halone : piece.Ends quotes ([] ++ gs) := ends
          have hcut : Cut quotes offset (piece.glyphs ++ []) [piece.token offset] :=
            .piece proper halone.of_append .done
          rw [List.append_nil] at hcut
          exact ⟨piece.glyphs, gs, rfl, rfl, hcut⟩
      | cons token before =>
          obtain ⟨rfl, hbefore⟩ := List.cons.inj htokens
          obtain ⟨left, right, rfl, hstop, hcut⟩ := ih hbefore
          refine ⟨piece.glyphs ++ left, right, (List.append_assoc _ _ _).symm, ?_, ?_⟩
          · rw [hstop, width_append, ← Nat.add_assoc]
          · exact .piece proper ends.of_append hcut

/-- Tokens that follow one another are what the glyphs between their ends are cut into. -/
theorem stretch (h : Cut quotes offset gs tokens) {before run after : List Token}
    {first last : Token} (htokens : tokens = before ++ (run ++ after))
    (hfirst : run.head? = some first) (hlast : run.getLast? = some last)
    : ∃ left middle right,
        gs = left ++ middle ++ right
        ∧ first.span.start = offset + width left
        ∧ last.span.stop = offset + width left + width middle
        ∧ Cut quotes (offset + width left) middle run := by
  obtain ⟨others, rfl⟩ := List.head?_eq_some_iff.mp hfirst
  obtain ⟨left, rest, rfl, hstart, hfrom⟩ := h.from_token htokens
  obtain ⟨earlier, hrun⟩ := List.getLast?_eq_some_iff.mp hlast
  have hlater : first :: (others ++ after) = earlier ++ last :: after := by
    rw [← List.cons_append, hrun, List.append_assoc]
    rfl
  obtain ⟨middle, right, rfl, hstop, hup⟩ := hfrom.up_to_token hlater
  exact ⟨left, middle, right, (List.append_assoc _ _ _).symm, hstart, hstop, hrun ▸ hup⟩

end Cut

------------------------------------------------------------
-- Calls

/-- Tokenizing is local: the text of a call from the start of the first to the end of the last of
some tokens that follow one another has exactly these tokens, with every offset lowered by where
the first one starts. No offset is below that, so lowering them loses nothing.
-/
theorem tokenize_stretch {raw : String} (h : tokenize quotes raw = .ok tokens) {run : List Token}
    (part : run <:+: tokens) {first last : Token} (hfirst : run.head? = some first)
    (hlast : run.getLast? = some last)
    : tokenize quotes ((first.span.upTo last.span).text raw)
        = .ok (run.map (Token.lowered first.span.start))
      ∧ ∀ token ∈ run,
          first.span.start ≤ token.span.start ∧ token.span.start ≤ token.span.stop := by
  obtain ⟨before, after, htokens⟩ := part
  obtain ⟨left, middle, right, hgs, hstart, hstop, hcut⟩ :=
    (cut_of_tokenize h).stretch (htokens.symm.trans (List.append_assoc _ _ _)) hfirst hlast
  rw [Nat.zero_add] at hstart hstop hcut
  have hraw : raw.toList = sources left ++ (sources middle ++ sources right) := by
    rw [← sources_glyphs quotes raw.toList, hgs, sources_append, sources_append,
      List.append_assoc]
  have htext : (first.span.upTo last.span).text raw = String.ofList (sources middle) := by
    rw [Span.upTo, hstart, hstop]
    exact text_stretch hraw
  have canonical : Canonical quotes middle := by
    have hwhole := Canonical.glyphs quotes raw.toList
    rw [hgs] at hwhole
    exact hwhole.stretch
  constructor
  · rw [tokenize_eq_ok_iff_cut, htext, String.toList_ofList, canonical.glyphs_sources, hstart]
    exact hcut.lowered rfl
  · intro token ht
    have hle : first.span.start ≤ token.span.start := hstart ▸ hcut.le_start ht
    obtain ⟨earlier, later, piece, -, -, rfl⟩ := hcut.exists_piece ht
    exact ⟨hle, Nat.le_add_right _ _⟩

/-- A backslash that ends a token, and the first of two quoted tokens that touch, apart from what
stands around them.
-/
theorem tokenize_stretch_backslash_and_quoted
    : tokenize standardQuotes "é \\ 'b''c'"
        = .ok [⟨"é", ⟨0, 2⟩⟩, ⟨"\\", ⟨3, 4⟩⟩, ⟨"b", ⟨5, 8⟩⟩, ⟨"c", ⟨8, 11⟩⟩]
      ∧ tokenize standardQuotes ((Span.mk 3 8).text "é \\ 'b''c'")
        = .ok [⟨"\\", ⟨0, 1⟩⟩, ⟨"b", ⟨2, 5⟩⟩] := by
  have h : tokenize standardQuotes "é \\ 'b''c'"
      = .ok [⟨"é", ⟨0, 2⟩⟩, ⟨"\\", ⟨3, 4⟩⟩, ⟨"b", ⟨5, 8⟩⟩, ⟨"c", ⟨8, 11⟩⟩] := by
    decide
  have part : [(⟨"\\", ⟨3, 4⟩⟩ : Token), ⟨"b", ⟨5, 8⟩⟩]
      <:+: [⟨"é", ⟨0, 2⟩⟩, ⟨"\\", ⟨3, 4⟩⟩, ⟨"b", ⟨5, 8⟩⟩, ⟨"c", ⟨8, 11⟩⟩] :=
    ⟨[⟨"é", ⟨0, 2⟩⟩], [⟨"c", ⟨8, 11⟩⟩], rfl⟩
  exact ⟨h, (tokenize_stretch h part rfl rfl).1⟩

end Call

end CallGrammar

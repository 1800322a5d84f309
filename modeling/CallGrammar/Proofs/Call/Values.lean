import CallGrammar.Proofs.Call.Cutting

/-! Values of tokens: what their source texts read as once quotes and escapes are taken off. A call
without quote characters and backslashes has its blank-separated words as values.
-/

namespace CallGrammar.Call

variable {quotes : List Char}

------------------------------------------------------------
-- Pairs

/-- Replaces every pair of a backslash and what it escapes, pairs read from left to right, and keeps
the characters outside pairs.
-/
def replacePairs (quotes : List Char) (pair : Char → List Char) : List Char → List Char
  | [] => []
  | [c] => [c]
  | c :: d :: rest =>
      if c = '\\' ∧ isEscapable quotes d then pair d ++ replacePairs quotes pair rest
      else c :: replacePairs quotes pair (d :: rest)

/-- The characters that belong to no pair. -/
def outsidePairs (quotes cs : List Char) : List Char :=
  replacePairs quotes (fun _ => []) cs

/-- A source text that reads as a value between two equal quotes: the quote is nowhere unescaped
between them, and every pair stands for the character behind its backslash.
-/
def ReadsQuoted (quotes source value : List Char) : Prop :=
  ∃ quote body,
    quote ∈ quotes
    ∧ quote ≠ '\\'
    ∧ source = quote :: body ++ [quote]
    ∧ quote ∉ outsidePairs quotes body
    ∧ value = replacePairs quotes (fun c => [c]) body

/-- A source text that reads as a value without quotes: it is not empty, and outside pairs, and so
at its start, no character quotes or separates. Two backslashes stand for one, and other pairs for
themselves.
-/
structure ReadsPlain (quotes source value : List Char) : Prop where
  filled : source ≠ []
  outside : ∀ c ∈ outsidePairs quotes source, (c ∈ quotes → c = '\\') ∧ Text.isBlank c = false
  start : ∀ c ∈ source.head?, (c ∈ quotes → c = '\\') ∧ Text.isBlank c = false
  value_eq
    : value = replacePairs quotes (fun c => if c = '\\' then ['\\'] else ['\\', c]) source

/-- Replacing pairs replaces glyph by glyph, by induction on the reading. -/
theorem replacePairs_eq_flatMap (pair : Char → List Char) (cs : List Char)
    : replacePairs quotes pair cs = (glyphs quotes cs).flatMap (Glyph.replace pair) := by
  fun_induction glyphs quotes cs with
  | case1 => rfl
  | case2 c => rfl
  | case3 c d rest h ih =>
      rw [replacePairs, if_pos h, ih]
      rfl
  | case4 c d rest h ih =>
      rw [replacePairs, if_neg h, ih]
      rfl

theorem Canonical.replacePairs_sources {gs : List Glyph} (h : Canonical quotes gs)
    (pair : Char → List Char)
    : replacePairs quotes pair (sources gs) = gs.flatMap (Glyph.replace pair) := by
  rw [replacePairs_eq_flatMap, h.glyphs_sources]

/-- Outside pairs are the bare glyphs. -/
theorem Canonical.mem_outsidePairs {gs : List Glyph} (h : Canonical quotes gs) {c : Char}
    : c ∈ outsidePairs quotes (sources gs) ↔ .bare c ∈ gs := by
  rw [outsidePairs, h.replacePairs_sources, List.mem_flatMap]
  constructor
  · rintro ⟨g, hg, hc⟩
    cases g with
    | bare d =>
        obtain rfl : c = d := by simpa [Glyph.replace] using hc
        exact hg
    | escaped d => simp [Glyph.replace] at hc
  · intro hc
    exact ⟨.bare c, hc, by simp [Glyph.replace]⟩

------------------------------------------------------------
-- Pieces

theorem isQuote_iff {c : Char} : isQuote quotes c = true ↔ c ≠ '\\' ∧ c ∈ quotes := by
  simp [isQuote]

namespace Piece.Proper

theorem readsQuoted {quote : Char} {inner : List Glyph}
    (proper : (Piece.quoted quote inner).Proper quotes)
    (canonical : Canonical quotes (Piece.quoted quote inner).glyphs)
    : ReadsQuoted quotes (sources (Piece.quoted quote inner).glyphs)
        (Piece.quoted quote inner).value := by
  have hstretch : Canonical quotes ([.bare quote] ++ inner ++ [.bare quote]) := canonical
  have hinner : Canonical quotes inner := hstretch.stretch
  obtain ⟨hb, hq⟩ := isQuote_iff.mp proper.1
  refine ⟨quote, sources inner, hq, hb, ?_, ?_, ?_⟩
  · simp [Piece.glyphs, Glyph.source]
  · rw [hinner.mem_outsidePairs]
    exact proper.2
  · rw [hinner.replacePairs_sources]
    rfl

/-- A glyph of a plain word, if bare, neither quotes nor separates. -/
theorem bare {word : List Glyph} (proper : (Piece.plain word).Proper quotes) {c : Char}
    (hc : .bare c ∈ word)
    : (c ∈ quotes → c = '\\') ∧ Text.isBlank c = false := by
  have hplain : isQuote quotes c = false ∧ Text.isBlank c = false := by
    simpa [Glyph.isPlain] using proper.2 _ hc
  refine ⟨?_, hplain.2⟩
  intro hquote
  by_contra hb
  exact absurd (isQuote_iff.mpr ⟨hb, hquote⟩) (by simp [hplain.1])

theorem readsPlain {word : List Glyph} (proper : (Piece.plain word).Proper quotes)
    (canonical : Canonical quotes word)
    : ReadsPlain quotes (sources word) (Piece.plain word).value := by
  refine ⟨sources_ne_nil proper.1, ?_, ?_, ?_⟩
  · intro c hc
    exact proper.bare (canonical.mem_outsidePairs.mp hc)
  · intro c hc
    obtain ⟨g, rest, rfl⟩ := List.exists_cons_of_ne_nil proper.1
    rw [head?_sources] at hc
    cases g with
    | bare d =>
        obtain rfl : d = c := Option.some.inj hc
        exact proper.bare List.mem_cons_self
    | escaped d =>
        obtain rfl : '\\' = c := Option.some.inj hc
        exact ⟨fun _ => rfl, by decide⟩
  · rw [canonical.replacePairs_sources]
    rfl

end Piece.Proper

/-- The value of a token is what its source text reads as. -/
theorem reads_of_tokenize {raw : String} {tokens : List Token}
    (h : tokenize quotes raw = .ok tokens) {token : Token} (ht : token ∈ tokens)
    : ReadsQuoted quotes (token.text raw).toList token.value.toList
      ∨ ReadsPlain quotes (token.text raw).toList token.value.toList := by
  obtain ⟨left, right, piece, hgs, proper, rfl⟩ := (cut_of_tokenize h).exists_piece ht
  have canonical : Canonical quotes piece.glyphs := by
    have hwhole := Canonical.glyphs quotes raw.toList
    rw [hgs] at hwhole
    exact hwhole.stretch
  have hraw : raw.toList = sources left ++ (sources piece.glyphs ++ sources right) := by
    rw [← sources_glyphs quotes raw.toList, hgs, sources_append, sources_append,
      List.append_assoc]
  have htext : ((piece.token (0 + width left)).text raw).toList = sources piece.glyphs := by
    rw [Nat.zero_add]
    exact Piece.text_token hraw
  rw [htext, Piece.value_token]
  cases piece with
  | quoted quote inner => exact .inl (proper.readsQuoted canonical)
  | plain word => exact .inr (proper.readsPlain canonical)

------------------------------------------------------------
-- Words

/-- The words of a text: its stretches between blanks, without the empty ones. -/
def words (cs : List Char) : List (List Char) :=
  (cs.splitOnP Text.isBlank).filter fun word => !word.isEmpty

theorem words_blank {c : Char} (hc : Text.isBlank c = true) (cs : List Char)
    : words (c :: cs) = words cs := by
  rw [words, List.splitOnP_cons_eq_if_modifyHead, if_pos hc]
  rfl

/-- A stretch without blanks is a word where a blank or nothing follows it. -/
theorem words_append {word rest : List Char} (filled : word ≠ [])
    (hword : ∀ c ∈ word, Text.isBlank c = false) (hrest : ∀ c ∈ rest.head?, Text.isBlank c = true)
    : words (word ++ rest) = word :: words rest := by
  cases rest with
  | nil => simp [words, List.splitOnP_eq_singleton hword, filled]
  | cons c cs =>
      have hc : Text.isBlank c = true := hrest c rfl
      rw [words_blank hc, words, List.splitOnP_append_cons_of_forall_mem hword c hc,
        List.filter_cons_of_pos (by simpa using filled)]
      rfl

example : words "\tgo  home".toList = ["go".toList, "home".toList] := by decide

/-- A quote opens only at a bare quote character, by list induction. -/
theorem isQuoted_scan {gs : List Glyph} (unquoted : ∀ c, .bare c ∈ gs → isQuote quotes c = false)
    {cursor : Cursor} (outside : cursor.isQuoted = false) (offset : Nat)
    : (scan quotes offset cursor gs).2.isQuoted = false := by
  induction gs generalizing cursor offset with
  | nil => exact outside
  | cons g rest ih =>
      have hnext : (cursor.read quotes offset g).2.isQuoted = false := by
        cases g with
        | escaped c => simpa [Cursor.read] using outside
        | bare c =>
            have hc : isQuote quotes c = false := unquoted c List.mem_cons_self
            rw [Cursor.read_bare outside, if_neg (by simp [hc])]
            split
            · rfl
            · simpa using outside
      exact ih (fun c hc => unquoted c (List.mem_cons_of_mem g hc)) hnext _

/-- Glyphs that neither escape nor quote. -/
def Verbatim (quotes : List Char) (gs : List Glyph) : Prop :=
  ∀ g ∈ gs, ∃ c, g = .bare c ∧ isQuote quotes c = false

namespace Verbatim

variable {word gs : List Glyph}

/-- Texts without quote characters and backslashes have such glyphs only. -/
theorem glyphs {cs : List Char} (h : ∀ c ∈ cs, c ∉ quotes ∧ c ≠ '\\')
    : Verbatim quotes (glyphs quotes cs) := by
  intro g hg
  have hsource : ∀ c ∈ g.source, c ∉ quotes ∧ c ≠ '\\' := by
    intro c hc
    apply h c
    rw [← sources_glyphs quotes cs]
    exact List.mem_flatMap_of_mem hg hc
  cases g with
  | bare c =>
      obtain ⟨hquote, -⟩ := hsource c List.mem_cons_self
      exact ⟨c, rfl, by simp [isQuote, hquote]⟩
  | escaped c => exact absurd rfl (hsource '\\' List.mem_cons_self).2

theorem value_eq (h : Verbatim quotes word) : (Piece.plain word).value = sources word := by
  refine List.flatMap_congr ?_
  intro g hg
  obtain ⟨c, rfl, -⟩ := h g hg
  rfl

theorem not_blank (h : Verbatim quotes word) (proper : (Piece.plain word).Proper quotes)
    : ∀ c ∈ sources word, Text.isBlank c = false := by
  intro c hc
  obtain ⟨g, hg, hcg⟩ := List.mem_flatMap.mp hc
  obtain ⟨d, rfl, -⟩ := h g hg
  obtain rfl : c = d := List.mem_singleton.mp hcg
  exact (proper.bare hg).2

/-- Only a blank ends a plain word here. -/
theorem blank_of_ends (h : Verbatim quotes gs) (ends : (Piece.plain word).Ends quotes gs)
    : ∀ c ∈ (sources gs).head?, Text.isBlank c = true := by
  intro c hc
  cases gs with
  | nil => simp at hc
  | cons g rest =>
      obtain ⟨d, rfl, hd⟩ := h g List.mem_cons_self
      rw [head?_sources] at hc
      obtain rfl : d = c := Option.some.inj hc
      obtain ⟨e, he, hstop⟩ := Glyph.isPlain_eq_false (ends _ rfl)
      obtain rfl : d = e := Glyph.bare.inj he
      exact hstop.resolve_left (by simp [hd])

/-- Such glyphs are cut into the words of their text, by induction on the cut. -/
theorem values_eq_words (h : Verbatim quotes gs) {offset : Nat} {tokens : List Token}
    (hcut : Cut quotes offset gs tokens)
    : tokens.map (fun token => token.value.toList) = words (sources gs) := by
  induction hcut with
  | done => rfl
  | @blank offset c gs tokens hb hq hrest ih =>
      rw [ih fun g hg => h g (List.mem_cons_of_mem _ hg)]
      exact (words_blank hb (sources gs)).symm
  | @piece offset gs tokens piece proper ends hrest ih =>
      have hpiece : Verbatim quotes piece.glyphs := fun g hg => h g (List.mem_append_left _ hg)
      have hgs : Verbatim quotes gs := fun g hg => h g (List.mem_append_right _ hg)
      cases piece with
      | quoted quote inner =>
          obtain ⟨c, hc, hunquoted⟩ := hpiece (.bare quote) List.mem_cons_self
          obtain rfl : quote = c := Glyph.bare.inj hc
          exact absurd proper.1 (by simp [hunquoted])
      | plain word =>
          have hwords : words (sources word ++ sources gs) = sources word :: words (sources gs) :=
            words_append (sources_ne_nil proper.1) (hpiece.not_blank proper)
              (hgs.blank_of_ends ends)
          have hvalue : (Piece.plain word).value = sources word := value_eq hpiece
          rw [sources_append, Piece.glyphs, hwords, List.map_cons, ih hgs, Piece.value_token,
            hvalue]

end Verbatim

------------------------------------------------------------
-- Calls

/-- Token values are the unescaping of their own source texts: a token reads as its value between
quotes or without. Where nothing quotes or escapes, a call has tokens, and their values are its
words.
-/
theorem tokenize_values (quotes : List Char) (raw : String)
    : (∀ tokens,
        tokenize quotes raw = .ok tokens
        → ∀ token ∈ tokens,
          ReadsQuoted quotes (token.text raw).toList token.value.toList
          ∨ ReadsPlain quotes (token.text raw).toList token.value.toList)
      ∧ ((∀ c ∈ raw.toList, c ∉ quotes ∧ c ≠ '\\')
        → ∃ tokens,
          tokenize quotes raw = .ok tokens
          ∧ tokens.map (fun token => token.value.toList) = words raw.toList) := by
  constructor
  · intro tokens h token ht
    exact reads_of_tokenize h ht
  · intro hraw
    have hverbatim : Verbatim quotes (glyphs quotes raw.toList) := Verbatim.glyphs hraw
    have houtside : (scan quotes 0 .between (glyphs quotes raw.toList)).2.isQuoted = false := by
      apply isQuoted_scan _ rfl 0
      intro c hc
      obtain ⟨d, hd, hunquoted⟩ := hverbatim _ hc
      obtain rfl : c = d := Glyph.bare.inj hd
      exact hunquoted
    have hok := tokenize_eq_ok_iff.mpr ⟨houtside, rfl⟩
    have hwords := hverbatim.values_eq_words (cut_of_tokenize hok)
    rw [sources_glyphs] at hwords
    exact ⟨_, hok, hwords⟩

/-- Pairs between quotes and in the plain word that touches them, and a call of plain words. -/
theorem tokenize_values_pairs
    : (∀ token ∈ [(⟨"a\"\\", ⟨0, 7⟩⟩ : Token), ⟨"b\\\\'", ⟨7, 12⟩⟩],
        ReadsQuoted standardQuotes (token.text "\"a\\\"\\\\\"b\\\\\\'").toList token.value.toList
        ∨ ReadsPlain standardQuotes (token.text "\"a\\\"\\\\\"b\\\\\\'").toList token.value.toList)
      ∧ ∃ tokens,
        tokenize standardQuotes "\tgo  home" = .ok tokens
        ∧ tokens.map (fun token => token.value.toList) = words "\tgo  home".toList :=
  ⟨(tokenize_values standardQuotes "\"a\\\"\\\\\"b\\\\\\'").1 _ (by decide),
    (tokenize_values standardQuotes "\tgo  home").2 (by simp [standardQuotes])⟩

end CallGrammar.Call

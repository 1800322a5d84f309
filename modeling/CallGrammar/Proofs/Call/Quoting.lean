import CallGrammar.Proofs.Call.Completeness
import CallGrammar.Proofs.Call.Values

/-! Conveying words by quoting them. Whatever words a call is to have as its values, and in whatever
way they are separated, writing each of them between quotes with its backslashes and quotes escaped
makes a call of exactly these words.
-/

namespace CallGrammar.Call

/-- A word to convey, with the separator before it. -/
structure Argument where
  separator : String
  word : String

/-- A word between quotes, with a backslash before every backslash and every such quote in it. -/
def enquote (quote : Char) (word : String) : String :=
  String.ofList
    (quote
      :: word.toList.flatMap (fun c => if c = '\\' ∨ c = quote then ['\\', c] else [c])
      ++ [quote])

/-- Quoted words, each behind its separator, and what stands behind all of them. -/
def conveyed (quote : Char) : List Argument → String → String
  | [], behind => behind
  | argument :: rest, behind =>
      argument.separator ++ enquote quote argument.word ++ conveyed quote rest behind

/-- A text of blanks that do not quote. -/
def IsSeparator (quotes : List Char) (text : String) : Prop :=
  ∀ c ∈ text.toList, Text.isBlank c = true ∧ c ∉ quotes

variable {quotes : List Char} {quote : Char} {offset : Nat} {gs : List Glyph}
  {tokens : List Token}

------------------------------------------------------------
-- Steady glyphs

/-- A glyph that is read back whatever stands behind it. -/
def Glyph.IsSteady (quotes : List Char) : Glyph → Prop
  | .bare c => c ≠ '\\'
  | .escaped c => isEscapable quotes c = true

theorem Canonical.of_isSteady (h : ∀ g ∈ gs, g.IsSteady quotes) : Canonical quotes gs := by
  refine ⟨fun c hc => h _ hc, List.Pairwise.isChain ?_⟩
  refine List.pairwise_of_forall_mem_list ?_
  rintro g hg next - rfl
  exact absurd rfl (h _ hg)

------------------------------------------------------------
-- Quoted words

/-- The glyph as which a character of a quoted word is written. -/
def conveyedGlyph (quote c : Char) : Glyph :=
  if c = '\\' ∨ c = quote then .escaped c else .bare c

/-- The piece as which a word is written. -/
def conveyedPiece (quote : Char) (word : String) : Piece :=
  .quoted quote (word.toList.map (conveyedGlyph quote))

theorem sources_conveyedPiece (quote : Char) (word : String)
    : sources (conveyedPiece quote word).glyphs = (enquote quote word).toList := by
  have hsource (c : Char) : (conveyedGlyph quote c).source
      = if c = '\\' ∨ c = quote then ['\\', c] else [c] := by
    rw [conveyedGlyph, apply_ite Glyph.source]
    rfl
  have hinner : sources (word.toList.map (conveyedGlyph quote))
      = word.toList.flatMap fun c => if c = '\\' ∨ c = quote then ['\\', c] else [c] := by
    simp only [sources, List.flatMap_map, hsource]
  rw [conveyedPiece, Piece.glyphs, sources_append, sources_cons, hinner, enquote,
    String.toList_ofList]
  rfl

theorem value_conveyedPiece (quote : Char) (word : String)
    : (conveyedPiece quote word).value = word.toList := by
  have htext (c : Char) : (conveyedGlyph quote c).quotedText = [c] := by
    rw [conveyedGlyph]
    split <;> rfl
  simp [conveyedPiece, Piece.value, List.flatMap_map, htext]

/-- A quoted piece ends at its own end, since the quotes in the word are escaped. -/
theorem proper_conveyedPiece (hquote : isQuote quotes quote = true) (word : String)
    : (conveyedPiece quote word).Proper quotes := by
  refine ⟨hquote, ?_⟩
  intro hbare
  obtain ⟨c, -, hc⟩ := List.mem_map.mp hbare
  rw [conveyedGlyph] at hc
  split at hc
  · cases hc
  · rename_i hplain
    exact hplain (.inr (Glyph.bare.inj hc))

/-- Its glyphs are steady, since the backslashes in the word are escaped. -/
theorem isSteady_conveyedPiece (hquote : isQuote quotes quote = true) (word : String)
    : ∀ g ∈ (conveyedPiece quote word).glyphs, g.IsSteady quotes := by
  obtain ⟨hb, hq⟩ := isQuote_iff.mp hquote
  have hinner (c : Char) : (conveyedGlyph quote c).IsSteady quotes := by
    rw [conveyedGlyph]
    split
    · rename_i hc
      rcases hc with rfl | rfl
      · simp [Glyph.IsSteady, isEscapable]
      · simp [Glyph.IsSteady, isEscapable, hq]
    · rename_i hc
      exact fun he => hc (.inl he)
  intro g hg
  simp only [conveyedPiece, Piece.glyphs, List.cons_append, List.mem_cons, List.mem_append,
    List.mem_map, List.not_mem_nil, or_false] at hg
  rcases hg with rfl | ⟨c, -, rfl⟩ | rfl
  · exact hb
  · exact hinner c
  · exact hb

------------------------------------------------------------
-- Texts put together

/-- The characters at an offset are written as glyphs that are cut into tokens there. -/
def Written (quotes : List Char) (offset : Nat) (text : List Char) (tokens : List Token) : Prop :=
  ∃ gs, sources gs = text ∧ (∀ g ∈ gs, g.IsSteady quotes) ∧ Cut quotes offset gs tokens

namespace Written

variable {text : List Char}

theorem nil : Written quotes offset [] [] :=
  ⟨[], rfl, by simp, .done⟩

/-- A written call has the tokens it is cut into. -/
theorem tokenize_eq {raw : String} (h : Written quotes 0 raw.toList tokens)
    : tokenize quotes raw = .ok tokens := by
  obtain ⟨gs, hsources, hsteady, hcut⟩ := h
  rw [tokenize_eq_ok_iff_cut, ← hsources, (Canonical.of_isSteady hsteady).glyphs_sources]
  exact hcut

/-- Blanks before what is written separate, by list induction. -/
theorem separated {separator : List Char}
    (hseparator : ∀ c ∈ separator, Text.isBlank c = true ∧ c ∉ quotes)
    (h : Written quotes (offset + Text.byteLength separator) text tokens)
    : Written quotes offset (separator ++ text) tokens := by
  induction separator generalizing offset with
  | nil => exact h
  | cons c rest ih =>
      obtain ⟨⟨hblank, hquote⟩, hrest⟩ := List.forall_mem_cons.mp hseparator
      rw [Text.byteLength, ← Nat.add_assoc] at h
      obtain ⟨gs, hsources, hsteady, hcut⟩ := ih hrest h
      have hbackslash : c ≠ '\\' := by
        rintro rfl
        exact absurd hblank (by decide)
      refine ⟨.bare c :: gs, ?_, List.forall_mem_cons.mpr ⟨hbackslash, hsteady⟩, ?_⟩
      · rw [sources_cons, hsources]
        rfl
      · exact .blank hblank (by simp [isQuote, hquote]) hcut

/-- A quoted word before what is written is the first token. -/
theorem enquoted (hquote : isQuote quotes quote = true) (word : String)
    (h : Written quotes (offset + (enquote quote word).utf8ByteSize) text tokens)
    : Written quotes offset ((enquote quote word).toList ++ text)
        (⟨word, ⟨offset, offset + (enquote quote word).utf8ByteSize⟩⟩ :: tokens) := by
  obtain ⟨gs, hsources, hsteady, hcut⟩ := h
  have hwidth : width (conveyedPiece quote word).glyphs = (enquote quote word).utf8ByteSize := by
    rw [width, sources_conveyedPiece, byteLength_toList]
  have htoken : (conveyedPiece quote word).token offset
      = ⟨word, ⟨offset, offset + (enquote quote word).utf8ByteSize⟩⟩ := by
    rw [Piece.token, value_conveyedPiece, String.ofList_toList, hwidth]
  rw [← hwidth] at hcut
  refine ⟨(conveyedPiece quote word).glyphs ++ gs, ?_, ?_, ?_⟩
  · rw [sources_append, sources_conveyedPiece, hsources]
  · exact List.forall_mem_append.mpr ⟨isSteady_conveyedPiece hquote word, hsteady⟩
  · exact htoken ▸ Cut.piece (proper_conveyedPiece hquote word) trivial hcut

end Written

------------------------------------------------------------
-- Calls of quoted words

/-- The tokens of quoted words from an offset on. -/
def conveyedTokens (quote : Char) : Nat → List Argument → List Token
  | _, [] => []
  | offset, argument :: rest =>
      let start := offset + argument.separator.utf8ByteSize
      let stop := start + (enquote quote argument.word).utf8ByteSize
      ⟨argument.word, ⟨start, stop⟩⟩ :: conveyedTokens quote stop rest

theorem map_value_conveyedTokens (quote : Char) (offset : Nat) (arguments : List Argument)
    : (conveyedTokens quote offset arguments).map Token.value
      = arguments.map Argument.word := by
  induction arguments generalizing offset with
  | nil => rfl
  | cons argument rest ih => rw [conveyedTokens, List.map_cons, ih, List.map_cons]

/-- The token of a quoted word stands behind everything before the word, by induction on that. -/
theorem getElem?_conveyedTokens (quote : Char) (offset : Nat) (before : List Argument)
    (argument : Argument) (after : List Argument)
    : (conveyedTokens quote offset (before ++ argument :: after))[before.length]?
      = some
        ⟨argument.word,
          ⟨offset + (conveyed quote before argument.separator).utf8ByteSize,
            offset + (conveyed quote before argument.separator).utf8ByteSize
              + (enquote quote argument.word).utf8ByteSize⟩⟩ := by
  induction before generalizing offset with
  | nil => rfl
  | cons first rest ih => simp [conveyedTokens, conveyed, ih, Nat.add_assoc]

/-- Quoted words behind separators are written as their tokens, by list induction. -/
theorem written_conveyed (hquote : isQuote quotes quote = true) {arguments : List Argument}
    (hseparators : ∀ argument ∈ arguments, IsSeparator quotes argument.separator)
    {behind : String} (hbehind : IsSeparator quotes behind) (offset : Nat)
    : Written quotes offset (conveyed quote arguments behind).toList
        (conveyedTokens quote offset arguments) := by
  induction arguments generalizing offset with
  | nil => simpa [conveyed, conveyedTokens] using Written.separated hbehind .nil
  | cons argument rest ih =>
      obtain ⟨hseparator, hrest⟩ := List.forall_mem_cons.mp hseparators
      rw [conveyed, String.toList_append, String.toList_append, List.append_assoc, conveyedTokens]
      refine Written.separated hseparator ?_
      rw [byteLength_toList]
      exact (ih hrest _).enquoted hquote argument.word

/-- Every list of words can be conveyed by quoting: whatever quotes, a call of words between one of
the quote characters, with backslashes and such quotes escaped in them and any separators around
them, has exactly these words as its values, and the span of each of them covers its quotes.
-/
theorem tokenize_conveyed (member : quote ∈ quotes) (other : quote ≠ '\\')
    {arguments : List Argument}
    (separators : ∀ argument ∈ arguments, IsSeparator quotes argument.separator)
    {behind : String} (last : IsSeparator quotes behind)
    : ∃ tokens,
        tokenize quotes (conveyed quote arguments behind) = .ok tokens
        ∧ tokens.map Token.value = arguments.map Argument.word
        ∧ ∀ before argument after,
            arguments = before ++ argument :: after
            → (tokens[before.length]?).map Token.span
              = some
                ⟨(conveyed quote before argument.separator).utf8ByteSize,
                  (conveyed quote before argument.separator).utf8ByteSize
                    + (enquote quote argument.word).utf8ByteSize⟩ := by
  have hquote : isQuote quotes quote = true := isQuote_iff.mpr ⟨other, member⟩
  have hwritten := written_conveyed hquote separators last 0
  refine ⟨conveyedTokens quote 0 arguments, hwritten.tokenize_eq,
    map_value_conveyedTokens quote 0 arguments, ?_⟩
  rintro before argument after rfl
  simp [getElem?_conveyedTokens]

/-- A word with a quote, a backslash and a blank, then the empty word without a separator between
them, and then another quote character, with a tab behind.
-/
theorem tokenize_conveyed_awkward_words
    : ∃ tokens,
        tokenize standardQuotes " \"a\\\"\\\\ \"\"\" \"'\"\t" = .ok tokens
        ∧ tokens.map Token.value = ["a\"\\ ", "", "'"]
        ∧ (tokens[1]?).map Token.span = some ⟨9, 11⟩ := by
  obtain ⟨tokens, htokens, hvalues, hspans⟩ :=
    tokenize_conveyed (show '"' ∈ standardQuotes by decide) (by decide)
      (show ∀ argument ∈ [Argument.mk " " "a\"\\ ", ⟨"", ""⟩, ⟨" ", "'"⟩],
          IsSeparator standardQuotes argument.separator by
        simp [IsSeparator, Text.isBlank, standardQuotes])
      (show IsSeparator standardQuotes "\t" by simp [IsSeparator, Text.isBlank, standardQuotes])
  exact ⟨tokens, htokens, hvalues, hspans [⟨" ", "a\"\\ "⟩] ⟨"", ""⟩ [⟨" ", "'"⟩] rfl⟩

end CallGrammar.Call

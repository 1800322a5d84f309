import CallGrammar.Proofs.Call.Padding
import CallGrammar.Proofs.Call.Quoting
import CallGrammar.Proofs.Definition.DistinctNames
import CallGrammar.Proofs.Definition.Spelling
import CallGrammar.Proofs.Matching.PlainPatterns

/-! Plain patterns match exactly their calls. A special case are words joined by spaces, read as a
definition on the one side and as a call on the other: the definition has the words as its leaves,
the call has them as the values of its tokens, and they match if and only if they are the same.
-/

namespace CallGrammar

------------------------------------------------------------
-- Patterns of words

namespace Pattern

/-- Words one after the other. -/
def ofWords (words : List String) : Pattern :=
  .sequence (words.map (.literal · true))

@[simp]
theorem leaves_ofWords (words : List String)
    : (ofWords words).leaves = words.map (.literal · true) := by
  rw [ofWords, leaves_sequence, List.flatMap_map, List.map_eq_flatMap]
  simp only [leaves_literal]

theorem depth_ofWords_le (words : List String) : (ofWords words).depth ≤ 2 := by
  have single : depthAll (words.map (.literal · true)) ≤ 1 := by
    refine depthAll_le fun q member => ?_
    obtain ⟨word, -, rfl⟩ := List.mem_map.mp member
    exact Nat.le_refl 1
  rw [ofWords, depth]
  omega

theorem isPlain_ofWords (words : List String) : (ofWords words).IsPlain := by
  have parts {q : Pattern} (member : q ∈ (ofWords words).traverse)
      : q = ofWords words ∨ ∃ word, q = .literal word true := by
    rcases mem_traverse_iff.mp member with rfl | ⟨child, hc, hq⟩
    · exact .inl rfl
    · obtain ⟨word, -, rfl⟩ := List.mem_map.mp hc
      rcases mem_traverse_iff.mp hq with rfl | ⟨_, none, _⟩
      · exact .inr ⟨word, rfl⟩
      · cases none
  refine ⟨?_, ?_, ?_⟩
  · intro q member
    rcases parts member with rfl | ⟨word, rfl⟩
    · simp [ofWords, kind]
    · simp [kind]
  · intro q member
    rcases parts member with rfl | ⟨word, rfl⟩
    · simp [ofWords, children]
    · simp [children]
  · apply onlyLastTail_of_dropLast
    intro leaf member
    rw [leaves_ofWords] at member
    obtain ⟨word, -, rfl⟩ := List.mem_map.mp (List.mem_of_mem_dropLast member)
    simp [kind]

end Pattern

------------------------------------------------------------
-- Words of a definition

namespace Definition

open Pattern in
/-- A part that stands for a sequence of nothing else is as plain, with the same leaves and no more
levels.
-/
theorem unwrapped_plain {p : Pattern} (h : p.IsPlain)
    : (Compiler.unwrapped p).IsPlain
      ∧ (Compiler.unwrapped p).leaves = p.leaves
      ∧ (Compiler.unwrapped p).depth ≤ p.depth := by
  unfold Compiler.unwrapped
  split
  · rename_i part
    have member : part ∈ (sequence [part]).children := List.mem_singleton.mpr rfl
    exact ⟨h.of_child member, by simp, Nat.le_of_lt (depth_lt_of_mem_children member)⟩
  · exact ⟨h, rfl, Nat.le_refl _⟩

/-- Words joined by spaces spell these words. -/
theorem spells_words {words : List String} (h : ∀ word ∈ words, IsWord word.toList)
    : Spells (String.intercalate " " words) (words.map .word) := by
  have spellings : (words.map Lexeme.word).map Lexeme.spelling = words := by
    rw [List.map_map]
    exact List.map_id words
  have spelled : Spells (String.intercalate " " ((words.map Lexeme.word).map Lexeme.spelling))
      (words.map .word) := by
    apply spells_joined
    intro text member
    obtain ⟨word, hw, he⟩ := List.mem_map.mp member
    exact Lexeme.word.inj he ▸ h word hw
  rwa [spellings] at spelled

/-- Words joined by spaces are parsed as these words. -/
theorem parse_joined {words : List String} (h : ∀ word ∈ words, IsWord word.toList)
    : parse false (String.intercalate " " words) = .ok (.ofWords words) := by
  apply parse_eq_ok_iff.mpr
  rw [map_lexeme_lexemes, (spells_words h).scanned_eq]
  rcases words with _ | ⟨word, rest⟩
  · exact ⟨.empty, rfl, List.nodup_nil, rfl⟩
  · have filled : (word :: rest).map (Item.word · 0) ≠ [] := List.cons_ne_nil _ _
    obtain ⟨items, lexemes_eq, names_eq, patterns_eq⟩ := Items.exists_of_list false filled
    refine ⟨.ofAlternatives (.last items), ?_, ?_, ?_⟩
    · rw [Derivation.lexemes, Alternatives.lexemes, lexemes_eq, List.flatMap_map,
        List.map_eq_flatMap]
      rfl
    · have nameless : items.names = [] := by
        rw [names_eq, List.flatMap_map, List.flatMap_eq_nil_iff]
        exact fun _ _ => rfl
      rw [Derivation.names, Alternatives.names, nameless]
      exact List.nodup_nil
    · rw [Derivation.pattern, patterns_eq, List.map_map]
      rfl

/-- They compile to a plain pattern with the words as its leaves. -/
theorem compile_joined {words : List String} (h : ∀ word ∈ words, IsWord word.toList)
    : ∃ p,
        Compiler.standard.compile (String.intercalate " " words) = .ok p
        ∧ p.IsPlain
        ∧ p.leaves = words.map (.literal · true)
        ∧ p.depth ≤ 2 := by
  obtain ⟨plain, leaves_eq, depth_le⟩ := unwrapped_plain (Pattern.isPlain_ofWords words)
  refine ⟨Compiler.unwrapped (.ofWords words), ?_, plain, ?_, ?_⟩
  · exact compile_eq_ok_iff.mpr ⟨_, parse_joined h, rfl⟩
  · rw [leaves_eq, Pattern.leaves_ofWords]
  · exact Nat.le_trans depth_le (Pattern.depth_ofWords_le words)

end Definition

------------------------------------------------------------
-- Words of a call

namespace Call

/-- A word that stands in a call as it is: not empty, and free of blanks, quotes and backslashes. -/
structure IsPlainWord (quotes : List Char) (word : String) : Prop where
  filled : word ≠ ""
  plain : ∀ c ∈ word.toList, Text.isBlank c = false ∧ c ∉ quotes ∧ c ≠ '\\'

variable {quotes : List Char} {offset : Nat} {text : List Char} {tokens : List Token}

/-- A plain word before what is written is the first token, if a blank or nothing follows. -/
theorem Written.word {word : String} (isPlain : IsPlainWord quotes word)
    (apart : ∀ c ∈ text.head?, Text.isBlank c = true)
    (h : Written quotes (offset + word.utf8ByteSize) text tokens)
    : Written quotes offset (word.toList ++ text)
        (⟨word, ⟨offset, offset + word.utf8ByteSize⟩⟩ :: tokens) := by
  obtain ⟨gs, sources_eq, steady, cut⟩ := h
  let piece : Piece := .plain (bares word.toList)
  have bare (g : Glyph) (hg : g ∈ bares word.toList) : ∃ c ∈ word.toList, .bare c = g :=
    List.mem_map.mp hg
  have proper : piece.Proper quotes := by
    refine ⟨?_, ?_⟩
    · simpa [bares] using isPlain.filled
    · intro g hg
      obtain ⟨c, hc, rfl⟩ := bare g hg
      obtain ⟨hblank, hquote, _⟩ := isPlain.plain c hc
      simp [Glyph.isPlain, isQuote, hblank, hquote]
  have ends : piece.Ends quotes gs := by
    intro g hg
    obtain ⟨rest, rfl⟩ := List.head?_eq_some_iff.mp hg
    rw [← sources_eq, head?_sources] at apart
    cases g with
    | bare c =>
        have hblank := apart c rfl
        simp [Glyph.isPlain, hblank]
    | escaped c => exact absurd (apart '\\' rfl) (by decide)
  have token_eq : piece.token offset = ⟨word, ⟨offset, offset + word.utf8ByteSize⟩⟩ := by
    have value_eq : piece.value = word.toList := by
      simp [piece, Piece.value, bares, Glyph.plainText, Glyph.replace, List.flatMap_map]
    rw [Piece.token, value_eq, String.ofList_toList, Piece.glyphs, width_bares]
  refine ⟨piece.glyphs ++ gs, ?_, ?_, ?_⟩
  · rw [sources_append, sources_eq, Piece.glyphs, sources_bares]
  · refine List.forall_mem_append.mpr ⟨?_, steady⟩
    intro g hg
    obtain ⟨c, hc, rfl⟩ := bare g hg
    exact (isPlain.plain c hc).2.2
  · rw [← token_eq]
    refine .piece proper ends ?_
    rwa [Piece.glyphs, width_bares]

/-- Plain words joined by spaces are written as tokens of these values, by list induction. -/
theorem written_joined (space : ' ' ∉ quotes) {words : List String}
    (h : ∀ word ∈ words, IsPlainWord quotes word) (offset : Nat)
    : ∃ tokens,
        Written quotes offset (String.intercalate " " words).toList tokens
        ∧ tokens.map Token.value = words := by
  induction words generalizing offset with
  | nil => exact ⟨[], by simpa using Written.nil, rfl⟩
  | cons word rest ih =>
      obtain ⟨isPlain, others⟩ := List.forall_mem_cons.mp h
      rcases rest with _ | ⟨next, more⟩
      · have written : Written quotes offset (word.toList ++ [])
            [⟨word, ⟨offset, offset + word.utf8ByteSize⟩⟩] :=
          .word isPlain (by simp) .nil
        exact ⟨_, by simpa using written, rfl⟩
      · obtain ⟨tokens, written, values⟩ := ih others (offset + word.utf8ByteSize + 1)
        have blank : ∀ c ∈ [' '], Text.isBlank c = true ∧ c ∉ quotes := by
          simpa [Text.isBlank] using space
        have behind := Written.separated blank written
        have whole := Written.word isPlain (by simp [Text.isBlank]) behind
        exact ⟨_, by simpa using whole, by simp [values]⟩

/-- So they are the values of the tokens of the call. -/
theorem tokenize_joined (space : ' ' ∉ quotes) {words : List String}
    (h : ∀ word ∈ words, IsPlainWord quotes word)
    : ∃ tokens,
        tokenize quotes (String.intercalate " " words) = .ok tokens
        ∧ tokens.map Token.value = words := by
  obtain ⟨tokens, written, values⟩ := written_joined space h 0
  exact ⟨tokens, written.tokenize_eq, values⟩

end Call

------------------------------------------------------------
-- Calls that match

namespace Matcher

/-- Where case counts, words take exactly the tokens of their values, by list induction. -/
theorem leftBy_words_eq_nil_iff {m : Matcher} (sensitive : m.caseSensitive = true)
    (words : List String) (tokens : List Token)
    : m.leftBy (words.map (.literal · true)) tokens = some [] ↔ words = tokens.map Token.value := by
  induction words generalizing tokens with
  | nil =>
      rcases tokens with _ | ⟨token, tokens⟩
      · simp [leftBy]
      · simp [leftBy]
  | cons word rest ih =>
      rcases tokens with _ | ⟨token, tokens⟩
      · simp [leftBy]
      · have step : m.leftBy ((word :: rest).map (.literal · true)) (token :: tokens)
            = if word = token.value then m.leftBy (rest.map (.literal · true)) tokens else none := by
          rw [List.map_cons, leftBy, takes, accepts, sensitive]
          · simp
          · rintro name ⟨⟩
        rw [step, List.map_cons, List.cons.injEq, ← ih]
        by_cases same : word = token.value
        · simp [same]
        · simp [same]

/-- Each word counts one on the exact scale. -/
theorem foldl_literal_eq (words : List String) (start : Rat)
    : words.foldl (fun score _ => score + Scale.literal) start = start + words.length := by
  induction words generalizing start with
  | nil => simp
  | cons word rest ih =>
      have one : (Scale.literal : Rat) = 1 := by decide +kernel
      rw [List.foldl_cons, ih, one, List.length_cons, Nat.cast_succ, add_comm (rest.length : Rat),
        add_assoc]

/-- Plain patterns match exactly their calls. If the limit has room for a plain pattern and its
types are registered, a call matches it if and only if the tokens fit the leaves one by one, the
score is what the leaves count, and every failure only does not fit. In particular, words joined by
spaces compile to a pattern that matches other words joined by spaces if and only if they are the
same, with one for each of them as the score.
-/
theorem plain_matches_exactly
    : (∀ {σ : Type} [Scale σ] (m : Matcher) (p : Pattern) (raw : String) (tokens : List Token),
        p.IsPlain
        → p.depth ≤ m.maxDepth
        → (∀ name typeName,
            .parameter name (some typeName) ∈ p.leaves → m.types.contains typeName = true)
        → m.tokenize raw = .ok tokens
        → ((∃ outcome : Outcome σ, m.matchCall p raw = .ok outcome) ↔ m.Fits p.leaves tokens)
          ∧ (∀ outcome : Outcome σ, m.matchCall p raw = .ok outcome
            → outcome.score = p.leaves.foldl (fun score leaf => score + leaf.weight) 0)
          ∧ ∀ failure : Failure σ, m.matchCall p raw = .error failure
            → ∃ reason, failure = .mismatch reason)
      ∧ ∀ words : List String,
          (∀ word ∈ words, Definition.IsWord word.toList)
          → ∃ p,
              Definition.Compiler.standard.compile (String.intercalate " " words) = .ok p
              ∧ ∀ call : List String,
                  (∀ word ∈ call, Call.IsPlainWord Call.standardQuotes word)
                  → (∀ {σ : Type} [Scale σ],
                      ((∃ outcome : Outcome σ,
                          standard.matchCall p (String.intercalate " " call) = .ok outcome)
                        ↔ words = call)
                      ∧ ∀ outcome : Outcome σ,
                          standard.matchCall p (String.intercalate " " call) = .ok outcome
                          → outcome.score = words.foldl (fun score _ => score + Scale.literal) 0)
                    ∧ ∀ outcome : Outcome Rat,
                        standard.matchCall p (String.intercalate " " call) = .ok outcome
                        → outcome.score = words.length := by
  refine ⟨?_, ?_⟩
  · intro σ _ m p raw tokens plain room known tokenized
    have admitted : m.Admits p := by
      refine ⟨room, ?_, plain.tailsLast⟩
      intro name typeName member
      exact known name typeName (List.mem_filter.mpr ⟨member, rfl⟩)
    refine ⟨matchCall_ok_iff_fits plain room tokenized, ?_, ?_⟩
    · intro outcome matched
      exact score_of_matchCall plain.groupFree matched
    · intro failure failed
      exact mismatch_of_matchCall admitted tokenized failed
  · intro words areWords
    obtain ⟨p, compiled, plain, leaves_eq, depth_le⟩ := Definition.compile_joined areWords
    refine ⟨p, compiled, fun call arePlain => ?_⟩
    have space : ' ' ∉ Call.standardQuotes := by decide
    obtain ⟨tokens, tokenized, values⟩ := Call.tokenize_joined space arePlain
    have room : p.depth ≤ standard.maxDepth := Nat.le_trans depth_le (by decide)
    have scored {σ : Type} [Scale σ] (outcome : Outcome σ)
        (matched : standard.matchCall p (String.intercalate " " call) = .ok outcome)
        : outcome.score = words.foldl (fun score _ => score + Scale.literal) 0 := by
      rw [score_of_matchCall plain.groupFree matched, leaves_eq, List.foldl_map]
      rfl
    refine ⟨⟨?_, scored⟩, ?_⟩
    · rw [matchCall_ok_iff_fits plain room tokenized, ← leftBy_eq_nil_iff plain.tailLast, leaves_eq,
        leftBy_words_eq_nil_iff rfl, values]
    · intro outcome matched
      exact (scored outcome matched).trans ((foldl_literal_eq words 0).trans (by simp))

/-- A nested pattern with a typed parameter and a tail, whose call has more tokens than leaves; and
two words that match themselves, and not with a third one before them.
-/
theorem plain_matches_exactly_move_and_go
    : ∃ (p q : Pattern) (tokens : List Token),
        p = .sequence
          [.literal "move" true, .sequence [.parameter "steps" (some "int"), .tail "where"]]
        ∧ p.IsPlain
        ∧ standard.tokenize "move 3 'far away' now" = .ok tokens
        ∧ standard.Fits p.leaves tokens
        ∧ (∃ outcome : Outcome Rat,
            standard.matchCall p "move 3 'far away' now" = .ok outcome
            ∧ outcome.score = 1 + 1 / 2 + 1 / 4)
        ∧ Definition.Compiler.standard.compile "go home" = .ok q
        ∧ (∃ outcome : Outcome Rat,
            standard.matchCall q "go home" = .ok outcome ∧ outcome.score = 2)
        ∧ ¬ ∃ outcome : Outcome Rat, standard.matchCall q "now go home" = .ok outcome := by
  let p : Pattern :=
    .sequence [.literal "move" true, .sequence [.parameter "steps" (some "int"), .tail "where"]]
  let leaves : List Pattern :=
    [.literal "move" true, .parameter "steps" (some "int"), .tail "where"]
  let tokens : List Token :=
    [⟨"move", ⟨0, 4⟩⟩, ⟨"3", ⟨5, 6⟩⟩, ⟨"far away", ⟨7, 17⟩⟩, ⟨"now", ⟨18, 21⟩⟩]
  have leaves_eq : p.leaves = leaves := by
    simp [p, leaves]
  have plain : p.IsPlain := by
    refine ⟨?_, ?_, ?_⟩
    · rw [Pattern.IsGroupFree, Pattern.traverse_eq_preorder]
      decide
    · rw [Pattern.traverse_eq_preorder]
      decide
    · apply Pattern.onlyLastTail_of_dropLast
      simp [leaves_eq, leaves, Pattern.kind]
  have known (name typeName : String) (member : .parameter name (some typeName) ∈ p.leaves)
      : standard.types.contains typeName = true := by
    obtain ⟨-, rfl⟩ : name = "steps" ∧ typeName = "int" := by
      simpa [leaves_eq, leaves] using member
    rfl
  have tokenized : standard.tokenize "move 3 'far away' now" = .ok tokens := by decide
  have fits : standard.Fits p.leaves tokens := by
    rw [leaves_eq]
    refine ⟨?_, by decide⟩
    rintro (_ | _ | _ | place) leaf found single
    · cases found
      exact ⟨_, rfl, rfl⟩
    · cases found
      exact ⟨_, rfl, by with_unfolding_all rfl⟩
    · cases found
      exact absurd rfl single
    · cases found
  obtain ⟨matches_iff, scored, -⟩
      : ((∃ outcome : Outcome Rat, standard.matchCall p "move 3 'far away' now" = .ok outcome)
          ↔ standard.Fits p.leaves tokens) ∧ _ ∧ _ :=
    plain_matches_exactly.1 standard p "move 3 'far away' now" tokens plain (by decide) known
      tokenized
  obtain ⟨outcome, matched⟩ := matches_iff.mpr fits
  have score_eq : outcome.score = 1 + 1 / 2 + 1 / 4 := by
    rw [scored outcome matched, leaves_eq]
    decide +kernel
  have areWords : ∀ word ∈ ["go", "home"], Definition.IsWord word.toList := by
    refine List.forall_mem_cons.mpr ⟨?_, List.forall_mem_singleton.mpr ?_⟩
    · exact ⟨by decide, by simp [Text.isBlank], by simp [Definition.mark?], by decide⟩
    · exact ⟨by decide, by simp [Text.isBlank], by simp [Definition.mark?], by decide⟩
  have arePlain : ∀ word ∈ ["now", "go", "home"], Call.IsPlainWord Call.standardQuotes word := by
    intro word member
    simp only [List.mem_cons, List.not_mem_nil, or_false] at member
    rcases member with rfl | rfl | rfl
    all_goals exact ⟨by decide, by simp [Text.isBlank, Call.standardQuotes]⟩
  obtain ⟨q, compiled, exactly⟩ := plain_matches_exactly.2 ["go", "home"] areWords
  obtain ⟨same, counted⟩ := exactly ["go", "home"] (List.forall_mem_cons.mp arePlain).2
  obtain ⟨longer, -⟩ := exactly ["now", "go", "home"] arePlain
  obtain ⟨second, gone⟩ : ∃ outcome : Outcome Rat, standard.matchCall q "go home" = .ok outcome :=
    same.1.mpr rfl
  refine ⟨p, q, tokens, rfl, plain, tokenized, fits, ⟨outcome, matched, score_eq⟩, compiled,
    ⟨second, gone, counted second gone⟩, ?_⟩
  intro third
  exact absurd (longer.1.mp third) (by decide)

end Matcher

end CallGrammar

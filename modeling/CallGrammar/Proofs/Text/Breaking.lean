import CallGrammar.Text.Slice
import CallGrammar.Text.Wrap
import Mathlib.Data.List.Chain
import Mathlib.Data.List.Induction

/-! Breaking words that are wider than their room. A break stands where the next character would
overstep the room, so a run stays whole exactly if it fits or offers no place for a break.
-/

namespace CallGrammar.Text

------------------------------------------------------------
-- Columns

/-- Where a reader stands with respect to escape sequences behind a text. -/
def escapeState (cs : List Char) : EscapeState :=
  cs.foldl EscapeState.next .outside

/-- A character behind a text belongs to no escape sequence. -/
def Shows (before : List Char) (c : Char) : Prop :=
  ((escapeState before).columns? c).isSome

theorem escapeState_snoc (before : List Char) (c : Char)
    : escapeState (before ++ [c]) = (escapeState before).next c := by
  simp [escapeState]

/-- Columns are read on in the state that was reached, by list induction. -/
theorem columns_append (state : EscapeState) (left right : List Char)
    : columns state (left ++ right)
      = columns state left ++ columns (left.foldl EscapeState.next state) right := by
  induction left generalizing state with
  | nil => rfl
  | cons c rest ih => rw [List.cons_append, columns, columns, ih, List.cons_append, List.foldl_cons]

/-- One more character adds its columns, by induction on those before it. -/
theorem width_snoc (before : List Char) (c : Char)
    : width (before ++ [c]) = width before + ((escapeState before).columns? c).getD 0 := by
  rw [width, columns_append, List.foldr_append, width, escapeState]
  generalize columns .outside before = read
  simp only [columns, List.foldr_cons, List.foldr_nil, Nat.add_zero]
  induction read with
  | nil => simp
  | cons column rest ih => rw [List.foldr_cons, List.foldr_cons, ih, Nat.add_assoc]

/-- Characters with columns of their own stand outside escape sequences, by cases on the state. -/
theorem EscapeState.eq_outside_of_columns {state : EscapeState} {c : Char} {columns : Nat}
    (h : state.columns? c = some columns)
    : state = .outside := by
  cases state with
  | outside => rfl
  | opened => cases h
  | control => cases h
  | command afterEscape => cases h

/-- A character that shows adds the columns that it has alone. -/
theorem width_snoc_of_shows {before : List Char} {c : Char} (shows : Shows before c)
    : width (before ++ [c]) = width before + width [c] := by
  obtain ⟨count, shown⟩ := Option.isSome_iff_exists.mp shows
  rw [width_snoc, EscapeState.eq_outside_of_columns shown]
  simp [width, columns]

/-- A text is no wider than what it starts, by induction on the rest. -/
theorem width_le_append (before after : List Char) : width before ≤ width (before ++ after) := by
  induction after generalizing before with
  | nil => rw [List.append_nil]
  | cons c rest ih =>
      have further := ih (before ++ [c])
      rw [width_snoc, List.append_assoc, List.singleton_append] at further
      omega

------------------------------------------------------------
-- Places for a break

/-- A character oversteps a limit behind a piece: both show, and together they are too wide. -/
structure Oversteps (limit : Nat) (piece : List Char) (c : Char) : Prop where
  shows : Shows piece c
  behind : 0 < width piece
  wide : limit < width (piece ++ [c])

/-- No character of a text oversteps the limit. -/
def StaysWithin (limit : Nat) (cs : List Char) : Prop :=
  ∀ before c, before ++ [c] <+: cs → ¬ Oversteps limit before c

/-- A text has a place for a break: before a character that shows, behind something with columns. -/
def Breakable (cs : List Char) : Prop :=
  ∃ before c, before ++ [c] <+: cs ∧ Shows before c ∧ 0 < width before

/-- A place in a text that ends with a character is the end or a place before it. -/
theorem place_snoc_cases {before cs : List Char} {c d : Char}
    (place : before ++ [d] <+: cs ++ [c])
    : (before = cs ∧ d = c) ∨ before ++ [d] <+: cs := by
  rcases List.prefix_concat_iff.mp place with last | inside
  · obtain ⟨same, characters⟩ := List.append_inj' last rfl
    exact .inl ⟨same, List.singleton_inj.mp characters⟩
  · exact .inr inside

theorem staysWithin_nil (limit : Nat) : StaysWithin limit [] := by
  intro before c place
  simp at place

theorem staysWithin_snoc_iff {limit : Nat} {cs : List Char} {c : Char}
    : StaysWithin limit (cs ++ [c]) ↔ StaysWithin limit cs ∧ ¬ Oversteps limit cs c := by
  constructor
  · intro stays
    refine ⟨fun before d place => ?_, stays cs c List.prefix_rfl⟩
    exact stays before d (place.trans (List.prefix_append cs [c]))
  · rintro ⟨stays, fits⟩ before d place
    rcases place_snoc_cases place with ⟨rfl, rfl⟩ | inside
    · exact fits
    · exact stays before d inside

theorem breakable_snoc_iff {cs : List Char} {c : Char}
    : Breakable (cs ++ [c]) ↔ Breakable cs ∨ (Shows cs c ∧ 0 < width cs) := by
  constructor
  · rintro ⟨before, d, place, shows, behind⟩
    rcases place_snoc_cases place with ⟨rfl, rfl⟩ | inside
    · exact .inr ⟨shows, behind⟩
    · exact .inl ⟨before, d, inside, shows, behind⟩
  · rintro (⟨before, d, place, shows, behind⟩ | ⟨shows, behind⟩)
    · exact ⟨before, d, place.trans (List.prefix_append cs [c]), shows, behind⟩
    · exact ⟨cs, c, List.prefix_rfl, shows, behind⟩

theorem Breakable.width_pos {cs : List Char} (breakable : Breakable cs) : 0 < width cs := by
  obtain ⟨before, c, ⟨after, rfl⟩, -, behind⟩ := breakable
  rw [List.append_assoc]
  exact Nat.lt_of_lt_of_le behind (width_le_append _ _)

/-- Nothing oversteps a limit exactly where all fits or no place for a break is, by induction on the
text from its end: the last character that shows is behind all columns but its own.
-/
theorem staysWithin_iff {limit : Nat} {cs : List Char}
    : StaysWithin limit cs ↔ width cs ≤ limit ∨ ¬ Breakable cs := by
  induction cs using List.reverseRecOn with
  | nil => exact iff_of_true (staysWithin_nil limit) (.inl (Nat.zero_le limit))
  | append_singleton cs c ih =>
      have wider := width_snoc cs c
      have hidden : ¬ Shows cs c → width (cs ++ [c]) = width cs := by
        intro hides
        have none : (escapeState cs).columns? c = none := by simpa [Shows] using hides
        simpa [none] using wider
      have oversteps : Oversteps limit cs c
          ↔ Shows cs c ∧ 0 < width cs ∧ limit < width (cs ++ [c]) :=
        ⟨fun h => ⟨h.shows, h.behind, h.wide⟩, fun h => ⟨h.1, h.2.1, h.2.2⟩⟩
      have behind : Breakable cs → 0 < width cs := Breakable.width_pos
      rw [staysWithin_snoc_iff, breakable_snoc_iff, ih, oversteps]
      by_cases shows : Shows cs c
      · grind
      · grind

------------------------------------------------------------
-- Pieces

/-- Breaking what is left of a word behind a piece that was read: the last piece has the spaces of
the word, and a piece ends where the next character oversteps the limit.
-/
inductive Broken (limit spaces : Nat) : List Char → List Char → List Word → Prop
  | last {piece} (filled : piece ≠ [])
    : Broken limit spaces piece [] [⟨piece, width piece, spaces⟩]
  | goOn {piece c rest words} (fits : ¬ Oversteps limit piece c)
    (more : Broken limit spaces (piece ++ [c]) rest words)
    : Broken limit spaces piece (c :: rest) words
  | stop {piece c rest words} (oversteps : Oversteps limit piece c)
    (more : Broken limit spaces [c] rest words)
    : Broken limit spaces piece (c :: rest) (⟨piece, width piece, 0⟩ :: words)

/-- A word is broken so, by induction on what is left of it. -/
theorem broken_breakColumns (limit spaces : Nat) {piece rest : List Char}
    (filled : piece ++ rest ≠ [])
    : Broken limit spaces piece rest
        (breakColumns limit spaces piece (width piece) (columns (escapeState piece) rest)) := by
  induction rest generalizing piece with
  | nil =>
      rw [List.append_nil] at filled
      rw [columns, breakColumns, if_neg (by simpa using filled)]
      exact .last filled
  | cons c rest ih =>
      have wider := width_snoc piece c
      have behind := @ih (piece ++ [c]) (by simp)
      rw [escapeState_snoc] at behind
      rw [columns]
      cases shown : (escapeState piece).columns? c with
      | none =>
          rw [shown, Option.getD_none, Nat.add_zero] at wider
          rw [wider] at behind
          rw [breakColumns]
          refine .goOn (fun oversteps => ?_) behind
          have shows := oversteps.shows
          simp [Shows, shown] at shows
      | some count =>
          rw [shown, Option.getD_some] at wider
          rw [breakColumns]
          split
          · next h =>
              simp only [Bool.and_eq_true, decide_eq_true_eq] at h
              have shows : Shows piece c := by simp [Shows, shown]
              have alone : width [c] = count := by
                have own := width_snoc_of_shows shows
                omega
              refine .stop ⟨shows, h.1, by omega⟩ ?_
              have again := @ih [c] (by simp)
              rw [alone] at again
              rw [EscapeState.eq_outside_of_columns shown]
              exact again
          · next h =>
              simp only [Bool.and_eq_true, decide_eq_true_eq, not_and, Nat.not_lt] at h
              rw [wider] at behind
              refine .goOn (fun oversteps => ?_) behind
              have fits := h oversteps.behind
              have wide := oversteps.wide
              omega

namespace Broken

variable {limit spaces : Nat} {piece rest : List Char} {words others : List Word}

/-- Breaking is determined, by induction on it. -/
theorem unique (broken : Broken limit spaces piece rest words)
    (again : Broken limit spaces piece rest others)
    : words = others := by
  induction broken generalizing others with
  | last filled =>
      cases again with
      | last => rfl
  | goOn fits more ih =>
      cases again with
      | goOn _ other => exact ih other
      | stop oversteps _ => exact absurd oversteps fits
  | stop oversteps more ih =>
      cases again with
      | goOn fits _ => exact absurd oversteps fits
      | stop _ other => rw [ih other]

/-- A word in which nothing oversteps the limit is not broken, by induction on what is left of it.
-/
theorem whole (stays : StaysWithin limit (piece ++ rest)) (filled : piece ++ rest ≠ [])
    : Broken limit spaces piece rest [⟨piece ++ rest, width (piece ++ rest), spaces⟩] := by
  induction rest generalizing piece with
  | nil =>
      rw [List.append_nil] at filled ⊢
      exact .last filled
  | cons c rest ih =>
      have split : piece ++ c :: rest = (piece ++ [c]) ++ rest := by simp
      rw [split] at stays filled ⊢
      exact .goOn (stays piece c (List.prefix_append _ _)) (ih stays filled)

theorem ne_nil (broken : Broken limit spaces piece rest words) : words ≠ [] := by
  induction broken with
  | last filled => exact List.cons_ne_nil _ _
  | goOn fits more ih => exact ih
  | stop oversteps more ih => exact List.cons_ne_nil _ _

/-- Nothing of a word is lost, by induction on its breaking. -/
theorem flatten_map_text (broken : Broken limit spaces piece rest words)
    : (words.map Word.text).flatten = piece ++ rest := by
  induction broken with
  | last filled => simp
  | goOn fits more ih => simpa using ih
  | stop oversteps more ih => simpa using ih

/-- Pieces hold characters, by induction on the breaking. -/
theorem filled (broken : Broken limit spaces piece rest words)
    : ∀ word ∈ words, word.text ≠ [] := by
  induction broken with
  | last filled => simpa using filled
  | goOn fits more ih => exact ih
  | stop oversteps more ih =>
      refine List.forall_mem_cons.mpr ⟨?_, ih⟩
      rintro rfl
      exact absurd oversteps.behind (Nat.lt_irrefl 0)

/-- In no piece anything oversteps the limit, by induction on the breaking. -/
theorem staysWithin (broken : Broken limit spaces piece rest words)
    (stays : StaysWithin limit piece)
    : ∀ word ∈ words, StaysWithin limit word.text := by
  induction broken with
  | last filled => simpa using stays
  | goOn fits more ih => exact ih (staysWithin_snoc_iff.mpr ⟨stays, fits⟩)
  | @stop piece c rest words oversteps more ih =>
      have alone : ¬ Oversteps limit [] c := fun none => absurd none.behind (Nat.lt_irrefl 0)
      have next : StaysWithin limit ([] ++ [c]) :=
        staysWithin_snoc_iff.mpr ⟨staysWithin_nil limit, alone⟩
      exact List.forall_mem_cons.mpr ⟨stays, ih next⟩

/-- The first piece is no narrower than what was read of it, by induction on the breaking. -/
theorem width_le_head (broken : Broken limit spaces piece rest words)
    : ∀ word ∈ words.head?, width piece ≤ word.width := by
  induction broken with
  | last filled => simp
  | goOn fits more ih =>
      intro word head
      exact Nat.le_trans (width_le_append _ _) (ih word head)
  | stop oversteps more ih => simp

/-- No two pieces beside each other fit in the limit, by induction on the breaking. -/
theorem isChain (broken : Broken limit spaces piece rest words)
    : words.IsChain fun word next => limit < word.width + next.width := by
  induction broken with
  | last filled => exact .singleton _
  | goOn fits more ih => exact ih
  | @stop piece c rest words oversteps more ih =>
      refine ih.cons fun next head => ?_
      have wide := oversteps.wide
      have start := more.width_le_head next head
      rw [width_snoc_of_shows oversteps.shows] at wide
      exact Nat.lt_of_lt_of_le wide (Nat.add_le_add_left start _)

/-- The spaces stand behind the last piece, by induction on the breaking. -/
theorem spaces_of_getLast (broken : Broken limit spaces piece rest words)
    : ∀ word ∈ words.getLast?, word.spaces = spaces := by
  induction broken with
  | last filled => simp
  | goOn fits more ih => exact ih
  | stop oversteps more ih =>
      intro word last
      rw [List.getLast?_cons_of_ne_nil more.ne_nil] at last
      exact ih word last

end Broken

------------------------------------------------------------
-- Fitted words

/-- A word with characters is broken as far as it has to be. -/
theorem broken_fitted (limit : Nat) {word : Word} (filled : word.text ≠ [])
    (measured : word.width = width word.text)
    : Broken limit word.spaces [] word.text (word.fitted limit) := by
  obtain ⟨text, columns, spaces⟩ := word
  obtain rfl : columns = width text := measured
  rw [Word.fitted]
  split
  · exact broken_breakColumns limit spaces filled
  · next fits =>
      exact .whole (staysWithin_iff.mpr (.inl (Nat.le_of_not_lt fits))) filled

theorem fitted_of_empty (limit : Nat) {word : Word} (empty : word.text = [])
    (measured : word.width = width word.text)
    : word.fitted limit = [word] := by
  have narrow : word.width = 0 := by rw [measured, empty]; rfl
  rw [Word.fitted, if_neg (by omega)]

/-- The spaces behind a word do not matter to its pieces, by induction on the breaking. -/
theorem map_text_breakColumns (limit spaces : Nat) (piece : List Char) (used : Nat)
    (rest : List (Char × Option Nat))
    : (breakColumns limit spaces piece used rest).map Word.text
      = (breakColumns limit 0 piece used rest).map Word.text := by
  fun_induction breakColumns limit spaces piece used rest with
  | case1 piece used empty => simp [breakColumns, empty]
  | case2 piece used filled => simp [breakColumns, filled]
  | case3 piece used c rest ih => rw [ih, breakColumns]
  | case4 piece used c count rest full ih =>
      rw [breakColumns, if_pos full, List.map_cons, List.map_cons, ih]
  | case5 piece used c count rest room ih => rw [ih, breakColumns, if_neg room]

/-- The pieces of a run in lines of the given columns. -/
def pieces (limit : Nat) (run : List Char) : List (List Char) :=
  ((⟨run, width run, 0⟩ : Word).fitted limit).map Word.text

theorem map_text_fitted (limit : Nat) {word : Word} (measured : word.width = width word.text)
    : (word.fitted limit).map Word.text = pieces limit word.text := by
  rw [pieces, Word.fitted, Word.fitted, measured]
  split
  · exact map_text_breakColumns limit word.spaces [] 0 _
  · rfl

theorem broken_pieces (limit : Nat) {run : List Char} (filled : run ≠ [])
    : ∃ words, Broken limit 0 [] run words ∧ pieces limit run = words.map Word.text :=
  ⟨_, @broken_fitted limit ⟨run, width run, 0⟩ filled rfl, rfl⟩

theorem flatten_pieces (limit : Nat) {run : List Char} (filled : run ≠ [])
    : (pieces limit run).flatten = run := by
  obtain ⟨words, broken, same⟩ := broken_pieces limit filled
  rw [same, broken.flatten_map_text, List.nil_append]

theorem filled_of_mem_pieces {limit : Nat} {run : List Char} (filled : run ≠ [])
    {piece : List Char} (member : piece ∈ pieces limit run)
    : piece ≠ [] := by
  obtain ⟨words, broken, same⟩ := broken_pieces limit filled
  obtain ⟨word, found, rfl⟩ := List.mem_map.mp (same ▸ member)
  exact broken.filled word found

theorem staysWithin_of_mem_pieces {limit : Nat} {run : List Char} (filled : run ≠ [])
    {piece : List Char} (member : piece ∈ pieces limit run)
    : StaysWithin limit piece := by
  obtain ⟨words, broken, same⟩ := broken_pieces limit filled
  obtain ⟨word, found, rfl⟩ := List.mem_map.mp (same ▸ member)
  exact broken.staysWithin (staysWithin_nil limit) word found

/-- A run is kept whole exactly if nothing in it oversteps the limit. -/
theorem pieces_eq_singleton_iff {limit : Nat} {run : List Char} (filled : run ≠ [])
    : pieces limit run = [run] ↔ StaysWithin limit run := by
  constructor
  · intro whole
    exact staysWithin_of_mem_pieces filled (whole ▸ List.mem_singleton_self run)
  · intro stays
    obtain ⟨words, broken, same⟩ := broken_pieces limit filled
    rw [same, broken.unique (.whole stays filled)]
    rfl

------------------------------------------------------------
-- Bytes

/-- Wide characters take three bytes at least. -/
theorem le_of_inRanges_wideRanges {c : Char} (wide : inRanges wideRanges c = true)
    : 0x1100 ≤ c.toNat := by
  obtain ⟨range, member, low, -⟩ := inRanges_iff.mp wide
  have bound : ∀ range ∈ wideRanges, 0x1100 ≤ range.1 := by decide +kernel
  exact Nat.le_trans (bound range member) low

theorem three_le_utf8Size {c : Char} (h : 0x800 ≤ c.toNat) : 3 ≤ c.utf8Size := by
  have value : c.toNat = c.val.toNat := rfl
  rcases c.utf8Size_eq with one | two | three | four
  · have low : c.val.toNat ≤ 127 := UInt32.le_iff_toNat_le.mp (Char.utf8Size_eq_one_iff.mp one)
    omega
  · have low : c.val.toNat ≤ 0x7FF :=
      UInt32.le_iff_toNat_le.mp (Char.utf8Size_eq_two_iff.mp two).2
    omega
  · omega
  · omega

/-- A character takes no more columns than bytes, by cases on the rules for its columns. -/
theorem charWidth_le_utf8Size (c : Char) : charWidth c ≤ c.utf8Size := by
  have one : 1 ≤ c.utf8Size := c.utf8Size_pos
  fun_cases charWidth c with
  | case1 => omega
  | case2 => omega
  | case3 _ _ h =>
      have three : 3 ≤ c.utf8Size := three_le_utf8Size (by simp at h; omega)
      omega
  | case4 _ _ _ h => exact three_le_utf8Size (by omega)
  | case5 => exact one
  | case6 => exact Nat.zero_le _
  | case7 _ _ _ _ _ _ wide =>
      have low := le_of_inRanges_wideRanges wide
      have three : 3 ≤ c.utf8Size := three_le_utf8Size (by omega)
      omega
  | case8 => exact one

/-- A text takes no more columns than bytes, by induction on it from its end. -/
theorem width_le_byteLength (cs : List Char) : width cs ≤ byteLength cs := by
  induction cs using List.reverseRecOn with
  | nil => exact Nat.le_refl 0
  | append_singleton cs c ih =>
      have own : ((escapeState cs).columns? c).getD 0 ≤ c.utf8Size := by
        have bound := charWidth_le_utf8Size c
        fun_cases EscapeState.columns? (escapeState cs) c with
        | case1 => exact Nat.zero_le _
        | case2 => exact bound
        | case3 => exact Nat.zero_le _
      rw [width_snoc, byteLength_append]
      exact Nat.add_le_add ih own

end CallGrammar.Text

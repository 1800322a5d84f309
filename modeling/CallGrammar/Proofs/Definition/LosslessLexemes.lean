import CallGrammar.Proofs.Definition.ProblemSpans
import CallGrammar.Proofs.Definition.Spelling
import Mathlib.Data.List.Chain

/-! Lexemes lose nothing of a definition but blanks. They stand where their spans tell, spelled as
they are, with nothing but blanks between them, and blanks keep words apart; and the spellings of
any lexemes with a space between each two are read as these lexemes.
-/

namespace CallGrammar.Definition

/-- Nothing but blanks stands between two lexemes, and something does if both are words. -/
def Separate (definition : String) (found next : Placed) : Prop :=
  ∃ gap,
    (Span.mk found.span.stop next.span.start).text? definition.toList = some gap
    ∧ (∀ c ∈ gap, Text.isBlank c = true)
    ∧ ∀ first second, found.lexeme = .word first → next.lexeme = .word second → gap ≠ []

/-- Lexemes from which a definition can be told up to the number and kind of its blanks. -/
structure Lossless (definition : String) (placed : List Placed) : Prop where
  filled : ∀ found ∈ placed, found.span.start < found.span.stop
  within : ∀ found ∈ placed, found.span.Within definition
  ordered : placed.Pairwise fun found later => found.span.stop ≤ later.span.start
  covering
    : ∀ left c right,
        definition.toList = left ++ c :: right
        → Text.isBlank c = false
        → ∃ found ∈ placed,
            found.span.start ≤ Text.byteLength left
            ∧ Text.byteLength (left ++ [c]) ≤ found.span.stop
  spelled : ∀ found ∈ placed, found.span.text definition = found.lexeme.spelling
  worded : Worded (placed.map Placed.lexeme)
  separate : placed.IsChain (Separate definition)

------------------------------------------------------------
-- What is laid out

namespace Laid

variable {offset : Nat} {cs : List Char} {placed : List Placed}

theorem spelling_ne_nil (h : Laid offset cs placed) {found : Placed} (hf : found ∈ placed)
    : found.lexeme.spelling.toList ≠ [] := by
  induction h with
  | done => cases hf
  | blank isBlank behind ih => exact ih hf
  | lexeme filled behind ih =>
      rcases List.mem_cons.mp hf with rfl | hmem
      · exact filled
      · exact ih hmem

/-- A character that is not blank stands within a lexeme, by induction on what is laid out. -/
theorem exists_covering (h : Laid offset cs placed) {left right : List Char} {c : Char}
    (hc : cs = left ++ c :: right) (notBlank : Text.isBlank c = false)
    : ∃ found ∈ placed,
        found.span.start ≤ offset + Text.byteLength left
        ∧ offset + Text.byteLength (left ++ [c]) ≤ found.span.stop := by
  induction h generalizing left with
  | done => simp at hc
  | @blank offset first rest placed isBlank behind ih =>
      cases left with
      | nil =>
          obtain ⟨rfl, -⟩ := List.cons.inj hc
          exact absurd isBlank (by simp [notBlank])
      | cons d left =>
          obtain ⟨rfl, hrest⟩ := List.cons.inj hc
          rw [List.cons_append, Text.byteLength, Text.byteLength, ← Nat.add_assoc,
            ← Nat.add_assoc]
          exact ih hrest
  | @lexeme offset lexeme rest placed filled behind ih =>
      -- The character stands behind the first lexeme or inside it.
      rcases Text.behind_or_inside hc with ⟨between, rfl, hrest⟩ | ⟨inside, hfirst⟩
      · obtain ⟨found, hf, hstart, hstop⟩ := ih hrest
        rw [List.append_assoc, Text.byteLength_append, Text.byteLength_append, ← Nat.add_assoc,
          ← Nat.add_assoc]
        exact ⟨found, List.mem_cons_of_mem _ hf, hstart, hstop⟩
      · have hlength : Text.byteLength lexeme.spelling.toList
            = Text.byteLength (left ++ [c]) + Text.byteLength inside := by
          rw [← Text.byteLength_append, hfirst, List.append_assoc, List.singleton_append]
        refine ⟨_, List.mem_cons_self, Nat.le_add_right offset _, ?_⟩
        exact Nat.add_le_add_left (hlength ▸ Nat.le_add_right _ _) offset

/-- Before the first lexeme there is nothing but blanks. -/
theorem exists_gap (h : Laid offset cs placed) {next : Placed} (hn : next ∈ placed.head?)
    : ∃ gap rest,
        cs = gap ++ rest
        ∧ (∀ c ∈ gap, Text.isBlank c = true)
        ∧ next.span.start = offset + Text.byteLength gap := by
  induction h with
  | done => cases hn
  | @blank offset c rest placed isBlank behind ih =>
      obtain ⟨gap, others, rfl, blanks, hstart⟩ := ih hn
      refine ⟨c :: gap, others, rfl, List.forall_mem_cons.mpr ⟨isBlank, blanks⟩, ?_⟩
      rw [hstart, Text.byteLength, Nat.add_assoc]
  | @lexeme offset lexeme rest placed filled behind ih =>
      obtain rfl := Option.some.inj hn
      exact ⟨[], _, rfl, List.forall_mem_nil _, rfl⟩

/-- Between two lexemes that follow each other there is nothing but blanks, by induction on what is
laid out.
-/
theorem gaps (h : Laid offset cs placed) {source left : List Char} (hsource : source = left ++ cs)
    (hoffset : offset = Text.byteLength left)
    : placed.IsChain fun found next =>
        ∃ gap,
          (Span.mk found.span.stop next.span.start).text? source = some gap
          ∧ (∀ c ∈ gap, Text.isBlank c = true)
          ∧ next.span.start = found.span.stop + Text.byteLength gap := by
  induction h generalizing left with
  | done => exact List.isChain_nil
  | @blank offset c rest placed isBlank behind ih =>
      refine @ih (left ++ [c]) ?_ ?_
      · simpa using hsource
      · simp [hoffset, Text.byteLength_append, Text.byteLength]
  | @lexeme offset lexeme rest placed filled behind ih =>
      subst hoffset
      have hlength : Text.byteLength left + Text.byteLength lexeme.spelling.toList
          = Text.byteLength (left ++ lexeme.spelling.toList) :=
        (Text.byteLength_append _ _).symm
      rw [← List.append_assoc] at hsource
      refine List.isChain_cons.mpr ⟨?_, ih hsource hlength⟩
      intro next hnext
      obtain ⟨gap, others, rfl, blanks, hstart⟩ := behind.exists_gap hnext
      refine ⟨gap, ?_, blanks, hstart⟩
      rw [hsource, hstart, hlength]
      exact Call.text?_stretch _ gap others

end Laid

------------------------------------------------------------
-- Words are read to their end

/-- Two lexemes do not touch if both are words. -/
def Apart (found next : Placed) : Prop :=
  ∀ first second,
    found.lexeme = .word first
    → next.lexeme = .word second
    → found.span.stop < next.span.start

/-- A word that is finished stays apart from what follows if no word starts where it stops. -/
theorem Pending.apart_finish (pending : Pending) {offset : Nat} {placed : List Placed}
    (behind : placed.IsChain Apart)
    (notHere : ∀ next ∈ placed.head?, ∀ text,
      next.lexeme = .word text → offset < next.span.start)
    : (pending.finish offset ++ placed).IsChain Apart := by
  cases pending with
  | none => exact behind
  | some word =>
      refine List.isChain_cons.mpr ⟨?_, behind⟩
      intro next hnext first second _ hsecond
      exact notHere next hnext second hsecond

/-- A mark stays apart from everything, and no word starts with one. -/
theorem Pending.apart_finish_mark (pending : Pending) {offset : Nat} {mark : Placed}
    {placed : List Placed} (notWord : ∀ text, mark.lexeme ≠ .word text)
    (behind : placed.IsChain Apart)
    : (pending.finish offset ++ mark :: placed).IsChain Apart := by
  apply pending.apart_finish
  · refine List.isChain_cons.mpr ⟨?_, behind⟩
    intro next _ first _ hfirst
    exact absurd hfirst (notWord first)
  · intro next hnext text htext
    obtain rfl := Option.some.inj hnext
    exact absurd htext (notWord text)

/-- A scan reads words to their end, so that no two of them touch, by induction on the scan. -/
theorem apart_scan (offset : Nat) (pending : Pending) (cs : List Char)
    : (scan offset pending cs).IsChain Apart := by
  fun_induction scan offset pending cs with
  | case1 offset pending =>
      rw [← List.append_nil (pending.finish offset)]
      exact pending.apart_finish List.isChain_nil (by simp)
  | case2 offset pending rest ih => exact pending.apart_finish_mark (by simp) ih
  | case3 offset pending c rest hn hb ih =>
      apply pending.apart_finish ih
      intro next hnext _ _
      have hlaid : Laid (offset + c.utf8Size) rest (scan (offset + c.utf8Size) none rest) :=
        laid_scan none rest trivial
      have hstart := hlaid.le_start (List.mem_of_mem_head? hnext)
      have hpos : 0 < c.utf8Size := c.utf8Size_pos
      exact Nat.lt_of_lt_of_le (Nat.lt_add_of_pos_right hpos) hstart
  | case4 offset pending c rest hn hb lexeme hm ih =>
      apply pending.apart_finish_mark _ ih
      rintro text rfl
      exact mark?_ne_word c text hm
  | case5 offset pending c rest hn hb hm ih => exact ih

/-- Lexemes that follow each other are separate. -/
theorem separate_lexemes (definition : String)
    : (lexemes definition).IsChain (Separate definition) := by
  have apart := List.isChain_iff_forall_rel_of_append_cons_cons.mp
    (apart_scan 0 none definition.toList)
  have gaps := List.isChain_iff_forall_rel_of_append_cons_cons.mp
    ((laid_lexemes definition).gaps (List.nil_append _).symm rfl)
  refine List.isChain_iff_forall_rel_of_append_cons_cons.mpr ?_
  intro found next before behind hsplit
  obtain ⟨gap, htext, blanks, hstart⟩ := gaps hsplit
  refine ⟨gap, htext, blanks, ?_⟩
  rintro first second hfirst hsecond rfl
  have hlt := apart hsplit first second hfirst hsecond
  rw [hstart] at hlt
  exact Nat.lt_irrefl _ hlt

------------------------------------------------------------
-- Definitions and lexemes

/-- The lexemes of a definition lose nothing of it but blanks. -/
theorem lossless_lexemes (definition : String) : Lossless definition (lexemes definition) := by
  have hlaid := laid_lexemes definition
  refine ⟨?_, fun _ => within_of_mem_lexemes, hlaid.ordered, ?_, ?_, worded_lexemes definition,
    separate_lexemes definition⟩
  · intro found hf
    obtain ⟨left, right, -, hstart, hstop⟩ := hlaid.exists_spelling hf
    have hpos := Text.byteLength_pos (hlaid.spelling_ne_nil hf)
    rw [Text.byteLength_append] at hstop
    omega
  · intro left c right hc notBlank
    simpa using hlaid.exists_covering hc notBlank
  · intro found hf
    obtain ⟨left, right, hsplit, hstart, hstop⟩ := hlaid.exists_spelling hf
    have hspan : found.span
        = ⟨Text.byteLength left,
            Text.byteLength left + Text.byteLength found.lexeme.spelling.toList⟩ := by
      rw [Nat.zero_add] at hstart hstop
      rw [← Text.byteLength_append, ← hstop, ← hstart]
    rw [hspan, Call.text_stretch (hsplit.trans (List.append_assoc left _ right)),
      String.ofList_toList]

/-- Lexing loses nothing but blanks and can be undone. The spans of a definition's lexemes are not
empty, lie within the definition on character boundaries, follow one another without overlap and
cover every character that is not blank; the text of each span is the spelling of its lexeme; every
word is a sequence of characters that a word can have; and between two lexemes in a row stands
nothing but blanks, at least one between two words. The spellings of any lexemes whose words are
such words, with a space between each two, have these lexemes and no others.
-/
theorem lexemes_lossless_and_invertible
    : (∀ definition, Lossless definition (lexemes definition))
      ∧ ∀ kinds, Worded kinds
        → (lexemes (String.intercalate " " (kinds.map Lexeme.spelling))).map Placed.lexeme
          = kinds := by
  refine ⟨lossless_lexemes, ?_⟩
  intro kinds worded
  rw [map_lexeme_lexemes]
  exact (spells_joined worded).scanned_eq

/-- Words of points, up to two in a row, beside the mark of three points, and a word of characters
of several bytes behind another mark.
-/
theorem lexemes_lossless_and_invertible_points
    : Worded [.word "a..", .ellipsis, .word "..", .openAngle, .word "é.–"]
      ∧ (lexemes "a.. ... .. < é.–").map Placed.lexeme
        = [.word "a..", .ellipsis, .word "..", .openAngle, .word "é.–"]
      ∧ Lossless "a.. ... .. < é.–" (lexemes "a.. ... .. < é.–") := by
  have worded : Worded [.word "a..", .ellipsis, .word "..", .openAngle, .word "é.–"] := by
    intro text member
    simp only [List.mem_cons, Lexeme.word.injEq, reduceCtorEq, List.not_mem_nil, or_false,
      false_or] at member
    rcases member with rfl | rfl | rfl
    all_goals exact ⟨by decide, by simp [Text.isBlank], by simp [mark?], by decide⟩
  exact ⟨worded, lexemes_lossless_and_invertible.2 _ worded, lexemes_lossless_and_invertible.1 _⟩

end CallGrammar.Definition

import CallGrammar.Proofs.Call.Padding
import Mathlib.Data.List.Induction

/-! Quotes that stay open. A call without tokens ends inside a quote. What stands before the quote
has tokens of its own, and whatever is put behind the call goes on with the quoted token, even if
the call ends with a backslash that escapes the first character put there.
-/

namespace CallGrammar.Call

variable {quotes : List Char} {quote : Char} {offset : Nat} {cursor : Cursor}
  {left inner more : List Glyph} {tokens : List Token}

------------------------------------------------------------
-- Where a quote was opened

/-- A quote behind some glyphs that have tokens, and behind it glyphs that do not close it. -/
structure Opening (quotes : List Char) (left : List Glyph) (quote : Char) (inner : List Glyph)
    (tokens : List Token) : Prop where
  before : Finds quotes 0 .between left tokens
  isQuote : isQuote quotes quote = true
  unclosed : .bare quote ∉ inner

namespace Opening

/-- Any other glyph leaves the quote open. -/
theorem snoc (h : Opening quotes left quote inner tokens) {g : Glyph} (hg : g ≠ .bare quote)
    : Opening quotes left quote (inner ++ [g]) tokens := by
  refine ⟨h.before, h.isQuote, ?_⟩
  intro hmem
  rcases List.mem_append.mp hmem with hinner | hlast
  · exact h.unclosed hinner
  · exact hg (List.mem_singleton.mp hlast).symm

end Opening

/-- A glyph behind which a quote is open was read inside it, or opened it. -/
theorem Cursor.read_eq_quoted {g : Glyph} {finished : List Token} {start : Nat} {value : String}
    (h : cursor.read quotes offset g = (finished, .quoted quote start value))
    : (g ≠ .bare quote ∧ finished = [] ∧ ∃ shorter, cursor = .quoted quote start shorter)
      ∨ (g = .bare quote ∧ isQuote quotes quote = true ∧ cursor.isQuoted = false
          ∧ finished = cursor.finishPlain offset ∧ start = offset) := by
  cases hq : cursor.isQuoted with
  | true =>
      obtain ⟨opened, place, shorter, rfl⟩ := exists_of_isQuoted hq
      left
      cases g with
      | escaped c =>
          cases h
          exact ⟨by simp, rfl, shorter, rfl⟩
      | bare c =>
          rw [read] at h
          split at h
          · cases h
          · rename_i hc
            cases h
            exact ⟨by simpa using hc, rfl, shorter, rfl⟩
  | false =>
      right
      have unquoted (text : String) : cursor.push offset text ≠ .quoted quote start value := by
        intro hpush
        have hkept := cursor.isQuoted_push offset text
        rw [hpush, hq] at hkept
        cases hkept
      cases g with
      | escaped c => exact absurd (congrArg Prod.snd h) (unquoted _)
      | bare c =>
          rw [read_bare hq] at h
          split at h
          · rename_i hc
            cases h
            exact ⟨rfl, hc, rfl, rfl, rfl⟩
          · split at h
            · cases h
            · exact absurd (congrArg Prod.snd h) (unquoted _)

/-- A quote that is open behind some glyphs was opened at one of them, by induction on the glyphs
from their end.
-/
theorem exists_opening {gs : List Glyph} {start : Nat} {value : String}
    (h : scan quotes 0 .between gs = (tokens, .quoted quote start value))
    : ∃ left inner,
        gs = left ++ .bare quote :: inner
        ∧ start = width left
        ∧ Opening quotes left quote inner tokens := by
  induction gs using List.reverseRecOn generalizing tokens value with
  | nil => cases h
  | append_singleton gs g ih =>
      obtain ⟨found, cursor, hscan⟩ : ∃ found cursor,
        scan quotes 0 .between gs = (found, cursor) := ⟨_, _, rfl⟩
      obtain ⟨finished, next, hread⟩ : ∃ finished next,
        cursor.read quotes (0 + width gs) g = (finished, next) := ⟨_, _, rfl⟩
      rw [scan_append, hscan] at h
      simp only [scan, hread, List.append_nil] at h
      cases h
      rcases Cursor.read_eq_quoted hread with
        ⟨hg, rfl, shorter, rfl⟩ | ⟨rfl, hquote, outside, rfl, rfl⟩
      · obtain ⟨left, inner, rfl, hstart, hopening⟩ := ih hscan
        refine ⟨left, inner ++ [g], by simp, hstart, ?_⟩
        rw [List.append_nil]
        exact hopening.snoc hg
      · refine ⟨gs, [], rfl, Nat.zero_add _, ?_, hquote, List.not_mem_nil⟩
        exact ⟨by rw [hscan]; exact outside, by rw [hscan]⟩

------------------------------------------------------------
-- Going on behind an open quote

namespace Opening

/-- Whatever is read behind an open quote, the tokens before the quote have been found. -/
theorem scan_eq (h : Opening quotes left quote inner tokens) (more : List Glyph)
    : scan quotes 0 .between (left ++ .bare quote :: more)
      = (tokens
            ++ (scan quotes (width left + quote.utf8Size) (.quoted quote (width left) "") more).1,
          (scan quotes (width left + quote.utf8Size) (.quoted quote (width left) "") more).2) := by
  rw [scan_append, scan, Cursor.read_bare h.before.outside, if_pos h.isQuote, h.before.tokens_eq,
    Nat.zero_add, List.append_assoc]
  rfl

/-- The token of an open quote ends behind everything that does not close the quote. -/
theorem exists_token (h : Opening quotes left quote inner tokens) {found : List Token}
    (hfound : Finds quotes 0 .between (left ++ .bare quote :: (inner ++ more)) found)
    : ∃ next others,
        found = tokens ++ next :: others
        ∧ next.span.start = width left
        ∧ width (left ++ .bare quote :: inner) < next.span.stop := by
  obtain ⟨outside, hall⟩ := hfound
  have hwidth : 0 + width (left ++ .bare quote :: (inner ++ more))
      = width left + quote.utf8Size + width (inner ++ more) := by
    rw [Nat.zero_add, width_append, width_cons, ← Nat.add_assoc]
    rfl
  rw [h.scan_eq] at outside
  rw [h.scan_eq, hwidth, List.append_assoc] at hall
  obtain ⟨between, rest, others, hsplit, -, htokens, -⟩ :=
    Cursor.continues_of_scan (.quoted quote (width left) "") _ _ outside
  have hle : width inner ≤ width between := by
    rcases List.append_eq_append_iff.mp hsplit with ⟨extra, rfl, -⟩ | ⟨extra, rfl, hextra⟩
    · rw [width_append]
      exact Nat.le_add_right _ _
    · cases extra with
      | nil => rw [List.append_nil]
      | cons g extra =>
          obtain ⟨rfl, -⟩ := List.cons.inj hextra
          exact absurd (List.mem_append_right _ List.mem_cons_self) h.unclosed
  refine ⟨_, others, hall.trans (congrArg _ htokens), rfl, ?_⟩
  have hpos : 0 < quote.utf8Size := quote.utf8Size_pos
  rw [width_append, width_cons, Glyph.size]
  dsimp only
  omega

/-- What is put behind a call in which a quote is open does not close the quote before it. -/
theorem exists_longer {cs : List Char} (h : Opening quotes left quote inner tokens)
    (hglyphs : glyphs quotes cs = left ++ .bare quote :: inner) (ds : List Char)
    : ∃ longer more,
        glyphs quotes (cs ++ ds) = left ++ .bare quote :: (longer ++ more)
        ∧ width inner ≤ width longer
        ∧ Opening quotes left quote longer tokens := by
  rcases glyphs_append cs ds with happend | ⟨init, c, rest, hlast, -, -, happend⟩
  · refine ⟨inner, glyphs quotes ds, ?_, Nat.le_refl _, h⟩
    rw [happend, hglyphs, List.append_assoc, List.cons_append]
  · rw [hglyphs] at hlast
    rcases List.eq_nil_or_concat' inner with rfl | ⟨short, last, rfl⟩
    · -- The quote itself stands last, and a backslash is none.
      obtain ⟨-, hbackslash⟩ := List.append_inj' hlast rfl
      obtain rfl := Glyph.bare.inj (List.cons.inj hbackslash).1
      exact absurd rfl (isQuote_iff.mp h.isQuote).1
    · -- The backslash at the end is read together with what follows it.
      rw [← List.cons_append, ← List.append_assoc] at hlast
      obtain ⟨rfl, hbackslash⟩ := List.append_inj' hlast rfl
      obtain rfl := (List.cons.inj hbackslash).1
      have hshort : Opening quotes left quote short tokens :=
        ⟨h.before, h.isQuote, fun hmem => h.unclosed (List.mem_append_left _ hmem)⟩
      refine ⟨short ++ [.escaped c], glyphs quotes rest, ?_, ?_, hshort.snoc nofun⟩
      · rw [happend]
        simp
      · rw [width_append, width_append]
        refine Nat.add_le_add_left ?_ _
        exact Nat.le_add_right 1 c.utf8Size

end Opening

------------------------------------------------------------
-- Calls

/-- A call without tokens ends inside a quote, which is what the fault mentions. -/
theorem exists_quoted_of_tokenize {raw : String} {fault : Fault}
    (h : tokenize quotes raw = .error fault)
    : ∃ tokens quote start value,
        scan quotes 0 .between (glyphs quotes raw.toList) = (tokens, .quoted quote start value)
        ∧ fault = .unterminatedQuote quote start := by
  rw [tokenize] at h
  split at h
  · rename_i tokens quote start value hscan
    cases h
    exact ⟨tokens, quote, start, value, hscan, rfl⟩
  · cases h

/-- Unterminated quotes are reported exactly: whatever characters quote, a call without tokens is at
fault for a quote that stands at the offset of the fault, the text before that quote has tokens of
its own, and whatever is put behind the call, a call that then has tokens has the same ones first,
and next a token that starts at the offset and ends behind the call.
-/
theorem unterminated_of_tokenize {raw : String} {fault : Fault}
    (h : tokenize quotes raw = .error fault)
    : ∃ quote before behind tokens,
        fault = .unterminatedQuote quote before.utf8ByteSize
        ∧ quote ∈ quotes
        ∧ quote ≠ '\\'
        ∧ raw = before ++ quote.toString ++ behind
        ∧ tokenize quotes before = .ok tokens
        ∧ ∀ more all,
            tokenize quotes (raw ++ more) = .ok all
            → ∃ next others,
                all = tokens ++ next :: others
                ∧ next.span.start = before.utf8ByteSize
                ∧ raw.utf8ByteSize < next.span.stop := by
  obtain ⟨tokens, quote, start, value, hscan, rfl⟩ := exists_quoted_of_tokenize h
  obtain ⟨left, inner, hglyphs, rfl, hopening⟩ := exists_opening hscan
  obtain ⟨other, member⟩ := isQuote_iff.mp hopening.isQuote
  have hstart : (String.ofList (sources left)).utf8ByteSize = width left := utf8ByteSize_ofList _
  have canonical : Canonical quotes left := by
    have hwhole := Canonical.glyphs quotes raw.toList
    rw [hglyphs, ← List.nil_append left] at hwhole
    exact hwhole.stretch
  refine ⟨quote, .ofList (sources left), .ofList (sources inner), tokens, ?_, member, other, ?_,
    ?_, ?_⟩
  · rw [hstart]
  · rw [← String.toList_inj, ← sources_glyphs quotes raw.toList, hglyphs]
    simp [Glyph.source]
  · rw [tokenize_eq_ok_iff_finds, String.toList_ofList, canonical.glyphs_sources]
    exact hopening.before
  · intro more all hall
    rw [tokenize_eq_ok_iff_finds, String.toList_append] at hall
    obtain ⟨longer, rest, hlonger, hwidth, hstill⟩ := hopening.exists_longer hglyphs more.toList
    rw [hlonger] at hall
    obtain ⟨next, others, hnext, hfirst, hstop⟩ := hstill.exists_token hall
    refine ⟨next, others, hnext, hfirst.trans hstart.symm, Nat.lt_of_le_of_lt ?_ hstop⟩
    rw [← width_glyphs quotes raw, hglyphs, width_append, width_append, width_cons, width_cons]
    omega

/-- A closed token with another quote in it and a plain one that touches it before the open quote,
and a backslash at the end, which keeps the first character put behind it from closing the quote.
-/
theorem unterminated_of_tokenize_backslash
    : tokenize standardQuotes "é 'x\"'y'b\\" = .error (.unterminatedQuote '\'' 8)
      ∧ ∃ before tokens,
          before.utf8ByteSize = 8
          ∧ tokenize standardQuotes before = .ok tokens
          ∧ ∃ next others,
              [⟨"é", ⟨0, 2⟩⟩, ⟨"x\"", ⟨3, 7⟩⟩, ⟨"y", ⟨7, 8⟩⟩, ⟨"b' c", ⟨8, 15⟩⟩]
                = tokens ++ next :: others
              ∧ next.span.start = 8
              ∧ 11 < next.span.stop := by
  have h : tokenize standardQuotes "é 'x\"'y'b\\" = .error (.unterminatedQuote '\'' 8) := by
    decide
  have hclosed : tokenize standardQuotes ("é 'x\"'y'b\\" ++ "' c'")
      = .ok [⟨"é", ⟨0, 2⟩⟩, ⟨"x\"", ⟨3, 7⟩⟩, ⟨"y", ⟨7, 8⟩⟩, ⟨"b' c", ⟨8, 15⟩⟩] := by
    decide
  obtain ⟨quote, before, behind, tokens, hfault, -, -, -, hbefore, hmore⟩ :=
    unterminated_of_tokenize h
  have hsize : 8 = before.utf8ByteSize := (Fault.unterminatedQuote.inj hfault).2
  obtain ⟨next, others, hall, hstart, hstop⟩ := hmore _ _ hclosed
  exact ⟨h, before, tokens, hsize.symm, hbefore, next, others, hall, hsize ▸ hstart, hstop⟩

end CallGrammar.Call

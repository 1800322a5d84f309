import CallGrammar.Proofs.Call.Cutting
import CallGrammar.Proofs.Definition.Scanning

/-! Where the lexemes of a definition stand. A definition is laid out as blanks and the spellings of
its lexemes, one behind the other, and the span of a lexeme tells where its spelling stands.
-/

namespace CallGrammar.Definition

/-- The characters from an offset on are blanks and the spellings of the lexemes in their order,
each of them at its span.
-/
inductive Laid : Nat → List Char → List Placed → Prop
  | done {offset : Nat} : Laid offset [] []
  | blank {offset : Nat} {c : Char} {rest : List Char} {placed : List Placed}
    (isBlank : Text.isBlank c = true) (behind : Laid (offset + c.utf8Size) rest placed)
    : Laid offset (c :: rest) placed
  | lexeme {offset : Nat} {lexeme : Lexeme} {rest : List Char} {placed : List Placed}
    (filled : lexeme.spelling.toList ≠ [])
    (behind : Laid (offset + Text.byteLength lexeme.spelling.toList) rest placed)
    : Laid offset (lexeme.spelling.toList ++ rest)
        (⟨lexeme, ⟨offset, offset + Text.byteLength lexeme.spelling.toList⟩⟩ :: placed)

------------------------------------------------------------
-- Scans lay out what they read

theorem spelling_of_mark {c : Char} {lexeme : Lexeme} (hm : mark? c = some lexeme)
    : lexeme.spelling.toList = [c] := by
  unfold mark? at hm
  repeat' split at hm
  all_goals first | (subst c; cases hm; rfl) | cases hm

namespace Pending

/-- Where the word under way started, or would start. -/
def start (offset : Nat) : Pending → Nat
  | some (start, _) => start
  | none => offset

/-- What was read of the word under way. -/
def read : Pending → List Char
  | some (_, text) => text.toList
  | none => []

/-- A word under way has a character and ends at the offset. -/
def EndsAt (offset : Nat) : Pending → Prop
  | some (start, text) => text.toList ≠ [] ∧ offset = start + Text.byteLength text.toList
  | none => True

variable {offset : Nat} {pending : Pending}

/-- A word is laid out where it is finished. -/
theorem laid_finish (ends : pending.EndsAt offset) {cs : List Char} {placed : List Placed}
    (behind : Laid offset cs placed)
    : Laid (pending.start offset) (pending.read ++ cs) (pending.finish offset ++ placed) := by
  cases pending with
  | none => exact behind
  | some word =>
      obtain ⟨start, text⟩ := word
      obtain ⟨filled, rfl⟩ := ends
      have hword : (Lexeme.word text).spelling.toList = text.toList := rfl
      rw [← hword] at filled behind
      exact .lexeme filled behind

/-- One more character keeps the start of a word. -/
theorem start_push (c : Char)
    : (pending.push offset c).start (offset + c.utf8Size) = pending.start offset := by
  cases pending <;> rfl

theorem read_push (c : Char) : (pending.push offset c).read = pending.read ++ [c] := by
  cases pending <;> simp [push, read]

theorem endsAt_push (ends : pending.EndsAt offset) (c : Char)
    : (pending.push offset c).EndsAt (offset + c.utf8Size) := by
  cases pending with
  | none => simp [push, EndsAt, Text.byteLength]
  | some word =>
      obtain ⟨start, text⟩ := word
      obtain ⟨-, rfl⟩ := ends
      simp [push, EndsAt, Text.byteLength_append, Text.byteLength, Nat.add_assoc]

end Pending

/-- A scan lays out the word under way and everything behind it, by induction on the scan. -/
theorem laid_scan {offset : Nat} (pending : Pending) (cs : List Char)
    (ends : pending.EndsAt offset)
    : Laid (pending.start offset) (pending.read ++ cs) (scan offset pending cs) := by
  fun_induction scan offset pending cs with
  | case1 offset pending =>
      have h := Pending.laid_finish ends Laid.done
      simpa only [List.append_nil] using h
  | case2 offset pending rest ih =>
      have hlexeme : Laid offset (Lexeme.ellipsis.spelling.toList ++ rest) _ :=
        .lexeme (by decide) (ih trivial)
      exact Pending.laid_finish ends hlexeme
  | case3 offset pending c rest hn hb ih =>
      exact Pending.laid_finish ends (.blank hb (ih trivial))
  | case4 offset pending c rest hn hb lexeme hm ih =>
      have hspelling := spelling_of_mark hm
      have hbehind : Laid (offset + Text.byteLength lexeme.spelling.toList) rest
          (scan (offset + c.utf8Size) none rest) := by
        rw [hspelling]
        exact ih trivial
      have hlexeme := Laid.lexeme (by simp [hspelling]) hbehind
      rw [hspelling] at hlexeme
      exact Pending.laid_finish ends hlexeme
  | case5 offset pending c rest hn hb hm ih =>
      have h := ih (Pending.endsAt_push ends c)
      rwa [Pending.start_push, Pending.read_push, List.append_assoc] at h

/-- A definition is laid out as its lexemes. -/
theorem laid_lexemes (definition : String)
    : Laid 0 definition.toList (lexemes definition) :=
  laid_scan none definition.toList trivial

------------------------------------------------------------
-- Spans of what is laid out

namespace Laid

variable {offset : Nat} {cs : List Char} {placed : List Placed}

/-- Every lexeme stands where its span tells, with other text before and behind it. -/
theorem exists_spelling (h : Laid offset cs placed) {found : Placed} (hf : found ∈ placed)
    : ∃ left right,
        cs = left ++ found.lexeme.spelling.toList ++ right
        ∧ found.span.start = offset + Text.byteLength left
        ∧ found.span.stop
          = offset + Text.byteLength (left ++ found.lexeme.spelling.toList) := by
  induction h with
  | done => exact absurd hf List.not_mem_nil
  | @blank offset c rest placed isBlank behind ih =>
      obtain ⟨left, right, rfl, hstart, hstop⟩ := ih hf
      refine ⟨c :: left, right, rfl, ?_, ?_⟩
      · rw [hstart, Text.byteLength, Nat.add_assoc]
      · rw [hstop, List.cons_append, Text.byteLength, Nat.add_assoc]
  | @lexeme offset lexeme rest placed filled behind ih =>
      rcases List.mem_cons.mp hf with rfl | hmem
      · exact ⟨[], rest, rfl, rfl, rfl⟩
      · obtain ⟨left, right, rfl, hstart, hstop⟩ := ih hmem
        refine ⟨lexeme.spelling.toList ++ left, right, by simp, ?_, ?_⟩
        · rw [hstart, Text.byteLength_append, Nat.add_assoc]
        · rw [hstop, List.append_assoc, Text.byteLength_append lexeme.spelling.toList,
            Nat.add_assoc]

theorem le_start (h : Laid offset cs placed) {found : Placed} (hf : found ∈ placed)
    : offset ≤ found.span.start := by
  obtain ⟨left, -, -, hstart, -⟩ := h.exists_spelling hf
  omega

/-- Every lexeme stands behind the ones before it. -/
theorem ordered (h : Laid offset cs placed)
    : placed.Pairwise fun found later => found.span.stop ≤ later.span.start := by
  induction h with
  | done => exact List.Pairwise.nil
  | blank isBlank behind ih => exact ih
  | lexeme filled behind ih => exact List.Pairwise.cons (fun later hl => behind.le_start hl) ih

end Laid

end CallGrammar.Definition

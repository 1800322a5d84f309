import CallGrammar.Text.Wrap
import Mathlib.Data.List.Chain

/-! Runs: the stretches of a text without spaces and line feeds. A line is cut into words that hold
one run each, and words with something between them give their runs back when they are put together
again.
-/

namespace CallGrammar.Text

------------------------------------------------------------
-- Runs of a text

/-- A space or a line feed. -/
def isGap (c : Char) : Bool :=
  c = ' ' || c = '\n'

/-- The runs of a text: line by line, the longest stretches of characters that are not spaces. -/
def runs (cs : List Char) : List (List Char) :=
  (cs.splitOnP isGap).filter fun run => !run.isEmpty

example : runs "go  [--count\n<n: int>] ".toList
    = ["go".toList, "[--count".toList, "<n:".toList, "int>]".toList] := by
  decide

@[simp]
theorem runs_nil : runs [] = [] := rfl

/-- No run reaches over a gap. -/
theorem runs_append_gap {c : Char} (gap : isGap c = true) (left right : List Char)
    : runs (left ++ c :: right) = runs left ++ runs right := by
  rw [runs, List.splitOnP_append_cons left right gap, List.filter_append]
  rfl

/-- Characters without a gap are one run, or none if there are no characters. -/
theorem runs_of_solid {cs : List Char} (solid : ∀ c ∈ cs, isGap c = false)
    : runs cs = [cs].filter fun run => !run.isEmpty := by
  rw [runs, List.splitOnP_eq_singleton solid]

/-- Spaces in front of a text belong to no run, by induction on their number. -/
theorem runs_spaces_append (count : Nat) (cs : List Char)
    : runs (List.replicate count ' ' ++ cs) = runs cs := by
  induction count with
  | zero => rfl
  | succ count ih =>
      rw [List.replicate_succ, List.cons_append]
      exact (runs_append_gap (c := ' ') rfl [] _).trans ih

/-- Spaces behind a text belong to no run. -/
theorem runs_append_spaces (cs : List Char) (count : Nat)
    : runs (cs ++ List.replicate count ' ') = runs cs := by
  cases count with
  | zero => rw [List.replicate_zero, List.append_nil]
  | succ count =>
      have none : runs (List.replicate count ' ') = [] := by
        simpa using runs_spaces_append count []
      rw [List.replicate_succ, runs_append_gap (c := ' ') rfl, none, List.append_nil]

theorem filled_of_mem_runs {run cs : List Char} (member : run ∈ runs cs) : run ≠ [] := by
  simpa using (List.mem_filter.mp member).2

------------------------------------------------------------
-- Lines of a text

/-- A text is its lines with a line feed before each but the first, and no line holds one, by list
induction.
-/
theorem exists_cutLines (cs : List Char)
    : ∃ line lines,
        cutLines cs = line :: lines
        ∧ cs = line ++ lines.flatMap ('\n' :: ·)
        ∧ ∀ other ∈ line :: lines, '\n' ∉ other := by
  induction cs with
  | nil => exact ⟨[], [], rfl, rfl, by simp⟩
  | cons c rest ih =>
      obtain ⟨line, lines, cut, joined, unbroken⟩ := ih
      by_cases feed : c = '\n'
      · refine ⟨[], line :: lines, ?_, ?_, ?_⟩
        · rw [cutLines, cut]
          exact if_pos feed
        · rw [feed, joined]
          rfl
        · exact List.forall_mem_cons.mpr ⟨List.not_mem_nil, unbroken⟩
      · obtain ⟨first, others⟩ := List.forall_mem_cons.mp unbroken
        refine ⟨c :: line, lines, ?_, ?_, ?_⟩
        · rw [cutLines, cut]
          exact if_neg feed
        · rw [joined]
          rfl
        · refine List.forall_mem_cons.mpr ⟨fun member => ?_, others⟩
          rcases List.mem_cons.mp member with same | inside
          · exact feed same.symm
          · exact first inside

theorem newline_notMem_of_mem_cutLines {line cs : List Char} (member : line ∈ cutLines cs)
    : '\n' ∉ line := by
  obtain ⟨first, lines, cut, -, unbroken⟩ := exists_cutLines cs
  exact unbroken line (cut ▸ member)

/-- The runs of a text are those of its lines, by induction on the lines. -/
theorem flatMap_runs_cutLines (cs : List Char) : (cutLines cs).flatMap runs = runs cs := by
  obtain ⟨line, lines, cut, rfl, -⟩ := exists_cutLines cs
  rw [cut]
  clear cut
  induction lines generalizing line with
  | nil => simp
  | cons next lines ih =>
      rw [List.flatMap_cons, ih next, List.flatMap_cons, List.cons_append,
        runs_append_gap (c := '\n') rfl]

------------------------------------------------------------
-- Words of a line

/-- A word with its spaces. -/
def Word.written (word : Word) : List Char :=
  word.text ++ List.replicate word.spaces ' '

/-- The runs that words hold. -/
def heldRuns (words : List Word) : List (List Char) :=
  (words.map Word.text).filter fun run => !run.isEmpty

theorem heldRuns_append (left right : List Word)
    : heldRuns (left ++ right) = heldRuns left ++ heldRuns right := by
  rw [heldRuns, List.map_append, List.filter_append]
  rfl

theorem heldRuns_flatten (lines : List (List Word))
    : heldRuns lines.flatten = lines.flatMap heldRuns := by
  rw [heldRuns, List.map_flatten, List.filter_flatten, List.map_map]
  rfl

/-- A word that does not touch what follows it: it has spaces, or no characters. -/
def Word.Detached (word _next : Word) : Prop :=
  0 < word.spaces ∨ word.text = []

/-- Detached words without gaps inside have the runs that they hold, by list induction. -/
theorem runs_flatMap_written {words : List Word}
    (solid : ∀ word ∈ words, ∀ c ∈ word.text, isGap c = false)
    (detached : words.IsChain Word.Detached)
    : runs (words.flatMap Word.written) = heldRuns words := by
  induction words with
  | nil => rfl
  | cons word rest ih =>
      obtain ⟨first, others⟩ := List.forall_mem_cons.mp solid
      have behind := ih others detached.tail
      have own : runs word.text = heldRuns [word] := runs_of_solid first
      rw [List.flatMap_cons, Word.written, ← List.singleton_append, heldRuns_append, ← behind,
        ← own]
      cases rest with
      | nil => simp [runs_append_spaces]
      | cons next others =>
          rcases (List.isChain_cons_cons.mp detached).1 with spaced | empty
          · obtain ⟨count, enough⟩ := Nat.exists_eq_add_of_lt spaced
            rw [enough, Nat.zero_add, List.replicate_succ, List.append_assoc, List.cons_append,
              runs_append_gap (c := ' ') rfl, runs_spaces_append]
          · rw [empty, List.nil_append, runs_spaces_append, runs_nil, List.nil_append]

/-- What the words of a line give when it is written without the last spaces, by list induction. -/
theorem runs_lineText (words : List Word)
    : runs (lineText words) = runs (words.flatMap Word.written) := by
  have written : ∃ count,
      words.flatMap Word.written = lineText words ++ List.replicate count ' ' := by
    fun_induction lineText words with
    | case1 => exact ⟨0, rfl⟩
    | case2 word => exact ⟨word.spaces, by simp [Word.written]⟩
    | case3 word rest _ ih =>
        obtain ⟨count, joined⟩ := ih
        exact ⟨count, by simp [Word.written, joined]⟩
  obtain ⟨count, joined⟩ := written
  rw [joined, runs_append_spaces]

/-- A line in parts, each of some characters with a number of spaces behind them: the characters are
no spaces, and all parts but the last one have spaces.
-/
structure CutAtSpaces (line : List Char) (parts : List (List Char × Nat)) : Prop where
  joined : parts.flatMap (fun part => part.1 ++ List.replicate part.2 ' ') = line
  spaced : parts.IsChain fun part _ => 0 < part.2
  spaceless : ∀ part ∈ parts, ' ' ∉ part.1

/-- A character in front of a line extends its first part or makes a part of its own, by cases on
the parts.
-/
theorem CutAtSpaces.cons {line : List Char} {parts : List (List Char × Nat)}
    (cut : CutAtSpaces line parts) (c : Char)
    : CutAtSpaces (c :: line) (consWord c parts) := by
  obtain ⟨rfl, spaced, spaceless⟩ := cut
  fun_cases consWord c parts with
  | case1 space => exact ⟨by simp [space], .singleton _, by simp⟩
  | case2 other => exact ⟨by simp, .singleton _, by simpa using Ne.symm other⟩
  | case3 text spaces rest space empty =>
      obtain rfl : text = [] := List.isEmpty_iff.mp empty
      refine ⟨?_, ?_, ?_⟩
      · simp [space, List.replicate_succ]
      · exact spaced.tail.cons fun _ _ => spaces.succ_pos
      · exact List.forall_mem_cons.mpr ⟨by simp, (List.forall_mem_cons.mp spaceless).2⟩
  | case4 text spaces rest space filled =>
      refine ⟨?_, ?_, ?_⟩
      · simp [space]
      · exact spaced.cons fun _ _ => Nat.one_pos
      · exact List.forall_mem_cons.mpr ⟨by simp, spaceless⟩
  | case5 text spaces rest other =>
      obtain ⟨first, others⟩ := List.forall_mem_cons.mp spaceless
      refine ⟨?_, ?_, ?_⟩
      · simp
      · exact List.isChain_cons.mpr (List.isChain_cons.mp spaced)
      · refine List.forall_mem_cons.mpr ⟨fun member => ?_, others⟩
        rcases List.mem_cons.mp member with same | inside
        · exact other same.symm
        · exact first inside

theorem cutAtSpaces_foldr (line : List Char) : CutAtSpaces line (line.foldr consWord []) := by
  induction line with
  | nil => exact ⟨rfl, .nil, by simp⟩
  | cons c rest ih => exact ih.cons c

theorem flatMap_written_cutWords (line : List Char)
    : (cutWords line).flatMap Word.written = line := by
  rw [cutWords, List.flatMap_map]
  exact (cutAtSpaces_foldr line).joined

/-- All words of a line but the last one have spaces. -/
theorem isChain_spaced_cutWords (line : List Char)
    : (cutWords line).IsChain fun word _ => 0 < word.spaces :=
  (List.isChain_map _).mpr (cutAtSpaces_foldr line).spaced

theorem width_of_mem_cutWords {word : Word} {line : List Char} (member : word ∈ cutWords line)
    : word.width = width word.text := by
  obtain ⟨part, -, rfl⟩ := List.mem_map.mp member
  rfl

/-- The words of a line without line feeds hold no gaps. -/
theorem solid_of_mem_cutWords {word : Word} {line : List Char} (unbroken : '\n' ∉ line)
    (member : word ∈ cutWords line)
    : ∀ c ∈ word.text, isGap c = false := by
  intro c inside
  have spaceless : ' ' ∉ word.text := by
    obtain ⟨part, found, rfl⟩ := List.mem_map.mp member
    exact (cutAtSpaces_foldr line).spaceless part found
  have within : c ∈ line := by
    rw [← flatMap_written_cutWords line, List.mem_flatMap]
    exact ⟨word, member, List.mem_append_left _ inside⟩
  have noSpace : c ≠ ' ' := fun same => spaceless (same ▸ inside)
  have noFeed : c ≠ '\n' := fun same => unbroken (same ▸ within)
  simp [isGap, noSpace, noFeed]

/-- The runs of a line are those that its words hold. -/
theorem heldRuns_cutWords {line : List Char} (unbroken : '\n' ∉ line)
    : heldRuns (cutWords line) = runs line := by
  have detached : (cutWords line).IsChain Word.Detached :=
    (isChain_spaced_cutWords line).imp fun _ _ spaced => .inl spaced
  rw [← runs_flatMap_written (fun _ => solid_of_mem_cutWords unbroken) detached,
    flatMap_written_cutWords]

end CallGrammar.Text

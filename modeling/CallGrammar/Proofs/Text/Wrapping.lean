import CallGrammar.Proofs.Call.Cutting
import CallGrammar.Proofs.Text.Breaking
import CallGrammar.Proofs.Text.Runs

/-! Wrapping keeps the runs of a text in order, and keeps each of them whole where it fits. Lines
end between words, or inside a word before a character that oversteps the room.
-/

namespace CallGrammar.Text

------------------------------------------------------------
-- Filling lines

/-- A word does not touch the next one, or both are too wide for one line. -/
def Word.Apart (limit : Nat) (word next : Word) : Prop :=
  word.Detached next ∨ limit < word.width + next.width

/-- All words are on a line, in order, by induction on the filling. -/
theorem flatten_fillLines (limit : Nat) (line : List Word) (used : Nat) (words : List Word)
    : (fillLines limit line used words).flatten = line ++ words := by
  fun_induction fillLines limit line used words with
  | case1 line used => simp
  | case2 line used word rest full ih => simp [ih]
  | case3 line used word rest room ih => simp [ih]

/-- Words on one line do not touch, by induction on the filling: where the last word on the line
touches the next one, the two do not fit together.
-/
theorem isChain_detached_of_mem_fillLines {limit used : Nat} {line words : List Word}
    (detached : line.IsChain Word.Detached)
    (counted : ∀ last ∈ line.getLast?, last.width ≤ used)
    (apart : (line ++ words).IsChain (Word.Apart limit))
    : ∀ filled ∈ fillLines limit line used words, filled.IsChain Word.Detached := by
  fun_induction fillLines limit line used words with
  | case1 line used => simpa using detached
  | case2 line used word rest full ih =>
      refine List.forall_mem_cons.mpr ⟨detached, ih (.singleton word) ?_ ?_⟩
      · simp
      · exact apart.right_of_append
  | case3 line used word rest room ih =>
      have touching : ∀ last ∈ line.getLast?, last.Detached word := by
        intro last final
        have near : last.Apart limit word := (List.isChain_append.mp apart).2.2 last final word rfl
        have wide := counted last final
        have some : line ≠ [] := by
          rintro rfl
          cases final
        refine near.resolve_right fun full => ?_
        simp [some] at room
        omega
      refine ih ?_ ?_ ?_
      · exact detached.append (.singleton word) (by simpa using touching)
      · simp only [List.getLast?_append, List.getLast?_singleton, Option.some_or,
          Option.mem_some_iff, forall_eq']
        omega
      · simpa using apart

/-- The runs of filled lines are those that the words hold. -/
theorem flatMap_runs_fillLines {limit : Nat} {words : List Word}
    (solid : ∀ word ∈ words, ∀ c ∈ word.text, isGap c = false)
    (apart : words.IsChain (Word.Apart limit))
    : (fillLines limit [] 0 words).flatMap (fun line => runs (lineText line)) = heldRuns words := by
  have all : (fillLines limit [] 0 words).flatten = words := flatten_fillLines limit [] 0 words
  have detached : ∀ line ∈ fillLines limit [] 0 words, line.IsChain Word.Detached :=
    isChain_detached_of_mem_fillLines .nil (by simp) apart
  have held : ∀ line ∈ fillLines limit [] 0 words, runs (lineText line) = heldRuns line := by
    intro line member
    rw [runs_lineText]
    refine runs_flatMap_written (fun word inside => solid word ?_) (detached line member)
    rw [← all]
    exact List.mem_flatten_of_mem member inside
  rw [List.flatMap_congr held, ← heldRuns_flatten, all]

------------------------------------------------------------
-- Words that are broken where needed

theorem isChain_apart_fitted (limit : Nat) {word : Word} (measured : word.width = width word.text)
    : (word.fitted limit).IsChain (Word.Apart limit) := by
  by_cases empty : word.text = []
  · rw [fitted_of_empty limit empty measured]
    exact .singleton word
  · exact (broken_fitted limit empty measured).isChain.imp fun _ _ wide => .inr wide

theorem spaces_of_getLast_fitted (limit : Nat) {word : Word}
    (measured : word.width = width word.text)
    : ∀ last ∈ (word.fitted limit).getLast?, last.spaces = word.spaces := by
  by_cases empty : word.text = []
  · rw [fitted_of_empty limit empty measured]
    simp
  · exact (broken_fitted limit empty measured).spaces_of_getLast

/-- Spaced words stay apart when they are broken. -/
theorem isChain_apart_flatMap_fitted (limit : Nat) {words : List Word}
    (measured : ∀ word ∈ words, word.width = width word.text)
    (spaced : words.IsChain fun word _ => 0 < word.spaces)
    : (words.flatMap (Word.fitted limit)).IsChain (Word.Apart limit) := by
  induction words with
  | nil => exact .nil
  | cons word rest ih =>
      obtain ⟨first, others⟩ := List.forall_mem_cons.mp measured
      rw [List.flatMap_cons]
      refine (isChain_apart_fitted limit first).append (ih others spaced.tail) ?_
      intro last final next head
      have same := spaces_of_getLast_fitted limit first last final
      cases rest with
      | nil => cases head
      | cons second more =>
          have enough : 0 < word.spaces := (List.isChain_cons_cons.mp spaced).1
          exact .inl (.inl (same ▸ enough))

/-- Words that are broken hold the pieces of their runs, by list induction. -/
theorem heldRuns_flatMap_fitted (limit : Nat) {words : List Word}
    (measured : ∀ word ∈ words, word.width = width word.text)
    : heldRuns (words.flatMap (Word.fitted limit)) = (heldRuns words).flatMap (pieces limit) := by
  induction words with
  | nil => rfl
  | cons word rest ih =>
      obtain ⟨first, others⟩ := List.forall_mem_cons.mp measured
      have own : heldRuns (word.fitted limit) = (heldRuns [word]).flatMap (pieces limit) := by
        by_cases empty : word.text = []
        · simp [fitted_of_empty limit empty first, heldRuns, empty]
        · have held : heldRuns [word] = [word.text] := by simp [heldRuns, empty]
          rw [held, List.flatMap_singleton, heldRuns, map_text_fitted limit first,
            List.filter_eq_self]
          intro piece member
          simpa using filled_of_mem_pieces empty member
      rw [List.flatMap_cons, heldRuns_append, own, ih others, ← List.flatMap_append,
        ← heldRuns_append, List.singleton_append]

------------------------------------------------------------
-- Wrapping

/-- The spaces at the end of a line belong to no run. -/
theorem runs_dropTrailingSpaces (line : List Char)
    : runs (dropTrailingSpaces line) = runs line := by
  let trailing := line.reverse.takeWhile (· = ' ')
  have only : ∀ c ∈ trailing, c = ' ' := by
    simpa using List.all_eq_true.mp (List.all_takeWhile (l := line.reverse) (p := (· = ' ')))
  have spaces : trailing.reverse = List.replicate trailing.length ' ' := by
    rw [List.eq_replicate_iff.mpr ⟨rfl, only⟩, List.reverse_replicate, List.length_replicate]
  have joined : dropTrailingSpaces line ++ trailing.reverse = line := by
    rw [dropTrailingSpaces, ← List.reverse_append, List.takeWhile_append_dropWhile,
      List.reverse_reverse]
  rw [← runs_append_spaces _ trailing.length, ← spaces, joined]

/-- The characters of a broken word are those of the word. -/
theorem mem_text_of_mem_fitted {limit : Nat} {word part : Word}
    (measured : word.width = width word.text) (member : part ∈ word.fitted limit) {c : Char}
    (inside : c ∈ part.text)
    : c ∈ word.text := by
  by_cases empty : word.text = []
  · rw [fitted_of_empty limit empty measured] at member
    exact List.mem_singleton.mp member ▸ inside
  · have joined := (broken_fitted limit empty measured).flatten_map_text
    rw [List.nil_append] at joined
    rw [← joined]
    exact List.mem_flatten_of_mem (List.mem_map_of_mem member) inside

/-- A run of a line takes no more bytes than the line. -/
theorem byteLength_le_of_mem_runs {run line : List Char} (unbroken : '\n' ∉ line)
    (member : run ∈ runs line)
    : byteLength run ≤ byteLength line := by
  rw [← heldRuns_cutWords unbroken] at member
  obtain ⟨word, found, rfl⟩ := List.mem_map.mp (List.mem_filter.mp member).1
  obtain ⟨before, after, split⟩ := List.append_of_mem found
  rw [← flatMap_written_cutWords line, split, List.flatMap_append, List.flatMap_cons, Word.written]
  simp only [byteLength_append]
  omega

/-- An indent adds no runs to a line of words. -/
theorem runs_indented (indent : Nat) (line : List Word)
    : runs (if line.isEmpty then [] else List.replicate indent ' ' ++ lineText line)
      = runs (lineText line) := by
  cases line with
  | nil => rfl
  | cons word rest => exact runs_spaces_append indent _

/-- The runs of a wrapped line are the pieces of its runs. -/
theorem flatMap_runs_wrapLine (limit indent : Nat) {line : List Char} (unbroken : '\n' ∉ line)
    : (wrapLine limit indent line).flatMap (fun wrapped => runs wrapped.toList)
      = (runs line).flatMap (pieces (limit - indent)) := by
  fun_cases wrapLine limit indent line with
  | case1 short =>
      simp only [Bool.and_eq_true, decide_eq_true_eq, beq_iff_eq, Call.utf8ByteSize_ofList] at short
      obtain ⟨fewBytes, rfl⟩ := short
      have whole : ∀ run ∈ runs line, pieces (limit - 0) run = [run] := by
        intro run member
        have filled := filled_of_mem_runs member
        have narrow := width_le_byteLength run
        have inside := byteLength_le_of_mem_runs unbroken member
        exact (pieces_eq_singleton_iff filled).mpr (staysWithin_iff.mpr (.inl (by omega)))
      rw [List.flatMap_congr whole, List.flatMap_singleton, List.flatMap_singleton',
        String.toList_ofList, runs_dropTrailingSpaces]
  | case2 long room cut words =>
      have measured : ∀ word ∈ cutWords line, word.width = width word.text :=
        fun _ => width_of_mem_cutWords
      have solid : ∀ word ∈ cut, ∀ c ∈ word.text, isGap c = false := by
        intro word member c inside
        obtain ⟨source, found, part⟩ := List.mem_flatMap.mp member
        exact solid_of_mem_cutWords unbroken found c
          (mem_text_of_mem_fitted (measured source found) part inside)
      have apart : cut.IsChain (Word.Apart room) :=
        isChain_apart_flatMap_fitted room measured (isChain_spaced_cutWords line)
      have held : heldRuns cut = (runs line).flatMap (pieces room) := by
        rw [heldRuns_flatMap_fitted room measured, heldRuns_cutWords unbroken]
      have started : heldRuns words = heldRuns cut
          ∧ (∀ word ∈ words, ∀ c ∈ word.text, isGap c = false)
          ∧ words.IsChain (Word.Apart room) := by
        by_cases flush : indent == 0
        · have same : words = cut := if_pos flush
          exact ⟨congrArg heldRuns same, same ▸ solid, same ▸ apart⟩
        · have same : words = ⟨[], 0, 0⟩ :: cut := if_neg flush
          rw [same]
          refine ⟨rfl, List.forall_mem_cons.mpr ⟨by simp, solid⟩, ?_⟩
          exact apart.cons fun _ _ => .inl (.inr rfl)
      obtain ⟨same, solid, apart⟩ := started
      rw [List.flatMap_map]
      simp only [String.toList_ofList, runs_indented]
      rw [flatMap_runs_fillLines solid apart, same, held]

/-- A run is not broken when a text is wrapped: nothing is, or the run has room behind the indent,
or it has no place for a break.
-/
def StaysWhole (limit indent : Nat) (run : List Char) : Prop :=
  limit = 0 ∨ width run ≤ limit - indent ∨ ¬ Breakable run

/-- What becomes of a run when a text is wrapped. -/
def wrappedPieces (limit indent : Nat) (run : List Char) : List (List Char) :=
  if limit = 0 then [run] else pieces (limit - indent) run

/-- Wrapping a text breaks its runs into pieces and keeps their order. -/
theorem flatMap_runs_wrap (limit indent : Nat) (text : String)
    : (wrap limit indent text).flatMap (fun line => runs line.toList)
      = (runs text.toList).flatMap (wrappedPieces limit indent) := by
  by_cases unlimited : limit = 0
  · have kept : wrappedPieces limit indent = fun run => [run] :=
      funext fun _ => if_pos unlimited
    rw [wrap, if_pos unlimited, kept, List.flatMap_singleton, List.flatMap_singleton']
  · have broken : wrappedPieces limit indent = pieces (limit - indent) :=
      funext fun _ => if_neg unlimited
    rw [wrap, if_neg unlimited, List.flatMap_assoc, broken, ← flatMap_runs_cutLines,
      List.flatMap_assoc]
    refine List.flatMap_congr fun line member => ?_
    exact flatMap_runs_wrapLine limit indent (newline_notMem_of_mem_cutLines member)

theorem flatten_wrappedPieces (limit indent : Nat) {run : List Char} (filled : run ≠ [])
    : (wrappedPieces limit indent run).flatten = run := by
  rw [wrappedPieces]
  split
  · simp
  · exact flatten_pieces _ filled

theorem staysWhole_of_mem_wrappedPieces {limit indent : Nat} {run piece : List Char}
    (filled : run ≠ []) (member : piece ∈ wrappedPieces limit indent run)
    : StaysWhole limit indent piece := by
  rw [wrappedPieces] at member
  split at member
  · next unlimited => exact .inl unlimited
  · exact .inr (staysWithin_iff.mp (staysWithin_of_mem_pieces filled member))

theorem wrappedPieces_eq_singleton_iff {limit indent : Nat} {run : List Char} (filled : run ≠ [])
    : wrappedPieces limit indent run = [run] ↔ StaysWhole limit indent run := by
  rw [wrappedPieces, StaysWhole]
  split
  · next unlimited => simp [unlimited]
  · next limited => rw [pieces_eq_singleton_iff filled, staysWithin_iff, or_iff_right limited]

/-- A run of a text is a run of one of its lines exactly if it is not broken. -/
theorem exists_line_iff {limit indent : Nat} {text : String} {run : List Char}
    (member : run ∈ runs text.toList)
    : (∃ line ∈ wrap limit indent text, run ∈ runs line.toList)
      ↔ StaysWhole limit indent run := by
  rw [← List.mem_flatMap, flatMap_runs_wrap, List.mem_flatMap]
  constructor
  · rintro ⟨source, found, piece⟩
    exact staysWhole_of_mem_wrappedPieces (filled_of_mem_runs found) piece
  · intro whole
    have kept := (wrappedPieces_eq_singleton_iff (filled_of_mem_runs member)).mpr whole
    exact ⟨run, member, kept ▸ List.mem_singleton_self run⟩

end CallGrammar.Text

import CallGrammar.Dispatch.Command
import CallGrammar.Proofs.Text.Wrapping

/-! Usage help shows all of a command's pattern and description, run by run. A run is kept on one
line exactly where it fits in the columns behind the indent or cannot be broken.
-/

namespace CallGrammar.Command

variable {σ ρ : Type}

/-- The texts that the help for a command shows, each with its indent. -/
def helpTexts (command : Command σ ρ) (options : UsageOptions) : List (String × Nat) :=
  (command.pattern.render, 0)
    :: (command.description.map fun description => (description, options.indentWidth)).toList

theorem usageLines_eq_flatMap (command : Command σ ρ) (options : UsageOptions)
    : command.usageLines options
      = (command.helpTexts options).flatMap
          (fun (text, indent) => Text.wrap options.maxWidth indent text) := by
  rw [usageLines, helpTexts]
  cases command.description <;> simp

/-- Usage help keeps the runs of the pattern and of the description in order, and breaks no run that
fits. The runs of the lines are the pieces of the runs of the texts, and the pieces of a run put
together are the run. A run of a text is a run of one of the text's lines, all of which are lines of
the help, if and only if lines have no limit, or the run is not wider than the columns behind the
indent, or it has no place for a break.
-/
theorem usageLines_keeps_runs (command : Command σ ρ) (options : UsageOptions)
    : (command.usageLines options).flatMap (fun line => Text.runs line.toList)
        = (command.helpTexts options).flatMap
            (fun (text, indent) =>
              (Text.runs text.toList).flatMap (Text.wrappedPieces options.maxWidth indent))
      ∧ ∀ text indent,
          (text, indent) ∈ command.helpTexts options
          → (∀ line ∈ Text.wrap options.maxWidth indent text, line ∈ command.usageLines options)
            ∧ ∀ run ∈ Text.runs text.toList,
                (Text.wrappedPieces options.maxWidth indent run).flatten = run
                ∧ ((∃ line ∈ Text.wrap options.maxWidth indent text, run ∈ Text.runs line.toList)
                  ↔ Text.StaysWhole options.maxWidth indent run) := by
  rw [usageLines_eq_flatMap]
  constructor
  · rw [List.flatMap_assoc]
    exact List.flatMap_congr fun shown _ => Text.flatMap_runs_wrap options.maxWidth shown.2 shown.1
  · intro text indent shown
    refine ⟨fun line member => List.mem_flatMap.mpr ⟨_, shown, member⟩, fun run member => ?_⟩
    exact ⟨Text.flatten_wrappedPieces _ _ (Text.filled_of_mem_runs member),
      Text.exists_line_iff member⟩

/-- Eight columns keep the name of an option whole, and behind an indent of two a longer word of the
description is broken.
-/
theorem usageLines_keeps_runs_count
    : ∃ command : Command Float Unit,
        command.pattern.render = "[--count <n: int>]"
        ∧ command.description = some "Counts happenings."
        ∧ (∃ line ∈ command.usageLines ⟨8, 2, none⟩, "[--count".toList ∈ Text.runs line.toList)
        ∧ ¬ ∃ line ∈ Text.wrap 8 2 "Counts happenings.",
            "happenings.".toList ∈ Text.runs line.toList := by
  let p : Pattern :=
    .optional none (.sequence [.literal "--count" true, .parameter "n" (some "int")])
  let command : Command Float Unit := ⟨p, fun _ => (), some "Counts happenings.", none⟩
  have rendered : command.pattern.render = "[--count <n: int>]" := by decide +kernel
  obtain ⟨-, keeps⟩ := usageLines_keeps_runs command ⟨8, 2, none⟩
  refine ⟨command, rendered, rfl, ?_, ?_⟩
  · obtain ⟨shown, runs⟩ := keeps command.pattern.render 0 List.mem_cons_self
    have fits : Text.StaysWhole 8 0 "[--count".toList := .inr (.inl (by decide))
    have found : "[--count".toList ∈ Text.runs command.pattern.render.toList := by
      rw [rendered]
      decide
    obtain ⟨line, member, whole⟩ := (runs _ found).2.mpr fits
    exact ⟨line, shown line member, whole⟩
  · obtain ⟨-, runs⟩ := keeps "Counts happenings." 2 (by simp [helpTexts, command])
    rw [(runs "happenings.".toList (by decide)).2]
    rintro (unlimited | narrow | unbreakable)
    · simp at unlimited
    · revert narrow
      decide
    · exact unbreakable ⟨['h'], 'a', by decide, rfl, by decide⟩

/-- Not every run is kept whole: the name of an option is broken where lines are narrower. -/
theorem usageLines_breaks_option_name
    : ∃ command : Command Float Unit,
        command.pattern.render = "[--count <n: int>]"
        ∧ "[--count".toList ∈ Text.runs command.pattern.render.toList
        ∧ command.usageLines ⟨5, 4, none⟩ = ["[--co", "unt", "<n:", "int>]"]
        ∧ ¬ ∃ line ∈ command.usageLines ⟨5, 4, none⟩, "[--count".toList <:+: line.toList := by
  let p : Pattern :=
    .optional none (.sequence [.literal "--count" true, .parameter "n" (some "int")])
  let command : Command Float Unit := ⟨p, fun _ => (), none, none⟩
  have rendered : command.pattern.render = "[--count <n: int>]" := by decide +kernel
  have lines : command.usageLines ⟨5, 4, none⟩ = ["[--co", "unt", "<n:", "int>]"] := by
    decide +kernel
  refine ⟨command, rendered, ?_, lines, ?_⟩
  · rw [rendered]
    decide
  · rw [lines]
    decide

end CallGrammar.Command

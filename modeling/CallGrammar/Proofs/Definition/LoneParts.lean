import CallGrammar.Proofs.Definition.RoundTrip

/-! Patterns that keep their nesting, read back from their text. The compiler that only tells about
nesting still unwraps a definition of one part, and does so again when it reads the text of what it
compiled: a sequence of one part comes back as that part, and any other pattern as itself.
-/

namespace CallGrammar.Definition

/-- A pattern as a sequence unwraps as the pattern does. -/
theorem unwrapped_asSequence (p : Pattern)
    : Compiler.unwrapped p.asSequence = Compiler.unwrapped p := by
  cases p <;> rfl

/-- Unwrapping changes exactly the sequences of one part, since no pattern is a part of itself. -/
theorem unwrapped_eq_self_iff {p : Pattern}
    : Compiler.unwrapped p = p ↔ ∀ part, p ≠ .sequence [part] := by
  constructor
  · rintro h part rfl
    have hcount : part.count = 1 + (part.count + 0) := congrArg Pattern.count h
    omega
  · intro h
    unfold Compiler.unwrapped
    split
    · exact absurd rfl (h _)
    · rfl

/-- What a definition is unwrapped to is read back as it is. -/
theorem respelled_unwrapped {ignoreCase : Bool} {definition : String} {root : Pattern}
    (h : parse ignoreCase definition = .ok root)
    : (Compiler.unwrapped root).respelled = Compiler.unwrapped root := by
  obtain ⟨derivation, -, -, rfl⟩ := parse_eq_ok_iff.mp h
  have hroot := derivation.asSequence_respelled_pattern ignoreCase
  -- The pattern of a definition is a sequence, and every part of it is read back as it is.
  obtain ⟨children, hchildren⟩ : ∃ children, derivation.pattern ignoreCase = .sequence children :=
    ⟨_, hroot.symm⟩
  rw [hchildren, Pattern.respelled_sequence] at hroot
  have hparts : children.map Pattern.respelled = children := Pattern.sequence.inj hroot
  rw [hchildren]
  match children, hparts with
  | [], _ => rfl
  | [part], hparts => exact (List.cons.inj hparts).1
  | first :: second :: rest, hparts =>
      exact (Pattern.respelled_sequence _).trans (congrArg Pattern.sequence hparts)

/-- The compiler that only tells about nesting compiles the text of a compiled pattern to the
pattern unwrapped once more, if no tail in it has a name that ends with a point. So the pattern
itself is read back exactly if it is no sequence of one part.
-/
theorem compile_render_unwrapped {ignoreCase : Bool} {definition : String} {p : Pattern}
    (compiled : Compiler.compile ⟨.warn, ignoreCase⟩ definition = .ok p)
    (tails : ∀ name, .tail name ∈ p.traverse → name.toList.getLast? ≠ some '.')
    : Compiler.compile ⟨.warn, ignoreCase⟩ p.render = .ok (Compiler.unwrapped p)
      ∧ (Compiler.compile ⟨.warn, ignoreCase⟩ p.render = .ok p
        ↔ ∀ part, p ≠ .sequence [part]) := by
  obtain ⟨rooted, distinct⟩ := rooted_of_compile compiled
  obtain ⟨root, parsed, rfl⟩ := compile_eq_ok_iff.mp compiled
  have hkept : (Compiler.simplified .warn root).respelled = Compiler.simplified .warn root :=
    respelled_unwrapped parsed
  have again : Compiler.compile ⟨.warn, ignoreCase⟩ (Compiler.simplified .warn root).render
      = .ok (Compiler.unwrapped (Compiler.simplified .warn root)) := by
    refine compile_eq_ok_iff.mpr ⟨_, rooted.parse_render tails distinct, ?_⟩
    rw [hkept]
    exact unwrapped_asSequence _
  refine ⟨again, ?_⟩
  rw [again, Except.ok.injEq]
  exact unwrapped_eq_self_iff

/-- A group inside a sequence keeps its doubled parentheses; around a whole definition one pair of
them is lost.
-/
theorem compile_render_doubled_parentheses
    : (∃ p,
        Compiler.compile ⟨.warn, false⟩ "go ((to <place: int>))" = .ok p
        ∧ Compiler.compile ⟨.warn, false⟩ p.render = .ok p)
      ∧ ∃ p q,
          Compiler.compile ⟨.warn, true⟩ "((go [home]:back))" = .ok p
          ∧ Compiler.compile ⟨.warn, true⟩ p.render = .ok q
          ∧ p = .sequence [q] := by
  constructor
  · have compiled : Compiler.compile ⟨.warn, false⟩ "go ((to <place: int>))"
        = .ok (.sequence
          [.literal "go" true,
           .sequence [.sequence [.literal "to" true, .parameter "place" (some "int")]]]) := by
      rfl
    refine ⟨_, compiled, (compile_render_unwrapped compiled ?_).2.mpr (by simp)⟩
    rw [Pattern.traverse_eq_preorder]
    simp [Pattern.preorder, Pattern.preorderAll]
  · have compiled : Compiler.compile ⟨.warn, true⟩ "((go [home]:back))"
        = .ok (.sequence
          [.sequence
            [.literal "go" false,
             .optional (some "back") (.sequence [.literal "home" false])]]) := by
      rfl
    refine ⟨_, _, compiled, (compile_render_unwrapped compiled ?_).1, rfl⟩
    rw [Pattern.traverse_eq_preorder]
    simp [Pattern.preorder, Pattern.preorderAll]

/-- A group of a single word has no tail, and is not read back. -/
theorem compile_render_ne_lone_word
    : ∃ p,
        Compiler.compile .standard "(a)" = .ok p
        ∧ (∀ name, .tail name ∈ p.traverse → name.toList.getLast? ≠ some '.')
        ∧ Compiler.compile .standard p.render = .ok (.literal "a" true)
        ∧ Compiler.compile .standard p.render ≠ .ok p := by
  refine ⟨.sequence [.literal "a" true], rfl, ?_, rfl, by decide⟩
  rw [Pattern.traverse_eq_preorder]
  simp [Pattern.preorder, Pattern.preorderAll]

end CallGrammar.Definition

import CallGrammar.Proofs.Definition.DistinctNames
import CallGrammar.Proofs.Definition.ProblemSpans
import CallGrammar.Proofs.Definition.Shape

/-! The ways to treat nesting agree with each other. A definition is malformed for all of them or
for none, and removing nesting while compiling gives what flattening a compiled pattern gives.
-/

namespace CallGrammar.Definition

/-- Removing nesting while compiling gives the flattened result of any mode: the layer that is
unwrapped at the root before flattening would have gone with the flattening.
-/
theorem simplified_yes_eq_flattened (mode : Simplify) (root : Pattern)
    : Compiler.simplified .yes root = (Compiler.simplified mode root).flattened := by
  rw [flattened_simplified]
  exact flattened_unwrapped root

/-- Flattening keeps the contents of a pattern, and the modes are coherent. A flattened pattern has
the leaves of the pattern with everything they say, in the same order, and binds the same names,
and it is no deeper. A definition is refused in all modes with the same problem, or it compiles in
all of them: then both modes that remove nesting give one pattern, and flattening what the two
other modes give leads to this pattern, too.
-/
theorem flattening_keeps_contents
    : (∀ p : Pattern,
        p.flattened.leaves = p.leaves
        ∧ p.flattened.bindingNames = p.bindingNames
        ∧ p.flattened.depth ≤ p.depth)
      ∧ ∀ (ignoreCase : Bool) (definition : String),
          (∃ malformed, ∀ mode,
            Compiler.compile ⟨mode, ignoreCase⟩ definition = .error malformed)
          ∨ ∃ written warned simple,
              Compiler.compile ⟨.no, ignoreCase⟩ definition = .ok written
              ∧ Compiler.compile ⟨.warn, ignoreCase⟩ definition = .ok warned
              ∧ Compiler.compile ⟨.yes, ignoreCase⟩ definition = .ok simple
              ∧ Compiler.compile ⟨.silently, ignoreCase⟩ definition = .ok simple
              ∧ simple = warned.flattened
              ∧ simple = written.flattened := by
  constructor
  · intro p
    exact ⟨p.leaves_flattened, p.bindingNames_flattened, p.depth_flattened_le⟩
  · intro ignoreCase definition
    cases hparse : parse ignoreCase definition with
    | error malformed => exact .inl ⟨malformed, fun _ => compile_eq_error_iff.mpr hparse⟩
    | ok root =>
        have compiles (mode : Simplify)
            : Compiler.compile ⟨mode, ignoreCase⟩ definition
              = .ok (Compiler.simplified mode root) :=
          compile_eq_ok_iff.mpr ⟨root, hparse, rfl⟩
        refine .inr ⟨_, _, _, compiles .no, compiles .warn, compiles .yes, compiles .silently, ?_⟩
        exact ⟨simplified_yes_eq_flattened .warn root, simplified_yes_eq_flattened .no root⟩

end CallGrammar.Definition

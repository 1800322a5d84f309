import CallGrammar.Definition.Compiler
import CallGrammar.Proofs.Definition.Deriving

/-! The compiler accepts exactly what its grammar derives, and builds the pattern that the
derivation describes. One direction runs a draft along a derivation; the other keeps, beside
every reachable draft, a derivation of what was read so far.
-/

namespace CallGrammar.Definition

/-- Parsing is a run over the lexemes of a definition that finishes at its end. -/
theorem parse_eq_ok_iff_reaches {ignoreCase : Bool} {definition : String} {root : Pattern}
    : parse ignoreCase definition = .ok root
      ↔ ∃ last,
          Draft.Reaches ignoreCase .start (lexemes definition) last
          ∧ last.finish definition.utf8ByteSize = .ok root := by
  unfold parse Draft.Reaches
  cases (lexemes definition).foldlM (Draft.feed ignoreCase) Draft.start <;> simp [Except.bind]

/-- A run that finishes has a derivation of its lexemes, which declares the names that the run did
and describes the pattern.
-/
theorem exists_derivation_of_finish {ignoreCase : Bool} {placed : List Placed} {last : Draft}
    {stop : Nat} {root : Pattern} (run : Draft.Reaches ignoreCase .start placed last)
    (finished : last.finish stop = .ok root)
    : ∃ derivation : Derivation,
        derivation.lexemes = placed.map Placed.lexeme
        ∧ derivation.names.Nodup
        ∧ last.declared = derivation.names.reverse
        ∧ derivation.pattern ignoreCase = root := by
  obtain ⟨ha, ho, hc, rfl⟩ := Draft.finish_eq_ok_iff.mp finished
  have hs : Draft.Reads ignoreCase [] .start := .item .start List.nodup_nil
  have hi := hs.run run
  rw [List.nil_append] at hi
  generalize placed.map Placed.lexeme = read at hi
  cases hi with
  | item derived distinct =>
      cases ho
      obtain ⟨derivation, hl, hn, hd⟩ := derived.whole hc
      exact ⟨derivation, hl, hn ▸ distinct, congrArg List.reverse hn.symm, hd⟩
  | _ => cases ha

/-- A definition is parsed as a pattern exactly if its lexemes have a derivation that declares
distinct names and describes the pattern.
-/
theorem parse_eq_ok_iff {ignoreCase : Bool} {definition : String} {root : Pattern}
    : parse ignoreCase definition = .ok root
      ↔ ∃ derivation : Derivation,
          derivation.lexemes = (lexemes definition).map Placed.lexeme
          ∧ derivation.names.Nodup
          ∧ derivation.pattern ignoreCase = root := by
  rw [parse_eq_ok_iff_reaches]
  constructor
  · rintro ⟨last, hr, hf⟩
    obtain ⟨derivation, hl, hn, -, hd⟩ := exists_derivation_of_finish hr hf
    exact ⟨derivation, hl, hn, hd⟩
  · rintro ⟨derivation, hl, hn, rfl⟩
    cases derivation with
    | empty =>
        obtain he := List.map_eq_nil_iff.mp hl.symm
        rw [he]
        exact ⟨.start, .refl _ _, rfl⟩
    | ofAlternatives contents =>
        have hd : (contents.names.reverse ++ []).Nodup := by
          rw [List.append_nil]
          exact List.pairwise_reverse.mpr (hn.imp Ne.symm)
        have hr : Draft.Follows ignoreCase .start contents.lexemes _ := contents.follows hd
        refine ⟨_, hr _ hl.symm, Draft.finish_eq_ok_iff.mpr ⟨rfl, rfl, .inr ?_, ?_⟩⟩
        · exact (contents.body_alternatives ignoreCase []).1
        · exact (contents.root_body ignoreCase).symm

/-- The compiler accepts exactly its grammar: a definition compiles if and only if its lexemes
have a derivation that declares distinct names. A derivation is the only one of its lexemes,
and the compiled pattern is the one it describes.
-/
theorem compile_accepts_grammar (ignoreCase : Bool) (definition : String)
    : ((∃ root, Compiler.compile ⟨.no, ignoreCase⟩ definition = .ok root)
        ↔ ∃ derivation : Derivation,
            derivation.lexemes = (lexemes definition).map Placed.lexeme
            ∧ derivation.names.Nodup)
      ∧ ∀ derivation : Derivation,
          derivation.lexemes = (lexemes definition).map Placed.lexeme
          → (∀ other : Derivation,
              other.lexemes = (lexemes definition).map Placed.lexeme → other = derivation)
            ∧ (derivation.names.Nodup
              → Compiler.compile ⟨.no, ignoreCase⟩ definition
                = .ok (derivation.pattern ignoreCase)) := by
  have hc : Compiler.compile ⟨.no, ignoreCase⟩ definition = parse ignoreCase definition := by
    unfold Compiler.compile
    cases parse ignoreCase definition <;> rfl
  rw [hc]
  refine ⟨⟨?_, ?_⟩, fun derivation hl => ⟨fun other ho => ?_, fun hn => ?_⟩⟩
  · rintro ⟨root, hr⟩
    obtain ⟨derivation, hl, hn, _⟩ := parse_eq_ok_iff.mp hr
    exact ⟨derivation, hl, hn⟩
  · rintro ⟨derivation, hl, hn⟩
    exact ⟨_, parse_eq_ok_iff.mpr ⟨derivation, hl, hn, rfl⟩⟩
  · exact Derivation.lexemes_injective (ho.trans hl.symm)
  · exact parse_eq_ok_iff.mpr ⟨derivation, hl, hn, rfl⟩

/-- A word that takes any case and a named choice in brackets, derived and compiled. -/
theorem compile_accepts_bracketed_choice
    : Compiler.compile ⟨.no, false⟩ "go^ [to|<place: int>]:how"
      = .ok (.sequence
        [.literal "go" false,
         .optional none
          (.variant (some "how") false
            [.sequence [.literal "to" true],
             .sequence [.parameter "place" (some "int")]])]) := by
  let choice : Item :=
    .bracketed
      (.cons (.last (.word "to" 0)) (.last (.last (.typed "place" "int"))))
      ["how"]
  have derived := (compile_accepts_grammar false "go^ [to|<place: int>]:how").2
    (.ofAlternatives (.last (.cons (.word "go" 1) (.last choice)))) rfl
  exact derived.2 (by decide)

end CallGrammar.Definition

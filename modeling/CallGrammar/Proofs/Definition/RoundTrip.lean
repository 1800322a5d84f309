import CallGrammar.Proofs.Definition.PointedTails
import CallGrammar.Proofs.Definition.ReadingBack

/-! Patterns read back from their text. The text of a compiled pattern parses to the same pattern
up to nesting, so that it compiles to the pattern itself; only a tail whose name ends with a point
is not read back.
-/

namespace CallGrammar.Definition

/-- Alternatives of parts that are read back as they are. -/
theorem map_asSequence_respelled {sequences : List (List Pattern)}
    (h : ∀ ps ∈ sequences, ps.map Pattern.respelled = ps)
    : (sequences.map Pattern.sequence).map (fun p => p.respelled.asSequence)
      = sequences.map .sequence := by
  rw [List.map_map]
  refine List.map_congr_left fun ps hps => ?_
  rw [Function.comp_apply, Pattern.respelled_sequence, h ps hps]
  rfl

mutual

/-- The pattern of an item is read back as it is, by induction on the item. -/
theorem Item.respelled_pattern (ignoreCase : Bool) (item : Item)
    : (item.pattern ignoreCase).respelled = item.pattern ignoreCase := by
  cases item with
  | word text carets => rfl
  | parameter name => rfl
  | typed name typeName => rfl
  | tail name => rfl
  | bracketed contents identifiers =>
      have hc := contents.map_respelled_patterns ignoreCase
      cases contents with
      | last items =>
          rw [Item.pattern, Pattern.respelled, Pattern.respelled_sequence,
            hc _ (by simp [Alternatives.patterns])]
          rfl
      | cons first rest =>
          rw [Alternatives.patterns] at hc
          rw [Item.pattern, Pattern.respelled, Pattern.respelled_variant,
            map_asSequence_respelled hc]
          rfl
  | grouped contents =>
      rw [Item.pattern, Pattern.respelled_sequence, contents.map_respelled_patterns]
  | choice first others identifiers =>
      have hc : ∀ ps ∈ first.patterns ignoreCase :: others.patterns ignoreCase,
          ps.map Pattern.respelled = ps :=
        List.forall_mem_cons.mpr
          ⟨first.map_respelled_patterns ignoreCase, others.map_respelled_patterns ignoreCase⟩
      rw [Item.pattern, Pattern.respelled_variant, map_asSequence_respelled hc]

/-- So are the patterns of items. -/
theorem Items.map_respelled_patterns (ignoreCase : Bool) (items : Items)
    : (items.patterns ignoreCase).map Pattern.respelled = items.patterns ignoreCase := by
  cases items with
  | last item => rw [Items.patterns, List.map_singleton, item.respelled_pattern]
  | cons item rest =>
      rw [Items.patterns, List.map_cons, item.respelled_pattern, rest.map_respelled_patterns]

/-- So are the patterns of each alternative. -/
theorem Alternatives.map_respelled_patterns (ignoreCase : Bool) (contents : Alternatives)
    : ∀ ps ∈ contents.patterns ignoreCase, ps.map Pattern.respelled = ps := by
  cases contents with
  | last items =>
      exact List.forall_mem_singleton.mpr (items.map_respelled_patterns ignoreCase)
  | cons items rest =>
      exact List.forall_mem_cons.mpr
        ⟨items.map_respelled_patterns ignoreCase, rest.map_respelled_patterns ignoreCase⟩

end

/-- The pattern of a whole definition is read back as it is. -/
theorem Derivation.asSequence_respelled_pattern (ignoreCase : Bool) (derivation : Derivation)
    : (derivation.pattern ignoreCase).respelled.asSequence = derivation.pattern ignoreCase := by
  cases derivation with
  | empty => rfl
  | ofAlternatives contents =>
      have hc := contents.map_respelled_patterns ignoreCase
      cases contents with
      | last items =>
          rw [Derivation.pattern, Pattern.respelled_sequence,
            hc _ (by simp [Alternatives.patterns])]
          rfl
      | cons first rest =>
          rw [Derivation.pattern, Pattern.respelled_sequence, List.map_singleton,
            Pattern.respelled_variant]
          exact congrArg (fun alternatives => Pattern.sequence [.variant none false alternatives])
            (map_asSequence_respelled hc)

/-- Every mode but the one that only tells about nesting makes the same of a compiled pattern and
of what it is read back as.
-/
theorem simplified_respelled {ignoreCase : Bool} {mode : Simplify} (keeps : mode ≠ .warn)
    {definition : String} {root : Pattern} (h : parse ignoreCase definition = .ok root)
    : Compiler.simplified mode (Compiler.simplified mode root).respelled.asSequence
      = Compiler.simplified mode root := by
  cases mode with
  | no =>
      obtain ⟨derivation, _, _, rfl⟩ := parse_eq_ok_iff.mp h
      exact derivation.asSequence_respelled_pattern ignoreCase
  | warn => exact absurd rfl keeps
  | yes | silently =>
      simp only [Compiler.simplified, flattened_unwrapped]
      rw [Pattern.flattened_asSequence, Pattern.flattened_respelled, Pattern.flattened_flattened]

/-- A compiler that keeps or removes nesting, but does not only tell about it, compiles the text
of a compiled pattern to the pattern exactly if no tail in it has a name that ends with a point.
With such a tail the text is malformed.
-/
theorem compile_render_eq_ok_iff {mode : Simplify} (keeps : mode ≠ .warn) {ignoreCase : Bool}
    {definition : String} {p : Pattern}
    (compiled : Compiler.compile ⟨mode, ignoreCase⟩ definition = .ok p)
    : (Compiler.compile ⟨mode, ignoreCase⟩ p.render = .ok p
        ↔ ∀ name, .tail name ∈ p.traverse → name.toList.getLast? ≠ some '.')
      ∧ ((∃ name, .tail name ∈ p.traverse ∧ name.toList.getLast? = some '.')
        → ∃ malformed, Compiler.compile ⟨mode, ignoreCase⟩ p.render = .error malformed) := by
  obtain ⟨rooted, distinct⟩ := rooted_of_compile compiled
  obtain ⟨root, parsed, rfl⟩ := compile_eq_ok_iff.mp compiled
  have accepted (tails : PlainTails (Compiler.simplified mode root))
      : Compiler.compile ⟨mode, ignoreCase⟩ (Compiler.simplified mode root).render
        = .ok (Compiler.simplified mode root) :=
    compile_eq_ok_iff.mpr
      ⟨_, rooted.parse_render tails distinct, simplified_respelled keeps parsed⟩
  have refused {name : String} (member : .tail name ∈ (Compiler.simplified mode root).traverse)
      (ending : name.toList.getLast? = some '.') (p : Pattern)
      : Compiler.compile ⟨mode, ignoreCase⟩ (Compiler.simplified mode root).render ≠ .ok p := by
    intro again
    obtain ⟨other, reparsed, _⟩ := compile_eq_ok_iff.mp again
    exact rooted.parse_render_ne_ok member ending other reparsed
  refine ⟨⟨fun again name member ending => refused member ending _ again, accepted⟩, ?_⟩
  rintro ⟨name, member, ending⟩
  cases hc : Compiler.compile ⟨mode, ignoreCase⟩ (Compiler.simplified mode root).render with
  | error malformed => exact ⟨malformed, rfl⟩
  | ok p => exact absurd hc (refused member ending p)

/-- A flattened choice in brackets is read back; a tail named with a point at the end is not. -/
theorem compile_render_choice_and_pointed_tail
    : (∃ p,
        Compiler.compile ⟨.silently, false⟩ "go ([to|<place: int>]:how) <rest...>" = .ok p
        ∧ Compiler.compile ⟨.silently, false⟩ p.render = .ok p)
      ∧ ∃ p malformed,
          Compiler.compile ⟨.no, true⟩ "go <rest. ...>" = .ok p
          ∧ Compiler.compile ⟨.no, true⟩ p.render = .error malformed := by
  constructor
  · have compiled : Compiler.compile ⟨.silently, false⟩ "go ([to|<place: int>]:how) <rest...>"
        = .ok (.sequence
          [.literal "go" true,
           .optional none
            (.variant (some "how") false [.literal "to" true, .parameter "place" (some "int")]),
           .tail "rest"]) := by
      rfl
    refine ⟨_, compiled, (compile_render_eq_ok_iff (by decide) compiled).1.mpr ?_⟩
    rw [Pattern.traverse_eq_preorder]
    simp [Pattern.preorder, Pattern.preorderAll]
  · have compiled : Compiler.compile ⟨.no, true⟩ "go <rest. ...>"
        = .ok (.sequence [.literal "go" false, .tail "rest."]) := by
      rfl
    have ending : ∃ name, .tail name
          ∈ (Pattern.sequence [.literal "go" false, .tail "rest."]).traverse
        ∧ name.toList.getLast? = some '.' := by
      rw [Pattern.traverse_eq_preorder]
      exact ⟨"rest.", by decide, rfl⟩
    obtain ⟨malformed, hm⟩ := (compile_render_eq_ok_iff (by decide) compiled).2 ending
    exact ⟨_, malformed, compiled, hm⟩

end CallGrammar.Definition

import CallGrammar.Proofs.Definition.Spelling
import CallGrammar.Proofs.Pattern.Respelling

/-! Reading the text of a pattern. A formed pattern whose tails have plain names is written as the
lexemes of a derivation, and the derivation describes the pattern as it is respelled.
-/

namespace CallGrammar.Definition

open Pattern (asSequence bindingNames renderAt)

/-- Only a sequence is written differently beside others, by cases on the shape. -/
theorem Formed.renderAt_eq_inner {ignoreCase : Bool} {p : Pattern} (h : Formed ignoreCase p)
    (hk : p.kind ≠ .sequence) (place : Pattern.Place)
    : p.renderAt place = p.renderAt .inner := by
  cases h with
  | literal isWord caseKept => rfl
  | @parameter name typeName isWord typeIsWord => cases typeName <;> rfl
  | tail isWord => rfl
  | optional isWord formed => rfl
  | bareChoice isWord several formed => rfl
  | choice isWord several formed => rw [Pattern.renderAt_choice, Pattern.renderAt_choice]
  | sequence filled formed => exact absurd rfl hk

/-- A formed pattern that does not stand beside others is written as its parts. -/
theorem Formed.renderAt_eq_intercalate {ignoreCase : Bool} {p : Pattern}
    (h : Formed ignoreCase p) (place : Pattern.Place) (hp : place ≠ .inner)
    : p.renderAt place = String.intercalate " " (p.spliced.map (renderAt .inner)) := by
  by_cases hk : p.kind = .sequence
  · cases h with
    | @sequence children filled formed =>
        match children with
        | [] => exact absurd rfl filled
        | [child] =>
            have hl : child.renderAt (Pattern.loneChildPlace place child)
                = child.renderAt .inner := by
              by_cases hc : child.kind = .sequence
              · cases child with
                | sequence _ => rfl
                | _ => cases hc
              · exact (formed child (List.mem_singleton.mpr rfl)).renderAt_eq_inner hc _
            simp [renderAt, Pattern.spliced, hl, hp]
        | first :: second :: rest =>
            simp [renderAt, Pattern.renderAllAt_eq_map, Pattern.spliced, hp]
    | _ => cases hk
  · rw [Pattern.spliced_of_kind_ne hk, List.map_singleton, String.intercalate_singleton,
      h.renderAt_eq_inner hk]

/-- A formed pattern is no choice without parentheses. -/
theorem Formed.insideBrackets_respelled {ignoreCase : Bool} {p : Pattern}
    (h : Formed ignoreCase p)
    : p.respelled.insideBrackets = p.respelled.asSequence := by
  cases h <;> rfl

theorem Formed.bracketIdentifier_eq {ignoreCase : Bool} {p : Pattern} (h : Formed ignoreCase p)
    (identifier : Option String)
    : Pattern.bracketIdentifier identifier p = identifier := by
  cases h <;> rfl

/-- An item as which the text of a pattern is read back. -/
structure ReadsBack (ignoreCase : Bool) (p : Pattern) (item : Item) : Prop where
  spells : Spells (p.renderAt .inner) item.lexemes
  pattern_eq : item.pattern ignoreCase = p.respelled
  names_perm : item.names.Perm p.bindingNames

/-- Patterns that are read back one by one are read back together, by list induction. -/
theorem exists_items {ignoreCase : Bool} {ps : List Pattern} (filled : ps ≠ [])
    (read : ∀ p ∈ ps, ∃ item, ReadsBack ignoreCase p item)
    : ∃ items : Items,
        Spells (String.intercalate " " (ps.map (renderAt .inner))) items.lexemes
        ∧ items.patterns ignoreCase = ps.map Pattern.respelled
        ∧ items.names.Perm (ps.flatMap bindingNames) := by
  induction ps with
  | nil => exact absurd rfl filled
  | cons p rest ih =>
      obtain ⟨item, hs, hp, hn⟩ := read p List.mem_cons_self
      cases rest with
      | nil =>
          refine ⟨.last item, ?_, ?_, ?_⟩
          · simpa [Items.lexemes] using hs
          · simp [Items.patterns, hp]
          · simpa [Items.names] using hn
      | cons q rest =>
          obtain ⟨items, hss, hps, hns⟩ :=
            ih (List.cons_ne_nil q rest) (fun p hp => read p (List.mem_cons_of_mem _ hp))
          refine ⟨.cons item items, ?_, ?_, ?_⟩
          · simpa [Items.lexemes, String.append_assoc] using hs.before .space hss
          · simp [Items.patterns, hp, hps]
          · simpa [Items.names] using hn.append hns

/-- Formed patterns whose parts are read back are read back as alternatives, by list
induction.
-/
theorem exists_alternatives {ignoreCase : Bool} {ps : List Pattern} (filled : ps ≠ [])
    (formed : ∀ p ∈ ps, Formed ignoreCase p)
    (read : ∀ p ∈ ps, ∀ q ∈ p.spliced, ∃ item, ReadsBack ignoreCase q item)
    : ∃ contents : Alternatives,
        Spells (String.intercalate "|" (ps.map (renderAt .alternative))) contents.lexemes
        ∧ (contents.patterns ignoreCase).map .sequence
          = ps.map (fun p => p.respelled.asSequence)
        ∧ contents.names.Perm (ps.flatMap bindingNames) := by
  induction ps with
  | nil => exact absurd rfl filled
  | cons p rest ih =>
      have hf := formed p List.mem_cons_self
      obtain ⟨items, hs, hp, hn⟩ := exists_items hf.spliced.1 (read p List.mem_cons_self)
      rw [← hf.renderAt_eq_intercalate .alternative (by decide)] at hs
      rw [← Pattern.spliced_respelled] at hp
      rw [Pattern.flatMap_bindingNames_spliced] at hn
      cases rest with
      | nil =>
          refine ⟨.last items, ?_, ?_, ?_⟩
          · simpa [Alternatives.lexemes] using hs
          · simp [Alternatives.patterns, hp, asSequence]
          · simpa [Alternatives.names] using hn
      | cons q rest =>
          obtain ⟨contents, hss, hps, hns⟩ := ih (List.cons_ne_nil q rest)
            (fun p hp => formed p (List.mem_cons_of_mem _ hp))
            (fun p hp => read p (List.mem_cons_of_mem _ hp))
          refine ⟨.cons items contents, ?_, ?_, ?_⟩
          · simpa [Alternatives.lexemes, String.append_assoc] using hs.before (.mark rfl rfl) hss
          · simp [Alternatives.patterns, hp, hps, asSequence]
          · simpa [Alternatives.names] using hn.append hns

/-- Two or more such patterns are read back as several alternatives. -/
theorem exists_choice {ignoreCase : Bool} {ps : List Pattern} (several : 2 ≤ ps.length)
    (formed : ∀ p ∈ ps, Formed ignoreCase p)
    (read : ∀ p ∈ ps, ∀ q ∈ p.spliced, ∃ item, ReadsBack ignoreCase q item)
    : ∃ (first : Items) (others : Alternatives),
        Spells (String.intercalate "|" (ps.map (renderAt .alternative)))
          (first.lexemes ++ .bar :: others.lexemes)
        ∧ (first.patterns ignoreCase :: others.patterns ignoreCase).map .sequence
          = ps.map (fun p => p.respelled.asSequence)
        ∧ (first.names ++ others.names).Perm (ps.flatMap bindingNames) := by
  obtain ⟨contents, hs, hp, hn⟩ :=
    exists_alternatives (List.ne_nil_of_length_pos (by omega)) formed read
  cases contents with
  | last items =>
      have hl := congrArg List.length hp
      simp only [Alternatives.patterns, List.map_cons, List.map_nil, List.length_cons,
        List.length_nil, List.length_map] at hl
      omega
  | cons first others => exact ⟨first, others, hs, hp, hn⟩

/-- No tail in a pattern has a name that ends with a point. -/
def PlainTails (p : Pattern) : Prop :=
  ∀ name, .tail name ∈ p.traverse → name.toList.getLast? ≠ some '.'

theorem PlainTails.child {p child : Pattern} (h : PlainTails p) (member : child ∈ p.children)
    : PlainTails child :=
  fun name hn => h name (Pattern.mem_traverse_of_child member hn)

/-- A formed pattern without tails of such names is read back part by part, by induction on its
shape.
-/
theorem Formed.exists_readsBack {ignoreCase : Bool} {p : Pattern} (h : Formed ignoreCase p)
    (tails : PlainTails p)
    : ∀ q ∈ p.spliced, ∃ item, ReadsBack ignoreCase q item := by
  induction h with
  | @literal text caseSensitive isWord caseKept =>
      refine List.forall_mem_singleton.mpr ⟨.word text (if caseSensitive then 0 else 1), ?_⟩
      refine ⟨spells_literal isWord caseSensitive, ?_, by simp [Item.names]⟩
      cases caseSensitive <;> cases ignoreCase <;> simp_all [Item.pattern, Pattern.respelled]
  | @parameter name typeName isWord typeIsWord =>
      cases typeName with
      | none =>
          exact List.forall_mem_singleton.mpr
            ⟨.parameter name, spells_parameter isWord, rfl, by simp [Item.names]⟩
      | some word =>
          exact List.forall_mem_singleton.mpr
            ⟨.typed name word, spells_typed isWord (typeIsWord word rfl), rfl,
              by simp [Item.names]⟩
  | @tail name isWord =>
      have hl := tails name (Pattern.mem_traverse_self _)
      exact List.forall_mem_singleton.mpr
        ⟨.tail name, spells_tail isWord hl, rfl, by simp [Item.names]⟩
  | @optional identifier inner isWord formed ih =>
      obtain ⟨items, hs, hp, hn⟩ := exists_items formed.spliced.1
        (ih (tails.child (List.mem_singleton.mpr rfl)))
      rw [← formed.renderAt_eq_intercalate .bracket (by decide)] at hs
      rw [← Pattern.spliced_respelled] at hp
      rw [Pattern.flatMap_bindingNames_spliced] at hn
      refine List.forall_mem_singleton.mpr
        ⟨.bracketed (.last items) identifier.toList, ?_, ?_, ?_⟩
      · simpa [renderAt, formed.bracketIdentifier_eq, Item.lexemes, Alternatives.lexemes]
          using hs.bracketed.suffixed isWord
      · rw [Pattern.respelled, formed.insideBrackets_respelled, asSequence, ← hp]
        cases identifier <;> rfl
      · rw [Pattern.bindingNames_optional]
        exact (hn.append_right _).trans List.perm_append_comm
  | @bareChoice identifier alternatives isWord several formed ih =>
      have ht := tails.child (List.mem_singleton.mpr rfl)
      obtain ⟨first, others, hs, hp, hn⟩ :=
        exists_choice several formed (fun p hp => ih p hp (ht.child hp))
      refine List.forall_mem_singleton.mpr
        ⟨.bracketed (.cons first others) identifier.toList, ?_, ?_, ?_⟩
      · rw [renderAt, Pattern.renderAt_bareChoice rfl]
        simpa [Pattern.bracketIdentifier, Item.lexemes, Alternatives.lexemes]
          using hs.bracketed.suffixed isWord
      · rw [Pattern.respelled, Pattern.respelled_variant, ← hp]
        cases identifier <;> rfl
      · rw [Pattern.bindingNames_optional, Pattern.bindingNames_variant]
        exact (hn.append_right _).trans List.perm_append_comm
  | @choice identifier alternatives isWord several formed ih =>
      obtain ⟨first, others, hs, hp, hn⟩ :=
        exists_choice several formed (fun p hp => ih p hp (tails.child hp))
      refine List.forall_mem_singleton.mpr ⟨.choice first others identifier.toList, ?_, ?_, ?_⟩
      · rw [Pattern.renderAt_choice]
        simpa [Item.lexemes] using hs.parenthesized.suffixed isWord
      · rw [Pattern.respelled_variant, ← hp]
        cases identifier <;> rfl
      · rw [Pattern.bindingNames_variant]
        exact (hn.append_right _).trans List.perm_append_comm
  | @sequence children filled formed ih =>
      intro q hq
      have hr := ih q hq (tails.child hq)
      -- A sequence inside a sequence needs parentheses; any other part is its own splice.
      by_cases hk : q.kind = .sequence
      · cases q with
        | sequence parts =>
            obtain ⟨items, hs, hp, hn⟩ := exists_items (formed _ hq).spliced.1 hr
            refine ⟨.grouped items, ?_, ?_, ?_⟩
            · rw [Pattern.renderAt_inner_sequence]
              exact hs.parenthesized
            · rw [Pattern.respelled_sequence, Item.pattern, hp]
              rfl
            · rw [Pattern.bindingNames_sequence]
              exact hn
        | _ => cases hk
      · exact hr q (by simp [Pattern.spliced_of_kind_ne hk])

/-- A derivation that the text of a whole pattern has, and that describes the pattern as it is
read back.
-/
structure ReadsBackWhole (ignoreCase : Bool) (p : Pattern) (derivation : Derivation) : Prop where
  spells : Spells p.render derivation.lexemes
  pattern_eq : derivation.pattern ignoreCase = p.respelled.asSequence
  names_perm : derivation.names.Perm p.bindingNames

/-- Whole patterns without tails of such names are read back, by cases on their shape. -/
theorem Rooted.exists_readsBackWhole {ignoreCase : Bool} {p : Pattern} (h : Rooted ignoreCase p)
    (tails : PlainTails p)
    : ∃ derivation, ReadsBackWhole ignoreCase p derivation := by
  cases h with
  | formed formed =>
      obtain ⟨items, hs, hp, hn⟩ := exists_items formed.spliced.1 (formed.exists_readsBack tails)
      rw [← formed.renderAt_eq_intercalate .root (by decide)] at hs
      rw [Pattern.flatMap_bindingNames_spliced] at hn
      refine ⟨.ofAlternatives (.last items), hs, ?_, hn⟩
      rw [Derivation.pattern, hp, asSequence, Pattern.spliced_respelled]
  | empty => exact ⟨.empty, .empty, rfl, by simp [Derivation.names]⟩
  | choice several formed =>
      obtain ⟨first, others, hs, hp, hn⟩ := exists_choice several formed
        (fun p hp => (formed p hp).exists_readsBack (tails.child hp))
      refine ⟨.ofAlternatives (.cons first others), ?_, ?_, ?_⟩
      · rwa [Pattern.render, Pattern.renderAt_bareChoice rfl]
      · rw [Derivation.pattern, hp, Pattern.respelled_variant]
        rfl
      · rwa [Pattern.bindingNames_variant]
  | @wrappedChoice alternatives several formed =>
      have ht := tails.child (List.mem_singleton.mpr rfl)
      obtain ⟨first, others, hs, hp, hn⟩ := exists_choice several formed
        (fun p hp => (formed p hp).exists_readsBack (ht.child hp))
      have hr : (Pattern.sequence [.variant none false alternatives]).render
          = String.intercalate "|" (alternatives.map (renderAt .alternative)) := by
        rw [Pattern.render, renderAt, if_pos (by rfl)]
        exact Pattern.renderAt_bareChoice rfl none alternatives
      refine ⟨.ofAlternatives (.cons first others), ?_, ?_, ?_⟩
      · rwa [hr]
      · rw [Derivation.pattern, hp, Pattern.respelled_sequence, List.map_singleton,
          Pattern.respelled_variant]
        rfl
      · rwa [Pattern.bindingNames_sequence, List.flatMap_singleton, Pattern.bindingNames_variant]

/-- The text of such a pattern parses to the pattern as it is read back. -/
theorem Rooted.parse_render {ignoreCase : Bool} {p : Pattern} (h : Rooted ignoreCase p)
    (tails : PlainTails p) (distinct : p.bindingNames.Nodup)
    : parse ignoreCase p.render = .ok p.respelled.asSequence := by
  obtain ⟨derivation, hs, hp, hn⟩ := h.exists_readsBackWhole tails
  refine parse_eq_ok_iff.mpr ⟨derivation, ?_, hn.nodup_iff.mpr distinct, hp⟩
  rw [map_lexeme_lexemes, hs.scanned_eq]

end CallGrammar.Definition

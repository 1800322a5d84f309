import CallGrammar.Proofs.Definition.DistinctNames
import CallGrammar.Proofs.Definition.Scanning

/-! The shape of compiled patterns, the same for patterns as written and for flattened ones.
Sequences are not empty and choices have two or more alternatives; a choice without parentheses
of its own stands alone inside brackets or in the definition.
-/

namespace CallGrammar.Definition

/-- Patterns that can stand beside others in a definition. -/
inductive Formed (ignoreCase : Bool) : Pattern → Prop
  | literal {text caseSensitive} (isWord : IsWord text.toList)
    (caseKept : ignoreCase = true → caseSensitive = false)
    : Formed ignoreCase (.literal text caseSensitive)
  | parameter {name typeName} (isWord : IsWord name.toList)
    (typeIsWord : ∀ word ∈ typeName, IsWord word.toList)
    : Formed ignoreCase (.parameter name typeName)
  | tail {name} (isWord : IsWord name.toList) : Formed ignoreCase (.tail name)
  | optional {identifier inner} (isWord : ∀ word ∈ identifier, IsWord word.toList)
    (formed : Formed ignoreCase inner)
    : Formed ignoreCase (.optional identifier inner)
  | bareChoice {identifier alternatives} (isWord : ∀ word ∈ identifier, IsWord word.toList)
    (several : 2 ≤ alternatives.length) (formed : ∀ p ∈ alternatives, Formed ignoreCase p)
    : Formed ignoreCase (.optional none (.variant identifier false alternatives))
  | choice {identifier alternatives} (isWord : ∀ word ∈ identifier, IsWord word.toList)
    (several : 2 ≤ alternatives.length) (formed : ∀ p ∈ alternatives, Formed ignoreCase p)
    : Formed ignoreCase (.variant identifier true alternatives)
  | sequence {children} (filled : children ≠ []) (formed : ∀ p ∈ children, Formed ignoreCase p)
    : Formed ignoreCase (.sequence children)

/-- Patterns that a definition compiles to as a whole. -/
inductive Rooted (ignoreCase : Bool) : Pattern → Prop
  | formed {p} (formed : Formed ignoreCase p) : Rooted ignoreCase p
  | empty : Rooted ignoreCase (.sequence [])
  | choice {alternatives} (several : 2 ≤ alternatives.length)
    (formed : ∀ p ∈ alternatives, Formed ignoreCase p)
    : Rooted ignoreCase (.variant none false alternatives)
  | wrappedChoice {alternatives} (several : 2 ≤ alternatives.length)
    (formed : ∀ p ∈ alternatives, Formed ignoreCase p)
    : Rooted ignoreCase (.sequence [.variant none false alternatives])

------------------------------------------------------------
-- Derivations describe formed patterns

/-- All words among some lexemes are words of a definition. -/
def Worded (lexemes : List Lexeme) : Prop :=
  ∀ text, .word text ∈ lexemes → IsWord text.toList

theorem worded_append {left right : List Lexeme}
    : Worded (left ++ right) ↔ Worded left ∧ Worded right := by
  simp only [Worded, List.mem_append, or_imp, forall_and]

theorem worded_cons {lexeme : Lexeme} {rest : List Lexeme}
    : Worded (lexeme :: rest)
      ↔ (∀ text, lexeme = .word text → IsWord text.toList) ∧ Worded rest := by
  simp only [Worded, List.mem_cons, or_imp, forall_and, eq_comm]

/-- The words of a definition. -/
theorem worded_lexemes (definition : String)
    : Worded ((lexemes definition).map Placed.lexeme) := by
  intro text member
  rw [map_lexeme_lexemes] at member
  exact isWord_of_mem_scanned (by simp) member

/-- The last identifier behind a group is one of its words, by list induction. -/
theorem isWord_of_getLast? {identifiers : List String} (h : Worded (suffixLexemes identifiers))
    : ∀ word ∈ identifiers.getLast?, IsWord word.toList := by
  have hm (word : String) (hw : word ∈ identifiers) : .word word ∈ suffixLexemes identifiers := by
    clear h
    induction identifiers with
    | nil => cases hw
    | cons name rest ih =>
        rcases List.mem_cons.mp hw with rfl | hw
        · simp [suffixLexemes]
        · simp [suffixLexemes, ih hw]
  exact fun word hw => h word (hm word (List.mem_of_getLast? hw))

theorem Alternatives.one_le_length_patterns (ignoreCase : Bool) (contents : Alternatives)
    : 1 ≤ (contents.patterns ignoreCase).length := by
  cases contents <;> simp [Alternatives.patterns]

mutual

/-- An item describes a formed pattern, by induction on the item. -/
theorem Item.formed (ignoreCase : Bool) (item : Item) (words : Worded item.lexemes)
    : Formed ignoreCase (item.pattern ignoreCase) := by
  cases item with
  | word text carets =>
      refine .literal (words text (by simp [Item.lexemes])) ?_
      rintro rfl
      simp
  | parameter name => exact .parameter (words name (by simp [Item.lexemes])) (by simp)
  | typed name typeName =>
      exact .parameter (words name (by simp [Item.lexemes]))
        (by simpa using words typeName (by simp [Item.lexemes]))
  | tail name => exact .tail (words name (by simp [Item.lexemes]))
  | bracketed contents identifiers =>
      simp only [Item.lexemes, worded_cons, worded_append] at words
      obtain ⟨_, hc, _, hs⟩ := words
      have hf := contents.formed ignoreCase hc
      cases contents with
      | last items =>
          exact .optional (isWord_of_getLast? hs) (hf _ (by simp [Alternatives.patterns]))
      | cons items rest =>
          refine .bareChoice (isWord_of_getLast? hs) ?_ ?_
          · simpa using rest.one_le_length_patterns ignoreCase
          · simpa [Alternatives.patterns] using hf
  | grouped contents =>
      simp only [Item.lexemes, worded_cons, worded_append] at words
      exact .sequence (contents.patterns_ne_nil ignoreCase) (contents.formed ignoreCase words.2.1)
  | choice first others identifiers =>
      simp only [Item.lexemes, worded_cons, worded_append] at words
      obtain ⟨_, hf, _, ho, _, hs⟩ := words
      refine .choice (isWord_of_getLast? hs) ?_ ?_
      · simpa using others.one_le_length_patterns ignoreCase
      · simpa using ⟨.sequence (first.patterns_ne_nil ignoreCase) (first.formed ignoreCase hf),
          others.formed ignoreCase ho⟩

/-- Items describe formed patterns. -/
theorem Items.formed (ignoreCase : Bool) (items : Items) (words : Worded items.lexemes)
    : ∀ p ∈ items.patterns ignoreCase, Formed ignoreCase p := by
  cases items with
  | last item => simpa [Items.patterns] using item.formed ignoreCase words
  | cons item rest =>
      rw [Items.lexemes, worded_append] at words
      simpa [Items.patterns] using ⟨item.formed ignoreCase words.1, rest.formed ignoreCase words.2⟩

/-- Alternatives describe formed sequences. -/
theorem Alternatives.formed (ignoreCase : Bool) (contents : Alternatives)
    (words : Worded contents.lexemes)
    : ∀ ps ∈ contents.patterns ignoreCase, Formed ignoreCase (.sequence ps) := by
  cases contents with
  | last items =>
      simpa [Alternatives.patterns]
        using Formed.sequence (items.patterns_ne_nil ignoreCase) (items.formed ignoreCase words)
  | cons items rest =>
      rw [Alternatives.lexemes, worded_append, worded_cons] at words
      simpa [Alternatives.patterns]
        using ⟨.sequence (items.patterns_ne_nil ignoreCase) (items.formed ignoreCase words.1),
          rest.formed ignoreCase words.2.2⟩

end

/-- A derivation of words describes a whole pattern. -/
theorem Derivation.rooted (ignoreCase : Bool) (derivation : Derivation)
    (words : Worded derivation.lexemes)
    : Rooted ignoreCase (derivation.pattern ignoreCase) := by
  cases derivation with
  | empty => exact .empty
  | ofAlternatives contents =>
      have hf := contents.formed ignoreCase words
      cases contents with
      | last items => exact .formed (hf _ (by simp [Alternatives.patterns]))
      | cons items rest =>
          refine .wrappedChoice ?_ ?_
          · simpa using rest.one_le_length_patterns ignoreCase
          · simpa [Alternatives.patterns] using hf

/-- What a formed pattern contributes to a sequence is formed, and not nothing. -/
theorem Formed.spliced {ignoreCase : Bool} {p : Pattern} (h : Formed ignoreCase p)
    : p.spliced ≠ [] ∧ ∀ q ∈ p.spliced, Formed ignoreCase q := by
  cases h with
  | sequence filled formed => exact ⟨filled, formed⟩
  | literal isWord caseKept => simpa [Pattern.spliced] using Formed.literal isWord caseKept
  | parameter isWord typeIsWord =>
      simpa [Pattern.spliced] using Formed.parameter isWord typeIsWord
  | tail isWord => simpa [Pattern.spliced] using Formed.tail isWord
  | optional isWord formed => simpa [Pattern.spliced] using Formed.optional isWord formed
  | bareChoice isWord several formed =>
      simpa [Pattern.spliced] using Formed.bareChoice isWord several formed
  | choice isWord several formed =>
      simpa [Pattern.spliced] using Formed.choice isWord several formed

theorem formed_ofSequence {ignoreCase : Bool} {ps : List Pattern} (filled : ps ≠ [])
    (formed : ∀ p ∈ ps, Formed ignoreCase p)
    : Formed ignoreCase (Pattern.ofSequence ps) := by
  by_cases hl : ps.length = 1
  · obtain ⟨p, rfl⟩ := List.length_eq_one_iff.mp hl
    exact formed p (List.mem_singleton.mpr rfl)
  · rw [Pattern.ofSequence_of_length_ne hl]
    exact .sequence filled formed

/-- Flattening keeps a pattern formed, by induction on its shape. -/
theorem Formed.flattened {ignoreCase : Bool} {p : Pattern} (h : Formed ignoreCase p)
    : Formed ignoreCase p.flattened := by
  induction h with
  | literal isWord caseKept => exact .literal isWord caseKept
  | parameter isWord typeIsWord => exact .parameter isWord typeIsWord
  | tail isWord => exact .tail isWord
  | optional isWord formed ih => exact .optional isWord ih
  | bareChoice isWord several formed ih =>
      rw [Pattern.flattened, Pattern.flattened_variant (.inr (by omega))]
      exact .bareChoice isWord (by simpa using several) (by simpa using ih)
  | choice isWord several formed ih =>
      rw [Pattern.flattened_variant (.inr (by omega))]
      exact .choice isWord (by simpa using several) (by simpa using ih)
  | @sequence children filled formed ih =>
      rw [Pattern.flattened_sequence]
      refine formed_ofSequence ?_ (fun q hq => ?_)
      · obtain ⟨first, rest, rfl⟩ := List.exists_cons_of_ne_nil filled
        simp [(ih first List.mem_cons_self).spliced.1]
      · obtain ⟨child, hc, hq⟩ := List.mem_flatMap.mp hq
        exact (ih child hc).spliced.2 q hq

/-- Flattening keeps a whole pattern one. -/
theorem Rooted.flattened {ignoreCase : Bool} {p : Pattern} (h : Rooted ignoreCase p)
    : Rooted ignoreCase p.flattened := by
  cases h with
  | formed formed => exact .formed formed.flattened
  | empty => exact .empty
  | choice several formed =>
      rw [Pattern.flattened_variant (.inr (by omega))]
      exact .choice (by simpa using several) (by simpa using fun p hp => (formed p hp).flattened)
  | wrappedChoice several formed =>
      rw [Pattern.flattened_singleton, Pattern.flattened_variant (.inr (by omega))]
      exact .choice (by simpa using several) (by simpa using fun p hp => (formed p hp).flattened)

/-- Unwrapping keeps a whole pattern one. -/
theorem Rooted.unwrapped {ignoreCase : Bool} {p : Pattern} (h : Rooted ignoreCase p)
    : Rooted ignoreCase (Compiler.unwrapped p) := by
  cases h with
  | formed formed =>
      unfold Compiler.unwrapped
      split
      · cases formed with
        | sequence filled formed => exact .formed (formed _ (List.mem_singleton.mpr rfl))
      · exact .formed formed
  | empty => exact .empty
  | choice several formed => exact .choice several formed
  | wrappedChoice several formed => exact .choice several formed

/-- Every mode keeps a whole pattern one. -/
theorem Rooted.simplified {ignoreCase : Bool} {p : Pattern} (h : Rooted ignoreCase p)
    (mode : Simplify)
    : Rooted ignoreCase (Compiler.simplified mode p) := by
  cases mode with
  | no => exact h
  | warn => exact h.unwrapped
  | yes => exact h.unwrapped.flattened
  | silently => exact h.unwrapped.flattened

/-- A pattern flattens as it does unwrapped. -/
theorem flattened_unwrapped (p : Pattern) : (Compiler.unwrapped p).flattened = p.flattened := by
  unfold Compiler.unwrapped
  split
  · exact (Pattern.flattened_singleton _).symm
  · rfl

/-- No mode changes what a pattern flattens to. -/
theorem flattened_simplified (mode : Simplify) (p : Pattern)
    : (Compiler.simplified mode p).flattened = p.flattened := by
  cases mode with
  | no => rfl
  | warn => exact flattened_unwrapped p
  | yes | silently => exact (Pattern.flattened_flattened _).trans (flattened_unwrapped p)

theorem Formed.ne_empty {ignoreCase : Bool} {p : Pattern} (h : Formed ignoreCase p)
    : p ≠ .sequence [] := by
  cases h with
  | sequence filled formed => exact fun he => filled (Pattern.sequence.inj he)
  | _ => exact nofun

/-- A choice of several solid alternatives is solid. -/
theorem isSolid_variant {identifier : Option String} {parenthesized : Bool}
    {alternatives : List Pattern} (several : 2 ≤ alternatives.length)
    (solid : ∀ p ∈ alternatives, p.IsSolid)
    : (Pattern.variant identifier parenthesized alternatives).IsSolid := by
  have hl : alternatives.length ≠ 1 := by omega
  exact Pattern.isSolid_iff.mpr ⟨hl, solid⟩

/-- Formed patterns are solid, by induction on their shape. -/
theorem Formed.isSolid {ignoreCase : Bool} {p : Pattern} (h : Formed ignoreCase p)
    : p.IsSolid := by
  induction h with
  | literal isWord caseKept => exact Pattern.isSolid_iff.mpr ⟨trivial, nofun⟩
  | parameter isWord typeIsWord => exact Pattern.isSolid_iff.mpr ⟨trivial, nofun⟩
  | tail isWord => exact Pattern.isSolid_iff.mpr ⟨trivial, nofun⟩
  | optional isWord formed ih =>
      exact Pattern.isSolid_iff.mpr ⟨trivial, List.forall_mem_singleton.mpr ih⟩
  | bareChoice isWord several formed ih =>
      refine Pattern.isSolid_iff.mpr ⟨trivial, List.forall_mem_singleton.mpr ?_⟩
      exact isSolid_variant several ih
  | choice isWord several formed ih => exact isSolid_variant several ih
  | sequence filled formed ih =>
      exact Pattern.isSolid_iff.mpr ⟨fun child hc => (formed child hc).ne_empty, ih⟩

/-- Whole patterns are solid. -/
theorem Rooted.isSolid {ignoreCase : Bool} {p : Pattern} (h : Rooted ignoreCase p)
    : p.IsSolid := by
  cases h with
  | formed formed => exact formed.isSolid
  | empty => exact Pattern.isSolid_iff.mpr ⟨nofun, nofun⟩
  | choice several formed => exact isSolid_variant several (fun p hp => (formed p hp).isSolid)
  | wrappedChoice several formed =>
      refine Pattern.isSolid_iff.mpr ⟨List.forall_mem_singleton.mpr nofun, ?_⟩
      exact List.forall_mem_singleton.mpr
        (isSolid_variant several (fun p hp => (formed p hp).isSolid))

------------------------------------------------------------
-- Compiled patterns

/-- What a parsed definition is: a whole pattern that binds distinct names. -/
theorem rooted_of_parse {ignoreCase : Bool} {definition : String} {root : Pattern}
    (h : parse ignoreCase definition = .ok root)
    : Rooted ignoreCase root ∧ root.bindingNames.Nodup := by
  have distinct := nodup_bindingNames_of_parse h
  obtain ⟨derivation, hl, -, rfl⟩ := parse_eq_ok_iff.mp h
  exact ⟨derivation.rooted ignoreCase (hl ▸ worded_lexemes definition), distinct⟩

/-- So is what a definition compiles to. -/
theorem rooted_of_compile {compiler : Compiler} {definition : String} {p : Pattern}
    (h : compiler.compile definition = .ok p)
    : Rooted compiler.ignoreCase p ∧ p.bindingNames.Nodup := by
  obtain ⟨root, hp, rfl⟩ := compile_eq_ok_iff.mp h
  obtain ⟨rooted, distinct⟩ := rooted_of_parse hp
  exact ⟨rooted.simplified compiler.simplify, by rwa [bindingNames_simplified]⟩

end CallGrammar.Definition

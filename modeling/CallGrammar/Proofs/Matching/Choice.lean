import CallGrammar.Matching.Run
import Mathlib.Data.List.Forall2

/-! Choosing the best of several results. Where the scores of the successes are ordered, the
earliest one of greatest score is chosen.
-/

namespace CallGrammar

variable {σ ε α : Type} [Scale σ]

/-- Scores that the comparisons of their scale order from the least to the greatest. -/
structure OrderedOn (scores : σ → Prop) : Prop where
  not_lt {a b : σ} : scores a → scores b → (¬ a < b ↔ b ≤ a)
  le_trans {a b c : σ} : scores a → scores b → scores c → a ≤ b → b ≤ c → a ≤ c
  le_total {a b : σ} : scores a → scores b → a ≤ b ∨ b ≤ a

namespace OrderedOn

variable {scores : σ → Prop} {a b c : σ}

theorem le_refl (h : OrderedOn scores) (ha : scores a) : a ≤ a :=
  (h.le_total ha ha).elim id id

theorem le_of_lt (h : OrderedOn scores) (ha : scores a) (hb : scores b) (hlt : a < b) : a ≤ b :=
  (h.le_total ha hb).resolve_right fun hn => (h.not_lt ha hb).mpr hn hlt

theorem lt_of_le_of_lt (h : OrderedOn scores) (ha : scores a) (hb : scores b) (hc : scores c)
    (hab : a ≤ b) (hbc : b < c)
    : a < c := by
  apply Decidable.byContradiction
  intro hn
  have hca := (h.not_lt ha hc).mp hn
  exact (h.not_lt hb hc).mpr (h.le_trans hc ha hb hca hab) hbc

end OrderedOn

/-- Of the candidates that stand at places, the earliest one of greatest score. -/
structure Leads (score : α → σ) (stands : Nat → α → Prop) (index : Nat) (chosen : α) : Prop where
  found : stands index chosen
  le : ∀ place other, stands place other → score other ≤ score chosen
  lt : ∀ place other, stands place other → place < index → score other < score chosen

/-- What is seen of candidates leads as they do if their scores are seen. -/
theorem Leads.map {β : Type} (f : α → β) {score : β → σ} {stands : Nat → α → Prop}
    {stands' : Nat → β → Prop} {index : Nat} {chosen : α}
    (h : Leads (fun candidate => score (f candidate)) stands index chosen)
    (same : ∀ place seen,
      stands' place seen ↔ ∃ candidate, stands place candidate ∧ f candidate = seen)
    : Leads score stands' index (f chosen) where
  found := (same index (f chosen)).mpr ⟨chosen, h.found, rfl⟩
  le place seen ho := by
    obtain ⟨other, stands, rfl⟩ := (same place seen).mp ho
    exact h.le place other stands
  lt place seen ho := by
    obtain ⟨other, stands, rfl⟩ := (same place seen).mp ho
    exact h.lt place other stands

theorem Leads.congr {score : α → σ} {stands stands' : Nat → α → Prop} {index : Nat} {chosen : α}
    (h : Leads score stands index chosen)
    (same : ∀ place candidate, stands place candidate ↔ stands' place candidate)
    : Leads score stands' index chosen :=
  h.map id fun place candidate => by simp [same]

/-- A success and its place among results. -/
def Succeeds (results : List (Except ε α)) (place : Nat) (candidate : α) : Prop :=
  results[place]? = some (.ok candidate)

/-- A choice among results: no success where there is none, else one of them with its place. Where
the scores of all successes are ordered, the chosen one leads them.
-/
def IsChoice (score : α → σ) (results : List (Except ε α)) : Option (Nat × α) → Prop
  | none => ∀ candidate, .ok candidate ∉ results
  | some (index, chosen) =>
      Succeeds results index chosen
      ∧ ∀ {scores : σ → Prop}, OrderedOn scores
        → (∀ candidate, .ok candidate ∈ results → scores (score candidate))
        → Leads score (Succeeds results) index chosen

/-- An element of an extended list was there before or is the last one. -/
theorem getElem?_snoc_iff {β : Type} {elements : List β} {last element : β} {place : Nat}
    : (elements ++ [last])[place]? = some element
      ↔ elements[place]? = some element ∨ (place = elements.length ∧ last = element) := by
  rcases Nat.lt_trichotomy place elements.length with hl | rfl | hg
  · rw [List.getElem?_append_left hl]
    simp [Nat.ne_of_lt hl]
  · simp
  · rw [List.getElem?_eq_none (by simp; omega), List.getElem?_eq_none (by omega)]
    simp [Nat.ne_of_gt hg]

theorem succeeds_snoc_error_iff {results : List (Except ε α)} {e : ε} {place : Nat} {candidate : α}
    : Succeeds (results ++ [.error e]) place candidate ↔ Succeeds results place candidate := by
  simp [Succeeds, getElem?_snoc_iff]

theorem succeeds_snoc_ok_iff {results : List (Except ε α)} {last : α} {place : Nat}
    {candidate : α}
    : Succeeds (results ++ [.ok last]) place candidate
      ↔ Succeeds results place candidate ∨ (place = results.length ∧ last = candidate) := by
  simp [Succeeds, getElem?_snoc_iff]

namespace IsChoice

variable {score : α → σ} {results : List (Except ε α)}

theorem nil : IsChoice score ([] : List (Except ε α)) none := by
  simp [IsChoice]

/-- A failure changes no choice. -/
theorem snoc_error {best : Option (Nat × α)} (h : IsChoice score results best) (e : ε)
    : IsChoice score (results ++ [.error e]) best := by
  match best with
  | none => simpa [IsChoice] using h
  | some (index, chosen) =>
      refine ⟨succeeds_snoc_error_iff.mpr h.1, ?_⟩
      intro scores ordered hscores
      have leads := h.2 ordered fun candidate hm => hscores candidate (List.mem_append_left _ hm)
      exact leads.congr fun place candidate => succeeds_snoc_error_iff.symm

/-- A success that is better than all before it is chosen. -/
theorem snoc_leader {candidate : α}
    (h : ∀ {scores : σ → Prop}, OrderedOn scores
      → (∀ other, .ok other ∈ results ++ [.ok candidate] → scores (score other))
      → ∀ place other, Succeeds results place other → score other < score candidate)
    : IsChoice score (results ++ [.ok candidate]) (some (results.length, candidate)) := by
  refine ⟨succeeds_snoc_ok_iff.mpr (.inr ⟨rfl, rfl⟩), ?_⟩
  intro scores ordered hscores
  have hlast : scores (score candidate) := hscores candidate (by simp)
  constructor
  · exact succeeds_snoc_ok_iff.mpr (.inr ⟨rfl, rfl⟩)
  · intro place other ho
    rcases succeeds_snoc_ok_iff.mp ho with hbefore | ⟨-, rfl⟩
    · have hother := hscores other (List.mem_append_left _ (List.mem_of_getElem? hbefore))
      exact ordered.le_of_lt hother hlast (h ordered hscores place other hbefore)
    · exact ordered.le_refl hlast
  · intro place other ho hplace
    rcases succeeds_snoc_ok_iff.mp ho with hbefore | ⟨rfl, -⟩
    · exact h ordered hscores place other hbefore
    · exact absurd hplace (Nat.lt_irrefl _)

/-- The first success is chosen. -/
theorem snoc_first (h : IsChoice score results none) (candidate : α)
    : IsChoice score (results ++ [.ok candidate]) (some (results.length, candidate)) := by
  apply snoc_leader
  intro scores _ _ place other ho
  exact absurd (List.mem_of_getElem? ho) (h other)

/-- A success of greater score than the choice so far is chosen instead. -/
theorem snoc_better {index : Nat} {chosen candidate : α}
    (h : IsChoice score results (some (index, chosen))) (better : score chosen < score candidate)
    : IsChoice score (results ++ [.ok candidate]) (some (results.length, candidate)) := by
  apply snoc_leader
  intro scores ordered hscores place other ho
  have before {other : α} {place : Nat} (ho : Succeeds results place other)
      : scores (score other) :=
    hscores other (List.mem_append_left _ (List.mem_of_getElem? ho))
  have leads := h.2 ordered fun candidate hm => hscores candidate (List.mem_append_left _ hm)
  exact ordered.lt_of_le_of_lt (before ho) (before h.1) (hscores candidate (by simp))
    (leads.le place other ho) better

/-- A success of no greater score changes no choice. -/
theorem snoc_worse {index : Nat} {chosen candidate : α}
    (h : IsChoice score results (some (index, chosen)))
    (worse : ¬ score chosen < score candidate)
    : IsChoice score (results ++ [.ok candidate]) (some (index, chosen)) := by
  obtain ⟨hindex, -⟩ := List.getElem?_eq_some_iff.mp h.1
  refine ⟨succeeds_snoc_ok_iff.mpr (.inl h.1), ?_⟩
  intro scores ordered hscores
  have leads := h.2 ordered fun candidate hm => hscores candidate (List.mem_append_left _ hm)
  have hchosen : scores (score chosen) :=
    hscores chosen (List.mem_append_left _ (List.mem_of_getElem? h.1))
  constructor
  · exact succeeds_snoc_ok_iff.mpr (.inl h.1)
  · intro place other ho
    rcases succeeds_snoc_ok_iff.mp ho with hbefore | ⟨-, rfl⟩
    · exact leads.le place other hbefore
    · exact (ordered.not_lt hchosen (hscores candidate (by simp))).mp worse
  · intro place other ho hplace
    rcases succeeds_snoc_ok_iff.mp ho with hbefore | ⟨rfl, -⟩
    · exact leads.lt place other hbefore hplace
    · exact absurd hindex (Nat.lt_asymm hplace)

end IsChoice

/-- The choice among the results seen so far goes on to the choice among all of them, by
induction on the rest.
-/
theorem isChoice_earliestBest {score : α → σ} {seen : List (Except ε α)}
    {best : Option (Nat × α)} (h : IsChoice score seen best) (rest : List (Except ε α))
    : IsChoice score (seen ++ rest) (earliestBest score best seen.length rest) := by
  induction rest generalizing seen best with
  | nil => simpa [earliestBest] using h
  | cons result rest ih =>
      have next {best : Option (Nat × α)} (h : IsChoice score (seen ++ [result]) best)
          : IsChoice score (seen ++ result :: rest)
              (earliestBest score best (seen.length + 1) rest) := by
        simpa using ih h
      cases result with
      | error e => exact next (h.snoc_error e)
      | ok candidate =>
          rw [earliestBest]
          match best with
          | none => exact next (h.snoc_first candidate)
          | some (index, chosen) =>
              by_cases better : score chosen < score candidate
              · rw [if_pos (by simpa using better)]
                exact next (h.snoc_better better)
              · rw [if_neg (by simpa using better)]
                exact next (h.snoc_worse better)

theorem isChoice_of_eq {score : α → σ} {results : List (Except ε α)} {best : Option (Nat × α)}
    (h : earliestBest score none 0 results = best)
    : IsChoice score results best :=
  h ▸ isChoice_earliestBest .nil results

------------------------------------------------------------
-- Two choices beside each other

/-- Results of which both are successes, related by `R`, or both are errors, related by `E`. -/
inductive ExceptRel {ε ε' α α' : Type} (E : ε → ε' → Prop) (R : α → α' → Prop)
    : Except ε α → Except ε' α' → Prop
  | ok {a a'} (related : R a a') : ExceptRel E R (.ok a) (.ok a')
  | error {e e'} (related : E e e') : ExceptRel E R (.error e) (.error e')

/-- No choice, or two choices at the same place that are related by `R`. -/
abbrev ChoiceRel {α α' : Type} (R : α → α' → Prop) : Option (Nat × α) → Option (Nat × α') → Prop :=
  Option.Rel fun chosen chosen' => chosen.1 = chosen'.1 ∧ R chosen.2 chosen'.2

/-- Among results that are related one by one and score alike, the best ones stand at the same
place, by induction on the results.
-/
theorem choiceRel_earliestBest {ε' α' : Type} {E : ε → ε' → Prop} {R : α → α' → Prop}
    {score : α → σ} {score' : α' → σ} (scores : ∀ a a', R a a' → score a = score' a')
    {results : List (Except ε α)} {results' : List (Except ε' α')}
    (h : List.Forall₂ (ExceptRel E R) results results') {best : Option (Nat × α)}
    {best' : Option (Nat × α')} (hb : ChoiceRel R best best') (index : Nat)
    : ChoiceRel R (earliestBest score best index results)
        (earliestBest score' best' index results') := by
  induction h generalizing best best' index with
  | nil => exact hb
  | cons first rest ih =>
      cases first with
      | error => exact ih hb (index + 1)
      | @ok candidate candidate' related =>
          have hbest : best.all (fun chosen => score candidate > score chosen.2)
              = best'.all (fun chosen => score' candidate' > score' chosen.2) := by
            cases hb with
            | none => rfl
            | some chosen => simp [scores _ _ related, scores _ _ chosen.2]
          rw [earliestBest, earliestBest, hbest]
          split
          · exact ih (.some ⟨rfl, related⟩) (index + 1)
          · exact ih hb (index + 1)

end CallGrammar

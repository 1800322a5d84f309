import CallGrammar.Matching.Best
import CallGrammar.Proofs.Matching.Comparison

/-! Settings for diagnostics decide nothing. The threshold of similarity only flags reasons, and a
type that no candidate names is never asked, so neither reaches a score, a choice or a binding.
-/

namespace CallGrammar

variable {σ : Type}

------------------------------------------------------------
-- Several candidates beside each other

/-- Best matches with the same candidate and outcome, or failures that are alike. -/
abbrev BestMatch.Alike (d : Difference)
    : Except (Failure σ) (BestMatch σ) → Except (Failure σ) (BestMatch σ) → Prop :=
  ExceptRel (Failure.Alike d) Eq

/-- Attempts of one candidate without a fault: the same outcome, or rejections that are alike. -/
abbrev Attempt.Settled (d : Difference) : Attempt σ → Attempt σ → Prop :=
  ExceptRel (Rejected.Alike (Mismatch.Alike d)) Eq

/-- The rejections among attempts that are alike one by one are so, too, by list induction. -/
theorem Matcher.alike_rejections {d : Difference} {attempts attempts' : List (Attempt σ)}
    (h : List.Forall₂ (Attempt.Settled d) attempts attempts')
    : List.Forall₂ (Rejected.Alike (Mismatch.Alike d))
        (rejections attempts) (rejections attempts') := by
  induction h with
  | nil => exact .nil
  | cons first _ ih =>
      cases first with
      | ok _ => exact ih
      | error rejected => exact .cons rejected ih

variable [Scale σ]

/-- Among attempts that are alike one by one, the same candidate is chosen, or all are rejected. -/
theorem Matcher.alike_choose {d : Difference} {attempts attempts' : List (Attempt σ)}
    (h : List.Forall₂ (Attempt.Settled d) attempts attempts')
    : ExceptRel (Mismatch.Alike d) Eq (choose attempts) (choose attempts') := by
  have scores : ∀ outcome outcome' : Outcome σ,
      outcome = outcome' → outcome.score = outcome'.score := fun _ _ same => same ▸ rfl
  have chosen := choiceRel_earliestBest scores h .none 0
  unfold choose
  generalize earliestBest Outcome.score none 0 attempts = best at chosen
  generalize earliestBest Outcome.score none 0 attempts' = best' at chosen
  cases chosen with
  | none => exact .error (.noCandidate (alike_rejections h))
  | @some best best' same =>
      obtain ⟨index, outcome⟩ := best
      obtain ⟨_, _⟩ := best'
      obtain ⟨rfl, rfl⟩ := same
      exact .ok rfl

/-- Nothing but the rejections of all candidates is a mismatch with several of them. -/
theorem Matcher.exists_rejections_of_matchBest {m : Matcher} {ps : List Pattern} {raw : String}
    {reason : Mismatch σ} (h : m.matchBest ps raw = .error (.mismatch reason))
    : ∃ rejections, reason = .noCandidate rejections := by
  unfold matchBest at h
  split at h
  · cases h
  · split at h
    · cases h
    · rename_i attempts _
      unfold choose at h
      split at h
      · cases h
      · cases h
        exact ⟨rejections attempts, rfl⟩

namespace Comparison

variable {c : Comparison}

/-- Attempts of candidates on related tokens are alike up to the first fault, and so is the fault,
by induction on the candidates.
-/
theorem alike_attemptAll {ps : List Pattern} (shared : ∀ p ∈ ps, c.SharesTypes p)
    {tokens tokens' : List Token} (related : List.Forall₂ c.related tokens tokens') (index : Nat)
    : List.Forall₂ (Attempt.Settled c.difference)
        (c.left.attemptAll index ps tokens c.leftRaw : List (Attempt σ) × Option Fault).1
        (c.right.attemptAll index (ps.map (.recased c.recase)) tokens' c.rightRaw).1
      ∧ Option.Rel c.difference.fault
        (c.left.attemptAll index ps tokens c.leftRaw : List (Attempt σ) × Option Fault).2
        (c.right.attemptAll index (ps.map (.recased c.recase)) tokens' c.rightRaw
          : List (Attempt σ) × Option Fault).2 := by
  induction ps generalizing index with
  | nil => exact ⟨.nil, .none⟩
  | cons p rest ih =>
      have first : Attempt.Alike c.difference
          (c.left.attempt index p tokens c.leftRaw : Except Fault (Attempt σ))
          (c.right.attempt index (p.recased c.recase) tokens' c.rightRaw) :=
        alike_attempt (shared p List.mem_cons_self) related index
      have later := ih (fun q hq => shared q (List.mem_cons_of_mem p hq)) (index + 1)
      rw [List.map_cons, Matcher.attemptAll, Matcher.attemptAll]
      generalize (c.left.attempt index p tokens c.leftRaw : Except Fault (Attempt σ)) = result
        at first
      generalize (c.right.attempt index (p.recased c.recase) tokens' c.rightRaw
        : Except Fault (Attempt σ)) = result' at first
      cases first with
      | error faults => exact ⟨.nil, .some faults⟩
      | ok settled => exact ⟨.cons settled later.1, later.2⟩

/-- Calls that are cut into related tokens, or into none for faults that are alike, have best
matches that are alike.
-/
theorem alike_matchBest {ps : List Pattern} (shared : ∀ p ∈ ps, c.SharesTypes p)
    (cut : ExceptRel c.difference.fault (List.Forall₂ c.related)
      (c.left.tokenize c.leftRaw) (c.right.tokenize c.rightRaw))
    : BestMatch.Alike c.difference
        (c.left.matchBest ps c.leftRaw : Except (Failure σ) (BestMatch σ))
        (c.right.matchBest (ps.map (.recased c.recase)) c.rightRaw) := by
  unfold Matcher.matchBest
  generalize c.left.tokenize c.leftRaw = tokens at cut
  generalize c.right.tokenize c.rightRaw = tokens' at cut
  cases cut with
  | error faults => exact .error (.fault faults)
  | @ok tokens tokens' related =>
      have each := alike_attemptAll (σ := σ) shared related 0
      dsimp only
      generalize (c.left.attemptAll 0 ps tokens c.leftRaw : List (Attempt σ) × Option Fault) = tried
        at each
      generalize (c.right.attemptAll 0 (ps.map (.recased c.recase)) tokens' c.rightRaw
        : List (Attempt σ) × Option Fault) = tried' at each
      obtain ⟨attempts, fault⟩ := tried
      obtain ⟨attempts', fault'⟩ := tried'
      obtain ⟨settled, faults⟩ := each
      cases faults with
      | some faults => exact .error (.fault faults)
      | none =>
          have chosen := Matcher.alike_choose settled
          dsimp only
          generalize Matcher.choose attempts = choice at chosen
          generalize Matcher.choose attempts' = choice' at chosen
          cases chosen with
          | ok same => exact .ok same
          | error reasons => exact .error (.mismatch reasons)

end Comparison

------------------------------------------------------------
-- Settings for diagnostics

/-- Answers that may differ in which tokens are said to resemble a word, and in nothing else. -/
def Difference.similarFlags : Difference where
  token := Eq
  similar _ _ := True
  alternatives := Eq
  fault := Eq

/-- Two matchers that cut calls and compare words alike, on the same call. Nothing is asked of
their thresholds, nor of how similarity is measured.
-/
def Comparison.diagnostics (m m' : Matcher) (raw : String)
    (caseSensitive : m.caseSensitive = m'.caseSensitive) (maxDepth : m.maxDepth = m'.maxDepth)
    : Comparison where
  left := m
  right := m'
  leftRaw := raw
  rightRaw := raw
  difference := .similarFlags
  related found found' := found' = found
  recase := id
  maxDepth_eq := maxDepth
  value_eq := by
    rintro found _ rfl
    rfl
  token_of_related := Eq.symm
  text_eq := by
    rintro first _ last _ rfl rfl
    rfl
  accepts_eq text value wordCase := by
    unfold Matcher.accepts
    rw [caseSensitive]
    rfl
  similar_false := trivial
  similar_isSimilar _ _ := trivial
  alternatives_render := Pattern.map_render_recased_id
  fault_self _ := rfl

/-- Diagnostics decide nothing. Let two matchers have the same quotes, case and depth limit and
agree on every type that some candidates name: it is known to both or to neither, and they convert
every argument alike. Whatever their thresholds of similarity and their other types are, a call has
the same best match in both; or both reject all candidates, each after the same progress and for
reasons that differ at most in flags of similarity; or both stop with the same fault.
-/
theorem matchBest_ignores_diagnostics {m m' : Matcher} {ps : List Pattern}
    (quotes : m.quotes = m'.quotes) (caseSensitive : m.caseSensitive = m'.caseSensitive)
    (maxDepth : m.maxDepth = m'.maxDepth)
    (types
      : ∀ p ∈ ps, ∀ name typeName, .parameter name (some typeName) ∈ p.traverse
        → m.types.contains typeName = m'.types.contains typeName
          ∧ ∀ argument, m.types.coerce typeName argument = m'.types.coerce typeName argument)
    (raw : String)
    : (∃ best : BestMatch σ, m.matchBest ps raw = .ok best ∧ m'.matchBest ps raw = .ok best)
      ∨ (∃ rejections rejections' : List (Rejection σ),
          m.matchBest ps raw = .error (.mismatch (.noCandidate rejections))
          ∧ m'.matchBest ps raw = .error (.mismatch (.noCandidate rejections'))
          ∧ List.Forall₂ (Rejected.Alike (Mismatch.Alike .similarFlags)) rejections rejections')
      ∨ ∃ fault,
          (m.matchBest ps raw : Except (Failure σ) (BestMatch σ)) = .error (.fault fault)
          ∧ (m'.matchBest ps raw : Except (Failure σ) (BestMatch σ)) = .error (.fault fault) := by
  let c := Comparison.diagnostics m m' raw caseSensitive maxDepth
  have cut : ExceptRel c.difference.fault (List.Forall₂ c.related)
      (c.left.tokenize raw) (c.right.tokenize raw) := by
    have same : c.left.tokenize raw = c.right.tokenize raw :=
      congrArg (Call.tokenize · raw) quotes
    rw [same]
    cases c.right.tokenize raw with
    | error fault => exact .error rfl
    | ok tokens => exact .ok (List.forall₂_same.mpr fun _ _ => rfl)
  have recased : ps.map (Pattern.recased c.recase) = ps := Pattern.map_recased_id ps
  have alike : BestMatch.Alike .similarFlags
      (m.matchBest ps raw : Except (Failure σ) (BestMatch σ))
      (m'.matchBest (ps.map (Pattern.recased c.recase)) raw) :=
    Comparison.alike_matchBest types cut
  rw [recased] at alike
  have rejected : ∀ reason : Mismatch σ, m.matchBest ps raw = .error (.mismatch reason)
      → ∃ rejections, reason = .noCandidate rejections :=
    fun _ h => Matcher.exists_rejections_of_matchBest h
  generalize (m.matchBest ps raw : Except (Failure σ) (BestMatch σ)) = answer at alike rejected ⊢
  generalize (m'.matchBest ps raw : Except (Failure σ) (BestMatch σ)) = answer' at alike ⊢
  cases alike with
  | ok same => exact .inl ⟨_, rfl, same ▸ rfl⟩
  | error failures =>
      cases failures with
      | fault same => exact .inr (.inr ⟨_, rfl, same ▸ rfl⟩)
      | mismatch reasons =>
          obtain ⟨rejections, rfl⟩ := rejected _ rfl
          cases reasons with
          | noCandidate each => exact .inr (.inl ⟨rejections, _, rfl, rfl, each⟩)

/-- A place that may be left out behind a word, and a single argument of a type. -/
def goHomeOrVerb : List Pattern :=
  [.sequence [.literal "go" true, .optional none (.literal "home" true)],
   .parameter "verb" (some "str")]

/-- A matcher that takes no token for a misspelled word and knows one more type. -/
def Matcher.unhelpful : Matcher :=
  { standard.register "color" .str with threshold := 2.0 }

theorem Matcher.unhelpful_shares_types
    : ∀ p ∈ goHomeOrVerb, ∀ name typeName, .parameter name (some typeName) ∈ p.traverse
      → standard.types.contains typeName = unhelpful.types.contains typeName
        ∧ ∀ argument,
            standard.types.coerce typeName argument
              = unhelpful.types.coerce typeName argument := by
  intro p member name typeName found
  have known : name = "verb" ∧ typeName = "str" := by
    simp only [Pattern.traverse_eq_preorder] at found
    simp only [goHomeOrVerb, List.mem_cons, List.not_mem_nil, or_false] at member
    rcases member with rfl | rfl
    · simp [Pattern.preorder, Pattern.preorderAll] at found
    · simpa [Pattern.preorder] using found
  obtain ⟨-, rfl⟩ := known
  exact ⟨by with_unfolding_all rfl, fun _ => by with_unfolding_all rfl⟩

/-- The rejections of "go hone", of which the first one hints at the word that did not fit. -/
def rejectedGoHone (similar : Bool) : List (Rejection Float) :=
  [⟨0, 0 + Scale.literal,
    .tooManyArguments ⟨"hone", ⟨3, 7⟩⟩
      (some (.expectedLiteral "home" (some ⟨"hone", ⟨3, 7⟩⟩) similar))⟩,
   ⟨1, 0 + Scale.parameter, .tooManyArguments ⟨"hone", ⟨3, 7⟩⟩ none⟩]

/-- A misspelled word that only one of two matchers takes for one: both reject the same candidates
after the same progress, and the hint differs in its flag.
-/
theorem matchBest_ignores_diagnostics_go_hone
    : Matcher.standard.matchBest goHomeOrVerb "go hone"
        = .error (.mismatch (.noCandidate (rejectedGoHone true)))
      ∧ Matcher.unhelpful.matchBest goHomeOrVerb "go hone"
        = .error (.mismatch (.noCandidate (rejectedGoHone false)))
      ∧ List.Forall₂ (Rejected.Alike (Mismatch.Alike .similarFlags))
          (rejectedGoHone true) (rejectedGoHone false) := by
  have helpful : Matcher.standard.matchBest goHomeOrVerb "go hone"
      = .error (.mismatch (.noCandidate
          (rejectedGoHone (Matcher.standard.isSimilar "home" "hone")))) := by
    with_unfolding_all rfl
  have unhelpful : Matcher.unhelpful.matchBest goHomeOrVerb "go hone"
      = .error (.mismatch (.noCandidate
          (rejectedGoHone (Matcher.unhelpful.isSimilar "home" "hone")))) := by
    with_unfolding_all rfl
  have similar : Matcher.standard.isSimilar "home" "hone" = true := by decide +kernel
  have dissimilar : Matcher.unhelpful.isSimilar "home" "hone" = false := by decide +kernel
  rw [similar] at helpful
  rw [dissimilar] at unhelpful
  have quotes : Matcher.standard.quotes = Matcher.unhelpful.quotes := rfl
  have answers := matchBest_ignores_diagnostics (σ := Float) quotes rfl rfl
    Matcher.unhelpful_shares_types "go hone"
  rw [helpful, unhelpful] at answers
  rcases answers with ⟨best, h, -⟩ | ⟨rejections, rejections', h, h', alike⟩ | ⟨fault, h, -⟩
  · cases h
  · cases h
    cases h'
    exact ⟨helpful, unhelpful, alike⟩
  · cases h

end CallGrammar

import CallGrammar.Proofs.Matching.Depth
import CallGrammar.Proofs.Matching.Progress
import CallGrammar.Proofs.Matching.RoundedScores

/-! Soundness of matching: a run that succeeds follows a greedy resolution, notes exactly what the
resolution decides and scores what it counts.
-/

namespace CallGrammar

variable {σ : Type}

namespace Tally

@[simp]
theorem score_recordOptional (tally : Tally σ) (identifier : Option String) (present : Bool)
    : (tally.recordOptional identifier present).score = tally.score := by
  cases identifier <;> rfl

@[simp]
theorem score_recordVariant (tally : Tally σ) (identifier : Option String) (index : Nat)
    : (tally.recordVariant identifier index).score = tally.score := by
  cases identifier <;> rfl

@[simp]
theorem score_join [Scale σ] (tally branch : Tally σ)
    : (tally.join branch).score = tally.score + branch.score :=
  rfl

end Tally

variable [Scale σ]

/-- Every run over a pattern that succeeds follows a greedy resolution, whose decisions account
for it and which is added to the score.
-/
def Accountable (scale : Type) [Scale scale] (m : Matcher) (p : Pattern) : Prop :=
  ∀ {tokens rest : List Token} {tally after : Tally scale},
    m.run p tokens tally = (.ok rest, after)
    → ∃ r : Resolution,
        Resolves scale m tally.raw tally.depth p tokens r rest
        ∧ Progress m tally tokens r.decisions rest after
        ∧ after.score = r.addedTo tally.score

/-- A pattern is accountable if what happens inside is. -/
theorem accountable_of_inside {m : Matcher} {p : Pattern}
    (h : ∀ {tokens rest} {tally after : Tally σ}, tally.enter.terminated = false
      → m.inside p tokens tally.enter = (.ok rest, after)
      → ∃ r : Resolution,
          Resolves σ m tally.raw tally.depth p tokens r rest
          ∧ Progress m tally.enter tokens r.decisions rest after
          ∧ after.score = r.addedTo tally.score)
    : Accountable σ m p := by
  intro tokens rest tally after hr
  rw [Matcher.run_eq_visit] at hr
  obtain ⟨ht, last, hi, rfl⟩ := Matcher.visit_eq_ok hr
  obtain ⟨r, hr, hp, hs⟩ := h ht hi
  exact ⟨r, hr, hp.leave, hs⟩

/-- A leaf of a pattern took the front of the tokens. -/
structure TookLeaf (m : Matcher) (tally : Tally σ) (p : Pattern) (tokens : List Token)
    (leaf : Leaf) (rest : List Token) (after : Tally σ) : Prop where
  pattern_eq : leaf.pattern = p
  accepted : leaf.Accepted m tally.raw
  tokens_eq : tokens = leaf.tokens ++ rest
  whole : leaf.isTail = true → rest = []
  notes : tally.Notes [.leaf leaf] after
  score_eq : after.score = tally.score + leaf.weight

theorem TookLeaf.resolves {m : Matcher} {tally after : Tally σ} {p : Pattern} {leaf : Leaf}
    {tokens rest : List Token} (h : TookLeaf m tally p tokens leaf rest after) (depth : Nat)
    : Resolves σ m tally.raw depth p tokens (.leaf leaf) rest := by
  obtain ⟨rfl, accepted, rfl, whole, -, -⟩ := h
  exact .leaf accepted whole

theorem TookLeaf.progress {m : Matcher} {tally after : Tally σ} {p : Pattern} {leaf : Leaf}
    {tokens rest : List Token} (h : TookLeaf m tally p tokens leaf rest after)
    (ht : tally.terminated = false)
    : Progress m tally tokens [.leaf leaf] rest after where
  notes := h.notes
  takes := ⟨leaf.tokens, h.tokens_eq, takeInTurn_singleton h.accepted⟩
  ended hr := by
    rw [h.notes.terminated_eq, ht] at hr
    exact h.whole (by simpa [Decision.leaf?] using hr)

/-- A word that matches takes a token, by cases on the tokens. -/
theorem tookLeaf_runLiteral {m : Matcher} {text : String} {caseSensitive : Bool}
    {tokens rest : List Token} {tally after : Tally σ}
    (h : m.runLiteral text caseSensitive tokens tally = (.ok rest, after))
    : ∃ leaf, TookLeaf m tally (.literal text caseSensitive) tokens leaf rest after := by
  unfold Matcher.runLiteral at h
  split at h
  · cases h
  · rename_i token others
    split at h
    · rename_i accepted
      cases h
      exact ⟨.literal text caseSensitive token, rfl, accepted, rfl, nofun,
        .literal tally _ _ token, rfl⟩
    · cases h

/-- A parameter that matches takes a token with the value that its type gives it, by cases on the
type and the tokens.
-/
theorem tookLeaf_runParameter {m : Matcher} {name : String} {typeName : Option String}
    {tokens rest : List Token} {tally after : Tally σ}
    (h : m.runParameter name typeName tokens tally = (.ok rest, after))
    : ∃ leaf, TookLeaf m tally (.parameter name typeName) tokens leaf rest after := by
  unfold Matcher.runParameter at h
  split at h
  · cases h
  · rename_i token others
    cases h
    exact ⟨.parameter name none token (.str token.value), rfl, rfl, rfl, nofun,
      .parameter tally name none token _, rfl⟩
  · split at h <;> cases h
  · rename_i typeName token others
    split at h
    · rename_i value accepted
      cases h
      exact ⟨.parameter name (some typeName) token value, rfl, accepted, rfl, nofun,
        .parameter tally name _ token value, rfl⟩
    · cases h
    · cases h

/-- A tail that matches takes all tokens. -/
theorem tookLeaf_runTail {m : Matcher} {name : String} {tokens rest : List Token}
    {tally after : Tally σ} (h : Matcher.runTail name tokens tally = (.ok rest, after))
    : ∃ leaf, TookLeaf m tally (.tail name) tokens leaf rest after := by
  unfold Matcher.runTail at h
  split at h
  · rename_i first last hf hl
    dsimp only at h
    split at h
    · cases h
    · rename_i filled
      cases h
      refine ⟨.tail name tokens _, rfl, ⟨first, hf, last, hl, rfl, ?_⟩,
        (List.append_nil _).symm, fun _ => rfl, .tail tally name tokens _, rfl⟩
      simpa using filled
  · cases h

/-- Accountable patterns are resolved one after the other, by list induction. -/
theorem exists_resolvesAll {m : Matcher} {ps : List Pattern}
    (accountable : ∀ p ∈ ps, Accountable σ m p) {tokens rest : List Token}
    {tally after : Tally σ} (ht : tally.terminated = false)
    (h : m.runAll ps tokens tally = (.ok rest, after))
    : ∃ parts,
        ResolvesAll σ m tally.raw tally.depth ps tokens parts rest
        ∧ Progress m tally tokens (Resolution.decisionsAll parts) rest after
        ∧ after.score = Resolution.addedAllTo tally.score parts := by
  induction ps generalizing tokens tally with
  | nil =>
      cases h
      exact ⟨[], .nil, .nil m ht _, rfl⟩
  | cons p ps ih =>
      rw [Matcher.runAll] at h
      split at h
      · rename_i left middle hp
        obtain ⟨r, hr, hf, scored⟩ := accountable p List.mem_cons_self hp
        have hd : middle.depth = tally.depth := by
          have hd := m.depth_run p tokens tally
          rwa [hp] at hd
        cases hm : middle.terminated with
        | true =>
            -- Behind a tail there is no room for another pattern.
            cases ps with
            | nil =>
                cases h
                exact ⟨[r], .cons hr .nil, by simpa [Resolution.decisionsAll] using hf, scored⟩
            | cons q qs =>
                obtain ⟨kind, hk⟩ := Matcher.runAll_of_terminated hm (List.cons_ne_nil q qs) m left
                rw [hk] at h
                cases h
        | false =>
            obtain ⟨parts, hs, hp, scoredAll⟩ :=
              ih (fun q hq => accountable q (List.mem_cons_of_mem p hq)) hm h
            rw [hf.notes.raw_eq, hd] at hs
            rw [scored] at scoredAll
            exact ⟨r :: parts, .cons hr hs, hf.append hm hp, scoredAll⟩
      · cases h

/-- A run on a branch tells how its pattern fits by itself. -/
theorem fitAt_of_branch {m : Matcher} {p : Pattern} {tokens rest : List Token}
    {tally branch : Tally σ} (h : m.run p tokens tally.branch = (.ok rest, branch))
    : m.fitAt tally.raw tally.depth p tokens = .ok (rest, branch.score) := by
  have hr : m.run p tokens (.fresh tally.raw tally.depth) = (.ok rest, branch) := h
  rw [Matcher.fitAt, hr]

section Alternatives

variable {m : Matcher} {alternatives : List Pattern} {tokens : List Token} {tally : Tally σ}
  {results : List (Except (Mismatch σ) (List Token × Tally σ))}

/-- What fits is what is seen of the results of the alternatives. -/
theorem fitsAt_iff (h : m.runEach alternatives tokens tally.branch = .ok results) (place : Nat)
    (fit : List Token × σ)
    : m.FitsAt tally.raw tally.depth alternatives tokens place fit
      ↔ ∃ result, Succeeds results place result ∧ (result.1, result.2.score) = fit := by
  constructor
  · rintro ⟨p, found, fits⟩
    obtain ⟨after, run, own⟩ := fitAt_eq_ok fits
    have stands := (Matcher.getElem?_runEach h place).mpr ⟨p, found, run⟩
    exact ⟨(fit.1, after), stands, Prod.ext rfl own⟩
  · rintro ⟨⟨left, after⟩, stands, rfl⟩
    obtain ⟨p, found, run⟩ := (Matcher.getElem?_runEach h place).mp stands
    exact ⟨p, found, fitAt_of_branch run⟩

/-- The best of the results leads all that fits. -/
theorem leads_of_chosen [OrderedScale σ]
    (h : m.runEach alternatives tokens tally.branch = .ok results)
    {index : Nat} {left : List Token} {branch : Tally σ}
    (best : earliestBest (fun result => result.2.score) none 0 results = some (index, left, branch))
    : Leads Prod.snd (m.FitsAt tally.raw tally.depth alternatives tokens) index
        (left, branch.score) := by
  have scores (result : List Token × Tally σ) (member : .ok result ∈ results)
      : IsScore result.2.score :=
    Matcher.isScore_of_mem_runEach (fun p _ => m.isScore_run p) .zero h member
  let seen (result : List Token × Tally σ) : List Token × σ := (result.1, result.2.score)
  have leads : Leads (fun result => (seen result).2) (Succeeds results) index (left, branch) :=
    (isChoice_of_eq best).2 OrderedScale.orderedOn scores
  exact leads.map seen (fitsAt_iff h)

end Alternatives

/-- Every pattern is accountable, by induction on the pattern. -/
theorem accountable (m : Matcher) (p : Pattern) : Accountable σ m p := by
  induction p with
  | literal text caseSensitive =>
      refine accountable_of_inside fun ht hi => ?_
      obtain ⟨leaf, hl⟩ := tookLeaf_runLiteral hi
      exact ⟨.leaf leaf, hl.resolves _, hl.progress ht, hl.score_eq⟩
  | parameter name typeName =>
      refine accountable_of_inside fun ht hi => ?_
      obtain ⟨leaf, hl⟩ := tookLeaf_runParameter hi
      exact ⟨.leaf leaf, hl.resolves _, hl.progress ht, hl.score_eq⟩
  | tail name =>
      refine accountable_of_inside fun ht hi => ?_
      obtain ⟨leaf, hl⟩ := tookLeaf_runTail hi
      exact ⟨.leaf leaf, hl.resolves _, hl.progress ht, hl.score_eq⟩
  | optional identifier inner ih =>
      refine accountable_of_inside fun {tokens rest tally after} ht hi => ?_
      rcases Matcher.settleOptional_eq_ok hi with ⟨branch, hb, rfl⟩ | ⟨reason, branch, hb, rfl, rfl⟩
      · obtain ⟨r, hr, hp, hs⟩ := ih hb
        have own : branch.score = r.score := hs
        refine ⟨.present identifier r, .present (own ▸ fitAt_of_branch hb) hr, ?_, ?_⟩
        · exact .grouped (.recordOptional tally.enter identifier true) rfl ht hp
        · rw [Tally.score_join, Tally.score_recordOptional, own]
          rfl
      · refine ⟨.absent identifier, .absent (fitAt_eq_error hb), ?_, ?_⟩
        · have hn := Tally.Notes.recordOptional tally.enter identifier false
          exact .group (hn.hinted _) rfl ht _
        · exact Tally.score_recordOptional tally.enter identifier false
  | variant identifier parenthesized alternatives ih =>
      refine accountable_of_inside fun {tokens rest tally after} ht hi => ?_
      obtain ⟨results, index, branch, he, hb, rfl⟩ := Matcher.settleVariant_eq_ok hi
      obtain ⟨alternative, ha, hrun⟩ := Matcher.exists_run_of_chosen he hb
      obtain ⟨r, hr, hp, hs⟩ := ih alternative (List.mem_of_getElem? ha) hrun
      have own : branch.score = r.score := hs
      refine ⟨.chosen identifier index r, .chosen ha ?_ hr ?_, ?_, ?_⟩
      · exact own ▸ fitAt_of_branch hrun
      · intro ordered
        exact own ▸ leads_of_chosen he hb
      · exact .grouped (.recordVariant tally.enter identifier index) rfl ht hp
      · rw [Tally.score_join, Tally.score_recordVariant, own]
        rfl
  | sequence children ih =>
      refine accountable_of_inside fun {tokens rest tally after} ht hi => ?_
      obtain ⟨parts, hr, hp, hs⟩ := exists_resolvesAll ih ht hi
      exact ⟨.sequence parts, .sequence hr, hp, hs⟩

/-- Matching is sound: a call that matches a pattern has a greedy resolution of the pattern whose
leaves take the tokens of the call in turn. The outcome lists the decisions about groups without
identifier in pre-order and binds the names in pre-order, a later one instead of an earlier one. Its
score is the sum of what the leaves count in the order of the run, with every group as one summand;
where scores add up in any grouping, that is the sum of the leaves.
-/
theorem matchCall_sound {m : Matcher} {p : Pattern} {raw : String} {outcome : Outcome σ}
    (h : m.matchCall p raw = .ok outcome)
    : ∃ tokens r,
        m.tokenize raw = .ok tokens
        ∧ Resolves σ m raw 0 p tokens r []
        ∧ TakeInTurn m raw r.leaves tokens
        ∧ outcome.optionals = r.optionals
        ∧ outcome.variants = r.variants
        ∧ outcome.bindings = .ofList r.entries
        ∧ outcome.score = r.score
        ∧ ∀ [ExactScale σ], (r.score : σ) = total r.leaves := by
  obtain ⟨tokens, tally, ht, hr, rfl⟩ := Matcher.matchCall_eq_ok h
  obtain ⟨r, hr, hp, hs⟩ := accountable m p hr
  obtain ⟨taken, he, hl⟩ := hp.takes
  rw [List.append_nil] at he
  subst he
  exact ⟨tokens, r, ht, hr, hl, hp.notes.optionals_eq, hp.notes.variants_eq,
    hp.notes.bindings_eq, hs, r.score_eq_total⟩

/-- A call in which one group is present and another absent, and in which the second alternative is
chosen, as it leads the first one by its floating-point score.
-/
theorem matchCall_sound_go_home
    : ∃ (alternatives : List Pattern) (outcome : Outcome Float),
        alternatives =
          [.sequence
            [.literal "go" true, .optional none (.literal "to" true), .parameter "place" none],
           .sequence
            [.literal "go" true, .optional none (.literal "to" true), .literal "home" true,
             .optional none (.tail "rest")]]
        ∧ Matcher.standard.matchCall (.variant (some "aim") true alternatives) "go to home"
          = .ok outcome
        ∧ ∃ tokens r,
            Matcher.standard.tokenize "go to home" = .ok tokens
            ∧ Resolves Float Matcher.standard "go to home" 0
                (.variant (some "aim") true alternatives) tokens r []
            ∧ TakeInTurn Matcher.standard "go to home" r.leaves tokens
            ∧ r.optionals = [true, false]
            ∧ r.variants = []
            ∧ .ofList r.entries = NameMap.ofList [("aim", Tally.indexValue 1)]
            ∧ r.score = (0 + (0 + 1.0 + (0 + 1.0) + 1.0) : Float)
            ∧ ∃ index alternative,
                r = .chosen (some "aim") index alternative
                ∧ Leads Prod.snd
                    (Matcher.standard.FitsAt "go to home" 1 alternatives tokens)
                    index ([], (alternative.score : Float)) := by
  let alternatives : List Pattern :=
    [.sequence
      [.literal "go" true, .optional none (.literal "to" true), .parameter "place" none],
     .sequence
      [.literal "go" true, .optional none (.literal "to" true), .literal "home" true,
       .optional none (.tail "rest")]]
  have matched
      : Matcher.standard.matchCall (.variant (some "aim") true alternatives) "go to home"
        = .ok (⟨.ofList [("aim", Tally.indexValue 1)], [true, false], [],
            0 + (0 + 1.0 + (0 + 1.0) + 1.0)⟩ : Outcome Float) := by
    with_unfolding_all rfl
  obtain ⟨tokens, r, ht, hr, hl, ho, hv, hb, hs, -⟩ := matchCall_sound matched
  exact ⟨alternatives, _, rfl, matched, tokens, r, ht, hr, hl, ho.symm, hv.symm, hb.symm, hs.symm,
    hr.exists_leads⟩

end CallGrammar

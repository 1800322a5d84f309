import CallGrammar.Proofs.Matching.Trace

/-! What a run that fails leaves in the tally. A leaf that fails has noted nothing, and a group that
fails is given up with the branches it was tried on. Only a sequence notes anything before it is
known to succeed: it leaves what its parts found before the one that failed.
-/

namespace CallGrammar

variable {σ : Type}

namespace Tally

/-- Coming back from a pattern undoes entering it. -/
@[simp]
theorem leave_enter (tally : Tally σ) : tally.enter.leave = tally :=
  rfl

/-- The tally with an optional group noted as absent, why it did not fit, and nothing else. -/
def omitting (tally : Tally σ) (identifier : Option String) (reason : Mismatch σ) : Tally σ :=
  match identifier with
  | none => { tally with optionals := tally.optionals ++ [false], hint := some reason }
  | some name =>
      { tally with bindings := tally.bindings.insert name (.bool false), hint := some reason }

end Tally

namespace Matcher

variable [Scale σ]

------------------------------------------------------------
-- Leaves and groups leave nothing

theorem tally_eq_of_failed_literal {m : Matcher} {text : String} {caseSensitive : Bool}
    {tokens : List Token} {tally after : Tally σ} {failure : Failure σ}
    (h : m.runLiteral text caseSensitive tokens tally = (.error failure, after))
    : after = tally := by
  unfold runLiteral at h
  split at h
  · cases h
    rfl
  · split at h
    · cases h
    · cases h
      rfl

theorem tally_eq_of_failed_parameter {m : Matcher} {name : String} {typeName : Option String}
    {tokens : List Token} {tally after : Tally σ} {failure : Failure σ}
    (h : m.runParameter name typeName tokens tally = (.error failure, after))
    : after = tally := by
  unfold runParameter at h
  split at h
  · cases h
    rfl
  · cases h
  · split at h <;> cases h <;> rfl
  · split at h
    · cases h
    · cases h
      rfl
    · cases h
      rfl

theorem tally_eq_of_failed_tail {name : String} {tokens : List Token} {tally after : Tally σ}
    {failure : Failure σ} (h : runTail name tokens tally = (.error failure, after))
    : after = tally := by
  unfold runTail at h
  split at h
  · dsimp only at h
    split at h
    · cases h
      rfl
    · cases h
  · cases h
    rfl

/-- An optional group fails only by a fault, which gives its branch up. -/
theorem tally_eq_of_failed_optional {identifier : Option String} {tokens : List Token}
    {tally after : Tally σ} {result : Verdict σ × Tally σ} {failure : Failure σ}
    (h : settleOptional identifier tokens tally result = (.error failure, after))
    : after = tally := by
  unfold settleOptional at h
  split at h
  · cases h
  · cases h
  · cases h
    rfl

/-- A variant fails by a fault of an alternative or where none fits, and gives all branches up. -/
theorem tally_eq_of_failed_variant {identifier : Option String} {alternatives : List Pattern}
    {tally after : Tally σ}
    {results : Except Fault (List (Except (Mismatch σ) (List Token × Tally σ)))}
    {failure : Failure σ}
    (h : settleVariant identifier alternatives tally results = (.error failure, after))
    : after = tally := by
  unfold settleVariant at h
  split at h
  · cases h
    rfl
  · split at h
    · cases h
    · cases h
      rfl

/-- Whatever is no sequence fails without a note, by cases on the kind. -/
theorem tally_eq_of_failed_inside {m : Matcher} {p : Pattern} (single : p.kind ≠ .sequence)
    {tokens : List Token} {tally after : Tally σ} {failure : Failure σ}
    (h : m.inside p tokens tally = (.error failure, after))
    : after = tally := by
  cases p with
  | literal text caseSensitive => exact tally_eq_of_failed_literal h
  | parameter name typeName => exact tally_eq_of_failed_parameter h
  | tail name => exact tally_eq_of_failed_tail h
  | optional identifier inner => exact tally_eq_of_failed_optional h
  | variant identifier parenthesized alternatives => exact tally_eq_of_failed_variant h
  | sequence children => exact absurd rfl single

/-- A run that fails was refused, or entered its pattern and failed inside. -/
theorem failed_inside_of_run {m : Matcher} {p : Pattern} {tokens : List Token}
    {tally after : Tally σ} {failure : Failure σ}
    (h : m.run p tokens tally = (.error failure, after))
    : (m.refuses tally = true ∧ after = tally)
      ∨ (m.refuses tally = false
        ∧ ∃ last,
            m.inside p tokens tally.enter = (.error failure, last) ∧ after = last.leave) := by
  cases hr : m.refuses tally with
  | true =>
      obtain ⟨fault, hrun⟩ := run_of_refuses hr p tokens
      rw [hrun] at h
      cases h
      exact .inl ⟨rfl, rfl⟩
  | false =>
      rw [run_of_not_refuses hr] at h
      obtain ⟨hverdict, hafter⟩ := Prod.mk.inj h
      exact .inr ⟨rfl, _, Prod.ext hverdict rfl, hafter.symm⟩

theorem tally_eq_of_failed_run {m : Matcher} {p : Pattern} (single : p.kind ≠ .sequence)
    {tokens : List Token} {tally after : Tally σ} {failure : Failure σ}
    (h : m.run p tokens tally = (.error failure, after))
    : after = tally := by
  rcases failed_inside_of_run h with ⟨_, rfl⟩ | ⟨_, last, hi, rfl⟩
  · rfl
  · rw [tally_eq_of_failed_inside single hi, Tally.leave_enter]

------------------------------------------------------------
-- Sequences leave what was found before the part that failed

/-- The longest beginning of some patterns that succeeds, with the tokens it leaves and the tally
it reaches.
-/
structure LongestMatched (m : Matcher) (ps : List Pattern) (tokens : List Token) (tally : Tally σ)
    (before : List Pattern) (left : List Token) (reached : Tally σ) : Prop where
  initial : before <+: ps
  matched : m.runAll before tokens tally = (.ok left, reached)
  longest
    : ∀ longer, longer <+: ps → (m.runAll longer tokens tally).1.isOk = true → longer <+: before

/-- What a run that failed left in the tally: nothing, unless a sequence was entered. Then it is
what the longest beginning of the parts that succeeds found, and what the part behind it left in
the same sense.
-/
inductive Leaves (m : Matcher) (failure : Failure σ)
    : Pattern → List Token → Tally σ → Tally σ → Prop
  | nothing {p tokens tally} (unwritten : p.kind ≠ .sequence ∨ m.refuses tally = true)
    : Leaves m failure p tokens tally tally
  | parts {before part behind tokens left tally reached last}
    (entered : m.refuses tally = false)
    (longest : m.LongestMatched (before ++ part :: behind) tokens tally.enter before left reached)
    (fails : m.run part left reached = (.error failure, last))
    (leaves : Leaves m failure part left reached last)
    : Leaves m failure (.sequence (before ++ part :: behind)) tokens tally last.leave

/-- Patterns that fail one after the other succeed up to one that fails, by list induction. -/
theorem exists_failed_part {m : Matcher} {ps : List Pattern} {tokens : List Token}
    {tally last : Tally σ} {failure : Failure σ}
    (h : m.runAll ps tokens tally = (.error failure, last))
    : ∃ before part behind left reached,
        ps = before ++ part :: behind
        ∧ m.runAll before tokens tally = (.ok left, reached)
        ∧ m.run part left reached = (.error failure, last) := by
  induction ps generalizing tokens tally with
  | nil => cases h
  | cons p rest ih =>
      rw [runAll] at h
      split at h
      · rename_i middle next hp
        obtain ⟨before, part, behind, left, reached, rfl, hb, hf⟩ := ih h
        refine ⟨p :: before, part, behind, left, reached, rfl, ?_, hf⟩
        rw [runAll, hp]
        exact hb
      · rename_i hp
        cases h
        exact ⟨[], p, rest, tokens, tally, rfl, rfl, hp⟩

/-- What succeeds before a part that fails is the longest beginning that does. -/
theorem LongestMatched.of_failed_part {m : Matcher} {before behind : List Pattern}
    {part : Pattern} {tokens left : List Token} {tally reached last : Tally σ}
    {failure : Failure σ} (matched : m.runAll before tokens tally = (.ok left, reached))
    (fails : m.run part left reached = (.error failure, last))
    : m.LongestMatched (before ++ part :: behind) tokens tally before left reached where
  initial := List.prefix_append _ _
  matched := matched
  longest := by
    intro longer hlonger hok
    obtain ⟨rest, hrest⟩ := hlonger
    rcases List.append_eq_append_iff.mp hrest with ⟨between, hbefore, -⟩ | ⟨more, rfl, hmore⟩
    · exact ⟨between, hbefore.symm⟩
    · cases more with
      | nil => rw [List.append_nil]
      | cons next more =>
          -- A longer beginning has the part in it, and fails where the part does.
          obtain ⟨rfl, -⟩ := List.cons.inj hmore
          rw [runAll_append, matched] at hok
          simp only [runAll, fails] at hok
          cases hok

theorem Leaves.of_single {m : Matcher} {p : Pattern} (single : p.kind ≠ .sequence)
    {tokens : List Token} {tally after : Tally σ} {failure : Failure σ}
    (h : m.run p tokens tally = (.error failure, after))
    : m.Leaves failure p tokens tally after := by
  rw [tally_eq_of_failed_run single h]
  exact .nothing (.inl single)

/-- A run that fails leaves no more than its sequences found before they failed, by induction on
the pattern.
-/
theorem leaves_of_failed_run {m : Matcher} {p : Pattern} {tokens : List Token}
    {tally after : Tally σ} {failure : Failure σ}
    (h : m.run p tokens tally = (.error failure, after))
    : m.Leaves failure p tokens tally after := by
  induction p generalizing tokens tally after with
  | sequence children ih =>
      rcases failed_inside_of_run h with ⟨refused, rfl⟩ | ⟨entered, last, hi, rfl⟩
      · exact .nothing (.inr refused)
      · obtain ⟨before, part, behind, left, reached, rfl, matched, fails⟩ :=
          exists_failed_part hi
        have hpart : part ∈ before ++ part :: behind := by simp
        exact .parts entered (.of_failed_part matched fails) fails (ih part hpart fails)
  | _ => exact .of_single (by simp [Pattern.kind]) h

/-- A run that fails leaves no partial notes: a word, an argument, a tail, an optional group or a
variant leaves the tally as it was, and a sequence leaves what the longest beginning of its parts
that succeeds found, with what the part behind it left if that is a sequence again. So an optional
group whose contents do not fit notes its absence and the reason, and changes nothing else.
-/
theorem failed_run_leaves (m : Matcher)
    : (∀ {p : Pattern} {tokens : List Token} {tally after : Tally σ} {failure : Failure σ},
        m.run p tokens tally = (.error failure, after)
        → (p.kind ≠ .sequence → after = tally) ∧ m.Leaves failure p tokens tally after)
      ∧ ∀ (identifier : Option String) {inner : Pattern} {tokens : List Token} {tally : Tally σ}
          {reason : Mismatch σ},
          m.refuses tally = false
          → (m.run inner tokens tally.enter.branch).1 = .mismatch reason
          → m.run (.optional identifier inner) tokens tally
            = (.ok tokens, tally.omitting identifier reason) := by
  constructor
  · intro p tokens tally after failure h
    exact ⟨fun single => tally_eq_of_failed_run single h, leaves_of_failed_run h⟩
  · intro identifier inner tokens tally reason entered unfit
    rw [run_of_not_refuses entered]
    have hresult : m.run inner tokens tally.enter.branch
        = (.mismatch reason, (m.run inner tokens tally.enter.branch).2) :=
      Prod.ext unfit rfl
    rw [inside, hresult]
    cases identifier <;> rfl

/-- A sequence that fails in a sequence inside it, behind an absent group and a bound argument, and
the group by itself.
-/
theorem failed_run_leaves_go_rome
    : ∃ (group p : Pattern) (tokens : List Token) (after : Tally Rat),
        group = .optional none (.literal "to" true)
        ∧ p = .sequence
          [.literal "go" true,
           group,
           .sequence [.parameter "place" none, .literal "now" true]]
        ∧ tokens = [⟨"go", ⟨0, 2⟩⟩, ⟨"rome", ⟨3, 7⟩⟩]
        ∧ standard.run p tokens (.start "go rome")
          = (.mismatch (.expectedLiteral "now" none false), after)
        ∧ standard.Leaves (.mismatch (.expectedLiteral "now" none false)) p tokens
          (.start "go rome") after
        ∧ after.score = 3 / 2
        ∧ after.optionals = [false]
        ∧ after.bindings = .ofList [("place", .str "rome")]
        ∧ standard.run group tokens (.start "go rome" : Tally Rat)
          = (.ok tokens,
            (Tally.start "go rome").omitting none
              (.expectedLiteral "to" (some ⟨"go", ⟨0, 2⟩⟩) (standard.isSimilar "to" "go"))) := by
  have failed
      : standard.run
          (.sequence
            [.literal "go" true,
             .optional none (.literal "to" true),
             .sequence [.parameter "place" none, .literal "now" true]])
          [⟨"go", ⟨0, 2⟩⟩, ⟨"rome", ⟨3, 7⟩⟩]
          (.start "go rome" : Tally Rat)
        = (.mismatch (.expectedLiteral "now" none false), _) :=
    Prod.ext (by with_unfolding_all rfl) rfl
  have kept := failed_run_leaves (σ := Rat) standard
  refine ⟨_, _, _, _, rfl, rfl, rfl, failed, (kept.1 failed).2, ?_, ?_, ?_, kept.2 none rfl ?_⟩
  · with_unfolding_all rfl
  · with_unfolding_all rfl
  · with_unfolding_all rfl
  · with_unfolding_all rfl

end Matcher

end CallGrammar

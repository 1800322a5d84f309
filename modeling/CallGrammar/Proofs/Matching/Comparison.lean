import CallGrammar.Proofs.Matching.Choice
import CallGrammar.Proofs.Matching.Visits
import CallGrammar.Proofs.Pattern.Recasing

/-! Two calls matched beside each other. Where the matchers take the same words and arguments and
the calls are cut into related tokens, every pattern takes the same course in both, and the answers
differ only in what the comparison allows for.
-/

namespace CallGrammar

variable {σ : Type}

------------------------------------------------------------
-- Answers that are alike

/-- What may differ between two answers: the tokens they mention, whether a token is said to
resemble a word, the texts of alternatives, and the faults.
-/
structure Difference where
  token : Token → Token → Prop
  similar : Bool → Bool → Prop
  alternatives : List String → List String → Prop
  fault : Fault → Fault → Prop

/-- Rejections of one candidate after the same progress. -/
inductive Rejected.Alike {μ : Type} (R : μ → μ → Prop) : Rejected σ μ → Rejected σ μ → Prop
  | mk {index progress reason reason'} (reasons : R reason reason')
    : Alike R ⟨index, progress, reason⟩ ⟨index, progress, reason'⟩

/-- Mismatches that are equal up to a difference, all reasons they carry included. -/
inductive Mismatch.Alike (d : Difference) : Mismatch σ → Mismatch σ → Prop
  | missingLiteral {expected similar similar'} (flags : d.similar similar similar')
    : Alike d (.expectedLiteral expected none similar) (.expectedLiteral expected none similar')
  | expectedLiteral {expected found found' similar similar'} (tokens : d.token found found')
    (flags : d.similar similar similar')
    : Alike d (.expectedLiteral expected (some found) similar)
        (.expectedLiteral expected (some found') similar')
  | expectedArgument {parameter}
    : Alike d (.expectedArgument parameter) (.expectedArgument parameter)
  | typeMismatch {parameter typeName found found' cause} (tokens : d.token found found')
    : Alike d (.typeMismatch parameter typeName found cause)
        (.typeMismatch parameter typeName found' cause)
  | expectedTail {name} : Alike d (.expectedTail name) (.expectedTail name)
  | noVariant {alternatives alternatives' first first'}
    (texts : d.alternatives alternatives alternatives')
    (reasons : Option.Rel (Alike d) first first')
    : Alike d (.noVariant alternatives first) (.noVariant alternatives' first')
  | tooManyArguments {extra extra' hint hint'} (tokens : d.token extra extra')
    (hints : Option.Rel (Alike d) hint hint')
    : Alike d (.tooManyArguments extra hint) (.tooManyArguments extra' hint')
  | noCandidate {rejections rejections'}
    (each : List.Forall₂ (Rejected.Alike (Alike d)) rejections rejections')
    : Alike d (.noCandidate rejections) (.noCandidate rejections')

/-- Failures of one kind, equal up to a difference. -/
inductive Failure.Alike (d : Difference) : Failure σ → Failure σ → Prop
  | mismatch {reason reason'} (reasons : Mismatch.Alike d reason reason')
    : Alike d (.mismatch reason) (.mismatch reason')
  | fault {fault fault'} (faults : d.fault fault fault') : Alike d (.fault fault) (.fault fault')

/-- Attempts with the same outcome, rejected after the same progress for reasons that are alike, or
stopped by faults that are alike.
-/
abbrev Attempt.Alike (d : Difference)
    : Except Fault (Attempt σ) → Except Fault (Attempt σ) → Prop :=
  ExceptRel d.fault (ExceptRel (Rejected.Alike (Mismatch.Alike d)) Eq)

/-- Answers with the same outcome, or failures that are alike. -/
abbrev Answer.Alike (d : Difference)
    : Except (Failure σ) (Outcome σ) → Except (Failure σ) (Outcome σ) → Prop :=
  ExceptRel (Failure.Alike d) Eq

------------------------------------------------------------
-- Comparisons

/-- Two matchers with the texts of their calls, and tokens of the two calls that are related. The
right one matches patterns that `recase` tells which words respect case in.
-/
structure Comparison where
  left : Matcher
  right : Matcher
  leftRaw : String
  rightRaw : String
  difference : Difference
  related : Token → Token → Prop
  recase : Bool → Bool
  maxDepth_eq : left.maxDepth = right.maxDepth
  value_eq {found found'} : related found found' → found.value = found'.value
  token_of_related {found found'} : related found found' → difference.token found found'
  /-- Tails take the same text. -/
  text_eq {first first' last last'}
    : related first first' → related last last'
      → (first.span.upTo last.span).text leftRaw = (first'.span.upTo last'.span).text rightRaw
  accepts_eq (text value : String) (caseSensitive : Bool)
    : left.accepts text value caseSensitive = right.accepts text value (recase caseSensitive)
  similar_false : difference.similar false false
  similar_isSimilar (text value : String)
    : difference.similar (left.isSimilar text value) (right.isSimilar text value)
  alternatives_render (ps : List Pattern)
    : difference.alternatives (ps.map Pattern.render)
        ((ps.map (Pattern.recased recase)).map Pattern.render)
  /-- Faults of a pattern or a limit mention no place in a call. -/
  fault_self {fault}
    : (∀ quote offset, fault ≠ .unterminatedQuote quote offset) → difference.fault fault fault

namespace Comparison

/-- Both matchers know the same about the types of a pattern's parameters. -/
def SharesTypes (c : Comparison) (p : Pattern) : Prop :=
  ∀ name typeName, .parameter name (some typeName) ∈ p.traverse
    → c.left.types.contains typeName = c.right.types.contains typeName
      ∧ ∀ raw, c.left.types.coerce typeName raw = c.right.types.coerce typeName raw

theorem SharesTypes.of_child {c : Comparison} {p child : Pattern} (h : c.SharesTypes p)
    (member : child ∈ p.children)
    : c.SharesTypes child :=
  fun name typeName hp =>
    h name typeName (Pattern.mem_traverse_of_child member hp)

/-- Two tallies of the same findings, with hints that are alike. -/
def Tallied (c : Comparison) (left right : Tally σ) : Prop :=
  ∃ (tally : Tally σ) (hint hint' : Option (Mismatch σ)),
    left = { tally with raw := c.leftRaw, hint := hint }
    ∧ right = { tally with raw := c.rightRaw, hint := hint' }
    ∧ Option.Rel (Mismatch.Alike c.difference) hint hint'

/-- Two results that say the same. -/
inductive Agree (c : Comparison) : Verdict σ × Tally σ → Verdict σ × Tally σ → Prop
  | ok {rest rest' left right} (tokens : List.Forall₂ c.related rest rest')
    (tallied : c.Tallied left right)
    : Agree c (.ok rest, left) (.ok rest', right)
  | mismatch {reason reason' left right} (reasons : Mismatch.Alike c.difference reason reason')
    (tallied : c.Tallied left right)
    : Agree c (.mismatch reason, left) (.mismatch reason', right)
  | fault {fault fault' left right} (faults : c.difference.fault fault fault')
    : Agree c (.fault fault, left) (.fault fault', right)

namespace Tallied

variable {c : Comparison} {left right : Tally σ}

theorem terminated_eq (h : c.Tallied left right) : left.terminated = right.terminated := by
  obtain ⟨tally, hint, hint', rfl, rfl, alike⟩ := h
  rfl

theorem depth_eq (h : c.Tallied left right) : left.depth = right.depth := by
  obtain ⟨tally, hint, hint', rfl, rfl, alike⟩ := h
  rfl

theorem score_eq (h : c.Tallied left right) : left.score = right.score := by
  obtain ⟨tally, hint, hint', rfl, rfl, alike⟩ := h
  rfl

theorem hint (h : c.Tallied left right)
    : Option.Rel (Mismatch.Alike c.difference) left.hint right.hint := by
  obtain ⟨tally, hint, hint', rfl, rfl, alike⟩ := h
  exact alike

theorem outcome_eq (h : c.Tallied left right) : left.outcome = right.outcome := by
  obtain ⟨tally, hint, hint', rfl, rfl, alike⟩ := h
  rfl

theorem enter (h : c.Tallied left right) : c.Tallied left.enter right.enter := by
  obtain ⟨tally, hint, hint', rfl, rfl, alike⟩ := h
  exact ⟨tally.enter, hint, hint', rfl, rfl, alike⟩

theorem leave (h : c.Tallied left right) : c.Tallied left.leave right.leave := by
  obtain ⟨tally, hint, hint', rfl, rfl, alike⟩ := h
  exact ⟨tally.leave, hint, hint', rfl, rfl, alike⟩

theorem bind (h : c.Tallied left right) (name : String) (value : Value)
    : c.Tallied (left.bind name value) (right.bind name value) := by
  obtain ⟨tally, hint, hint', rfl, rfl, alike⟩ := h
  exact ⟨tally.bind name value, hint, hint', rfl, rfl, alike⟩

theorem recordOptional (h : c.Tallied left right) (identifier : Option String) (present : Bool)
    : c.Tallied (left.recordOptional identifier present)
        (right.recordOptional identifier present) := by
  obtain ⟨tally, hint, hint', rfl, rfl, alike⟩ := h
  refine ⟨tally.recordOptional identifier present, hint, hint', ?_, ?_, alike⟩
  all_goals cases identifier <;> rfl

theorem recordVariant (h : c.Tallied left right) (identifier : Option String) (index : Nat)
    : c.Tallied (left.recordVariant identifier index) (right.recordVariant identifier index) := by
  obtain ⟨tally, hint, hint', rfl, rfl, alike⟩ := h
  refine ⟨tally.recordVariant identifier index, hint, hint', ?_, ?_, alike⟩
  all_goals cases identifier <;> rfl

theorem hinted (h : c.Tallied left right) {reason reason' : Mismatch σ}
    (alike : reason.Alike c.difference reason')
    : c.Tallied { left with hint := some reason } { right with hint := some reason' } := by
  obtain ⟨tally, _, _, rfl, rfl, _⟩ := h
  exact ⟨tally, some reason, some reason', rfl, rfl, .some alike⟩

theorem terminate (h : c.Tallied left right)
    : c.Tallied { left with terminated := true } { right with terminated := true } := by
  obtain ⟨tally, hint, hint', rfl, rfl, alike⟩ := h
  exact ⟨{ tally with terminated := true }, hint, hint', rfl, rfl, alike⟩

variable [Scale σ]

theorem start (c : Comparison) : c.Tallied (.start c.leftRaw : Tally σ) (.start c.rightRaw) :=
  ⟨.start "", none, none, rfl, rfl, .none⟩

theorem award (h : c.Tallied left right) (points : σ)
    : c.Tallied (left.award points) (right.award points) := by
  obtain ⟨tally, hint, hint', rfl, rfl, alike⟩ := h
  exact ⟨tally.award points, hint, hint', rfl, rfl, alike⟩

theorem branch (h : c.Tallied left right) : c.Tallied left.branch right.branch := by
  obtain ⟨tally, hint, hint', rfl, rfl, alike⟩ := h
  exact ⟨tally.branch, none, none, rfl, rfl, .none⟩

theorem join (h : c.Tallied left right) {branch branch' : Tally σ}
    (hb : c.Tallied branch branch')
    : c.Tallied (left.join branch) (right.join branch') := by
  obtain ⟨tally, hint, hint', rfl, rfl, alike⟩ := h
  obtain ⟨other, _, _, rfl, rfl, later⟩ := hb
  refine ⟨tally.join other, _, _, rfl, rfl, ?_⟩
  cases later with
  | none => exact alike
  | some later => exact .some later

end Tallied

------------------------------------------------------------
-- Runs

variable {c : Comparison}

theorem Agree.leave {left right : Verdict σ × Tally σ} (h : c.Agree left right)
    : c.Agree (left.1, left.2.leave) (right.1, right.2.leave) := by
  cases h with
  | ok rest tallied => exact .ok rest tallied.leave
  | mismatch reason tallied => exact .mismatch reason tallied.leave
  | fault fault => exact .fault fault

/-- Visits agree if what happens inside does. -/
theorem Agree.visit {inside inside' : Tally σ → Verdict σ × Tally σ} {left right : Tally σ}
    (tallied : c.Tallied left right) (h : c.Agree (inside left.enter) (inside' right.enter))
    (kind : Kind)
    : c.Agree (c.left.visit kind inside left) (c.right.visit kind inside' right) := by
  have hdepth := c.maxDepth_eq
  have hlevel := tallied.depth_eq
  cases ht : left.terminated with
  | true =>
      rw [Matcher.visit_of_terminated ht, Matcher.visit_of_terminated (tallied.terminated_eq ▸ ht)]
      exact .fault (c.fault_self nofun)
  | false =>
      have ht' := tallied.terminated_eq ▸ ht
      by_cases hd : c.left.maxDepth ≤ left.depth
      · rw [Matcher.visit_of_deep ht hd, Matcher.visit_of_deep ht' (by omega), hdepth]
        exact .fault (c.fault_self nofun)
      · rw [Matcher.visit_of_open ht (by omega), Matcher.visit_of_open ht' (by omega)]
        exact h.leave

variable [Scale σ]

theorem agree_runLiteral {left right : Tally σ} (tallied : c.Tallied left right)
    {tokens tokens' : List Token} (h : List.Forall₂ c.related tokens tokens') (text : String)
    (caseSensitive : Bool)
    : c.Agree (c.left.runLiteral text caseSensitive tokens left)
        (c.right.runLiteral text (c.recase caseSensitive) tokens' right) := by
  cases h with
  | nil => exact .mismatch (.missingLiteral c.similar_false) tallied
  | @cons found found' _ _ related rest =>
      rw [Matcher.runLiteral, Matcher.runLiteral, c.accepts_eq, ← c.value_eq related]
      split
      · exact .ok rest (tallied.award _)
      · exact .mismatch
          (.expectedLiteral (c.token_of_related related) (c.similar_isSimilar _ _)) tallied

theorem agree_runParameter {left right : Tally σ} (tallied : c.Tallied left right)
    {tokens tokens' : List Token} (h : List.Forall₂ c.related tokens tokens') {name : String}
    {typeName : Option String} (shared : c.SharesTypes (.parameter name typeName))
    : c.Agree (c.left.runParameter name typeName tokens left)
        (c.right.runParameter name typeName tokens' right) := by
  cases typeName with
  | none =>
      cases h with
      | nil => exact .mismatch .expectedArgument tallied
      | cons related rest =>
          rw [Matcher.runParameter, Matcher.runParameter, c.value_eq related]
          exact .ok rest ((tallied.bind _ _).award _)
  | some typeName =>
      obtain ⟨hcontains, hcoerce⟩ := shared name typeName (Pattern.mem_traverse_self _)
      cases h with
      | nil =>
          rw [Matcher.runParameter, Matcher.runParameter, hcontains]
          split
          · exact .mismatch .expectedArgument tallied
          · exact .fault (c.fault_self nofun)
      | cons related rest =>
          rw [Matcher.runParameter, Matcher.runParameter, c.value_eq related, hcoerce]
          split
          · exact .ok rest ((tallied.bind _ _).award _)
          · exact .fault (c.fault_self nofun)
          · exact .mismatch (.typeMismatch (c.token_of_related related)) tallied

/-- The last elements of related lists are related. -/
theorem rel_getLast? {α : Type} {R : α → α → Prop} {xs ys : List α} (h : List.Forall₂ R xs ys)
    : Option.Rel R xs.getLast? ys.getLast? := by
  induction h with
  | nil => exact .none
  | cons first rest ih =>
      cases rest with
      | nil => exact .some first
      | cons => simpa using ih

theorem agree_runTail {left right : Tally σ} (tallied : c.Tallied left right)
    {tokens tokens' : List Token} (h : List.Forall₂ c.related tokens tokens') (name : String)
    : c.Agree (Matcher.runTail name tokens left) (Matcher.runTail name tokens' right) := by
  have hlast := rel_getLast? h
  have hraw : left.raw = c.leftRaw ∧ right.raw = c.rightRaw := by
    obtain ⟨tally, hint, hint', rfl, rfl, alike⟩ := tallied
    exact ⟨rfl, rfl⟩
  cases h with
  | nil => exact .mismatch .expectedTail tallied
  | @cons first first' rest rest' related others =>
      unfold Matcher.runTail
      generalize (first :: rest).getLast? = last at hlast
      generalize (first' :: rest').getLast? = last' at hlast
      cases hlast with
      | none => exact .mismatch .expectedTail tallied
      | some hlast =>
          dsimp only [List.head?_cons]
          rw [hraw.1, hraw.2, c.text_eq related hlast]
          split
          · exact .mismatch .expectedTail tallied
          · exact .ok .nil ((tallied.bind _ _).award _).terminate

/-- Settling an optional group keeps agreement, by cases on the results inside. -/
theorem Agree.settleOptional {left right : Tally σ} (tallied : c.Tallied left right)
    {tokens tokens' : List Token} (h : List.Forall₂ c.related tokens tokens')
    {result result' : Verdict σ × Tally σ} (agree : c.Agree result result')
    (identifier : Option String)
    : c.Agree (Matcher.settleOptional identifier tokens left result)
        (Matcher.settleOptional identifier tokens' right result') := by
  cases agree with
  | ok rest branch => exact .ok rest ((tallied.recordOptional identifier true).join branch)
  | mismatch reason _ => exact .ok h ((tallied.recordOptional identifier false).hinted reason)
  | fault fault => exact .fault fault

/-- Results of all alternatives that agree one by one. -/
abbrev AgreeEach (c : Comparison)
    : Except Fault (List (Except (Mismatch σ) (List Token × Tally σ)))
      → Except Fault (List (Except (Mismatch σ) (List Token × Tally σ))) → Prop :=
  ExceptRel c.difference.fault
    (List.Forall₂ (ExceptRel (Mismatch.Alike c.difference)
      fun result result' =>
        List.Forall₂ c.related result.1 result'.1 ∧ c.Tallied result.2 result'.2))

theorem rel_firstError? {ε α : Type} {E : ε → ε → Prop} {R : α → α → Prop}
    {results results' : List (Except ε α)} (h : List.Forall₂ (ExceptRel E R) results results')
    : Option.Rel E (firstError? results) (firstError? results') := by
  induction h with
  | nil => exact .none
  | cons first rest ih =>
      cases first with
      | ok => exact ih
      | error related => exact .some related

/-- Settling a variant keeps agreement: the same alternative is chosen, if any. -/
theorem agree_settleVariant {left right : Tally σ} (tallied : c.Tallied left right)
    {results results' : Except Fault (List (Except (Mismatch σ) (List Token × Tally σ)))}
    (h : c.AgreeEach results results') (identifier : Option String) (alternatives : List Pattern)
    : c.Agree (Matcher.settleVariant identifier alternatives left results)
        (Matcher.settleVariant identifier (alternatives.map (.recased c.recase)) right
          results') := by
  cases h with
  | error fault => exact .fault fault
  | @ok results results' agree =>
      have hc := choiceRel_earliestBest (fun _ _ h => h.2.score_eq) agree .none 0
      unfold Matcher.settleVariant
      dsimp only
      generalize earliestBest (fun result => result.2.score) none 0 results = choice at hc
      generalize earliestBest (fun result => result.2.score) none 0 results' = choice' at hc
      cases hc with
      | none =>
          exact .mismatch (.noVariant (c.alternatives_render alternatives) (rel_firstError? agree))
            tallied
      | @some chosen chosen' same =>
          obtain ⟨index, rest, branch⟩ := chosen
          obtain ⟨_, rest', branch'⟩ := chosen'
          obtain ⟨rfl, hrest, hbranch⟩ := same
          exact .ok hrest ((tallied.recordVariant identifier index).join hbranch)

/-- Alternatives agree one by one if each agrees with its own, by list induction. -/
theorem agreeEach_runEach {alternatives : List Pattern} {tokens tokens' : List Token}
    {left right : Tally σ}
    (h : ∀ p ∈ alternatives,
      c.Agree (c.left.run p tokens left) (c.right.run (p.recased c.recase) tokens' right))
    : c.AgreeEach (c.left.runEach alternatives tokens left)
        (c.right.runEach (alternatives.map (.recased c.recase)) tokens' right) := by
  induction alternatives with
  | nil => exact .ok .nil
  | cons p rest ih =>
      have hp := h p List.mem_cons_self
      have hr := ih (fun q hq => h q (List.mem_cons_of_mem p hq))
      rw [List.map_cons, Matcher.runEach, Matcher.runEach]
      generalize c.left.run p tokens left = result at hp
      generalize c.right.run (p.recased c.recase) tokens' right = result' at hp
      generalize c.left.runEach rest tokens left = results at hr
      generalize c.right.runEach (rest.map (.recased c.recase)) tokens' right = results' at hr
      cases hp with
      | ok tokens tallied =>
          cases hr with
          | ok others => exact .ok (.cons (.ok ⟨tokens, tallied⟩) others)
          | error faults => exact .error faults
      | mismatch reasons _ =>
          cases hr with
          | ok others => exact .ok (.cons (.error reasons) others)
          | error faults => exact .error faults
      | fault faults => exact .error faults

/-- A pattern takes the same course on related tokens. -/
def Follows (scale : Type) [Scale scale] (c : Comparison) (p : Pattern) : Prop :=
  ∀ {tokens tokens' : List Token} {left right : Tally scale},
    List.Forall₂ c.related tokens tokens' → c.Tallied left right
    → c.Agree (c.left.run p tokens left) (c.right.run (p.recased c.recase) tokens' right)

/-- Patterns one after the other do so if each does, by list induction. -/
theorem agree_runAll {ps : List Pattern} (h : ∀ p ∈ ps, c.Follows σ p)
    {tokens tokens' : List Token} {left right : Tally σ}
    (related : List.Forall₂ c.related tokens tokens') (tallied : c.Tallied left right)
    : c.Agree (c.left.runAll ps tokens left)
        (c.right.runAll (ps.map (.recased c.recase)) tokens' right) := by
  induction ps generalizing tokens tokens' left right with
  | nil => exact .ok related tallied
  | cons p rest ih =>
      have hp := h p List.mem_cons_self related tallied
      rw [List.map_cons, Matcher.runAll, Matcher.runAll]
      generalize c.left.run p tokens left = result at hp
      generalize c.right.run (p.recased c.recase) tokens' right = result' at hp
      cases hp with
      | ok tokens tallied =>
          exact ih (fun q hq => h q (List.mem_cons_of_mem p hq)) tokens tallied
      | mismatch reasons tallied => exact .mismatch reasons tallied
      | fault faults => exact .fault faults

/-- A pattern does so if what happens inside does. -/
theorem follows_of_inside {p : Pattern}
    (h : ∀ {tokens tokens' : List Token} {left right : Tally σ},
      List.Forall₂ c.related tokens tokens' → c.Tallied left right
      → c.Agree (c.left.inside p tokens left)
          (c.right.inside (p.recased c.recase) tokens' right))
    : c.Follows σ p := by
  intro tokens tokens' left right related tallied
  rw [Matcher.run_eq_visit, Matcher.run_eq_visit, Pattern.kind_recased]
  exact .visit tallied (h related tallied.enter) p.kind

/-- Every pattern whose types both matchers share takes the same course, by induction on the
pattern.
-/
theorem follows {p : Pattern} (shared : c.SharesTypes p) : c.Follows σ p := by
  induction p with
  | literal text caseSensitive =>
      refine follows_of_inside fun related tallied => ?_
      exact agree_runLiteral tallied related text caseSensitive
  | parameter name typeName =>
      refine follows_of_inside fun related tallied => ?_
      exact agree_runParameter tallied related shared
  | tail name =>
      refine follows_of_inside fun related tallied => ?_
      exact agree_runTail tallied related name
  | optional identifier inner ih =>
      refine follows_of_inside fun related tallied => ?_
      have hi := ih (shared.of_child (List.mem_singleton.mpr rfl)) related tallied.branch
      exact hi.settleOptional tallied related identifier
  | variant identifier parenthesized alternatives ih =>
      refine follows_of_inside fun related tallied => ?_
      rw [Pattern.recased_variant]
      refine agree_settleVariant tallied (agreeEach_runEach fun p hp => ?_) identifier alternatives
      exact ih p hp (shared.of_child hp) related tallied.branch
  | sequence children ih =>
      refine follows_of_inside fun related tallied => ?_
      rw [Pattern.recased_sequence]
      exact agree_runAll (fun p hp => ih p hp (shared.of_child hp)) related tallied

------------------------------------------------------------
-- Attempts and calls

/-- Attempts on related tokens are alike. -/
theorem alike_attempt {p : Pattern} (shared : c.SharesTypes p) {tokens tokens' : List Token}
    (related : List.Forall₂ c.related tokens tokens') (index : Nat)
    : Attempt.Alike c.difference
        (c.left.attempt index p tokens c.leftRaw : Except Fault (Attempt σ))
        (c.right.attempt index (p.recased c.recase) tokens' c.rightRaw) := by
  have hp : c.Follows σ p := follows shared
  have hr := hp related (Tallied.start c)
  unfold Matcher.attempt
  generalize c.left.run p tokens (.start c.leftRaw : Tally σ) = result at hr
  generalize c.right.run (p.recased c.recase) tokens' (.start c.rightRaw : Tally σ) = result' at hr
  cases hr with
  | ok rest tallied =>
      cases rest with
      | nil => exact .ok (.ok tallied.outcome_eq)
      | cons extra _ =>
          dsimp only
          rw [tallied.score_eq]
          exact .ok (.error ⟨.tooManyArguments (c.token_of_related extra) tallied.hint⟩)
  | mismatch reasons tallied =>
      rw [Verdict.mismatch, Verdict.mismatch]
      dsimp only
      rw [tallied.score_eq]
      exact .ok (.error ⟨reasons⟩)
  | fault faults => exact .error faults

/-- Calls that are cut into related tokens, or into none for faults that are alike, are answered
alike.
-/
theorem alike_matchCall {p : Pattern} (shared : c.SharesTypes p)
    (cut : ExceptRel c.difference.fault (List.Forall₂ c.related)
      (c.left.tokenize c.leftRaw) (c.right.tokenize c.rightRaw))
    : Answer.Alike c.difference
        (c.left.matchCall p c.leftRaw : Except (Failure σ) (Outcome σ))
        (c.right.matchCall (p.recased c.recase) c.rightRaw) := by
  unfold Matcher.matchCall
  generalize c.left.tokenize c.leftRaw = tokens at cut
  generalize c.right.tokenize c.rightRaw = tokens' at cut
  cases cut with
  | error faults => exact .error (.fault faults)
  | @ok tokens tokens' related =>
      have ha : Attempt.Alike c.difference
          (c.left.attempt 0 p tokens c.leftRaw : Except Fault (Attempt σ))
          (c.right.attempt 0 (p.recased c.recase) tokens' c.rightRaw) :=
        alike_attempt shared related 0
      dsimp only
      generalize (c.left.attempt 0 p tokens c.leftRaw : Except Fault (Attempt σ)) = attempt at ha
      generalize (c.right.attempt 0 (p.recased c.recase) tokens' c.rightRaw
        : Except Fault (Attempt σ)) = attempt' at ha
      cases ha with
      | error faults => exact .error (.fault faults)
      | ok attempts =>
          cases attempts with
          | ok outcomes => exact .ok outcomes
          | error rejections =>
              cases rejections with
              | mk reasons => exact .error (.mismatch reasons)

end Comparison

end CallGrammar

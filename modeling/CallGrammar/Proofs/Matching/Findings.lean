import CallGrammar.Proofs.Matching.Visits
import CallGrammar.Proofs.NameMap

/-! Findings: what a run adds to its tally. They depend on the pattern, the tokens, the call and the
depth alone, so runs on two tallies of one call at one depth have the same verdict and note the same
findings, on every scale and whether they succeed or fail.
-/

namespace CallGrammar

variable {σ : Type}

------------------------------------------------------------
-- Findings

/-- What was found in a stretch of a run. Points are kept one by one, in the order in which they are
added to a score, because a sum may be rounded.
-/
structure Findings (σ : Type) where
  points : List σ
  bindings : Bindings
  optionals : List Bool
  variants : List Nat
  terminated : Bool
  hint : Option (Mismatch σ)

namespace Findings

def nothing : Findings σ :=
  ⟨[], ∅, [], [], false, none⟩

/-- What was found in two stretches of a run, the first one before the second. -/
def append (first second : Findings σ) : Findings σ where
  points := first.points ++ second.points
  bindings := first.bindings.union second.bindings
  optionals := first.optionals ++ second.optionals
  variants := first.variants ++ second.variants
  terminated := first.terminated || second.terminated
  hint := second.hint.or first.hint

/-- A name was bound. -/
def binding (name : String) (value : Value) : Findings σ :=
  { nothing with bindings := NameMap.empty.insert name value }

/-- Points were awarded. -/
def award (points : σ) : Findings σ :=
  { nothing with points := [points] }

/-- The presence of an optional group was recorded. -/
def presence (identifier : Option String) (present : Bool) : Findings σ :=
  match identifier with
  | some name => binding name (.bool present)
  | none => { nothing with optionals := [present] }

/-- An optional group was omitted because its contents do not fit. -/
def absence (identifier : Option String) (reason : Mismatch σ) : Findings σ :=
  (presence identifier false).append { nothing with hint := some reason }

@[simp]
theorem points_absence (identifier : Option String) (reason : Mismatch σ)
    : (absence identifier reason).points = [] := by
  cases identifier <;> rfl

@[simp]
theorem optionals_absence_some (name : String) (reason : Mismatch σ)
    : (absence (some name) reason).optionals = [] :=
  rfl

@[simp]
theorem variants_absence (identifier : Option String) (reason : Mismatch σ)
    : (absence identifier reason).variants = [] := by
  cases identifier <;> rfl

@[simp]
theorem terminated_absence (identifier : Option String) (reason : Mismatch σ)
    : (absence identifier reason).terminated = false := by
  cases identifier <;> rfl

/-- The choice of a variant was recorded. -/
def choice (identifier : Option String) (index : Nat) : Findings σ :=
  match identifier with
  | some name => binding name (Tally.indexValue index)
  | none => { nothing with variants := [index] }

/-- A branch was joined. -/
def ofBranch (branch : Tally σ) : Findings σ where
  points := [branch.score]
  bindings := branch.bindings
  optionals := branch.optionals
  variants := branch.variants
  terminated := branch.terminated
  hint := branch.hint

end Findings

namespace Tally

/-- A tally of a call at a depth, which may go on. -/
structure OpenAt (tally : Tally σ) (raw : String) (depth : Nat) : Prop where
  raw_eq : tally.raw = raw
  depth_eq : tally.depth = depth
  going : tally.terminated = false

theorem OpenAt.enter {tally : Tally σ} {raw : String} {depth : Nat} (h : tally.OpenAt raw depth)
    : tally.enter.OpenAt raw (depth + 1) :=
  ⟨h.raw_eq, congrArg (· + 1) h.depth_eq, h.going⟩

variable [Scale σ]

/-- The tally with findings added. -/
def noting (tally : Tally σ) (findings : Findings σ) : Tally σ :=
  { tally with
    score := findings.points.foldl (· + ·) tally.score
    bindings := tally.bindings.union findings.bindings
    optionals := tally.optionals ++ findings.optionals
    variants := tally.variants ++ findings.variants
    terminated := tally.terminated || findings.terminated
    hint := findings.hint.or tally.hint }

@[simp]
theorem noting_nothing (tally : Tally σ) : tally.noting .nothing = tally := by
  simp [noting, Findings.nothing, NameMap.union_empty]

theorem noting_append (tally : Tally σ) (first second : Findings σ)
    : tally.noting (first.append second) = (tally.noting first).noting second := by
  simp only [noting, Findings.append, List.foldl_append, NameMap.union_assoc, List.append_assoc,
    Bool.or_assoc, Option.or_assoc]

theorem bind_eq_noting (tally : Tally σ) (name : String) (value : Value)
    : tally.bind name value = tally.noting (.binding name value) := by
  have hb : tally.bindings.union (NameMap.empty.insert name value)
      = tally.bindings.insert name value :=
    NameMap.union_insert tally.bindings ∅ name value
  simp [noting, bind, Findings.binding, Findings.nothing, hb]

theorem award_eq_noting (tally : Tally σ) (points : σ)
    : tally.award points = tally.noting (.award points) := by
  simp [noting, award, Findings.award, Findings.nothing, NameMap.union_empty]

theorem recordOptional_eq_noting (tally : Tally σ) (identifier : Option String) (present : Bool)
    : tally.recordOptional identifier present = tally.noting (.presence identifier present) := by
  cases identifier with
  | some name => exact bind_eq_noting tally name _
  | none =>
      simp [noting, recordOptional, Findings.presence, Findings.nothing, NameMap.union_empty]

theorem recordAbsence_eq_noting (tally : Tally σ) (identifier : Option String)
    (reason : Mismatch σ)
    : { tally.recordOptional identifier false with hint := some reason }
      = tally.noting (.absence identifier reason) := by
  rw [Findings.absence, noting_append, ← recordOptional_eq_noting]
  simp [noting, Findings.nothing, NameMap.union_empty]

theorem recordVariant_eq_noting (tally : Tally σ) (identifier : Option String) (index : Nat)
    : tally.recordVariant identifier index = tally.noting (.choice identifier index) := by
  cases identifier with
  | some name => exact bind_eq_noting tally name _
  | none => simp [noting, recordVariant, Findings.choice, Findings.nothing, NameMap.union_empty]

theorem join_eq_noting (tally branch : Tally σ)
    : tally.join branch = tally.noting (.ofBranch branch) :=
  rfl

theorem terminated_eq_noting (tally : Tally σ)
    : { tally with terminated := true }
      = tally.noting { Findings.nothing with terminated := true } := by
  simp [noting, Findings.nothing, NameMap.union_empty]

/-- All tallies of a call at a depth have the same branch. -/
theorem OpenAt.branch_eq {tally : Tally σ} {raw : String} {depth : Nat}
    (h : tally.OpenAt raw depth)
    : tally.branch = { (start raw : Tally σ) with depth } := by
  rw [branch, h.raw_eq, h.depth_eq]

theorem OpenAt.noting {tally : Tally σ} {raw : String} {depth : Nat}
    (h : tally.OpenAt raw depth) {findings : Findings σ} (going : findings.terminated = false)
    : (tally.noting findings).OpenAt raw depth :=
  ⟨h.raw_eq, h.depth_eq, by simp [Tally.noting, h.going, going]⟩

end Tally

------------------------------------------------------------
-- Runs

variable [Scale σ]

/-- The same is found on all tallies of a call at a depth. -/
def FoundAlike (raw : String) (depth : Nat) (act : Tally σ → Verdict σ × Tally σ) : Prop :=
  ∃ verdict findings, ∀ tally, tally.OpenAt raw depth → act tally = (verdict, tally.noting findings)

namespace FoundAlike

variable {raw : String} {depth : Nat}

/-- Nothing is found where the tally stays as it is. -/
theorem of_unchanged (verdict : Verdict σ)
    : FoundAlike raw depth (fun tally => (verdict, tally)) :=
  ⟨verdict, .nothing, fun tally _ => by rw [Tally.noting_nothing]⟩

theorem of_noting {note : Tally σ → Tally σ} (verdict : Verdict σ) (findings : Findings σ)
    (h : ∀ tally, note tally = tally.noting findings)
    : FoundAlike raw depth (fun tally => (verdict, note tally)) :=
  ⟨verdict, findings, fun tally _ => congrArg (Prod.mk verdict) (h tally)⟩

theorem congr {act other : Tally σ → Verdict σ × Tally σ} (h : FoundAlike raw depth other)
    (same : ∀ tally, tally.OpenAt raw depth → act tally = other tally)
    : FoundAlike raw depth act := by
  obtain ⟨verdict, findings, noted⟩ := h
  exact ⟨verdict, findings, fun tally opened => (same tally opened).trans (noted tally opened)⟩

/-- A visit finds what is found inside, one level deeper, or is refused. -/
theorem visit {inside : Tally σ → Verdict σ × Tally σ} (h : FoundAlike raw (depth + 1) inside)
    (m : Matcher) (kind : Kind)
    : FoundAlike raw depth (m.visit kind inside) := by
  by_cases deep : m.maxDepth ≤ depth
  · refine (of_unchanged (.fault (.depthExceeded m.maxDepth))).congr fun tally opened => ?_
    exact Matcher.visit_of_deep opened.going (opened.depth_eq ▸ deep) kind inside
  · obtain ⟨verdict, findings, noted⟩ := h
    refine ⟨verdict, findings, fun tally opened => ?_⟩
    have shallow : tally.depth < m.maxDepth := by
      have := opened.depth_eq
      omega
    rw [Matcher.visit_of_open opened.going shallow, noted tally.enter opened.enter]
    rfl

end FoundAlike

open Tally

theorem foundAlike_runLiteral (m : Matcher) (text : String) (caseSensitive : Bool)
    (tokens : List Token) (raw : String) (depth : Nat)
    : FoundAlike raw depth (m.runLiteral text caseSensitive tokens : Tally σ → _) := by
  unfold Matcher.runLiteral
  split
  · exact .of_unchanged _
  · split
    · exact .of_noting _ (.award _) fun tally => award_eq_noting tally _
    · exact .of_unchanged _

theorem foundAlike_runParameter (m : Matcher) (name : String) (typeName : Option String)
    (tokens : List Token) (raw : String) (depth : Nat)
    : FoundAlike raw depth (m.runParameter name typeName tokens : Tally σ → _) := by
  have bound (value : Value) (tally : Tally σ)
      : (tally.bind name value).award Scale.parameter
        = tally.noting (.append (.binding name value) (.award Scale.parameter)) := by
    rw [award_eq_noting, bind_eq_noting, noting_append]
  unfold Matcher.runParameter
  split
  · exact .of_unchanged _
  · exact .of_noting _ _ (bound _)
  · split
    · exact .of_unchanged _
    · exact .of_unchanged _
  · split
    · exact .of_noting _ _ (bound _)
    · exact .of_unchanged _
    · exact .of_unchanged _

/-- The text of a tail is read off the call, which is the same for all these tallies. -/
theorem foundAlike_runTail (name : String) (tokens : List Token) (raw : String) (depth : Nat)
    : FoundAlike raw depth (Matcher.runTail name tokens : Tally σ → _) := by
  have taken (text : String) (tally : Tally σ)
      : { (tally.bind name (.str text)).award Scale.tail with terminated := true }
        = tally.noting
            (.append (.append (.binding name (.str text)) (.award Scale.tail))
              { Findings.nothing with terminated := true }) := by
    rw [terminated_eq_noting, award_eq_noting, bind_eq_noting, noting_append, noting_append]
  unfold Matcher.runTail
  split
  · rename_i first last _ _
    let text := (first.span.upTo last.span).text raw
    have known (tally : Tally σ) (opened : tally.OpenAt raw depth)
        : (first.span.upTo last.span).text tally.raw = text := by
      rw [opened.raw_eq]
    by_cases blank : text.isEmpty = true
    · refine (FoundAlike.of_unchanged (.mismatch (.expectedTail name))).congr
        fun tally opened => ?_
      rw [known tally opened, if_pos blank]
    · refine (FoundAlike.of_noting (.ok []) _ (taken text)).congr fun tally opened => ?_
      rw [known tally opened, if_neg blank]
  · exact .of_unchanged _

theorem foundAlike_settleOptional (identifier : Option String) (tokens : List Token)
    (result : Verdict σ × Tally σ) (raw : String) (depth : Nat)
    : FoundAlike raw depth
        (fun tally => Matcher.settleOptional identifier tokens tally result) := by
  unfold Matcher.settleOptional
  split
  · rename_i rest branch
    refine .of_noting _ (.append (.presence identifier true) (.ofBranch branch)) fun tally => ?_
    rw [join_eq_noting, recordOptional_eq_noting, ← noting_append]
  · rename_i reason branch
    exact .of_noting _ (.absence identifier reason) fun tally =>
      recordAbsence_eq_noting tally identifier reason
  · exact .of_unchanged _

theorem foundAlike_settleVariant (identifier : Option String) (alternatives : List Pattern)
    (results : Except Fault (List (Except (Mismatch σ) (List Token × Tally σ)))) (raw : String)
    (depth : Nat)
    : FoundAlike raw depth
        (fun tally => Matcher.settleVariant identifier alternatives tally results) := by
  unfold Matcher.settleVariant
  split
  · exact .of_unchanged _
  · split
    · rename_i index rest branch _
      refine .of_noting _ (.append (.choice identifier index) (.ofBranch branch)) fun tally => ?_
      rw [join_eq_noting, recordVariant_eq_noting, ← noting_append]
    · exact .of_unchanged _

/-- The same is found by the pattern on all tallies of a call at a depth. -/
def FindsAlike (scale : Type) [Scale scale] (m : Matcher) (p : Pattern) : Prop :=
  ∀ tokens raw depth, FoundAlike raw depth (m.run p tokens : Tally scale → _)

theorem findsAlike_of_inside {m : Matcher} {p : Pattern}
    (h : ∀ tokens raw depth, FoundAlike raw depth (m.inside p tokens : Tally σ → _))
    : FindsAlike σ m p := by
  intro tokens raw depth
  refine ((h tokens raw (depth + 1)).visit m p.kind).congr fun tally _ => ?_
  exact m.run_eq_visit p tokens tally

/-- Patterns that find alike do so one after the other, by list induction. Where a pattern took the
call to its end, the ones behind it find nothing.
-/
theorem foundAlike_runAll {m : Matcher} {ps : List Pattern} (h : ∀ p ∈ ps, FindsAlike σ m p)
    (tokens : List Token) (raw : String) (depth : Nat)
    : FoundAlike raw depth (m.runAll ps tokens : Tally σ → _) := by
  induction ps generalizing tokens with
  | nil => exact .of_unchanged _
  | cons p ps ih =>
      have hps := ih fun q hq => h q (List.mem_cons_of_mem p hq)
      obtain ⟨failure | rest, findings, noted⟩ := h p List.mem_cons_self tokens raw depth
      · refine ⟨.error failure, findings, fun tally opened => ?_⟩
        rw [Matcher.runAll, noted tally opened]
      · cases ended : findings.terminated with
        | false =>
            obtain ⟨verdict, later, noted'⟩ := hps rest
            refine ⟨verdict, findings.append later, fun tally opened => ?_⟩
            rw [Matcher.runAll, noted tally opened, noting_append]
            exact noted' _ (opened.noting ended)
        | true =>
            have closed (tally : Tally σ) : (tally.noting findings).terminated = true := by
              simp [noting, ended]
            cases ps with
            | nil =>
                refine ⟨.ok rest, findings, fun tally opened => ?_⟩
                rw [Matcher.runAll_singleton, noted tally opened]
            | cons q qs =>
                refine ⟨.fault (.matchAfterTermination q.kind), findings, fun tally opened => ?_⟩
                rw [Matcher.runAll, noted tally opened]
                dsimp only
                rw [Matcher.runAll, Matcher.run_eq_visit, Matcher.visit_of_terminated (closed tally)]
                rfl

/-- Every pattern finds alike, by induction on the pattern. Only a sequence needs the induction: a
group is matched on branches of its own, which are the same for all these tallies.
-/
theorem findsAlike (m : Matcher) (p : Pattern) : FindsAlike σ m p := by
  induction p with
  | literal text caseSensitive =>
      exact findsAlike_of_inside (foundAlike_runLiteral m text caseSensitive)
  | parameter name typeName =>
      exact findsAlike_of_inside (foundAlike_runParameter m name typeName)
  | tail name => exact findsAlike_of_inside (foundAlike_runTail name)
  | optional identifier inner _ =>
      refine findsAlike_of_inside fun tokens raw depth => ?_
      let branch : Tally σ := { Tally.start raw with depth }
      refine (foundAlike_settleOptional identifier tokens (m.run inner tokens branch) raw depth).congr
        fun tally opened => ?_
      rw [Matcher.inside, opened.branch_eq]
  | variant identifier parenthesized alternatives _ =>
      refine findsAlike_of_inside fun tokens raw depth => ?_
      let branch : Tally σ := { Tally.start raw with depth }
      refine (foundAlike_settleVariant identifier alternatives
        (m.runEach alternatives tokens branch) raw depth).congr fun tally opened => ?_
      rw [Matcher.inside, opened.branch_eq]
  | sequence children ih => exact findsAlike_of_inside (foundAlike_runAll ih)

end CallGrammar

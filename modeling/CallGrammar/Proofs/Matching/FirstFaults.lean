import CallGrammar.Proofs.Matching.Faults
import CallGrammar.Proofs.Matching.Trace

/-! Faults are neither recovered from nor invented. A visit raises a fault where its pattern may not
be entered or is a leaf that stops with one. A run stops with the first fault that its visits raise,
and without one it succeeds or does not fit.
-/

namespace CallGrammar

variable {σ : Type}

------------------------------------------------------------
-- Faults that are raised

/-- The fault that stopped a match. -/
def Verdict.fault? : Verdict σ → Option Fault
  | .error (.fault fault) => some fault
  | .error (.mismatch _) | .ok _ => none

theorem Verdict.fault?_eq_some_iff {verdict : Verdict σ} {fault : Fault}
    : verdict.fault? = some fault ↔ verdict = .fault fault := by
  obtain (reason | other) | rest := verdict
  · simp [Verdict.fault?, Verdict.fault]
  · simp [Verdict.fault?, Verdict.fault]
  · simp [Verdict.fault?, Verdict.fault]

namespace Matcher

/-- The fault of entering a pattern in a call taken to its end, or at the limit of the depth. -/
def entryFault? (m : Matcher) (kind : Kind) (tally : Tally σ) : Option Fault :=
  if tally.terminated then some (.matchAfterTermination kind)
  else if m.maxDepth ≤ tally.depth then some (.depthExceeded m.maxDepth)
  else none

/-- A pattern is refused with the fault of entering it, or entered. -/
theorem entryFault?_cases (m : Matcher) (kind : Kind) (tally : Tally σ)
    : (∃ fault,
        m.entryFault? kind tally = some fault
        ∧ m.refuses tally = true
        ∧ ∀ inside, m.visit kind inside tally = (.fault fault, tally))
      ∨ (m.entryFault? kind tally = none ∧ m.refuses tally = false) := by
  unfold entryFault?
  cases ended : tally.terminated with
  | true => exact .inl ⟨_, rfl, by simp [refuses, ended], visit_of_terminated ended m kind⟩
  | false =>
      by_cases deep : m.maxDepth ≤ tally.depth
      · refine .inl ⟨_, if_pos deep, by simp [refuses, deep], ?_⟩
        exact visit_of_deep ended deep kind
      · exact .inr ⟨if_neg deep, by simp [refuses, ended, deep]⟩

variable [Scale σ]

/-- The fault that a visit raises by itself: entering its pattern is one, or the pattern is a leaf
that stops with one.
-/
def raised? (m : Matcher) (visit : Visit σ) : Option Fault :=
  (m.entryFault? visit.pattern.kind visit.tally).or
    (if visit.pattern.isLeaf then
      (m.inside visit.pattern visit.tokens visit.tally.enter).1.fault?
    else none)

/-- The first fault that visits raise. -/
def firstRaised? (m : Matcher) (visits : List (Visit σ)) : Option Fault :=
  visits.findSome? m.raised?

@[simp]
theorem firstRaised?_nil (m : Matcher) : m.firstRaised? ([] : List (Visit σ)) = none :=
  rfl

@[simp]
theorem firstRaised?_append (m : Matcher) (first second : List (Visit σ))
    : m.firstRaised? (first ++ second) = (m.firstRaised? first).or (m.firstRaised? second) :=
  List.findSome?_append

theorem firstRaised?_cons (m : Matcher) (visit : Visit σ) (rest : List (Visit σ))
    : m.firstRaised? (visit :: rest) = (m.raised? visit).or (m.firstRaised? rest) := by
  rw [firstRaised?, List.findSome?_cons]
  cases m.raised? visit <;> rfl

/-- A fault is raised on a branch whether the branch is kept or given up. -/
@[simp]
theorem firstRaised?_onBranch (m : Matcher) (joined : Bool) (visits : List (Visit σ))
    : m.firstRaised? (visits.map (.onBranch joined)) = m.firstRaised? visits :=
  List.findSome?_map

------------------------------------------------------------
-- The first one stops the run

/-- Every run over the pattern stops with the first fault that its visits raise. -/
def StopsAtFirst (scale : Type) [Scale scale] (m : Matcher) (p : Pattern) : Prop :=
  ∀ (tokens : List Token) (tally : Tally scale),
    (m.run p tokens tally).1.fault? = m.firstRaised? (m.visits p tokens tally)

/-- A pattern does so if what happens inside stops with its own fault, for a leaf, or the first one
raised by its parts.
-/
theorem stopsAtFirst_of_inside {m : Matcher} {p : Pattern}
    (h : ∀ tokens (tally : Tally σ),
      (m.inside p tokens tally).1.fault?
      = (if p.isLeaf then (m.inside p tokens tally).1.fault? else none).or
          (m.firstRaised? (m.visitsInside p tokens tally)))
    : StopsAtFirst σ m p := by
  intro tokens tally
  rw [visits_eq, firstRaised?_cons, raised?]
  rcases m.entryFault?_cases p.kind tally with ⟨fault, entry, refused, stopped⟩ | ⟨entry, entered⟩
  · rw [run_eq_visit, stopped, entry]
    rfl
  · rw [run_of_not_refuses entered, entry, entered]
    exact h tokens tally.enter

theorem stopsAtFirst_of_leaf {m : Matcher} {p : Pattern} (leaf : p.isLeaf = true)
    : StopsAtFirst σ m p := by
  refine stopsAtFirst_of_inside fun tokens tally => ?_
  have inside : m.visitsInside p tokens tally = [] := by
    cases p with
    | literal | parameter | tail => rfl
    | optional | variant | sequence => cases leaf
  rw [leaf, if_pos rfl, inside, firstRaised?_nil, Option.or_none]

/-- Patterns one after the other stop with the first fault of all if each stops with its first, by
list induction.
-/
theorem fault?_runAll {m : Matcher} {ps : List Pattern} (h : ∀ p ∈ ps, StopsAtFirst σ m p)
    (tokens : List Token) (tally : Tally σ)
    : (m.runAll ps tokens tally).1.fault? = m.firstRaised? (m.visitsAll ps tokens tally) := by
  induction ps generalizing tokens tally with
  | nil => rfl
  | cons p rest ih =>
      have first := h p List.mem_cons_self tokens tally
      rw [runAll, visitsAll, firstRaised?_append, ← first]
      generalize m.run p tokens tally = result
      obtain ⟨(reason | fault) | left, after⟩ := result
      · rfl
      · rfl
      · exact ih (fun q hq => h q (List.mem_cons_of_mem p hq)) left after

/-- So do alternatives, where a match before a fault is no reason to go on without it, by list
induction.
-/
theorem runEach_eq_error_iff {m : Matcher} {ps : List Pattern} (h : ∀ p ∈ ps, StopsAtFirst σ m p)
    (tokens : List Token) (branch : Tally σ) (place : Nat) (choice : Option Nat) (fault : Fault)
    : m.runEach ps tokens branch = .error fault
      ↔ m.firstRaised? (m.visitsEach ps tokens branch place choice) = some fault := by
  induction ps generalizing place with
  | nil => simp [runEach, visitsEach]
  | cons p rest ih =>
      have first := h p List.mem_cons_self tokens branch
      have others := ih (fun q hq => h q (List.mem_cons_of_mem p hq)) (place + 1)
      have later (result : Except (Mismatch σ) (List Token × Tally σ))
          : (m.runEach rest tokens branch).map (result :: ·) = .error fault
            ↔ m.runEach rest tokens branch = .error fault := by
        cases m.runEach rest tokens branch <;> simp [Except.map]
      rw [runEach, visitsEach, firstRaised?_append, firstRaised?_onBranch, ← first]
      generalize m.run p tokens branch = result
      obtain ⟨(reason | raised) | left, after⟩ := result
      · exact (later _).trans others
      · simp [Verdict.fault?]
      · exact (later _).trans others

/-- A run stops with the first fault that its visits raise, by induction on the pattern. -/
theorem stopsAtFirst (m : Matcher) (p : Pattern) : StopsAtFirst σ m p := by
  induction p with
  | literal text caseSensitive => exact stopsAtFirst_of_leaf rfl
  | parameter name typeName => exact stopsAtFirst_of_leaf rfl
  | tail name => exact stopsAtFirst_of_leaf rfl
  | optional identifier inner ih =>
      refine stopsAtFirst_of_inside fun tokens tally => ?_
      have hinner := ih tokens tally.branch
      rw [inside, visitsInside, firstRaised?_onBranch, ← hinner]
      generalize m.run inner tokens tally.branch = result
      obtain ⟨(reason | fault) | rest, branch⟩ := result
      · rfl
      · rfl
      · rfl
  | variant identifier parenthesized alternatives ih =>
      refine stopsAtFirst_of_inside fun tokens tally => Option.ext fun fault => ?_
      have settled
          : (m.inside (.variant identifier parenthesized alternatives) tokens tally).1
              = .fault fault
            ↔ m.runEach alternatives tokens tally.branch = .error fault := by
        refine ⟨fault_of_settleVariant, fun stopped => ?_⟩
        rw [inside, stopped]
        rfl
      rw [Verdict.fault?_eq_some_iff, settled]
      exact runEach_eq_error_iff ih tokens tally.branch 0
        (m.choice? alternatives tokens tally.branch) fault
  | sequence children ih =>
      refine stopsAtFirst_of_inside fun tokens tally => ?_
      exact fault?_runAll ih tokens tally

/-- A variant stops with the fault of an alternative, whatever the ones before it found. -/
theorem run_variant_of_fault {m : Matcher} {before after : List Pattern} {alternative : Pattern}
    {tokens : List Token} {tally : Tally σ} {fault : Fault} (entered : m.refuses tally = false)
    (earlier : ∀ q ∈ before, ∀ other, (m.run q tokens tally.enter.branch).1 ≠ .fault other)
    (raised : (m.run alternative tokens tally.enter.branch).1 = .fault fault)
    (identifier : Option String) (parenthesized : Bool)
    : (m.run (.variant identifier parenthesized (before ++ alternative :: after)) tokens tally).1
      = .fault fault := by
  have stopped : m.runEach (before ++ alternative :: after) tokens tally.enter.branch
      = .error fault := by
    induction before with
    | nil =>
        rw [List.nil_append, runEach]
        generalize m.run alternative tokens tally.enter.branch = result at raised
        obtain ⟨verdict, left⟩ := result
        cases raised
        rfl
    | cons q rest ih =>
        have hq := earlier q List.mem_cons_self
        have hrest := ih fun other member => earlier other (List.mem_cons_of_mem q member)
        rw [List.cons_append, runEach]
        generalize m.run q tokens tally.enter.branch = result at hq
        obtain ⟨(reason | other) | left, found⟩ := result
        · dsimp only
          rw [hrest]
          rfl
        · exact absurd rfl (hq other)
        · dsimp only
          rw [hrest]
          rfl
  rw [run_of_not_refuses entered, inside, stopped]
  rfl

/-- Faults are never recovered from and never invented: a run stops with a fault exactly if one of
its visits raises one, which is then the first that is raised, and whatever only does not fit leads
to no fault. So a variant stops with the fault of an alternative even where an earlier one matched.
-/
theorem run_stops_at_first_fault (m : Matcher) (p : Pattern) (tokens : List Token)
    (tally : Tally σ)
    : (∀ fault,
        (m.run p tokens tally).1 = .fault fault
        ↔ (m.visits p tokens tally).findSome? m.raised? = some fault)
      ∧ ((∃ fault, (m.run p tokens tally).1 = .fault fault)
        ↔ ∃ visit ∈ m.visits p tokens tally, (m.raised? visit).isSome = true)
      ∧ ∀ identifier parenthesized before alternative after,
          p = .variant identifier parenthesized (before ++ alternative :: after)
          → m.refuses tally = false
          → (∀ q ∈ before, ∀ other, (m.run q tokens tally.enter.branch).1 ≠ .fault other)
          → ∀ fault, (m.run alternative tokens tally.enter.branch).1 = .fault fault
            → (m.run p tokens tally).1 = .fault fault := by
  have first (fault : Fault)
      : (m.run p tokens tally).1 = .fault fault
        ↔ (m.visits p tokens tally).findSome? m.raised? = some fault := by
    rw [← Verdict.fault?_eq_some_iff, m.stopsAtFirst p]
    rfl
  refine ⟨first, ?_, ?_⟩
  · simp only [first]
    rw [← Option.isSome_iff_exists, List.isSome_findSome?]
    simp
  · rintro identifier parenthesized before alternative after rfl entered earlier fault raised
    exact run_variant_of_fault entered earlier raised identifier parenthesized

/-- The first alternative matches the call, and the second one omits a group and matches a word
before it comes to a parameter of an unknown type.
-/
theorem run_stops_at_first_fault_unknown_city
    : ∃ (p city : Pattern) (tokens : List Token) (tally : Tally Rat),
        city = .sequence
          [.optional none (.literal "please" true), .literal "go" true,
           .parameter "place" (some "city")]
        ∧ p = .variant none true [.literal "go" true, city, .tail "rest"]
        ∧ tokens = [⟨"go", ⟨0, 2⟩⟩]
        ∧ tally = .start "go"
        ∧ (standard.run (.literal "go" true) tokens tally.enter.branch).1 = .ok []
        ∧ (standard.run p tokens tally).1 = .fault (.undefinedType "city")
        ∧ (standard.visits p tokens tally).findSome? standard.raised?
          = some (.undefinedType "city")
        ∧ ∃ visit ∈ standard.visits p tokens tally,
            (standard.raised? visit).isSome = true := by
  let city : Pattern :=
    .sequence
      [.optional none (.literal "please" true), .literal "go" true,
       .parameter "place" (some "city")]
  let p : Pattern := .variant none true [.literal "go" true, city, .tail "rest"]
  let tokens : List Token := [⟨"go", ⟨0, 2⟩⟩]
  let tally : Tally Rat := .start "go"
  have matched : (standard.run (.literal "go" true) tokens tally.enter.branch).1 = .ok [] := by
    with_unfolding_all rfl
  have raised
      : (standard.run city tokens tally.enter.branch).1 = .fault (.undefinedType "city") := by
    with_unfolding_all rfl
  obtain ⟨first, some_raised, variant⟩ := run_stops_at_first_fault standard p tokens tally
  have stopped : (standard.run p tokens tally).1 = .fault (.undefinedType "city") := by
    refine variant none true [.literal "go" true] city [.tail "rest"] rfl rfl ?_ _ raised
    intro q member other
    rw [List.mem_singleton.mp member, matched]
    exact nofun
  exact ⟨p, city, tokens, tally, rfl, rfl, rfl, rfl, matched, stopped, (first _).mp stopped,
    some_raised.mp ⟨_, stopped⟩⟩

end Matcher

end CallGrammar

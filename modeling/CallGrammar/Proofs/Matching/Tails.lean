import CallGrammar.Proofs.Call.Remainders
import CallGrammar.Proofs.Matching.Soundness
import CallGrammar.Proofs.Matching.Trace

/-! Tails capture the rest of a call without loss. Wherever a run stands, the tokens before it are
the last ones of its call, so the text that a tail binds reaches to the end of the call, but for
blanks.
-/

namespace CallGrammar

variable {σ : Type}

/-- Where a run over a call may stand: before some of the call's last tokens, none of them left if
the call was taken to its end.
-/
structure Position (raw : String) (whole tokens : List Token) (tally : Tally σ) : Prop where
  rest : tokens <:+ whole
  raw_eq : tally.raw = raw
  ended : tally.terminated = true → tokens = []

namespace Position

variable {raw : String} {whole tokens : List Token} {tally : Tally σ}

theorem enter (h : Position raw whole tokens tally) : Position raw whole tokens tally.enter :=
  ⟨h.rest, h.raw_eq, h.ended⟩

variable [Scale σ]

theorem start (raw : String) (tokens : List Token)
    : Position raw tokens tokens (.start raw : Tally σ) :=
  ⟨List.suffix_rfl, rfl, nofun⟩

theorem branch (h : Position raw whole tokens tally) : Position raw whole tokens tally.branch :=
  ⟨h.rest, h.raw_eq, nofun⟩

/-- A run that succeeds goes on from its place to a later one. -/
theorem run (h : Position raw whole tokens tally) {m : Matcher} {p : Pattern}
    {left : List Token} {after : Tally σ} (hr : m.run p tokens tally = (.ok left, after))
    : Position raw whole left after := by
  obtain ⟨r, -, progress, -⟩ := accountable m p hr
  obtain ⟨taken, htokens, -⟩ := progress.takes
  refine ⟨?_, progress.notes.raw_eq.trans h.raw_eq, progress.ended⟩
  exact (htokens ▸ List.suffix_append taken left).trans h.rest

end Position

/-- Where a visit stands. -/
def Visit.Stands (raw : String) (whole : List Token) (visit : Visit σ) : Prop :=
  Position raw whole visit.tokens visit.tally

/-- On a branch visits stand where they did. -/
theorem Visit.stands_onBranch {raw : String} {whole : List Token} {visits : List (Visit σ)}
    (h : ∀ visit ∈ visits, visit.Stands raw whole) (joined : Bool)
    : ∀ visit ∈ visits.map (Visit.onBranch joined), visit.Stands raw whole :=
  List.forall_mem_map.mpr h

namespace Matcher

variable [Scale σ] {m : Matcher} {raw : String} {whole tokens : List Token} {tally : Tally σ}

/-- The visits of every run over a pattern stand in the call where the run does. -/
def KeepsPlace (scale : Type) [Scale scale] (m : Matcher) (p : Pattern) : Prop :=
  ∀ {raw : String} {whole tokens : List Token} {tally : Tally scale},
    Position raw whole tokens tally
    → ∀ visit ∈ m.visits p tokens tally, visit.Stands raw whole

/-- Patterns one after the other keep their place if each does, by list induction. -/
theorem stands_visitsAll {ps : List Pattern} (keeps : ∀ p ∈ ps, KeepsPlace σ m p)
    (h : Position raw whole tokens tally)
    : ∀ visit ∈ m.visitsAll ps tokens tally, visit.Stands raw whole := by
  induction ps generalizing tokens tally with
  | nil => exact List.forall_mem_nil _
  | cons p rest ih =>
      rw [visitsAll]
      refine List.forall_mem_append.mpr ⟨keeps p List.mem_cons_self h, ?_⟩
      split
      · rename_i left after hr
        exact ih (fun q hq => keeps q (List.mem_cons_of_mem p hq)) (h.run hr)
      · exact List.forall_mem_nil _

/-- So do alternatives, which all start from the same place, by list induction. -/
theorem stands_visitsEach {ps : List Pattern} (keeps : ∀ p ∈ ps, KeepsPlace σ m p)
    (h : Position raw whole tokens tally) (place : Nat) (choice : Option Nat)
    : ∀ visit ∈ m.visitsEach ps tokens tally place choice, visit.Stands raw whole := by
  induction ps generalizing place with
  | nil => exact List.forall_mem_nil _
  | cons p rest ih =>
      rw [visitsEach]
      refine List.forall_mem_append.mpr ⟨?_, ?_⟩
      · exact Visit.stands_onBranch (keeps p List.mem_cons_self h) _
      · split
        · exact List.forall_mem_nil _
        · exact ih (fun q hq => keeps q (List.mem_cons_of_mem p hq)) (place + 1)

theorem keepsPlace_of_inside {p : Pattern}
    (h : ∀ {raw : String} {whole tokens : List Token} {tally : Tally σ},
      Position raw whole tokens tally
      → ∀ visit ∈ m.visitsInside p tokens tally, visit.Stands raw whole)
    : KeepsPlace σ m p := by
  intro raw whole tokens tally position
  rw [visits_eq]
  refine List.forall_mem_cons.mpr ⟨position, ?_⟩
  split
  · exact List.forall_mem_nil _
  · exact h position.enter

/-- A run stands in its call at every visit, by induction on the pattern. -/
theorem keepsPlace (m : Matcher) (p : Pattern) : KeepsPlace σ m p := by
  induction p with
  | literal text caseSensitive => exact keepsPlace_of_inside fun _ => List.forall_mem_nil _
  | parameter name typeName => exact keepsPlace_of_inside fun _ => List.forall_mem_nil _
  | tail name => exact keepsPlace_of_inside fun _ => List.forall_mem_nil _
  | optional identifier inner ih =>
      refine keepsPlace_of_inside fun position => ?_
      exact Visit.stands_onBranch (ih position.branch) _
  | variant identifier parenthesized alternatives ih =>
      refine keepsPlace_of_inside fun position => ?_
      exact stands_visitsEach ih position.branch 0 _
  | sequence children ih => exact keepsPlace_of_inside (stands_visitsAll ih)

------------------------------------------------------------
-- Tails

/-- A tail does not match nothing, be the call taken to its end before or not. -/
theorem run_tail_nil (entered : tally.depth < m.maxDepth) (name : String)
    : (m.run (.tail name) [] tally).1.isOk = false := by
  rw [run_eq_visit]
  cases ht : tally.terminated with
  | true =>
      rw [visit_of_terminated ht]
      rfl
  | false =>
      rw [visit_of_open ht entered]
      rfl

/-- Before some of the last tokens of a call a tail binds a text that captures them. -/
theorem exists_run_tail_eq (tokenized : m.tokenize raw = .ok whole)
    (h : Position raw whole tokens tally) (filled : tokens ≠ [])
    (entered : tally.depth < m.maxDepth) (name : String)
    : ∃ text,
        Call.Captures m.quotes raw tokens text
        ∧ m.run (.tail name) tokens tally
          = (.ok [],
              { (tally.bind name (.str text)).award Scale.tail with terminated := true }) := by
  have hfirst : tokens.head? = some (tokens.head filled) := List.head?_eq_some_head filled
  have hlast : tokens.getLast? = some (tokens.getLast filled) :=
    List.getLast?_eq_some_getLast filled
  have captures := Call.captures_of_suffix tokenized h.rest hfirst hlast
  have hopen : tally.terminated = false := Bool.eq_false_iff.mpr fun ht => filled (h.ended ht)
  refine ⟨_, captures, ?_⟩
  have hraw : tally.enter.raw = raw := h.raw_eq
  -- The text is not empty, so the tail never fails on that account.
  rw [run_eq_visit, visit_of_open hopen entered, inside, runTail, hfirst, hlast]
  simp only [hraw]
  rw [if_neg (by simpa using captures.filled)]
  rfl

/-- A tail captures the rest of its call without loss. Wherever a run over a call enters a tail,
however deep in groups, the tokens before it are the last ones of the call, and the tail matches
exactly if there are any. It then binds a text that is not empty and stands in the call from the
start of the first of them to the end of the last one, with nothing but blanks behind it, and that
has tokens of the same values on its own.
-/
theorem tail_captures_rest (m : Matcher) (p : Pattern) (raw : String) (tokens : List Token)
    (tokenized : m.tokenize raw = .ok tokens) (visit : Visit σ)
    (visited : visit ∈ m.visits p tokens (.start raw)) (name : String)
    (tail : visit.pattern = .tail name) (entered : visit.tally.depth < m.maxDepth)
    : visit.tokens <:+ tokens
      ∧ ((m.run visit.pattern visit.tokens visit.tally).1.isOk = true ↔ visit.tokens ≠ [])
      ∧ (visit.tokens ≠ []
        → ∃ text,
            Call.Captures m.quotes raw visit.tokens text
            ∧ m.run visit.pattern visit.tokens visit.tally
              = (.ok [],
                  { (visit.tally.bind name (.str text)).award Scale.tail with
                    terminated := true })) := by
  have position : Position raw tokens visit.tokens visit.tally :=
    keepsPlace m p (.start raw tokens) visit visited
  rw [tail]
  by_cases filled : visit.tokens = []
  · rw [filled]
    exact ⟨List.nil_suffix, by simp [run_tail_nil entered name], absurd rfl⟩
  · obtain ⟨text, captures, hrun⟩ := exists_run_tail_eq tokenized position filled entered name
    refine ⟨position.rest, ?_, fun _ => ⟨text, captures, hrun⟩⟩
    simp [hrun, filled, Except.isOk, Except.toBool]

/-- A tail in a variant of an optional group, before a quoted token and a plain one with blanks
between and behind them.
-/
theorem tail_captures_rest_say_quoted
    : ∃ (p : Pattern) (tokens rest : List Token) (visit : Visit Rat),
        p = .sequence
          [.literal "say" true,
           .optional none (.variant none false [.literal "hi" true, .tail "what"])]
        ∧ standard.tokenize "say  \"é  b\" c  " = .ok tokens
        ∧ visit ∈ standard.visits p tokens (.start "say  \"é  b\" c  ")
        ∧ visit.pattern = .tail "what"
        ∧ rest = [⟨"é  b", ⟨5, 12⟩⟩, ⟨"c", ⟨13, 14⟩⟩]
        ∧ visit.tokens = rest
        ∧ rest <:+ tokens
        ∧ (standard.run visit.pattern rest visit.tally).1.isOk = true
        ∧ ∃ text,
            Call.Captures standard.quotes "say  \"é  b\" c  " rest text
            ∧ standard.run visit.pattern rest visit.tally
              = (.ok [],
                  { (visit.tally.bind "what" (.str text)).award Scale.tail with
                    terminated := true }) := by
  let raw : String := "say  \"é  b\" c  "
  let p : Pattern :=
    .sequence
      [.literal "say" true, .optional none (.variant none false [.literal "hi" true, .tail "what"])]
  let rest : List Token := [⟨"é  b", ⟨5, 12⟩⟩, ⟨"c", ⟨13, 14⟩⟩]
  let tokens : List Token := ⟨"say", ⟨0, 3⟩⟩ :: rest
  let tally : Tally Rat := { Tally.start raw with depth := 3 }
  have tokenized : standard.tokenize raw = .ok tokens := by decide
  -- Whether the visit is kept does not matter, so it is not computed.
  obtain ⟨kept, hvisit⟩ : ∃ kept,
      (standard.visits p tokens (.start raw))[5]? = some ⟨.tail "what", rest, tally, kept⟩ := by
    refine ⟨?kept, ?eq⟩
    case eq => with_unfolding_all rfl
  have visited := List.mem_of_getElem? hvisit
  obtain ⟨suffix, matches_iff, captured⟩ :=
    tail_captures_rest standard p raw tokens tokenized _ visited "what" rfl
      (by decide : 3 < 64)
  exact ⟨p, tokens, rest, _, rfl, tokenized, visited, rfl, rfl, rfl, suffix,
    matches_iff.mpr (List.cons_ne_nil _ _), captured (List.cons_ne_nil _ _)⟩

end Matcher

end CallGrammar

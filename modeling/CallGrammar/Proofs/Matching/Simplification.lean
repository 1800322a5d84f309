import CallGrammar.Proofs.Definition.Shape
import CallGrammar.Proofs.Matching.Faults
import CallGrammar.Proofs.Matching.Refinement

/-! Simplifying a definition does not change what its pattern matches. A run over a pattern and
one over its flattened form find the same, except that the deeper one may be cut off by the limit
of the depth.
-/

namespace CallGrammar

open Pattern (isSolid_iff)

variable {σ : Type} [Scale σ]

/-- From tallies alike, a run over a pattern refines one over some patterns that starts no
deeper.
-/
def RefinedBy (scale : Type) [Scale scale] (m : Matcher) (p : Pattern) (ps : List Pattern) : Prop :=
  ∀ (tokens : List Token) {left right : Tally scale}, left.Alike right
    → right.depth ≤ left.depth
    → Refines (m.run p tokens left) (m.runAll ps tokens right)

/-- Patterns one after the other are refined by what refines each of them, by list induction. -/
theorem refines_runAll {m : Matcher} {ps : List Pattern} {f : Pattern → List Pattern}
    (h : ∀ p ∈ ps, RefinedBy σ m p (f p)) (tokens : List Token) {left right : Tally σ}
    (alike : left.Alike right) (shallower : right.depth ≤ left.depth)
    : Refines (m.runAll ps tokens left) (m.runAll (ps.flatMap f) tokens right) := by
  induction ps generalizing tokens left right with
  | nil => exact .ok alike
  | cons p rest ih =>
      have hp := h p List.mem_cons_self tokens alike shallower
      have hl := m.depth_run p tokens left
      have hr := m.depth_runAll (f p) tokens right
      rw [List.flatMap_cons, Matcher.runAll_append, Matcher.runAll]
      generalize m.run p tokens left = result at hp hl
      generalize m.runAll (f p) tokens right = result' at hp hr
      cases hp with
      | cut => exact .cut
      | ok alike =>
          -- Both runs came back to their depths, so the first one is still no shallower.
          refine ih (fun q hq => h q (List.mem_cons_of_mem p hq)) _ alike ?_
          dsimp only at hl hr
          omega
      | mismatch alike => exact .mismatch alike
      | fault alike => exact .fault alike

/-- A pattern is refined by another one if what happens inside is. -/
theorem refinedBy_of_inside {m : Matcher} {p q : Pattern}
    (h : ∀ (tokens : List Token) {left right : Tally σ}, left.Alike right
      → right.depth ≤ left.depth → Refines (m.inside p tokens left) (m.inside q tokens right))
    : RefinedBy σ m p [q] := by
  intro tokens left right alike shallower
  rw [Matcher.runAll_singleton, Matcher.run_eq_visit, Matcher.run_eq_visit]
  exact .visit alike shallower (h tokens alike.enter (Nat.succ_le_succ shallower)) p.kind q.kind

/-- A sequence is refined by what refines its parts, without being one itself. -/
theorem refinedBy_flatMap {m : Matcher} {children : List Pattern} {f : Pattern → List Pattern}
    (h : ∀ p ∈ children, RefinedBy σ m p (f p)) (filled : children.flatMap f ≠ [])
    : RefinedBy σ m (.sequence children) (children.flatMap f) := by
  intro tokens left right alike shallower
  rw [Matcher.run_eq_visit]
  cases ht : left.terminated with
  | true =>
      obtain ⟨kind, hr⟩ :=
        Matcher.runAll_of_terminated (alike.terminated_eq ▸ ht) filled m tokens
      rw [Matcher.visit_of_terminated ht, hr]
      exact refines_terminated _ kind left right
  | false =>
      by_cases hd : m.maxDepth ≤ left.depth
      · rw [Matcher.visit_of_deep ht hd]
        exact .cut
      · rw [Matcher.visit_of_open ht (by omega)]
        exact (refines_runAll h tokens alike.enter_left (Nat.le_succ_of_le shallower)).leave_left

/-- A solid pattern is refined by its flattened form, alone and as a part of a sequence, by
induction on the pattern.
-/
theorem refinedBy_flattened (m : Matcher) {p : Pattern} (solid : p.IsSolid)
    : RefinedBy σ m p [p.flattened]
      ∧ (p ≠ .sequence [] → RefinedBy σ m p p.flattened.spliced) := by
  -- A solid pattern that is no sequence does not become one, so it is one part in both cases.
  have single {p : Pattern} (solid : p.IsSolid) (hk : p.kind ≠ .sequence)
      (h : RefinedBy σ m p [p.flattened])
      : RefinedBy σ m p [p.flattened]
        ∧ (p ≠ .sequence [] → RefinedBy σ m p p.flattened.spliced) := by
    rw [Pattern.spliced_of_kind_ne (solid.kind_flattened_ne hk)]
    exact ⟨h, fun _ => h⟩
  induction p with
  | literal text caseSensitive =>
      refine single solid nofun (refinedBy_of_inside ?_)
      exact fun tokens _ _ alike _ => refines_runLiteral alike m text caseSensitive tokens
  | parameter name typeName =>
      refine single solid nofun (refinedBy_of_inside ?_)
      exact fun tokens _ _ alike _ => refines_runParameter alike m name typeName tokens
  | tail name =>
      refine single solid nofun (refinedBy_of_inside ?_)
      exact fun tokens _ _ alike _ => refines_runTail alike name tokens
  | optional identifier inner ih =>
      have hi := (isSolid_iff.mp solid).2 inner (List.mem_singleton.mpr rfl)
      refine single solid nofun (refinedBy_of_inside fun tokens left right alike shallower => ?_)
      have hr := (ih hi).1 tokens alike.branch shallower
      rw [Matcher.runAll_singleton] at hr
      exact hr.settleOptional alike identifier tokens
  | variant identifier parenthesized alternatives ih =>
      obtain ⟨hn, hc⟩ := isSolid_iff.mp solid
      refine single solid nofun (refinedBy_of_inside fun tokens left right alike shallower => ?_)
      rw [Pattern.flattened_variant (.inr hn)]
      refine RefinesEach.settleVariant alike (refinesEach_runEach fun p hp => ?_) identifier _ _
      have hr := (ih p hp (hc p hp)).1 tokens alike.branch shallower
      rwa [Matcher.runAll_singleton] at hr
  | sequence children ih =>
      obtain ⟨hn, hc⟩ := isSolid_iff.mp solid
      have parts (p : Pattern) (hp : p ∈ children) : RefinedBy σ m p p.flattened.spliced :=
        (ih p hp (hc p hp)).2 (hn p hp)
      have spliced (filled : Pattern.sequence children ≠ .sequence [])
          : RefinedBy σ m (.sequence children) (Pattern.sequence children).flattened.spliced := by
        have hs := solid.spliced_flattened_ne_nil filled
        rw [Pattern.spliced_flattened_sequence] at hs ⊢
        exact refinedBy_flatMap parts hs
      refine ⟨?_, spliced⟩
      -- A single part stands for the sequence, anything else stays one.
      by_cases hl : (children.flatMap (fun child => child.flattened.spliced)).length = 1
      · obtain ⟨q, hq⟩ := List.length_eq_one_iff.mp hl
        have hs : RefinedBy σ m (.sequence children)
            (Pattern.sequence children).flattened.spliced := by
          refine spliced fun he => ?_
          cases Pattern.sequence.inj he
          cases hl
        rw [Pattern.spliced_flattened_sequence, hq] at hs
        rwa [Pattern.flattened_sequence, hq]
      · rw [Pattern.flattened_sequence, Pattern.ofSequence_of_length_ne hl]
        refine refinedBy_of_inside fun tokens left right alike shallower => ?_
        exact refines_runAll parts tokens alike shallower

/-- An attempt on a solid pattern agrees with the one on its flattened form, unless it is cut
off.
-/
theorem attempt_agrees_flattened {p : Pattern} (solid : p.IsSolid) (m : Matcher) (index : Nat)
    (tokens : List Token) (raw : String)
    (uncut : ∀ limit,
      (m.attempt index p tokens raw : Except Fault (Attempt σ)) ≠ .error (.depthExceeded limit))
    : Attempt.Agrees (m.attempt index p tokens raw : Except Fault (Attempt σ))
        (m.attempt index p.flattened tokens raw) := by
  have hr := (refinedBy_flattened m solid).1 tokens (.refl (.start raw : Tally σ)) (Nat.le_refl _)
  rw [Matcher.runAll_singleton] at hr
  unfold Matcher.attempt at uncut ⊢
  generalize m.run p tokens (.start raw : Tally σ) = result at hr uncut
  generalize m.run p.flattened tokens (.start raw : Tally σ) = result' at hr
  cases hr with
  | @cut limit => exact absurd rfl (uncut limit)
  | @ok rest _ _ alike =>
      obtain ⟨depth, hint, rfl⟩ := alike
      cases rest with
      | nil => exact .matched
      | cons extra rest => exact .rejected
  | mismatch alike =>
      obtain ⟨depth, hint, rfl⟩ := alike
      exact .rejected
  | fault alike => exact .fault alike

/-- Simplification preserves matching: attempts on the patterns that a definition compiles to in
two modes agree, unless one of them is cut off by the limit of the depth.
-/
theorem attempt_agrees_of_compile {ignoreCase : Bool} {definition : String}
    {mode mode' : Definition.Simplify} {p q : Pattern}
    (hp : Definition.Compiler.compile ⟨mode, ignoreCase⟩ definition = .ok p)
    (hq : Definition.Compiler.compile ⟨mode', ignoreCase⟩ definition = .ok q) (m : Matcher)
    (index : Nat) (tokens : List Token) (raw : String)
    (uncut : ∀ limit,
      (m.attempt index p tokens raw : Except Fault (Attempt σ)) ≠ .error (.depthExceeded limit))
    (uncut' : ∀ limit,
      (m.attempt index q tokens raw : Except Fault (Attempt σ)) ≠ .error (.depthExceeded limit))
    : Attempt.Agrees (m.attempt index p tokens raw : Except Fault (Attempt σ))
        (m.attempt index q tokens raw) := by
  have hf : p.flattened = q.flattened := by
    obtain ⟨root, parsed, rfl⟩ := Definition.compile_eq_ok_iff.mp hp
    obtain ⟨root', parsed', rfl⟩ := Definition.compile_eq_ok_iff.mp hq
    obtain rfl := Except.ok.inj (parsed.symm.trans parsed')
    rw [Definition.flattened_simplified, Definition.flattened_simplified]
  have ha := attempt_agrees_flattened (Definition.rooted_of_compile hp).1.isSolid m index tokens
    raw uncut
  have hb := attempt_agrees_flattened (Definition.rooted_of_compile hq).1.isSolid m index tokens
    raw uncut'
  rw [hf] at ha
  exact ha.trans hb.symm

/-- Doubled parentheses inside brackets are removed, and the call matches as before. -/
theorem attempt_agrees_doubled_parentheses
    : ∃ p q tokens,
        Definition.Compiler.compile ⟨.no, false⟩ "go [((to))] (<days: int>|home)" = .ok p
        ∧ Definition.Compiler.compile ⟨.silently, false⟩ "go [((to))] (<days: int>|home)" = .ok q
        ∧ p ≠ q
        ∧ Matcher.standard.tokenize "go to home" = .ok tokens
        ∧ Attempt.Agrees
            (Matcher.standard.attempt 0 p tokens "go to home" : Except Fault (Attempt Rat))
            (Matcher.standard.attempt 0 q tokens "go to home") := by
  have hp : Definition.Compiler.compile ⟨.no, false⟩ "go [((to))] (<days: int>|home)"
      = .ok (.sequence
        [.literal "go" true,
         .optional none (.sequence [.sequence [.sequence [.literal "to" true]]]),
         .variant none true
          [.sequence [.parameter "days" (some "int")], .sequence [.literal "home" true]]]) := by
    rfl
  have hq : Definition.Compiler.compile ⟨.silently, false⟩ "go [((to))] (<days: int>|home)"
      = .ok (.sequence
        [.literal "go" true,
         .optional none (.literal "to" true),
         .variant none true [.parameter "days" (some "int"), .literal "home" true]]) := by
    rfl
  refine ⟨_, _, _, hp, hq, by decide, by rfl, attempt_agrees_of_compile hp hq _ _ _ _ ?_ ?_⟩
  · exact Matcher.attempt_ne_depthExceeded (by decide) _ _ _
  · exact Matcher.attempt_ne_depthExceeded (by decide) _ _ _

end CallGrammar

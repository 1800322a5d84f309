import CallGrammar.Proofs.Call.Padding
import CallGrammar.Proofs.Matching.Comparison

/-! Blanks around a call do not matter: it matches with the same outcome, or fails for the same
reason with every place in the call moved to the right by the blanks before it.
-/

namespace CallGrammar

open Call (IsSeparator)

/-- Answers of which the right one mentions all places further to the right. -/
def Difference.raised (amount : Nat) : Difference where
  token found found' := found' = found.raised amount
  similar := Eq
  alternatives := Eq
  fault fault fault' := fault' = fault.raised amount

/-- A call beside the same one with texts around it. -/
def Comparison.padded (m : Matcher) (before raw after : String) : Comparison where
  left := m
  right := m
  leftRaw := raw
  rightRaw := before ++ raw ++ after
  difference := .raised before.utf8ByteSize
  related found found' :=
    found.span.stop ≤ raw.utf8ByteSize ∧ found' = found.raised before.utf8ByteSize
  recase := id
  maxDepth_eq := rfl
  value_eq := by
    rintro found _ ⟨-, rfl⟩
    rfl
  token_of_related := And.right
  text_eq := by
    rintro first _ last _ ⟨-, rfl⟩ ⟨hlast, rfl⟩
    have hinside : (first.span.upTo last.span).stop ≤ raw.utf8ByteSize := hlast
    exact (Span.text_raised hinside before after).symm
  accepts_eq _ _ _ := rfl
  similar_false := rfl
  similar_isSimilar _ _ := rfl
  alternatives_render := Pattern.map_render_recased_id
  fault_self := by
    intro fault inCall
    cases fault with
    | unterminatedQuote quote offset => exact absurd rfl (inCall quote offset)
    | _ => rfl

/-- A call with blanks around it is cut into the same tokens further to the right. -/
theorem Comparison.related_tokenize_padded {m : Matcher} {before after : String}
    (hbefore : IsSeparator m.quotes before) (hafter : IsSeparator m.quotes after) (raw : String)
    : ExceptRel (padded m before raw after).difference.fault
        (List.Forall₂ (padded m before raw after).related)
        (m.tokenize raw) (m.tokenize (before ++ raw ++ after)) := by
  have hpadded : m.tokenize (before ++ raw ++ after) = _ :=
    Call.tokenize_padded hbefore hafter raw
  cases hraw : Call.tokenize m.quotes raw with
  | error fault =>
      rw [hpadded, Matcher.tokenize, hraw]
      exact .error rfl
  | ok tokens =>
      rw [hpadded, Matcher.tokenize, hraw]
      refine .ok (List.forall₂_map_right_iff.mpr (List.forall₂_same.mpr fun token member => ?_))
      exact ⟨Call.stop_le_of_tokenize hraw member, rfl⟩

/-- Surrounding blanks are irrelevant: whatever a call is matched against, blanks that do not quote
before and behind it leave its outcome as it is, and a mismatch or a fault the same but for the
places it mentions.
-/
theorem matchCall_padded {σ : Type} [Scale σ] (m : Matcher) (p : Pattern) (raw : String)
    {before after : String} (hbefore : IsSeparator m.quotes before)
    (hafter : IsSeparator m.quotes after)
    : Answer.Alike (.raised before.utf8ByteSize)
        (m.matchCall p raw : Except (Failure σ) (Outcome σ))
        (m.matchCall p (before ++ raw ++ after)) := by
  have shared : (Comparison.padded m before raw after).SharesTypes p :=
    fun _ _ _ => ⟨rfl, fun _ => rfl⟩
  have halike : Answer.Alike (.raised before.utf8ByteSize)
      (m.matchCall p raw : Except (Failure σ) (Outcome σ))
      (m.matchCall (p.recased id) (before ++ raw ++ after)) :=
    Comparison.alike_matchCall shared (Comparison.related_tokenize_padded hbefore hafter raw)
  rwa [Pattern.recased_id] at halike

/-- A backslash at the end of a tail does not escape the blank behind it. -/
theorem matchCall_padded_backslash
    : IsSeparator Matcher.standard.quotes " \t"
      ∧ IsSeparator Matcher.standard.quotes "\n"
      ∧ Answer.Alike (.raised " \t".utf8ByteSize)
          (Matcher.standard.matchCall
              (.sequence [.literal "say" true, .optional none (.tail "words")])
              "say 'so' what\\"
            : Except (Failure Rat) (Outcome Rat))
          (Matcher.standard.matchCall
            (.sequence [.literal "say" true, .optional none (.tail "words")])
            (" \t" ++ "say 'so' what\\" ++ "\n")) := by
  have hbefore : IsSeparator Matcher.standard.quotes " \t" := by
    simp [IsSeparator, Text.isBlank, Matcher.standard, Call.standardQuotes]
  have hafter : IsSeparator Matcher.standard.quotes "\n" := by
    simp [IsSeparator, Text.isBlank, Matcher.standard, Call.standardQuotes]
  exact ⟨hbefore, hafter, matchCall_padded _ _ "say 'so' what\\" hbefore hafter⟩

end CallGrammar

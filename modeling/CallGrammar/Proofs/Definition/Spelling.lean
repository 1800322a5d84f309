import CallGrammar.Pattern.Render
import CallGrammar.Proofs.Definition.Shape

/-! Spelling: which lexemes a text is scanned as wherever something stops it. Words, marks and
blanks spell, and so do their compositions.
-/

namespace CallGrammar.Definition

/-- A text that stops words, and is scanned as the given lexemes whatever follows it. -/
def Delimits (text : String) (lexemes : List Lexeme) : Prop :=
  ∀ rest,
    Stops (text.toList ++ rest)
    ∧ scanned none (text.toList ++ rest) = lexemes ++ scanned none rest

theorem Delimits.mark {text : String} {c : Char} {lexeme : Lexeme} (single : text.toList = [c])
    (hm : mark? c = some lexeme)
    : Delimits text [lexeme] := by
  intro rest
  rw [single]
  exact ⟨.mark hm rest, scanned_mark hm none rest⟩

theorem Delimits.space : Delimits " " [] := by
  intro rest
  have hb : Text.isBlank ' ' = true := by decide
  exact ⟨.blank hb rest, scanned_blank hb none rest⟩

/-- What follows a delimiter may start with anything. -/
theorem Delimits.append {left right : String} {first second : List Lexeme}
    (hl : Delimits left first) (hr : Delimits right second)
    : Delimits (left ++ right) (first ++ second) := by
  intro rest
  rw [String.toList_append, List.append_assoc]
  refine ⟨(hl _).1, ?_⟩
  rw [(hl _).2, (hr _).2, List.append_assoc]

/-- A text that is scanned as the given lexemes wherever something stops it. -/
def Spells (text : String) (lexemes : List Lexeme) : Prop :=
  ∀ rest, Stops rest → scanned none (text.toList ++ rest) = lexemes ++ scanned none rest

theorem Spells.empty : Spells "" [] :=
  fun _ _ => rfl

theorem Spells.word {text : String} (h : IsWord text.toList) : Spells text [.word text] :=
  fun _ stops => scanned_word h stops

/-- Every lexeme is read from its own spelling, by cases on the lexeme. -/
theorem Spells.spelling {lexeme : Lexeme} (h : ∀ text, lexeme = .word text → IsWord text.toList)
    : Spells lexeme.spelling [lexeme] := by
  intro rest stops
  cases lexeme with
  | word text => exact Spells.word (h text rfl) rest stops
  | ellipsis => exact scanned_points none rest
  | _ => exact scanned_mark rfl none rest

/-- A spelled text behind a delimiter. -/
theorem Spells.behind {text delimiter : String} {lexemes marks : List Lexeme}
    (h : Spells text lexemes) (hd : Delimits delimiter marks)
    : Spells (delimiter ++ text) (marks ++ lexemes) := by
  intro rest stops
  rw [String.toList_append, List.append_assoc, (hd _).2, h rest stops, List.append_assoc]

/-- A spelled text in front of a delimiter and another spelled text. -/
theorem Spells.before {left delimiter right : String} {first marks second : List Lexeme}
    (hl : Spells left first) (hd : Delimits delimiter marks) (hr : Spells right second)
    : Spells (left ++ (delimiter ++ right)) (first ++ (marks ++ second)) := by
  intro rest stops
  have hs := (hd (right.toList ++ rest)).1
  rw [String.toList_append, String.toList_append, List.append_assoc, List.append_assoc, hl _ hs,
    (hd _).2, hr rest stops, List.append_assoc, List.append_assoc]

/-- A spelled text closed by a delimiter. -/
theorem Spells.closed {text delimiter : String} {lexemes marks : List Lexeme}
    (h : Spells text lexemes) (hd : Delimits delimiter marks)
    : Spells (text ++ delimiter) (lexemes ++ marks) := by
  simpa using h.before hd .empty

theorem Spells.parenthesized {text : String} {lexemes : List Lexeme} (h : Spells text lexemes)
    : Spells ("(" ++ text ++ ")") (.openRound :: (lexemes ++ [.closeRound])) :=
  (h.behind (.mark rfl rfl)).closed (.mark rfl rfl)

theorem Spells.bracketed {text : String} {lexemes : List Lexeme} (h : Spells text lexemes)
    : Spells ("[" ++ text ++ "]") (.openSquare :: (lexemes ++ [.closeSquare])) :=
  (h.behind (.mark rfl rfl)).closed (.mark rfl rfl)

/-- The spellings of lexemes with a space between each two spell these lexemes, by list
induction.
-/
theorem spells_joined {lexemes : List Lexeme} (h : Worded lexemes)
    : Spells (String.intercalate " " (lexemes.map Lexeme.spelling)) lexemes := by
  induction lexemes with
  | nil => simpa using Spells.empty
  | cons first rest ih =>
      obtain ⟨isWord, others⟩ := worded_cons.mp h
      rcases rest with _ | ⟨next, more⟩
      · simpa using Spells.spelling isWord
      · simpa [String.append_assoc] using (Spells.spelling isWord).before .space (ih others)

/-- The whole of a spelled text is scanned as its lexemes. -/
theorem Spells.scanned_eq {text : String} {lexemes : List Lexeme} (h : Spells text lexemes)
    : scanned none text.toList = lexemes := by
  simpa [scanned_nil, pendingWord] using h [] .nil

/-- A word with a caret or without one. -/
theorem spells_literal {text : String} (h : IsWord text.toList) (caseSensitive : Bool)
    : Spells (text ++ if caseSensitive then "" else "^")
        (.word text :: List.replicate (if caseSensitive then 0 else 1) .caret) := by
  cases caseSensitive with
  | true => simpa using Spells.word h
  | false => exact (Spells.word h).closed (.mark rfl rfl)

/-- A parameter without a type. -/
theorem spells_parameter {name : String} (h : IsWord name.toList)
    : Spells ("<" ++ name ++ ">") [.openAngle, .word name, .closeAngle] :=
  ((Spells.word h).behind (.mark rfl rfl)).closed (.mark rfl rfl)

/-- A parameter with a type. -/
theorem spells_typed {name typeName : String} (h : IsWord name.toList)
    (ht : IsWord typeName.toList)
    : Spells ("<" ++ name ++ ": " ++ typeName ++ ">")
        [.openAngle, .word name, .colon, .word typeName, .closeAngle] := by
  have hc : Delimits ":" [.colon] := .mark rfl rfl
  have hd : Delimits ": " [.colon] := hc.append .space
  have hn : Spells ("<" ++ name) [.openAngle, .word name] :=
    (Spells.word h).behind (.mark rfl rfl)
  simpa [String.append_assoc] using (hn.before hd (Spells.word ht)).closed (.mark rfl rfl)

/-- A tail whose name does not end with a point. -/
theorem spells_tail {name : String} (h : IsWord name.toList)
    (ending : name.toList.getLast? ≠ some '.')
    : Spells ("<" ++ name ++ "...>") [.openAngle, .word name, .ellipsis, .closeAngle] := by
  intro rest _
  have ht : ("<" ++ name ++ "...>").toList ++ rest
      = '<' :: (name.toList ++ (points ++ '>' :: rest)) := by
    simp [points]
  rw [ht, scanned_mark rfl, scanned_word_points h ending, scanned_mark rfl]
  rfl

/-- A spelled text with an identifier behind it, or none. -/
theorem Spells.suffixed {text : String} {lexemes : List Lexeme} {identifier : Option String}
    (h : Spells text lexemes) (isWord : ∀ word ∈ identifier, IsWord word.toList)
    : Spells (text ++ Pattern.suffixText identifier)
        (lexemes ++ suffixLexemes identifier.toList) := by
  cases identifier with
  | none => simpa [Pattern.suffixText, suffixLexemes] using h
  | some name => exact h.before (.mark rfl rfl) (.word (isWord name rfl))

end CallGrammar.Definition

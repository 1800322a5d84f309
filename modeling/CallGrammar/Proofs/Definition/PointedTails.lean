import CallGrammar.Proofs.Definition.Spelling
import CallGrammar.Proofs.Pattern.Respelling

/-! Tails whose name ends with a point. The points of such a name run into the three that end the
tail, so the text of a pattern with such a tail does not parse.
-/

namespace CallGrammar.Definition

open Pattern (renderAt)

/-- A mark ends whatever stands before it, by induction on the length of what does. -/
theorem exists_scanned_mark {c : Char} {lexeme : Lexeme} (hm : mark? c = some lexeme)
    (before rest : List Char) (pending : Option String)
    : ∃ lexemes,
        scanned pending (before ++ c :: rest) = lexemes ++ lexeme :: scanned none rest := by
  match before with
  | [] => exact ⟨_, scanned_mark hm pending rest⟩
  | d :: before =>
      rw [List.cons_append]
      by_cases hp : points <+: d :: (before ++ c :: rest)
      · obtain ⟨more, hmore⟩ := hp
        -- The three points stand before the mark, since the mark is none of them.
        obtain ⟨after, ha⟩ : ∃ after, d :: before = points ++ after := by
          match before with
          | [] =>
              simp only [points, List.cons_append, List.nil_append, List.cons.injEq] at hmore
              obtain ⟨_, rfl, _⟩ := hmore
              cases hm
          | [e] =>
              simp only [points, List.cons_append, List.nil_append, List.cons.injEq] at hmore
              obtain ⟨_, _, rfl, _⟩ := hmore
              cases hm
          | e :: f :: after =>
              simp only [points, List.cons_append, List.nil_append, List.cons.injEq] at hmore
              obtain ⟨rfl, rfl, rfl, _⟩ := hmore
              exact ⟨after, rfl⟩
        have hlt : after.length < before.length + 1 := by
          rw [← List.length_cons, ha, List.length_append]
          exact Nat.lt_add_of_pos_left (by decide)
        obtain ⟨lexemes, hl⟩ := exists_scanned_mark hm after rest none
        rw [← List.cons_append, ha, List.append_assoc, scanned_points, hl]
        exact ⟨pendingWord pending ++ .ellipsis :: lexemes, by simp⟩
      · cases hb : Text.isBlank d with
        | true =>
            obtain ⟨lexemes, hl⟩ := exists_scanned_mark hm before rest none
            rw [scanned_blank hb, hl]
            exact ⟨pendingWord pending ++ lexemes, by simp⟩
        | false =>
            cases hd : mark? d with
            | some other =>
                obtain ⟨lexemes, hl⟩ := exists_scanned_mark hm before rest none
                rw [scanned_mark hd, hl]
                exact ⟨pendingWord pending ++ other :: lexemes, by simp⟩
            | none =>
                rw [scanned_plain hb hd hp]
                exact exists_scanned_mark hm before rest _
termination_by before.length

/-- A word that ends with a point ends with one or two of them. -/
theorem IsWord.ending_points {cs : List Char} (h : IsWord cs) (ending : cs.getLast? = some '.')
    : ∃ core last,
        cs = core ++ last
        ∧ core.getLast? ≠ some '.'
        ∧ (last = ['.'] ∨ last = ['.', '.']) := by
  obtain ⟨before, rfl⟩ := List.getLast?_eq_some_iff.mp ending
  by_cases hb : before.getLast? = some '.'
  · obtain ⟨core, rfl⟩ := List.getLast?_eq_some_iff.mp hb
    refine ⟨core, ['.', '.'], by simp, fun hc => ?_, .inr rfl⟩
    obtain ⟨before, rfl⟩ := List.getLast?_eq_some_iff.mp hc
    exact h.notPoints ⟨before, [], by simp [points]⟩
  · exact ⟨before, ['.'], rfl, hb, .inl rfl⟩

/-- Points at the end of a name move behind the three that should end the tail: a word stands
where the tail should be closed.
-/
theorem exists_scanned_ellipsis_word {name : List Char} (h : IsWord name)
    (ending : name.getLast? = some '.') (rest : List Char)
    : ∃ lexemes word more,
        scanned none (name ++ (points ++ '>' :: rest))
          = lexemes ++ .ellipsis :: .word word :: more := by
  obtain ⟨core, last, rfl, hc, hl⟩ := h.ending_points ending
  have hw : IsWord last := {
    filled := by rcases hl with rfl | rfl <;> simp
    notBlank := fun c hc => h.notBlank c (by simp [hc])
    notMark := fun c hc => h.notMark c (by simp [hc])
    notPoints := fun hi => h.notPoints (hi.trans (List.suffix_append core last).isInfix)
  }
  have hm : core ++ last ++ (points ++ '>' :: rest)
      = core ++ (points ++ (last ++ '>' :: rest)) := by
    rcases hl with rfl | rfl <;> simp [points]
  have hp : PlainBefore (points ++ (last ++ '>' :: rest)) core := by
    refine plainBefore_of_apart (fun c hc => h.notBlank c (by simp [hc]))
      (fun c hc => h.notMark c (by simp [hc])) (fun hi => ?_) (.inl hc)
    exact h.notPoints (hi.trans (List.prefix_append core last).isInfix)
  have hs : scanned none (last ++ '>' :: rest)
      = .word (String.ofList last) :: scanned none ('>' :: rest) := by
    have hw' : IsWord (String.ofList last).toList := by rwa [String.toList_ofList]
    simpa using scanned_word hw' (.mark rfl rest)
  rw [hm, scanned_append_of_plainBefore hp, scanned_points, hs]
  exact ⟨_, _, _, rfl⟩

/-- A text is part of the text it is joined into, by list induction. -/
theorem infix_intercalate {text : String} {texts : List String} (member : text ∈ texts)
    (separator : String)
    : text.toList <:+: (String.intercalate separator texts).toList := by
  induction texts with
  | nil => cases member
  | cons first rest ih =>
      cases rest with
      | nil =>
          obtain rfl := List.mem_singleton.mp member
          have hs := String.intercalate_singleton (s := separator) (t := text)
          exact ⟨[], [], by simp [hs]⟩
      | cons second rest =>
          rw [String.intercalate_cons_cons, String.toList_append, String.toList_append]
          rcases List.mem_cons.mp member with rfl | hm
          · rw [List.append_assoc]
            exact (List.prefix_append _ _).isInfix
          · exact (ih hm).trans (List.suffix_append _ _).isInfix

/-- The text of a pattern holds the texts of its parts, by cases on its kind. -/
theorem exists_infix_renderAt {p child : Pattern} (member : child ∈ p.children)
    (place : Pattern.Place)
    : ∃ childPlace, (child.renderAt childPlace).toList <:+: (p.renderAt place).toList := by
  have enclosed (opening closing : String) {part text : String}
      (h : part.toList <:+: text.toList)
      : part.toList <:+: (opening ++ text ++ closing).toList := by
    rw [String.toList_append, String.toList_append]
    exact h.trans ⟨_, _, rfl⟩
  cases p with
  | literal text caseSensitive => cases member
  | parameter name typeName => cases member
  | tail name => cases member
  | optional identifier inner =>
      obtain rfl := List.mem_singleton.mp member
      refine ⟨.bracket, ?_⟩
      rw [renderAt, String.append_assoc]
      exact enclosed "[" _ List.infix_rfl
  | variant identifier parenthesized alternatives =>
      have hm : child.renderAt .alternative ∈ alternatives.map (renderAt .alternative) :=
        List.mem_map_of_mem member
      have hi := infix_intercalate hm "|"
      refine ⟨.alternative, ?_⟩
      simp only [renderAt, Pattern.renderAllAt_eq_map]
      split
      · exact hi
      · rw [String.append_assoc]
        exact enclosed "(" _ hi
  | sequence children =>
      rcases children with _ | ⟨first, _ | ⟨second, rest⟩⟩
      · cases member
      · obtain rfl := List.mem_singleton.mp member
        rw [renderAt]
        split
        · exact ⟨_, List.infix_rfl⟩
        · refine ⟨.inner, ?_⟩
          split
          · exact enclosed "(" ")" List.infix_rfl
          · exact List.infix_rfl
      · have hm : child.renderAt .inner ∈ (first :: second :: rest).map (renderAt .inner) :=
          List.mem_map_of_mem member
        have hi := infix_intercalate hm " "
        refine ⟨.inner, ?_⟩
        simp only [renderAt, Pattern.renderAllAt_eq_map]
        split
        · exact enclosed "(" ")" hi
        · exact hi

/-- The text of a pattern holds the texts of all patterns in it, by induction on the pattern. -/
theorem exists_infix_of_mem_traverse {p q : Pattern} (member : q ∈ p.traverse)
    (place : Pattern.Place)
    : ∃ partPlace, (q.renderAt partPlace).toList <:+: (p.renderAt place).toList := by
  induction p using Pattern.children_induction generalizing place with
  | step p ih =>
      rcases Pattern.mem_traverse_iff.mp member with rfl | ⟨child, hc, hm⟩
      · exact ⟨place, List.infix_rfl⟩
      · obtain ⟨childPlace, hp⟩ := exists_infix_renderAt hc place
        obtain ⟨partPlace, hq⟩ := ih child hc hm childPlace
        exact ⟨partPlace, hq.trans hp⟩

/-- The names of tails in a formed pattern are words, by induction on its shape. -/
theorem Formed.isWord_of_tail {ignoreCase : Bool} {p : Pattern} (h : Formed ignoreCase p)
    {name : String} (member : .tail name ∈ p.traverse)
    : IsWord name.toList := by
  have part {p : Pattern} (member : .tail name ∈ p.traverse) (other : p ≠ .tail name)
      : ∃ child ∈ p.children, .tail name ∈ child.traverse :=
    (Pattern.mem_traverse_iff.mp member).resolve_left other.symm
  induction h with
  | literal isWord caseKept =>
      obtain ⟨child, hc, _⟩ := part member nofun
      cases hc
  | parameter isWord typeIsWord =>
      obtain ⟨child, hc, _⟩ := part member nofun
      cases hc
  | tail isWord =>
      rcases Pattern.mem_traverse_iff.mp member with he | ⟨child, hc, _⟩
      · exact Pattern.tail.inj he ▸ isWord
      · cases hc
  | optional isWord formed ih =>
      obtain ⟨child, hc, hm⟩ := part member nofun
      exact ih (List.mem_singleton.mp hc ▸ hm)
  | bareChoice isWord several formed ih =>
      obtain ⟨choice, hc, hm⟩ := part member nofun
      obtain rfl := List.mem_singleton.mp hc
      obtain ⟨child, hc, hm⟩ := part hm nofun
      exact ih child hc hm
  | choice isWord several formed ih =>
      obtain ⟨child, hc, hm⟩ := part member nofun
      exact ih child hc hm
  | sequence filled formed ih =>
      obtain ⟨child, hc, hm⟩ := part member nofun
      exact ih child hc hm

/-- So are the names of tails in a whole pattern. -/
theorem Rooted.isWord_of_tail {ignoreCase : Bool} {p : Pattern} (h : Rooted ignoreCase p)
    {name : String} (member : .tail name ∈ p.traverse)
    : IsWord name.toList := by
  have inChoice {alternatives : List Pattern} (formed : ∀ p ∈ alternatives, Formed ignoreCase p)
      (member : .tail name ∈ (Pattern.variant none false alternatives).traverse)
      : IsWord name.toList := by
    obtain ⟨child, hc, hm⟩ := (Pattern.mem_traverse_iff.mp member).resolve_left nofun
    exact (formed child hc).isWord_of_tail hm
  cases h with
  | formed formed => exact formed.isWord_of_tail member
  | empty =>
      obtain ⟨child, hc, _⟩ := (Pattern.mem_traverse_iff.mp member).resolve_left nofun
      cases hc
  | choice several formed => exact inChoice formed member
  | wrappedChoice several formed =>
      obtain ⟨child, hc, hm⟩ := (Pattern.mem_traverse_iff.mp member).resolve_left nofun
      exact inChoice formed (List.mem_singleton.mp hc ▸ hm)

/-- No run goes on with a word behind three points. -/
theorem not_reaches_ellipsis_word {ignoreCase : Bool} {draft last : Draft} {placed : List Placed}
    {before more : List Lexeme} {word : String}
    (hl : placed.map Placed.lexeme = before ++ .ellipsis :: .word word :: more)
    : ¬ draft.Reaches ignoreCase placed last := by
  intro run
  obtain ⟨left, right, rfl, _, hr⟩ := List.map_eq_append_iff.mp hl
  obtain ⟨_, _, rfl, he, hr⟩ := List.map_eq_cons_iff.mp hr
  obtain ⟨_, _, rfl, hw, _⟩ := List.map_eq_cons_iff.mp hr
  obtain ⟨middle, _, run⟩ := run.split
  obtain ⟨next, first, run⟩ := Draft.reaches_cons_iff.mp run
  obtain ⟨_, second, _⟩ := Draft.reaches_cons_iff.mp run
  cases first with
  | tail fresh =>
      cases second with
      | tailEnd => cases hw
  | openGroup bracket => cases bracket <;> cases he
  | @closeGroup _ bracket => cases bracket <;> cases he
  | _ => cases he

/-- The text of a whole pattern with a tail whose name ends with a point does not parse. -/
theorem Rooted.parse_render_ne_ok {ignoreCase : Bool} {p : Pattern} (h : Rooted ignoreCase p)
    {name : String} (member : .tail name ∈ p.traverse)
    (ending : name.toList.getLast? = some '.') (root : Pattern)
    : parse ignoreCase p.render ≠ .ok root := by
  intro parsed
  obtain ⟨last, run, _⟩ := parse_eq_ok_iff_reaches.mp parsed
  obtain ⟨place, before, rest, ht⟩ := exists_infix_of_mem_traverse member .root
  have hr : p.render.toList = before ++ '<' :: (name.toList ++ (points ++ '>' :: rest)) := by
    rw [Pattern.render, ← ht]
    simp [renderAt, points]
  have hm : mark? '<' = some .openAngle := rfl
  obtain ⟨outside, ho⟩ :=
    exists_scanned_mark hm before (name.toList ++ (points ++ '>' :: rest)) none
  obtain ⟨inside, word, more, hi⟩ :=
    exists_scanned_ellipsis_word (h.isWord_of_tail member) ending rest
  have hs : (lexemes p.render).map Placed.lexeme
      = (outside ++ .openAngle :: inside) ++ .ellipsis :: .word word :: more := by
    rw [map_lexeme_lexemes, hr, ho, hi]
    simp
  exact not_reaches_ellipsis_word hs run

end CallGrammar.Definition

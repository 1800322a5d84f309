import CallGrammar.Definition.Lexeme

/-! Which lexemes stand in a text, apart from where they stand. A text of words and marks is
scanned piece by piece: a word is read whole if what follows it stops it.
-/

namespace CallGrammar.Definition

/-- The lexemes of a text behind a word under way. -/
def scanned (pending : Option String) (cs : List Char) : List Lexeme :=
  (scan 0 (pending.map (Prod.mk 0)) cs).map Placed.lexeme

/-- The word under way, if there is one. -/
def pendingWord (pending : Option String) : List Lexeme :=
  (pending.map Lexeme.word).toList

theorem map_lexeme_finish (offset : Nat) (pending : Pending)
    : (pending.finish offset).map Placed.lexeme = pendingWord (pending.map Prod.snd) := by
  cases pending <;> rfl

/-- The word under way with one more character. -/
def pushed (c : Char) : Option String → String
  | some text => text.push c
  | none => c.toString

theorem map_snd_push (offset : Nat) (c : Char) (pending : Pending)
    : (pending.push offset c).map Prod.snd = some (pushed c (pending.map Prod.snd)) := by
  cases pending <;> rfl

theorem map_lexeme_finish_congr {pending pending' : Pending}
    (same : pending.map Prod.snd = pending'.map Prod.snd) (offset offset' : Nat)
    : (pending.finish offset).map Placed.lexeme = (pending'.finish offset').map Placed.lexeme := by
  rw [map_lexeme_finish, map_lexeme_finish, same]

theorem scan_nil (offset : Nat) (pending : Pending)
    : scan offset pending [] = pending.finish offset :=
  rfl

theorem scan_points (offset : Nat) (pending : Pending) (rest : List Char)
    : scan offset pending ('.' :: '.' :: '.' :: rest)
      = pending.finish offset
        ++ ⟨.ellipsis, ⟨offset, offset + 3⟩⟩ :: scan (offset + 3) none rest :=
  rfl

/-- The step at a character where no three points start. It is stated by hand because the equations
derived from the match on characters take seconds to generate.
-/
theorem scan_other (offset : Nat) (pending : Pending) {c : Char} {rest : List Char}
    (hn : ∀ rest', c = '.' → rest = '.' :: '.' :: rest' → False)
    : scan offset pending (c :: rest)
      = if Text.isBlank c then
          pending.finish offset ++ scan (offset + c.utf8Size) none rest
        else
          match mark? c with
          | some lexeme =>
              pending.finish offset
                ++ ⟨lexeme, ⟨offset, offset + c.utf8Size⟩⟩
                  :: scan (offset + c.utf8Size) none rest
          | none => scan (offset + c.utf8Size) (pending.push offset c) rest := by
  rw [scan.eq_def]
  split
  · contradiction
  · rename_i he
    cases he
    exact (hn _ rfl rfl).elim
  · rename_i he
    cases he
    rfl

/-- Offsets only place lexemes, by induction on the scan. -/
theorem map_lexeme_scan_congr {pending pending' : Pending}
    (same : pending.map Prod.snd = pending'.map Prod.snd) (offset offset' : Nat) (cs : List Char)
    : (scan offset pending cs).map Placed.lexeme
      = (scan offset' pending' cs).map Placed.lexeme := by
  fun_induction scan offset pending cs generalizing offset' pending' with
  | case1 offset pending =>
      rw [scan_nil]
      exact map_lexeme_finish_congr same offset offset'
  | case2 offset pending rest ih =>
      simp only [scan_points, List.map_append, List.map_cons]
      rw [map_lexeme_finish_congr same offset offset', ih rfl (offset' + 3)]
  | case3 offset pending c rest hn hb ih =>
      rw [scan_other _ _ hn, if_pos hb, List.map_append, List.map_append,
        map_lexeme_finish_congr same offset offset', ih rfl (offset' + c.utf8Size)]
  | case4 offset pending c rest hn hb lexeme hm ih =>
      rw [scan_other _ _ hn, if_neg hb, hm]
      simp only [List.map_append, List.map_cons]
      rw [map_lexeme_finish_congr same offset offset', ih rfl (offset' + c.utf8Size)]
  | case5 offset pending c rest hn hb hm ih =>
      rw [scan_other _ _ hn, if_neg hb, hm]
      exact ih (by rw [map_snd_push, map_snd_push, same]) _

/-- A scan from any place on finds the same lexemes. -/
theorem map_lexeme_scan (offset : Nat) (pending : Pending) (cs : List Char)
    : (scan offset pending cs).map Placed.lexeme = scanned (pending.map Prod.snd) cs :=
  map_lexeme_scan_congr (by cases pending <;> rfl) offset 0 cs

/-- The lexemes of a definition are those scanned from its start. -/
theorem map_lexeme_lexemes (definition : String)
    : (lexemes definition).map Placed.lexeme = scanned none definition.toList :=
  rfl

/-- Three points, which are one mark. -/
def points : List Char :=
  ['.', '.', '.']

theorem scanned_nil (pending : Option String) : scanned pending [] = pendingWord pending := by
  cases pending <;> rfl

theorem scanned_points (pending : Option String) (rest : List Char)
    : scanned pending (points ++ rest)
      = pendingWord pending ++ .ellipsis :: scanned none rest := by
  have hs := map_lexeme_scan 3 none rest
  cases pending <;>
    simpa [scanned, points, scan_points, pendingWord, Pending.finish] using hs

/-- A blank and a mark are no point. -/
theorem not_points_of_stop {c : Char} (stop : Text.isBlank c = true ∨ mark? c ≠ none)
    (rest : List Char)
    : ∀ rest', c = '.' → rest = '.' :: '.' :: rest' → False := by
  rintro rest' rfl
  rcases stop with hb | hm
  · exact absurd hb (by decide)
  · exact absurd rfl hm

theorem scanned_blank {c : Char} (hb : Text.isBlank c = true) (pending : Option String)
    (rest : List Char)
    : scanned pending (c :: rest) = pendingWord pending ++ scanned none rest := by
  rw [scanned, scan_other _ _ (not_points_of_stop (.inl hb) rest), if_pos hb,
    List.map_append, map_lexeme_finish, map_lexeme_scan]
  cases pending <;> rfl

/-- No mark is blank. -/
theorem isBlank_of_mark {c : Char} {lexeme : Lexeme} (hm : mark? c = some lexeme)
    : Text.isBlank c = false := by
  unfold mark? at hm
  repeat' split at hm
  all_goals first | (subst c; decide) | cases hm

/-- No mark is a word. -/
theorem mark?_ne_word (c : Char) (text : String) : mark? c ≠ some (.word text) := by
  unfold mark?
  repeat' split
  all_goals simp

theorem scanned_mark {c : Char} {lexeme : Lexeme} (hm : mark? c = some lexeme)
    (pending : Option String) (rest : List Char)
    : scanned pending (c :: rest) = pendingWord pending ++ lexeme :: scanned none rest := by
  have hb := isBlank_of_mark hm
  rw [scanned, scan_other _ _ (not_points_of_stop (.inr (by simp [hm])) rest),
    if_neg (by simp [hb]), hm]
  simp only [List.map_append, List.map_cons]
  rw [map_lexeme_finish, map_lexeme_scan]
  cases pending <;> rfl

/-- A character that is neither blank nor a mark nor the first of three points extends the word
under way.
-/
theorem scanned_plain {c : Char} {rest : List Char} (hb : Text.isBlank c = false)
    (hm : mark? c = none) (hn : ¬ points <+: c :: rest) (pending : Option String)
    : scanned pending (c :: rest) = scanned (some (pushed c pending)) rest := by
  have hp : ∀ rest', c = '.' → rest = '.' :: '.' :: rest' → False := by
    rintro rest' rfl rfl
    exact hn ⟨rest', rfl⟩
  rw [scanned, scan_other _ _ hp, if_neg (by simp [hb]), hm]
  simp only
  rw [map_lexeme_scan, map_snd_push]
  cases pending <;> rfl

------------------------------------------------------------
-- A word is read whole wherever something stops it

/-- Every character of a word is plain where the given rest follows: none is a blank or a mark,
and at none do three points start.
-/
def PlainBefore (rest : List Char) : List Char → Prop
  | [] => True
  | c :: cs =>
      Text.isBlank c = false ∧ mark? c = none ∧ ¬ points <+: c :: (cs ++ rest)
      ∧ PlainBefore rest cs

/-- The word under way with more characters. -/
def extended (cs : List Char) (pending : Option String) : Option String :=
  cs.foldl (fun pending c => some (pushed c pending)) pending

/-- Plain characters extend the word under way, by list induction. -/
theorem scanned_append_of_plainBefore {cs rest : List Char} (h : PlainBefore rest cs)
    (pending : Option String)
    : scanned pending (cs ++ rest) = scanned (extended cs pending) rest := by
  induction cs generalizing pending with
  | nil => rfl
  | cons c cs ih =>
      obtain ⟨hb, hm, hn, hr⟩ := h
      rw [List.cons_append, scanned_plain hb hm hn, ih hr]
      rfl

theorem extended_some (cs : List Char) (text : String)
    : extended cs (some text) = some (text ++ String.ofList cs) := by
  induction cs generalizing text with
  | nil => simp [extended]
  | cons c cs ih =>
      have he : extended (c :: cs) (some text) = extended cs (some (text.push c)) := rfl
      rw [he, ih]
      apply congrArg some
      apply String.ext
      simp

/-- Characters from which a word is started make up that word. -/
theorem extended_none {cs : List Char} (filled : cs ≠ [])
    : extended cs none = some (String.ofList cs) := by
  cases cs with
  | nil => exact absurd rfl filled
  | cons c cs =>
      have he : extended (c :: cs) none = extended cs (some c.toString) := rfl
      rw [he, extended_some]
      apply congrArg some
      apply String.ext
      simp

/-- Characters that make one word of a definition: not none of them, no blank, no mark and no
three points in a row.
-/
structure IsWord (cs : List Char) : Prop where
  filled : cs ≠ []
  notBlank : ∀ c ∈ cs, Text.isBlank c = false
  notMark : ∀ c ∈ cs, mark? c = none
  notPoints : ¬ points <:+: cs

/-- No three points start in a word that ends before a point does not follow, or that does not
end with a point itself, by induction on the word.
-/
theorem plainBefore_of_apart {cs rest : List Char} (notBlank : ∀ c ∈ cs, Text.isBlank c = false)
    (notMark : ∀ c ∈ cs, mark? c = none) (notPoints : ¬ points <:+: cs)
    (apart : cs.getLast? ≠ some '.' ∨ rest.head? ≠ some '.')
    : PlainBefore rest cs := by
  induction cs with
  | nil => trivial
  | cons c cs ih =>
      refine ⟨notBlank c List.mem_cons_self, notMark c List.mem_cons_self, ?_, ?_⟩
      · rintro ⟨more, hp⟩
        match cs with
        | [] =>
            simp only [points, List.cons_append, List.nil_append, List.cons.injEq] at hp
            obtain ⟨rfl, rfl⟩ := hp
            exact apart.elim (fun hl => hl rfl) (fun hh => hh rfl)
        | [d] =>
            simp only [points, List.cons_append, List.nil_append, List.cons.injEq] at hp
            obtain ⟨rfl, rfl, rfl⟩ := hp
            exact apart.elim (fun hl => hl rfl) (fun hh => hh rfl)
        | d :: e :: cs =>
            simp only [points, List.cons_append, List.nil_append, List.cons.injEq] at hp
            obtain ⟨rfl, rfl, rfl, _⟩ := hp
            exact notPoints ⟨[], cs, rfl⟩
      · cases cs with
        | nil => trivial
        | cons d cs =>
            refine ih (fun e he => notBlank e (List.mem_cons_of_mem c he))
              (fun e he => notMark e (List.mem_cons_of_mem c he)) ?_ ?_
            · exact fun hi => notPoints (hi.trans (List.suffix_cons c _).isInfix)
            · simpa using apart

/-- What follows does not extend a word: it is empty or starts with a blank or a mark. -/
def Stops (rest : List Char) : Prop :=
  ∀ c ∈ rest.head?, Text.isBlank c = true ∨ mark? c ≠ none

theorem Stops.nil : Stops [] := by
  simp [Stops]

theorem Stops.blank {c : Char} (hb : Text.isBlank c = true) (rest : List Char)
    : Stops (c :: rest) := by
  intro d hd
  obtain rfl := Option.some.inj hd
  exact .inl hb

theorem Stops.mark {c : Char} {lexeme : Lexeme} (hm : mark? c = some lexeme) (rest : List Char)
    : Stops (c :: rest) := by
  intro d hd
  obtain rfl := Option.some.inj hd
  exact .inr (by simp [hm])

/-- What stops a word is no point. -/
theorem Stops.head_ne_point {rest : List Char} (h : Stops rest) : rest.head? ≠ some '.' := by
  intro hp
  rcases h '.' hp with hb | hm
  · exact absurd hb (by decide)
  · exact hm rfl

/-- What stops a word leaves it behind, by cases on what follows. -/
theorem Stops.scanned {rest : List Char} (h : Stops rest) (text : String)
    : scanned (some text) rest = .word text :: scanned none rest := by
  cases rest with
  | nil => rfl
  | cons c rest =>
      rcases h c rfl with hb | hm
      · rw [scanned_blank hb, scanned_blank hb]
        rfl
      · obtain ⟨lexeme, hl⟩ := Option.ne_none_iff_exists'.mp hm
        rw [scanned_mark hl, scanned_mark hl]
        rfl

/-- A word is scanned as such where it is stopped. -/
theorem scanned_word {text : String} {rest : List Char} (h : IsWord text.toList)
    (stops : Stops rest)
    : scanned none (text.toList ++ rest) = .word text :: scanned none rest := by
  have hp := plainBefore_of_apart h.notBlank h.notMark h.notPoints (.inr stops.head_ne_point)
  rw [scanned_append_of_plainBefore hp, extended_none h.filled, String.ofList_toList,
    stops.scanned]

/-- A word that does not end with a point is scanned as such before three points. -/
theorem scanned_word_points {text : String} {rest : List Char} (h : IsWord text.toList)
    (ending : text.toList.getLast? ≠ some '.')
    : scanned none (text.toList ++ (points ++ rest))
      = .word text :: .ellipsis :: scanned none rest := by
  have hp : PlainBefore (points ++ rest) text.toList :=
    plainBefore_of_apart h.notBlank h.notMark h.notPoints (.inl ending)
  rw [scanned_append_of_plainBefore hp, extended_none h.filled, String.ofList_toList,
    scanned_points]
  rfl

/-- A plain character extends plain characters before it. -/
theorem PlainBefore.snoc {cs rest : List Char} {c : Char} (h : PlainBefore (c :: rest) cs)
    (hb : Text.isBlank c = false) (hm : mark? c = none) (hn : ¬ points <+: c :: rest)
    : PlainBefore rest (cs ++ [c]) := by
  induction cs with
  | nil => exact ⟨hb, hm, hn, trivial⟩
  | cons d cs ih =>
      obtain ⟨hb', hm', hn', hr⟩ := h
      refine ⟨hb', hm', ?_, ih hr⟩
      simpa using hn'

/-- Plain characters make a word. -/
theorem PlainBefore.isWord {cs rest : List Char} (h : PlainBefore rest cs) (filled : cs ≠ [])
    : IsWord cs := by
  have facts : (∀ c ∈ cs, Text.isBlank c = false) ∧ (∀ c ∈ cs, mark? c = none)
      ∧ ¬ points <:+: cs := by
    clear filled
    induction cs with
    | nil =>
        refine ⟨by simp, by simp, ?_⟩
        rintro ⟨left, right, hp⟩
        simp [points] at hp
    | cons c cs ih =>
        obtain ⟨hb, hm, hn, hr⟩ := h
        obtain ⟨hbs, hms, hns⟩ := ih hr
        refine ⟨by simpa [hb] using hbs, by simpa [hm] using hms, fun hi => ?_⟩
        rcases List.infix_cons_iff.mp hi with hp | hi
        · exact hn (hp.trans (List.prefix_append (c :: cs) rest))
        · exact hns hi
  exact ⟨filled, facts.1, facts.2.1, facts.2.2⟩

/-- The word under way is one, if plain characters were read. -/
theorem isWord_of_mem_pendingWord {rest : List Char} {pending : Option String} {text : String}
    (plain : ∀ before ∈ pending, PlainBefore rest before.toList ∧ before.toList ≠ [])
    (member : .word text ∈ pendingWord pending)
    : IsWord text.toList := by
  cases pending with
  | none => cases member
  | some before =>
      obtain rfl := Lexeme.word.inj (List.mem_singleton.mp member)
      obtain ⟨hp, hf⟩ := plain text rfl
      exact hp.isWord hf

/-- Every word scanned from a text is one, by induction on the length of the text. -/
theorem isWord_of_mem_scanned {cs : List Char} {pending : Option String} {text : String}
    (plain : ∀ before ∈ pending, PlainBefore cs before.toList ∧ before.toList ≠ [])
    (member : .word text ∈ scanned pending cs)
    : IsWord text.toList := by
  match cs with
  | [] =>
      rw [scanned_nil] at member
      exact isWord_of_mem_pendingWord plain member
  | c :: rest =>
      by_cases hn : points <+: c :: rest
      · obtain ⟨more, hm⟩ := hn
        rw [← hm, scanned_points] at member
        rcases List.mem_append.mp member with hw | hr
        · exact isWord_of_mem_pendingWord plain hw
        · have hl : more.length < rest.length + 1 := by
            rw [← List.length_cons, ← hm, List.length_append]
            exact Nat.lt_add_of_pos_left (by decide)
          exact isWord_of_mem_scanned (by simp) ((List.mem_cons.mp hr).resolve_left (by simp))
      · cases hb : Text.isBlank c with
        | true =>
            rw [scanned_blank hb] at member
            rcases List.mem_append.mp member with hw | hr
            · exact isWord_of_mem_pendingWord plain hw
            · exact isWord_of_mem_scanned (by simp) hr
        | false =>
            cases hm : mark? c with
            | some lexeme =>
                rw [scanned_mark hm] at member
                rcases List.mem_append.mp member with hw | hr
                · exact isWord_of_mem_pendingWord plain hw
                · rcases List.mem_cons.mp hr with he | hr
                  · exact absurd (he ▸ hm) (mark?_ne_word c text)
                  · exact isWord_of_mem_scanned (by simp) hr
            | none =>
                rw [scanned_plain hb hm hn] at member
                refine isWord_of_mem_scanned ?_ member
                rintro before hp
                obtain rfl := Option.some.inj hp
                cases pending with
                | none => simpa [pushed, PlainBefore] using ⟨hb, hm, hn⟩
                | some before =>
                    have h := (plain before rfl).1.snoc hb hm hn
                    simpa [pushed] using h
termination_by cs.length

end CallGrammar.Definition

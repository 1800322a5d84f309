import CallGrammar.Proofs.Definition.Drafting

/-! Derivations behind drafts. Beside every draft that a run reaches stands a derivation, cut off
where the run is, of what was read so far and of the names it declares.
-/

namespace CallGrammar.Definition

/-- The lexemes read so far derive the items, finished alternatives and open groups of a draft,
and declare the given names. The rules are those of the grammar, cut off at any point.
-/
inductive Derived (ignoreCase : Bool)
    : List Lexeme → List String → Body → List Opening → Prop
  | start : Derived ignoreCase [] [] .empty []
  | item {lexemes names body openings} (before : Derived ignoreCase lexemes names body openings)
    (item : Item)
    : Derived ignoreCase (lexemes ++ item.lexemes) (names ++ item.names)
        (body.push (item.pattern ignoreCase)) openings
  | bar {lexemes names alternatives items openings}
    (before : Derived ignoreCase lexemes names ⟨alternatives, items⟩ openings)
    (filled : items ≠ [])
    : Derived ignoreCase (lexemes ++ [.bar]) names ⟨items.reverse :: alternatives, []⟩ openings
  | opened {lexemes names body openings}
    (before : Derived ignoreCase lexemes names body openings) (bracket : Bracket) (span : Span)
    : Derived ignoreCase (lexemes ++ [bracket.opening]) names .empty
        (⟨bracket, span, body⟩ :: openings)

/-- The last item of a body was derived last. -/
theorem Derived.last_item {ignoreCase : Bool} {lexemes : List Lexeme} {names : List String}
    {alternatives : List (List Pattern)} {last : Pattern} {items : List Pattern}
    {openings : List Opening}
    (h : Derived ignoreCase lexemes names ⟨alternatives, last :: items⟩ openings)
    : ∃ lexemes' names', ∃ item : Item,
        Derived ignoreCase lexemes' names' ⟨alternatives, items⟩ openings
        ∧ lexemes = lexemes' ++ item.lexemes
        ∧ names = names' ++ item.names
        ∧ last = item.pattern ignoreCase := by
  generalize hb : (⟨alternatives, last :: items⟩ : Body) = body at h
  cases h with
  | start => simp [Body.empty] at hb
  | @item lexemes names body _ before item =>
      obtain ⟨alternatives', items'⟩ := body
      simp only [Body.push, Body.mk.injEq, List.cons.injEq] at hb
      obtain ⟨rfl, rfl, rfl⟩ := hb
      exact ⟨lexemes, names, item, before, rfl, rfl, rfl⟩
  | bar before filled => simp at hb
  | opened before bracket span => simp [Body.empty] at hb

/-- What the innermost open group stands in: nothing for the whole definition, else the body
around the group, of which the given lexemes up to its opening mark derive.
-/
def Enclosed (ignoreCase : Bool) (lexemes : List Lexeme) (names : List String)
    : List Opening → Prop
  | [] => lexemes = [] ∧ names = []
  | opening :: openings =>
      ∃ before, lexemes = before ++ [opening.bracket.opening]
        ∧ Derived ignoreCase before names opening.around openings

/-- The items that a non-empty list holds, by list induction. -/
theorem Items.exists_of_list (ignoreCase : Bool) {list : List Item} (filled : list ≠ [])
    : ∃ items : Items,
        items.lexemes = list.flatMap Item.lexemes
        ∧ items.names = list.flatMap Item.names
        ∧ items.patterns ignoreCase = list.map (Item.pattern ignoreCase) := by
  induction list with
  | nil => exact absurd rfl filled
  | cons item rest ih =>
      cases rest with
      | nil => exact ⟨.last item, by simp [Items.lexemes], by simp [Items.names], rfl⟩
      | cons next rest =>
          obtain ⟨items, hl, hn, hp⟩ := ih (List.cons_ne_nil next rest)
          refine ⟨.cons item items, ?_, ?_, ?_⟩
          · simp only [Items.lexemes, hl, List.flatMap_cons]
          · simp only [Items.names, hn, List.flatMap_cons]
          · simp only [Items.patterns, hp, List.map_cons]

/-- The body of an open group is derived after its opening mark, as finished alternatives and
a current one, by induction on the derivation.
-/
theorem Derived.contents {ignoreCase : Bool} {lexemes : List Lexeme} {names : List String}
    {body : Body} {openings : List Opening}
    (h : Derived ignoreCase lexemes names body openings)
    : ∃ before names' finished items,
        Enclosed ignoreCase before names' openings
        ∧ lexemes
          = before ++ (List.flatMap (fun items => Items.lexemes items ++ [.bar]) finished
            ++ List.flatMap Item.lexemes items)
        ∧ names
          = names' ++ (List.flatMap Items.names finished ++ List.flatMap Item.names items)
        ∧ body
          = ⟨(finished.map (Items.patterns ignoreCase)).reverse,
              (items.map (Item.pattern ignoreCase)).reverse⟩ := by
  induction h with
  | start => exact ⟨[], [], [], [], ⟨rfl, rfl⟩, rfl, rfl, rfl⟩
  | item before item ih =>
      obtain ⟨base, names', finished, items, he, rfl, rfl, rfl⟩ := ih
      exact ⟨base, names', finished, items ++ [item], he, by simp, by simp,
        by simp [Body.push]⟩
  | bar before filled ih =>
      obtain ⟨base, names', finished, items, he, rfl, rfl, hb⟩ := ih
      simp only [Body.mk.injEq] at hb
      obtain ⟨rfl, rfl⟩ := hb
      have hf : items ≠ [] := by simpa using filled
      obtain ⟨last, hl, hn, hp⟩ := Items.exists_of_list ignoreCase hf
      exact ⟨base, names', finished ++ [last], [], he, by simp [hl], by simp [hn],
        by simp [hp]⟩
  | @opened lexemes names body openings before bracket span ih =>
      exact ⟨lexemes ++ [bracket.opening], names, [], [], ⟨lexemes, rfl, before⟩,
        by simp, by simp, rfl⟩

/-- Finished alternatives before a last one. -/
def Alternatives.ofList (last : Items) : List Items → Alternatives
  | [] => .last last
  | items :: rest => .cons items (ofList last rest)

/-- The lexemes, names and body of alternatives made of a list, by list induction. -/
theorem Alternatives.ofList_eq (ignoreCase : Bool) (last : Items) (finished : List Items)
    (before : List (List Pattern))
    : (ofList last finished).lexemes
        = finished.flatMap (fun items => items.lexemes ++ [.bar]) ++ last.lexemes
      ∧ (ofList last finished).names = finished.flatMap Items.names ++ last.names
      ∧ (ofList last finished).body ignoreCase before
        = ⟨(finished.map (Items.patterns ignoreCase)).reverse ++ before,
            (last.patterns ignoreCase).reverse⟩ := by
  induction finished generalizing before with
  | nil => exact ⟨rfl, rfl, rfl⟩
  | cons items rest ih =>
      obtain ⟨hl, hn, hb⟩ := ih (items.patterns ignoreCase :: before)
      refine ⟨?_, ?_, ?_⟩
      · simp [ofList, Alternatives.lexemes, hl]
      · simp [ofList, Alternatives.names, hn]
      · simp [ofList, Alternatives.body, hb]

/-- A body whose current alternative has an item is one of derived alternatives. -/
theorem Derived.alternatives {ignoreCase : Bool} {lexemes : List Lexeme} {names : List String}
    {body : Body} {openings : List Opening}
    (h : Derived ignoreCase lexemes names body openings) (filled : body.items ≠ [])
    : ∃ before names' contents,
        Enclosed ignoreCase before names' openings
        ∧ lexemes = before ++ Alternatives.lexemes contents
        ∧ names = names' ++ contents.names
        ∧ body = contents.body ignoreCase [] := by
  obtain ⟨before, names', finished, items, he, rfl, rfl, rfl⟩ := h.contents
  have hf : items ≠ [] := by simpa using filled
  obtain ⟨last, hl, hn, hp⟩ := Items.exists_of_list ignoreCase hf
  obtain ⟨hl', hn', hb'⟩ := Alternatives.ofList_eq ignoreCase last finished []
  refine ⟨before, names', .ofList last finished, he, ?_, ?_, ?_⟩
  · rw [hl', hl]
  · rw [hn', hn]
  · rw [hb', hp, List.append_nil]

/-- Closing a group derives an item of the body around it. -/
theorem Derived.closed {ignoreCase : Bool} {lexemes : List Lexeme} {names : List String}
    {body : Body} {bracket : Bracket} {span : Span} {around : Body} {openings : List Opening}
    (h : Derived ignoreCase lexemes names body (⟨bracket, span, around⟩ :: openings))
    (filled : body.items ≠ [])
    : Derived ignoreCase (lexemes ++ [bracket.closing]) names
        (around.push (body.group bracket)) openings := by
  obtain ⟨_, names', contents, ⟨before, rfl, hd⟩, rfl, rfl, rfl⟩ := h.alternatives filled
  cases bracket with
  | square =>
      rw [contents.group_square]
      simpa [Item.lexemes, Item.names, Bracket.opening, Bracket.closing, suffixLexemes]
        using hd.item (.bracketed contents [])
  | round =>
      cases contents with
      | last items =>
          rw [items.group_round]
          simpa [Item.lexemes, Item.names, Alternatives.lexemes, Alternatives.names,
            Bracket.opening, Bracket.closing] using hd.item (.grouped items)
      | cons items rest =>
          rw [rest.group_round ignoreCase items]
          simpa [Item.lexemes, Item.names, Alternatives.lexemes, Alternatives.names,
            Bracket.opening, Bracket.closing, suffixLexemes]
            using hd.item (.choice items rest [])

theorem suffixLexemes_append (left right : List String)
    : suffixLexemes (left ++ right) = suffixLexemes left ++ suffixLexemes right := by
  induction left with
  | nil => rfl
  | cons name rest ih => simp [suffixLexemes, ih]

/-- Naming the pattern of an item extends its derivation by a colon and the name. -/
theorem Item.named {ignoreCase : Bool} (item : Item) {name : String} {named : Pattern}
    (h : Draft.identified name (item.pattern ignoreCase) = some named)
    : ∃ item' : Item,
        item'.lexemes = item.lexemes ++ [.colon, .word name]
        ∧ item'.names = item.names ++ [name]
        ∧ item'.pattern ignoreCase = named := by
  cases item with
  | bracketed contents identifiers =>
      refine ⟨.bracketed contents (identifiers ++ [name]), ?_, ?_, ?_⟩
      · simp [Item.lexemes, suffixLexemes_append, suffixLexemes]
      · simp [Item.names]
      · cases contents <;> simpa [Item.pattern, Draft.identified] using h
  | choice first others identifiers =>
      refine ⟨.choice first others (identifiers ++ [name]), ?_, ?_, ?_⟩
      · simp [Item.lexemes, suffixLexemes_append, suffixLexemes]
      · simp [Item.names]
      · simpa [Item.pattern, Draft.identified] using h
  | _ => simp [Item.pattern, Draft.identified] at h

/-- The invariant of a run: the lexemes read so far derive what the draft holds, up to the part
of a parameter or identifier that is under way, and the declared names are distinct.
-/
inductive Draft.Reads (ignoreCase : Bool) : List Lexeme → Draft → Prop
  | item {lexemes names body openings}
    (derived : Derived ignoreCase lexemes names body openings) (distinct : names.Nodup)
    : Reads ignoreCase lexemes ⟨body, openings, .item, names.reverse⟩
  | parameterName {lexemes names body openings opened}
    (derived : Derived ignoreCase lexemes names body openings) (distinct : names.Nodup)
    : Reads ignoreCase (lexemes ++ [.openAngle])
        ⟨body, openings, .parameterName opened, names.reverse⟩
  | afterName {lexemes names body openings opened name}
    (derived : Derived ignoreCase lexemes names body openings) (distinct : names.Nodup)
    : Reads ignoreCase (lexemes ++ [.openAngle, .word name])
        ⟨body, openings, .afterName opened name, names.reverse⟩
  | typeName {lexemes names body openings opened name}
    (derived : Derived ignoreCase lexemes names body openings) (distinct : names.Nodup)
    : Reads ignoreCase (lexemes ++ [.openAngle, .word name, .colon])
        ⟨body, openings, .typeName opened name, names.reverse⟩
  | afterType {lexemes names body openings opened name typeName}
    (derived : Derived ignoreCase lexemes names body openings) (distinct : names.Nodup)
    : Reads ignoreCase (lexemes ++ [.openAngle, .word name, .colon, .word typeName])
        ⟨body, openings, .afterType opened name typeName, names.reverse⟩
  | tailEnd {lexemes names body openings opened name}
    (derived : Derived ignoreCase lexemes names body openings)
    (distinct : (names ++ [name]).Nodup)
    : Reads ignoreCase (lexemes ++ [.openAngle, .word name, .ellipsis])
        ⟨body.push (.tail name), openings, .tailEnd opened, (names ++ [name]).reverse⟩
  | identifier {lexemes names body openings}
    (derived : Derived ignoreCase lexemes names body openings) (distinct : names.Nodup)
    : Reads ignoreCase (lexemes ++ [.colon]) ⟨body, openings, .identifier, names.reverse⟩

/-- A new name keeps the declared names distinct. -/
theorem nodup_append_of_fresh {names : List String} {name : String} (distinct : names.Nodup)
    (fresh : name ∉ names.reverse)
    : (names ++ [name]).Nodup := by
  refine List.nodup_append.mpr ⟨distinct, by simp, ?_⟩
  intro other ho same hs he
  obtain rfl := List.mem_singleton.mp hs
  exact fresh (List.mem_reverse.mpr (he ▸ ho))

/-- Derived items that declare one more name than before are read. -/
theorem Draft.Reads.declaring {ignoreCase : Bool} {lexemes : List Lexeme}
    {names : List String} {body : Body} {openings : List Opening} {name : String}
    (derived : Derived ignoreCase lexemes (names ++ [name]) body openings)
    (distinct : names.Nodup) (fresh : name ∉ names.reverse)
    : Reads ignoreCase lexemes ⟨body, openings, .item, name :: names.reverse⟩ := by
  simpa using Reads.item derived (nodup_append_of_fresh distinct fresh)

/-- A step extends what was read by its lexeme, by cases on the step. -/
theorem Draft.Reads.step {ignoreCase : Bool} {lexemes : List Lexeme} {draft next : Draft}
    {placed : Placed} (h : Reads ignoreCase lexemes draft)
    (step : Step ignoreCase draft placed next)
    : Reads ignoreCase (lexemes ++ [placed.lexeme]) next := by
  cases step with
  | @word _ _ _ text =>
      cases h with
      | item derived distinct =>
          simpa [Item.lexemes, Item.names, Item.pattern]
            using Reads.item (derived.item (.word text 0)) (by simpa [Item.names] using distinct)
  | caret =>
      cases h with
      | item derived distinct =>
          -- A caret belongs to the last item, which its pattern shows to be a word.
          obtain ⟨lexemes', names', item, hd, rfl, rfl, hp⟩ := derived.last_item
          cases item with
          | word text carets =>
              cases hp
              simpa [Item.lexemes, Item.names, Item.pattern, Body.push, List.replicate_succ']
                using Reads.item (hd.item (.word _ (carets + 1))) distinct
          | bracketed contents _ => cases contents <;> cases hp
          | _ => cases hp
  | bar filled =>
      cases h with
      | item derived distinct => exact .item (derived.bar filled) distinct
  | openGroup bracket =>
      cases h with
      | item derived distinct => exact .item (derived.opened bracket _) distinct
  | closeGroup closed =>
      cases h with
      | item derived distinct =>
          obtain ⟨filled, rfl⟩ := Body.close_eq_ok_iff.mp closed
          exact .item (derived.closed filled) distinct
  | colon isGroup =>
      cases h with
      | item derived distinct => exact .identifier derived distinct
  | identifier fresh naming =>
      cases h with
      | identifier derived distinct =>
          obtain ⟨lexemes', names', item, hd, rfl, rfl, rfl⟩ := derived.last_item
          -- The group read last is derived again, with the identifier behind it.
          obtain ⟨item', hl, hn, rfl⟩ := item.named naming
          have hr := hd.item item'
          rw [hl, hn, ← List.append_assoc names'] at hr
          simpa [Body.push] using declaring hr distinct fresh
  | openAngle =>
      cases h with
      | item derived distinct => exact .parameterName derived distinct
  | parameterName =>
      cases h with
      | parameterName derived distinct => simpa using Reads.afterName derived distinct
  | typeMark =>
      cases h with
      | afterName derived distinct => simpa using Reads.typeName derived distinct
  | typeName =>
      cases h with
      | typeName derived distinct => simpa using Reads.afterType derived distinct
  | @parameter _ _ _ _ name _ fresh =>
      cases h with
      | afterName derived distinct =>
          simpa [Item.lexemes, Item.pattern]
            using declaring (derived.item (.parameter name)) distinct fresh
  | @typed _ _ _ _ name typeName _ fresh =>
      cases h with
      | afterType derived distinct =>
          simpa [Item.lexemes, Item.pattern]
            using declaring (derived.item (.typed name typeName)) distinct fresh
  | @tail _ _ _ _ name _ fresh =>
      cases h with
      | afterName derived distinct =>
          simpa using Reads.tailEnd derived (nodup_append_of_fresh distinct fresh)
  | tailEnd =>
      cases h with
      | @tailEnd _ _ _ _ _ name derived distinct =>
          simpa [Item.lexemes, Item.names, Item.pattern]
            using Reads.item (derived.item (.tail name)) distinct

/-- A run reads its lexemes, by induction on them. -/
theorem Draft.Reads.run {ignoreCase : Bool} {lexemes : List Lexeme} {draft last : Draft}
    {placed : List Placed} (h : Reads ignoreCase lexemes draft)
    (run : Reaches ignoreCase draft placed last)
    : Reads ignoreCase (lexemes ++ placed.map Placed.lexeme) last := by
  induction placed generalizing lexemes draft with
  | nil =>
      cases run
      simpa using h
  | cons first rest ih =>
      obtain ⟨next, hs, hr⟩ := reaches_cons_iff.mp run
      simpa using ih (h.step hs) hr

/-- A draft finishes exactly if nothing is left open and its body closes. -/
theorem Draft.finish_eq_ok_iff {draft : Draft} {stop : Nat} {root : Pattern}
    : draft.finish stop = .ok root
      ↔ draft.awaiting = .item
        ∧ draft.openings = []
        ∧ (draft.body.alternatives = [] ∨ draft.body.items ≠ [])
        ∧ root = draft.body.root := by
  obtain ⟨body, openings, awaiting, declared⟩ := draft
  cases awaiting <;> cases openings <;> simp [finish, Body.closeRoot_eq_ok_iff]

/-- A body without open groups around it derives as a whole. -/
theorem Derived.whole {ignoreCase : Bool} {lexemes : List Lexeme} {names : List String}
    {body : Body} (h : Derived ignoreCase lexemes names body [])
    (closes : body.alternatives = [] ∨ body.items ≠ [])
    : ∃ derivation : Derivation,
        derivation.lexemes = lexemes
        ∧ derivation.names = names
        ∧ derivation.pattern ignoreCase = body.root := by
  by_cases filled : body.items = []
  · obtain ⟨_, _, finished, items, ⟨rfl, rfl⟩, rfl, rfl, rfl⟩ := h.contents
    obtain rfl : items = [] := by simpa using filled
    obtain rfl : finished = [] := by simpa using closes
    exact ⟨.empty, rfl, rfl, rfl⟩
  · obtain ⟨_, _, contents, ⟨rfl, rfl⟩, rfl, rfl, rfl⟩ := h.alternatives filled
    exact ⟨.ofAlternatives contents, rfl, rfl, (contents.root_body ignoreCase).symm⟩

end CallGrammar.Definition

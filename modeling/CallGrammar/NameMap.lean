/-! Maps from names, kept in ascending order of the names. Two maps that answer every look-up
alike are equal.
-/

namespace CallGrammar

/-- A list of named entries, strictly ascending by name. -/
structure NameMap (α : Type) where
  entries : List (String × α)
  sorted : entries.Pairwise (fun a b => a.1 < b.1)

namespace NameMap

variable {α : Type}

------------------------------------------------------------
-- Entry lists

/-- The value of the first entry with a name. -/
def findEntry (name : String) : List (String × α) → Option α
  | [] => none
  | (key, value) :: rest => if name = key then some value else findEntry name rest

/-- Puts an entry in its place, instead of an earlier one of the same name. -/
def insertEntry (name : String) (value : α) : List (String × α) → List (String × α)
  | [] => [(name, value)]
  | (key, old) :: rest =>
      if name < key then (name, value) :: (key, old) :: rest
      else if name = key then (name, value) :: rest
      else (key, old) :: insertEntry name value rest

/-- An entry after an insertion is the new one or was there before, by list induction. -/
theorem mem_insertEntry {name : String} {value : α} {entries : List (String × α)}
    {entry : String × α} (member : entry ∈ insertEntry name value entries)
    : entry = (name, value) ∨ entry ∈ entries := by
  induction entries with
  | nil => exact .inl (List.mem_singleton.mp member)
  | cons head rest ih =>
      obtain ⟨key, old⟩ := head
      rw [insertEntry] at member
      split at member
      · exact List.mem_cons.mp member
      · split at member
        · exact (List.mem_cons.mp member).imp_right (List.mem_cons_of_mem _)
        · rcases List.mem_cons.mp member with he | hm
          · exact .inr (he ▸ List.mem_cons_self)
          · exact (ih hm).imp_right (List.mem_cons_of_mem _)

/-- Insertion keeps a list strictly ascending, by list induction. -/
theorem sorted_insertEntry (name : String) (value : α) {entries : List (String × α)}
    (sorted : entries.Pairwise (fun a b => a.1 < b.1))
    : (insertEntry name value entries).Pairwise (fun a b => a.1 < b.1) := by
  induction entries with
  | nil => exact List.pairwise_singleton _ _
  | cons head rest ih =>
      obtain ⟨key, old⟩ := head
      obtain ⟨above, hr⟩ := List.pairwise_cons.mp sorted
      rw [insertEntry]
      split
      · rename_i hlt
        refine List.pairwise_cons.mpr ⟨fun entry hm => ?_, sorted⟩
        rcases List.mem_cons.mp hm with he | hm
        · exact he ▸ hlt
        · exact String.lt_trans hlt (above entry hm)
      · split
        · rename_i he
          exact List.pairwise_cons.mpr ⟨fun entry hm => he ▸ above entry hm, hr⟩
        · rename_i hnlt hne
          refine List.pairwise_cons.mpr ⟨fun entry hm => ?_, ih hr⟩
          rcases mem_insertEntry hm with he | hm
          · subst he
            refine Decidable.byContradiction fun hn => hne ?_
            exact String.le_antisymm (String.not_lt.mp hn) (String.not_lt.mp hnlt)
          · exact above entry hm

/-- A name is found after an insertion as the new entry or as before, by list induction. -/
theorem findEntry_insertEntry (name : String) (value : α) (entries : List (String × α))
    (other : String)
    : findEntry other (insertEntry name value entries)
      = if other = name then some value else findEntry other entries := by
  induction entries with
  | nil => rfl
  | cons head rest ih =>
      obtain ⟨key, old⟩ := head
      rw [insertEntry]
      split
      · rfl
      · split
        · rename_i he
          subst he
          simp only [findEntry]
          split <;> rfl
        · rename_i hne
          simp only [findEntry, ih]
          by_cases hk : other = key
          · rw [if_pos hk, if_pos hk, if_neg (fun he => hne (he.symm.trans hk))]
          · rw [if_neg hk, if_neg hk]

/-- A name below all names of a list is not found in it, by list induction. -/
theorem findEntry_eq_none_of_below {name : String} {entries : List (String × α)}
    (below : ∀ entry ∈ entries, name < entry.1)
    : findEntry name entries = none := by
  induction entries with
  | nil => rfl
  | cons head rest ih =>
      have hne : name ≠ head.1 := fun he =>
        String.lt_irrefl name (he ▸ below head List.mem_cons_self)
      rw [findEntry, if_neg hne]
      exact ih (fun entry hm => below entry (List.mem_cons_of_mem head hm))

/-- No name found in an ascending list is below its first one. -/
theorem not_lt_of_findEntry {name key : String} {value : α} {rest : List (String × α)}
    (sorted : ((key, value) :: rest).Pairwise (fun a b => a.1 < b.1))
    (found : findEntry name ((key, value) :: rest) ≠ none)
    : ¬ name < key := by
  intro hlt
  refine found (findEntry_eq_none_of_below (fun entry hm => ?_))
  rcases List.mem_cons.mp hm with he | hm
  · exact he ▸ hlt
  · exact String.lt_trans hlt ((List.pairwise_cons.mp sorted).1 entry hm)

/-- Ascending lists that answer every look-up alike are equal, by induction on the first. -/
theorem eq_of_findEntry_eq {left right : List (String × α)}
    (hl : left.Pairwise (fun a b => a.1 < b.1)) (hr : right.Pairwise (fun a b => a.1 < b.1))
    (same : ∀ name, findEntry name left = findEntry name right)
    : left = right := by
  induction left generalizing right with
  | nil =>
      cases right with
      | nil => rfl
      | cons head rest => simpa [findEntry] using same head.1
  | cons head rest ih =>
      obtain ⟨key, value⟩ := head
      cases right with
      | nil => simpa [findEntry] using same key
      | cons other more =>
          obtain ⟨key', value'⟩ := other
          have hk : key = key' := by
            have hf : findEntry key ((key', value') :: more) ≠ none := by
              rw [← same]
              simp [findEntry]
            have hf' : findEntry key' ((key, value) :: rest) ≠ none := by
              rw [same]
              simp [findEntry]
            exact String.le_antisymm (String.not_lt.mp (not_lt_of_findEntry hl hf'))
              (String.not_lt.mp (not_lt_of_findEntry hr hf))
          subst hk
          have hv : value = value' := by simpa [findEntry] using same key
          subst hv
          obtain ⟨below, hl⟩ := List.pairwise_cons.mp hl
          obtain ⟨below', hr⟩ := List.pairwise_cons.mp hr
          refine congrArg _ (ih hl hr (fun name => ?_))
          by_cases hn : name = key
          · subst hn
            rw [findEntry_eq_none_of_below below, findEntry_eq_none_of_below below']
          · simpa only [findEntry, if_neg hn] using same name

------------------------------------------------------------
-- Maps

/-- The map without entries. -/
def empty : NameMap α :=
  ⟨[], List.Pairwise.nil⟩

instance : EmptyCollection (NameMap α) :=
  ⟨empty⟩

/-- The value under a name. -/
def get? (map : NameMap α) (name : String) : Option α :=
  findEntry name map.entries

def contains (map : NameMap α) (name : String) : Bool :=
  (map.get? name).isSome

/-- Binds a name, replacing what it was bound to. -/
def insert (map : NameMap α) (name : String) (value : α) : NameMap α :=
  ⟨insertEntry name value map.entries, sorted_insertEntry name value map.sorted⟩

/-- Binds every entry of a list, a later one instead of an earlier one of the same name. -/
def insertAll (map : NameMap α) (entries : List (String × α)) : NameMap α :=
  entries.foldl (fun map entry => map.insert entry.1 entry.2) map

/-- Binds every entry of the second map in the first. -/
def union (map more : NameMap α) : NameMap α :=
  map.insertAll more.entries

/-- The map of a list of entries. -/
def ofList (entries : List (String × α)) : NameMap α :=
  empty.insertAll entries

/-- The names, ascending. -/
def names (map : NameMap α) : List String :=
  map.entries.map Prod.fst

/-- Binding a name changes the answer for that name alone. -/
theorem get?_insert (map : NameMap α) (name : String) (value : α) (other : String)
    : (map.insert name value).get? other = if other = name then some value else map.get? other :=
  findEntry_insertEntry name value map.entries other

/-- Maps that answer every look-up alike are equal. -/
theorem ext_get? {left right : NameMap α} (same : ∀ name, left.get? name = right.get? name)
    : left = right := by
  cases left
  cases right
  congr
  exact eq_of_findEntry_eq (by assumption) (by assumption) same

end NameMap

end CallGrammar

import CallGrammar.NameMap

/-! Looking up names in maps that many names were bound in, and the entries of such maps. -/

namespace CallGrammar.NameMap

variable {α : Type}

/-- Binding the entries of an ascending list answers for its names first, by list induction. -/
theorem get?_insertAll_of_sorted {entries : List (String × α)}
    (sorted : entries.Pairwise (fun a b => a.1 < b.1)) (map : NameMap α) (name : String)
    : (map.insertAll entries).get? name = (findEntry name entries).or (map.get? name) := by
  induction entries generalizing map with
  | nil => rfl
  | cons entry rest ih =>
      obtain ⟨key, value⟩ := entry
      obtain ⟨below, hr⟩ := List.pairwise_cons.mp sorted
      have hi : (map.insertAll ((key, value) :: rest)).get? name
          = (findEntry name rest).or ((map.insert key value).get? name) :=
        ih hr (map.insert key value)
      rw [hi, get?_insert, findEntry]
      split
      · rename_i he
        rw [he, findEntry_eq_none_of_below below]
        rfl
      · rfl

/-- A union answers as its second map does, and as the first for other names. -/
theorem get?_union (map more : NameMap α) (name : String)
    : (map.union more).get? name = (more.get? name).or (map.get? name) :=
  get?_insertAll_of_sorted more.sorted map name

theorem union_empty (map : NameMap α) : map.union ∅ = map :=
  rfl

theorem empty_union (map : NameMap α) : union ∅ map = map := by
  refine ext_get? fun name => ?_
  rw [get?_union]
  exact Option.or_none

/-- Unions may be taken in any grouping: later maps answer first. -/
theorem union_assoc (first second third : NameMap α)
    : (first.union second).union third = first.union (second.union third) := by
  apply ext_get?
  intro name
  simp only [get?_union, Option.or_assoc]

theorem union_insert (map more : NameMap α) (name : String) (value : α)
    : map.union (more.insert name value) = (map.union more).insert name value := by
  refine ext_get? fun other => ?_
  rw [get?_union, get?_insert, get?_insert, get?_union]
  split <;> rfl

/-- An entry of the first map of a union counts unless the second map has its name. -/
theorem insert_union (map more : NameMap α) (name : String) (value : α)
    : (map.insert name value).union more
      = if more.contains name then map.union more else (map.union more).insert name value := by
  refine ext_get? fun other => ?_
  cases found : more.get? name with
  | some own =>
      rw [contains, found, Option.isSome_some, if_pos rfl, get?_union, get?_union, get?_insert]
      split
      · rename_i he
        rw [he, found]
        rfl
      · rfl
  | none =>
      rw [contains, found, Option.isSome_none, if_neg Bool.false_ne_true, get?_union, get?_insert,
        get?_insert, get?_union]
      split
      · rename_i he
        rw [he, found]
        rfl
      · rfl

/-- Entries bound in the second map of a union are bound in the union, by list induction. -/
theorem union_insertAll (map more : NameMap α) (entries : List (String × α))
    : map.union (more.insertAll entries) = (map.union more).insertAll entries := by
  induction entries generalizing more with
  | nil => rfl
  | cons entry rest ih =>
      have hi := ih (more.insert entry.1 entry.2)
      rw [union_insert] at hi
      exact hi

theorem insertAll_append (map : NameMap α) (first second : List (String × α))
    : map.insertAll (first ++ second) = (map.insertAll first).insertAll second :=
  List.foldl_append

------------------------------------------------------------
-- Entries

/-- An ascending list has a name with a value exactly if they are an entry of it, by list
induction.
-/
theorem findEntry_eq_some_iff {entries : List (String × α)}
    (sorted : entries.Pairwise (fun a b => a.1 < b.1)) {name : String} {value : α}
    : findEntry name entries = some value ↔ (name, value) ∈ entries := by
  induction entries with
  | nil => simp [findEntry]
  | cons entry rest ih =>
      obtain ⟨key, own⟩ := entry
      obtain ⟨below, hr⟩ := List.pairwise_cons.mp sorted
      rw [findEntry, List.mem_cons, Prod.mk.injEq]
      by_cases hk : name = key
      · have absent : (name, value) ∉ rest := by
          intro member
          exact String.lt_irrefl key (hk ▸ below _ member)
        simp [hk, hk ▸ absent, eq_comm]
      · simp [hk, ih hr]

theorem get?_eq_some_iff {map : NameMap α} {name : String} {value : α}
    : map.get? name = some value ↔ (name, value) ∈ map.entries :=
  findEntry_eq_some_iff map.sorted

/-- A new name is put among the others, by list induction. -/
theorem insertEntry_perm {name : String} {entries : List (String × α)}
    (fresh : name ∉ entries.map Prod.fst) (value : α)
    : (insertEntry name value entries).Perm ((name, value) :: entries) := by
  induction entries with
  | nil => exact .refl _
  | cons entry rest ih =>
      obtain ⟨key, own⟩ := entry
      obtain ⟨hk, hr⟩ : name ≠ key ∧ name ∉ rest.map Prod.fst := by
        simpa using fresh
      rw [insertEntry]
      split
      · exact .refl _
      · exact ((ih hr).cons _).trans (.swap _ _ _)

/-- New names that are all different are put among the others, by list induction. -/
theorem entries_insertAll_perm {map : NameMap α} {entries : List (String × α)}
    (distinct : (map.names ++ entries.map Prod.fst).Nodup)
    : (map.insertAll entries).entries.Perm (map.entries ++ entries) := by
  induction entries generalizing map with
  | nil =>
      rw [List.append_nil]
      exact .refl _
  | cons entry rest ih =>
      obtain ⟨name, value⟩ := entry
      have fresh : name ∉ map.entries.map Prod.fst := by
        intro member
        exact (List.nodup_append.mp distinct).2.2 name member name List.mem_cons_self rfl
      have inserted := insertEntry_perm fresh value
      have moved : (map.entries ++ (name, value) :: rest).Perm
          ((name, value) :: map.entries ++ rest) := List.perm_middle
      have next : ((map.insert name value).names ++ rest.map Prod.fst).Nodup := by
        have names := (inserted.append_right rest).trans moved.symm
        have renamed := names.map Prod.fst
        rw [List.map_append, List.map_append] at renamed
        exact renamed.nodup_iff.mpr distinct
      exact ((ih next).trans (inserted.append_right rest)).trans moved.symm

/-- A map of entries with different names has exactly these entries. -/
theorem entries_ofList_perm {entries : List (String × α)}
    (distinct : (entries.map Prod.fst).Nodup)
    : (ofList entries).entries.Perm entries :=
  entries_insertAll_perm (by simpa [names, empty] using distinct)

end CallGrammar.NameMap

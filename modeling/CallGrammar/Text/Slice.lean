/-! Cutting a text at byte offsets of its UTF-8 form. A cut exists only between characters. -/

namespace CallGrammar.Text

/-- The number of bytes that characters take in UTF-8. -/
def byteLength : List Char → Nat
  | [] => 0
  | c :: rest => c.utf8Size + byteLength rest

/-- The characters from a byte offset on, if a character starts or the text ends there. -/
def dropBytes? (offset : Nat) (cs : List Char) : Option (List Char) :=
  if offset = 0 then some cs
  else
    match cs with
    | [] => none
    | c :: rest => if c.utf8Size ≤ offset then dropBytes? (offset - c.utf8Size) rest else none

/-- The characters up to a byte offset, if a character starts or the text ends there. -/
def takeBytes? (offset : Nat) (cs : List Char) : Option (List Char) :=
  if offset = 0 then some []
  else
    match cs with
    | [] => none
    | c :: rest =>
        if c.utf8Size ≤ offset then (takeBytes? (offset - c.utf8Size) rest).map (c :: ·)
        else none

/-- Byte lengths add up over concatenation, by list induction. -/
theorem byteLength_append (left right : List Char)
    : byteLength (left ++ right) = byteLength left + byteLength right := by
  induction left with
  | nil => simp [byteLength]
  | cons c rest ih => simp [byteLength, ih, Nat.add_assoc]

theorem byteLength_pos {cs : List Char} (filled : cs ≠ []) : 0 < byteLength cs := by
  cases cs with
  | nil => exact absurd rfl filled
  | cons c rest => exact Nat.lt_of_lt_of_le c.utf8Size_pos (Nat.le_add_right _ _)

/-- Dropping the bytes of a leading part leaves the rest, by list induction. -/
theorem dropBytes?_append (left right : List Char)
    : dropBytes? (byteLength left) (left ++ right) = some right := by
  induction left with
  | nil => unfold dropBytes?; simp [byteLength]
  | cons c rest ih =>
      have hc : 0 < c.utf8Size := c.utf8Size_pos
      unfold dropBytes?
      rw [if_neg (by simp only [byteLength]; omega)]
      simpa [byteLength] using ih

/-- Taking the bytes of a leading part gives that part, by list induction. -/
theorem takeBytes?_append (left right : List Char)
    : takeBytes? (byteLength left) (left ++ right) = some left := by
  induction left with
  | nil => unfold takeBytes?; simp [byteLength]
  | cons c rest ih =>
      have hc : 0 < c.utf8Size := c.utf8Size_pos
      unfold takeBytes?
      rw [if_neg (by simp only [byteLength]; omega)]
      simpa [byteLength] using ih

/-- Bytes of a leading part are dropped first, by list induction. -/
theorem dropBytes?_add (left cs : List Char) (offset : Nat)
    : dropBytes? (offset + byteLength left) (left ++ cs) = dropBytes? offset cs := by
  induction left with
  | nil => rfl
  | cons c rest ih =>
      have hc : 0 < c.utf8Size := c.utf8Size_pos
      have hsub : offset + (c.utf8Size + byteLength rest) - c.utf8Size
          = offset + byteLength rest := by omega
      rw [byteLength, List.cons_append, dropBytes?, if_neg (by omega), if_pos (by omega), hsub, ih]

/-- What stands behind a text is kept where only bytes of the text are dropped, by list
induction.
-/
theorem dropBytes?_append_of_le {cs : List Char} {offset : Nat} (h : offset ≤ byteLength cs)
    (right : List Char)
    : dropBytes? offset (cs ++ right) = (dropBytes? offset cs).map (· ++ right) := by
  induction cs generalizing offset with
  | nil =>
      obtain rfl : offset = 0 := Nat.le_zero.mp h
      unfold dropBytes?
      rfl
  | cons c rest ih =>
      unfold dropBytes?
      by_cases hzero : offset = 0
      · rw [if_pos hzero, if_pos hzero]
        rfl
      · rw [if_neg hzero, if_neg hzero]
        by_cases hc : c.utf8Size ≤ offset
        · have hrest : offset - c.utf8Size ≤ byteLength rest := by
            rw [byteLength] at h
            omega
          simpa [hc] using ih hrest
        · simp [hc]

theorem byteLength_of_dropBytes? {cs rest : List Char} {offset : Nat}
    (h : dropBytes? offset cs = some rest)
    : offset + byteLength rest = byteLength cs := by
  induction cs generalizing offset with
  | nil =>
      unfold dropBytes? at h
      split at h
      · cases h
        omega
      · cases h
  | cons c others ih =>
      unfold dropBytes? at h
      split at h
      · cases h
        omega
      · dsimp only at h
        split at h
        · have hr := ih h
          rw [byteLength]
          omega
        · cases h

/-- What stands behind a text does not matter where only bytes of the text are taken, by list
induction.
-/
theorem takeBytes?_append_of_le {cs : List Char} {offset : Nat} (h : offset ≤ byteLength cs)
    (right : List Char)
    : takeBytes? offset (cs ++ right) = takeBytes? offset cs := by
  induction cs generalizing offset with
  | nil =>
      obtain rfl : offset = 0 := Nat.le_zero.mp h
      unfold takeBytes?
      rfl
  | cons c rest ih =>
      unfold takeBytes?
      by_cases hzero : offset = 0
      · rw [if_pos hzero, if_pos hzero]
      · rw [if_neg hzero, if_neg hzero]
        by_cases hc : c.utf8Size ≤ offset
        · have hrest : offset - c.utf8Size ≤ byteLength rest := by
            rw [byteLength] at h
            omega
          simp [hc, ih hrest]
        · simp [hc]

/-- A character of a text in two parts stands in the second part or in the first. -/
theorem behind_or_inside {first rest left right : List Char} {c : Char}
    (h : first ++ rest = left ++ c :: right)
    : (∃ between, left = first ++ between ∧ rest = between ++ c :: right)
      ∨ ∃ inside, first = left ++ c :: inside := by
  rcases List.append_eq_append_iff.mp h with ⟨between, hleft, hrest⟩ | ⟨inside, hfirst, hright⟩
  · exact .inl ⟨between, hleft, hrest⟩
  · cases inside with
    | nil => exact .inl ⟨[], by simp [hfirst], hright.symm⟩
    | cons d inside =>
        obtain ⟨rfl, -⟩ := List.cons.inj hright
        exact .inr ⟨inside, hfirst⟩

end CallGrammar.Text

import CallGrammar.Call.Glyph
import CallGrammar.Text.Slice
import Mathlib.Data.List.Chain

/-! Glyphs and the characters they were read from. Which glyphs a text has is decided locally: a
list of glyphs is what its characters are read as if and only if no two neighbours of it could have
been read as one glyph, so every stretch of the glyphs of a text is read the same on its own.
-/

namespace CallGrammar.Call

------------------------------------------------------------
-- Sources and sizes

/-- The characters that glyphs were read from. -/
def sources (gs : List Glyph) : List Char :=
  gs.flatMap Glyph.source

/-- The bytes that glyphs were read from. -/
def width (gs : List Glyph) : Nat :=
  Text.byteLength (sources gs)

@[simp]
theorem sources_nil : sources [] = [] :=
  rfl

@[simp]
theorem sources_cons (g : Glyph) (gs : List Glyph) : sources (g :: gs) = g.source ++ sources gs :=
  rfl

@[simp]
theorem sources_append (left right : List Glyph)
    : sources (left ++ right) = sources left ++ sources right :=
  List.flatMap_append

@[simp]
theorem sources_glyphs (quotes cs : List Char) : sources (glyphs quotes cs) = cs :=
  flatMap_source_glyphs quotes cs

@[simp]
theorem width_nil : width [] = 0 :=
  rfl

theorem byteLength_source (g : Glyph) : Text.byteLength g.source = g.size := by
  cases g <;> rfl

@[simp]
theorem width_cons (g : Glyph) (gs : List Glyph) : width (g :: gs) = g.size + width gs := by
  rw [width, sources_cons, Text.byteLength_append, byteLength_source, width]

@[simp]
theorem width_append (left right : List Glyph)
    : width (left ++ right) = width left + width right := by
  rw [width, sources_append, Text.byteLength_append]
  rfl

theorem size_pos (g : Glyph) : 0 < g.size := by
  cases g with
  | bare c => exact c.utf8Size_pos
  | escaped c => exact Nat.add_pos_left Nat.one_pos _

theorem width_pos {gs : List Glyph} (filled : gs ≠ []) : 0 < width gs := by
  obtain ⟨g, rest, rfl⟩ := List.exists_cons_of_ne_nil filled
  rw [width_cons]
  exact Nat.add_pos_left (size_pos g) _

------------------------------------------------------------
-- Reading back

variable {quotes : List Char}

/-- Glyphs that their characters are read as: only what a backslash escapes is behind one, and no
bare backslash stands before it.
-/
structure Canonical (quotes : List Char) (gs : List Glyph) : Prop where
  escapable : ∀ c, .escaped c ∈ gs → isEscapable quotes c = true
  apart
    : gs.IsChain fun g next =>
        g = .bare '\\' → ∀ c ∈ next.source.head?, isEscapable quotes c = false

/-- A backslash before something it escapes is read together with it. -/
theorem glyphs_pair {c : Char} (hc : isEscapable quotes c = true) (cs : List Char)
    : glyphs quotes ('\\' :: c :: cs) = .escaped c :: glyphs quotes cs := by
  rw [glyphs, if_pos ⟨rfl, hc⟩]

/-- Any other character is read on its own. -/
theorem glyphs_single {c : Char} {cs : List Char}
    (hc : c = '\\' → ∀ d ∈ cs.head?, isEscapable quotes d = false)
    : glyphs quotes (c :: cs) = .bare c :: glyphs quotes cs := by
  cases cs with
  | nil => rfl
  | cons d rest =>
      have hpair : ¬ (c = '\\' ∧ isEscapable quotes d = true) := by
        rintro ⟨hb, hd⟩
        exact absurd (hc hb d rfl) (by simp [hd])
      rw [glyphs, if_neg hpair]

/-- A text keeps its glyphs with something behind it, but for a backslash at its end, which may
escape the first character there, by induction on the reading.
-/
theorem glyphs_append (cs ds : List Char)
    : glyphs quotes (cs ++ ds) = glyphs quotes cs ++ glyphs quotes ds
      ∨ ∃ init c rest,
          glyphs quotes cs = init ++ [.bare '\\']
          ∧ ds = c :: rest
          ∧ isEscapable quotes c = true
          ∧ glyphs quotes (cs ++ ds) = init ++ .escaped c :: glyphs quotes rest := by
  fun_induction glyphs quotes cs with
  | case1 => exact .inl rfl
  | case2 c =>
      cases ds with
      | nil => exact .inl (List.append_nil _).symm
      | cons d rest =>
          by_cases hpair : c = '\\' ∧ isEscapable quotes d = true
          · obtain ⟨rfl, hd⟩ := hpair
            exact .inr ⟨[], d, rest, rfl, rfl, hd, glyphs_pair hd rest⟩
          · left
            rw [List.singleton_append, glyphs, if_neg hpair]
            rfl
  | case3 c d rest hpair ih =>
      have hwhole : glyphs quotes (c :: d :: rest ++ ds)
          = .escaped d :: glyphs quotes (rest ++ ds) := by
        rw [List.cons_append, List.cons_append, glyphs, if_pos hpair]
      rw [hwhole]
      rcases ih with happend | ⟨init, e, behind, hinit, hds, he, happend⟩
      · exact .inl (congrArg _ happend)
      · exact .inr ⟨.escaped d :: init, e, behind, congrArg _ hinit, hds, he, congrArg _ happend⟩
  | case4 c d rest hpair ih =>
      have hwhole : glyphs quotes (c :: d :: rest ++ ds)
          = .bare c :: glyphs quotes (d :: rest ++ ds) := by
        rw [List.cons_append, List.cons_append, glyphs, if_neg hpair]
      rw [hwhole]
      rcases ih with happend | ⟨init, e, behind, hinit, hds, he, happend⟩
      · exact .inl (congrArg _ happend)
      · exact .inr ⟨.bare c :: init, e, behind, congrArg _ hinit, hds, he, congrArg _ happend⟩

theorem source_ne_nil (g : Glyph) : g.source ≠ [] := by
  cases g <;> simp [Glyph.source]

theorem sources_ne_nil {gs : List Glyph} (filled : gs ≠ []) : sources gs ≠ [] := by
  obtain ⟨g, rest, rfl⟩ := List.exists_cons_of_ne_nil filled
  exact List.append_ne_nil_of_left_ne_nil (source_ne_nil g) _

/-- The characters of glyphs start with those of the first one. -/
theorem head?_sources (g : Glyph) (gs : List Glyph)
    : (sources (g :: gs)).head? = g.source.head? := by
  rw [sources_cons, List.head?_append_of_ne_nil _ (source_ne_nil g)]

namespace Canonical

/-- The glyphs of a text are canonical, by induction on the reading. -/
theorem glyphs (quotes cs : List Char) : Canonical quotes (glyphs quotes cs) := by
  fun_induction Call.glyphs quotes cs with
  | case1 => exact ⟨by simp, List.isChain_nil⟩
  | case2 c => exact ⟨by simp, List.isChain_singleton _⟩
  | case3 c d rest h ih =>
      refine ⟨?_, List.isChain_cons.mpr ⟨by simp, ih.apart⟩⟩
      intro e he
      rcases List.mem_cons.mp he with heq | hmem
      · obtain rfl := Glyph.escaped.inj heq
        exact h.2
      · exact ih.escapable e hmem
  | case4 c d rest h ih =>
      refine ⟨?_, List.isChain_cons.mpr ⟨?_, ih.apart⟩⟩
      · intro e he
        exact ih.escapable e (by simpa using he)
      · intro next hnext hb e he
        obtain ⟨tail, htail⟩ := List.head?_eq_some_iff.mp hnext
        have hd : next.source.head? = some d := by
          rw [← head?_sources next tail, ← htail, sources_glyphs, List.head?_cons]
        obtain rfl : d = e := Option.some.inj (hd.symm.trans he)
        have hpair : ¬ (c = '\\' ∧ isEscapable quotes d = true) := h
        simpa [Glyph.bare.inj hb] using hpair

/-- The characters of canonical glyphs are read as these glyphs, by list induction. -/
theorem glyphs_sources {gs : List Glyph} (h : Canonical quotes gs)
    : Call.glyphs quotes (sources gs) = gs := by
  induction gs with
  | nil => rfl
  | cons g rest ih =>
      obtain ⟨hhead, htail⟩ := List.isChain_cons.mp h.apart
      have hrest : Call.glyphs quotes (sources rest) = rest :=
        ih ⟨fun c hc => h.escapable c (List.mem_cons_of_mem g hc), htail⟩
      cases g with
      | escaped c => 
          exact (glyphs_pair (h.escapable c List.mem_cons_self) _).trans (congrArg _ hrest)
      | bare c =>
          have hsingle : c = '\\' → ∀ d ∈ (sources rest).head?, isEscapable quotes d = false := by
            intro hb d hd
            cases rest with
            | nil => simp at hd
            | cons next tail =>
                rw [head?_sources] at hd
                exact hhead next rfl (congrArg _ hb) d hd
          exact (glyphs_single hsingle).trans (congrArg _ hrest)

/-- Every stretch of canonical glyphs is canonical. -/
theorem stretch {left middle right : List Glyph} (h : Canonical quotes (left ++ middle ++ right))
    : Canonical quotes middle :=
  ⟨fun c hc => h.escapable c (by simp [hc]), h.apart.infix ⟨left, right, rfl⟩⟩

end Canonical

end CallGrammar.Call

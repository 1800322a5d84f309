import CallGrammar.Proofs.Wire.Scalars
import CallGrammar.Wire.Message

/-! Messages are read back. The bytes of a list of tokens or of values give the list back, and no
fewer bytes do, so different lists have different bytes.
-/

namespace CallGrammar

/-- A token that fits in a message. -/
structure Token.Fits (token : Token) : Prop where
  value : token.value.utf8ByteSize < 65536
  start : token.span.start < 2 ^ 64
  stop : token.span.stop < 2 ^ 64

/-- A value that fits in a message and equals itself. -/
def Value.Fits : Value → Prop
  | .str text => text.utf8ByteSize < 65536
  | .int _ => True
  | .float number => number.isNaN = false
  | .bool _ => True

namespace Wire

------------------------------------------------------------
-- Lists

section Lists

variable {α : Type} {read : Reader α} {encode : α → List UInt8}

theorem length_of_readMany {count : Nat} {elements : List α} {input rest : List UInt8}
    (h : readMany read count input = some (elements, rest))
    : elements.length = count := by
  induction count generalizing elements input with
  | zero =>
      cases h
      rfl
  | succ count ih =>
      simp only [readMany, Option.bind_eq_bind, Option.bind_eq_some_iff, Prod.exists] at h
      obtain ⟨element, behind, _, others, _, hothers, hall⟩ := h
      cases hall
      rw [List.length_cons, ih hothers]

/-- Elements in a row are read back, by induction on the list. -/
theorem shortestForm_many {elements : List α}
    (h : ∀ element ∈ elements, ShortestForm read (encode element) element)
    : ShortestForm (readMany read elements.length) (elements.flatMap encode) elements := by
  induction elements with
  | nil =>
      constructor
      · intro rest
        rfl
      · intro input rest hread
        cases hread
        simp
  | cons element elements ih =>
      have hhead := h element List.mem_cons_self
      have htail := ih (fun other hm => h other (List.mem_cons_of_mem _ hm))
      constructor
      · intro rest
        simp only [List.length_cons, readMany, List.flatMap_cons, List.append_assoc, hhead.reads,
          htail.reads, Option.bind_eq_bind, Option.bind_some]
        rfl
      · intro input rest hread
        simp only [List.length_cons, readMany, Option.bind_eq_bind, Option.bind_eq_some_iff,
          Prod.exists] at hread
        obtain ⟨_, behind, hfirst, _, _, hothers, hall⟩ := hread
        cases hall
        have := hhead.shortest hfirst
        have := htail.shortest hothers
        rw [List.flatMap_cons, List.length_append]
        omega

theorem shortestForm_list {elements : List α} (hl : elements.length < 2 ^ 32)
    (h : ∀ element ∈ elements, ShortestForm read (encode element) element)
    : ShortestForm (readList read) (encodeList encode elements) elements := by
  have hhead := shortestForm_listHead hl
  have hmany := shortestForm_many h
  constructor
  · intro rest
    simp only [readList, encodeList, List.append_assoc, hhead.reads, Option.bind_eq_bind,
      Option.bind_some, hmany.reads]
  · intro input rest hread
    simp only [readList, Option.bind_eq_bind, Option.bind_eq_some_iff, Prod.exists] at hread
    obtain ⟨length, behind, hlength, helements⟩ := hread
    cases length_of_readMany helements
    have := hhead.shortest hlength
    have := hmany.shortest helements
    rw [encodeList, List.length_append]
    omega

end Lists

------------------------------------------------------------
-- Tokens

theorem shortestForm_key {key : String} (h : key.utf8ByteSize < 2 ^ 32)
    : ShortestForm (readKey key) (encodeStr key) () := by
  have hstr := shortestForm_str h
  constructor
  · intro rest
    simp only [readKey, hstr.reads, Option.bind_eq_bind, Option.bind_some, if_pos]
    rfl
  · intro input rest hread
    simp only [readKey, Option.bind_eq_bind, Option.bind_eq_some_iff, Prod.exists] at hread
    obtain ⟨text, behind, htext, hread⟩ := hread
    split_ifs at hread with heq
    cases hread
    exact hstr.shortest (heq ▸ htext)

/-- Records of two fields are read back if their fields are. -/
theorem shortestForm_record {α β γ : Type} (build : α → β → γ) (hb : Function.Injective2 build)
    {first second : String} (hf : first.utf8ByteSize < 2 ^ 32) (hs : second.utf8ByteSize < 2 ^ 32)
    {readFirst : Reader α} {readSecond : Reader β} {front back : List UInt8} {left : α} {right : β}
    (hleft : ShortestForm readFirst front left) (hright : ShortestForm readSecond back right)
    : ShortestForm
        (fun bytes => do
          let ((), rest) ← readRecordHead 2 bytes
          let ((), rest) ← readKey first rest
          let (left, rest) ← readFirst rest
          let ((), rest) ← readKey second rest
          let (right, rest) ← readSecond rest
          return (build left right, rest))
        (encodeRecordHead 2 ++ encodeStr first ++ front ++ encodeStr second ++ back)
        (build left right) := by
  have hhead := shortestForm_recordHead (show 2 < 0x10 by decide)
  have hfirst := shortestForm_key hf
  have hsecond := shortestForm_key hs
  constructor
  · intro rest
    simp only [List.append_assoc, hhead.reads, hfirst.reads, hleft.reads, hsecond.reads,
      hright.reads, Option.bind_eq_bind, Option.bind_some]
    rfl
  · intro input rest hread
    simp only [Option.bind_eq_bind, Option.bind_eq_some_iff, Prod.exists] at hread
    obtain ⟨_, _, h1, _, _, h2, _, _, h3, _, _, h4, _, _, h5, hall⟩ := hread
    obtain ⟨hbuild, rfl⟩ := Prod.mk.inj (Option.some.inj hall)
    obtain ⟨rfl, rfl⟩ := hb hbuild
    have := hhead.shortest h1
    have := hfirst.shortest h2
    have := hleft.shortest h3
    have := hsecond.shortest h4
    have := hright.shortest h5
    simp only [List.length_append]
    omega

theorem shortestForm_span {span : Span} (hs : span.start < 2 ^ 64) (ht : span.stop < 2 ^ 64)
    : ShortestForm readSpan (encodeSpan span) span :=
  shortestForm_record Span.mk (fun _ _ _ _ => Span.mk.inj) (by decide) (by decide)
    (shortestForm_nat hs) (shortestForm_nat ht)

theorem shortestForm_token {token : Token} (h : token.Fits)
    : ShortestForm readToken (encodeToken token) token :=
  shortestForm_record Token.mk (fun _ _ _ _ => Token.mk.inj) (by decide) (by decide)
    (shortestForm_str (h.value.trans (by decide))) (shortestForm_span h.start h.stop)

------------------------------------------------------------
-- Values

theorem ShortestForm.map {α β : Type} {read : Reader α} {bytes : List UInt8} {element : α}
    (wrap : α → β) (hw : Function.Injective wrap) (h : ShortestForm read bytes element)
    : ShortestForm (fun input => (read input).map (fun (element, rest) => (wrap element, rest)))
        bytes (wrap element) := by
  constructor
  · intro rest
    simp only [h.reads, Option.map_some]
  · intro input rest hread
    obtain ⟨⟨other, _⟩, hother, heq⟩ := Option.map_eq_some_iff.mp hread
    cases hw (congrArg Prod.fst heq)
    cases congrArg Prod.snd heq
    exact h.shortest hother

theorem shortestForm_int64 (number : Int64)
    : ShortestForm readInt64 (encodeInt number.toInt) number := by
  have hint : ShortestForm readInt (encodeInt number.toInt) number.toInt :=
    shortestForm_int number.le_toInt (number.toInt_lt.trans (by decide))
  constructor
  · intro rest
    simp only [readInt64, hint.reads, Option.bind_eq_bind, Option.bind_some, Int64.ofInt_toInt,
      if_pos]
    rfl
  · intro input rest hread
    simp only [readInt64, Option.bind_eq_bind, Option.bind_eq_some_iff, Prod.exists] at hread
    obtain ⟨other, behind, hother, hread⟩ := hread
    split_ifs at hread with heq
    cases hread
    rw [heq] at hint ⊢
    exact hint.shortest hother

/-- The name of the field that holds a value. -/
def fieldName : Value → String
  | .str _ => "Str"
  | .int _ => "Int"
  | .float _ => "Float"
  | .bool _ => "Bool"

/-- The bytes behind the name of the field. -/
def encodeField : Value → List UInt8
  | .str text => encodeStr text
  | .int number => encodeInt number.toInt
  | .float number => encodeFloat number
  | .bool truth => encodeBool truth

/-- Reads the bytes behind a name. -/
def readField (name : String) : Reader Value :=
  fun rest =>
    if name = "Str" then (readStr rest).map (fun (text, rest) => (.str text, rest))
    else if name = "Int" then (readInt64 rest).map (fun (number, rest) => (.int number, rest))
    else if name = "Float" then (readFloat rest).map (fun (number, rest) => (.float number, rest))
    else if name = "Bool" then (readBool rest).map (fun (truth, rest) => (.bool truth, rest))
    else none

theorem encodeValue_eq (value : Value)
    : encodeValue value
      = encodeRecordHead 1 ++ (encodeStr (fieldName value) ++ encodeField value) := by
  cases value <;> rfl

theorem readValue_eq (bytes : List UInt8)
    : readValue bytes
      = (do
          let ((), rest) ← readRecordHead 1 bytes
          let (name, rest) ← readStr rest
          readField name rest) :=
  rfl

/-- Only the name that belongs to a value lets it be read. -/
theorem name_of_readField {name : String} {value : Value} {input rest : List UInt8}
    (h : readField name input = some (value, rest))
    : name = fieldName value := by
  unfold readField at h
  split_ifs at h <;>
    · obtain ⟨_, _, heq⟩ := Option.map_eq_some_iff.mp h
      cases heq
      assumption

theorem shortestForm_field {value : Value} (h : value.Fits)
    : ShortestForm (readField (fieldName value)) (encodeField value) value := by
  cases value with
  | str text =>
      exact (shortestForm_str (h.trans (by decide))).map Value.str (fun _ _ => Value.str.inj)
  | int number => exact (shortestForm_int64 number).map Value.int (fun _ _ => Value.int.inj)
  | float number => exact (shortestForm_float number).map Value.float (fun _ _ => Value.float.inj)
  | bool truth => exact (shortestForm_bool truth).map Value.bool (fun _ _ => Value.bool.inj)

theorem shortestForm_value {value : Value} (h : value.Fits)
    : ShortestForm readValue (encodeValue value) value := by
  have hhead := shortestForm_recordHead (show 1 < 0x10 by decide)
  have hname : ShortestForm readStr (encodeStr (fieldName value)) (fieldName value) := by
    apply shortestForm_str
    cases value <;> dsimp only [fieldName] <;> decide
  have hfield := shortestForm_field h
  constructor
  · intro rest
    simp only [readValue_eq, encodeValue_eq, List.append_assoc, hhead.reads, hname.reads,
      hfield.reads, Option.bind_eq_bind, Option.bind_some]
  · intro input rest hread
    simp only [readValue_eq, Option.bind_eq_bind, Option.bind_eq_some_iff, Prod.exists] at hread
    obtain ⟨_, _, h1, name, _, h2, h3⟩ := hread
    -- Any name could stand there, but only one lets this value be read behind it.
    cases name_of_readField h3
    have := hhead.shortest h1
    have := hname.shortest h2
    have := hfield.shortest h3
    simp only [encodeValue_eq, List.length_append]
    omega

/-- A value that fits equals itself, as does a list of such values. -/
theorem beq_self_of_fits {value : Value} (h : value.Fits) : (value == value) = true := by
  cases value with
  | str text => exact beq_self_eq_true text
  | int number => exact beq_self_eq_true number
  | float number => exact beq_self_of_isNaN h
  | bool truth => exact beq_self_eq_true truth

theorem list_beq_self_of_fits {values : List Value} (h : ∀ value ∈ values, value.Fits)
    : (values == values) = true := by
  induction values with
  | nil => rfl
  | cons value values ih =>
      rw [List.cons_beq_cons, beq_self_of_fits (h value List.mem_cons_self),
        ih (fun other hm => h other (List.mem_cons_of_mem _ hm))]
      rfl

------------------------------------------------------------
-- Messages

section Messages

variable {α : Type} {read : Reader α} {encode : α → List UInt8} {fits : α → Prop}
  {elements : List α}

/-- The lists that may be sent: fewer than 65536 elements, each of which fits. -/
def messages (fits : α → Prop) : Set (List α) :=
  {elements | elements.length < 65536 ∧ ∀ element ∈ elements, fits element}

theorem shortestForm_message
    (hform : ∀ {element}, fits element → ShortestForm read (encode element) element)
    (h : elements ∈ messages fits)
    : ShortestForm (readList read) (encodeList encode elements) elements :=
  shortestForm_list (h.1.trans (by decide)) (fun element hm => hform (h.2 element hm))

theorem decodeList_eq_some_iff {bytes : List UInt8}
    : decodeList read bytes = some elements ↔ readList read bytes = some (elements, []) := by
  unfold decodeList
  constructor
  · intro h
    split at h
    · rename_i hread
      cases h
      exact hread
    · cases h
  · intro h
    rw [h]

theorem ShortestForm.readList_eq
    (h : ShortestForm (readList read) (encodeList encode elements) elements)
    : readList read (encodeList encode elements) = some (elements, []) := by
  simpa using h.reads []

theorem ShortestForm.length_le
    (h : ShortestForm (readList read) (encodeList encode elements) elements) (bytes : List UInt8)
    (hd : decodeList read bytes = some elements)
    : (encodeList encode elements).length ≤ bytes.length := by
  have := h.shortest (decodeList_eq_some_iff.mp hd)
  simpa using this

/-- What is read back tells lists apart. -/
theorem injOn_of_readList
    (h : ∀ elements ∈ messages fits,
      readList read (encodeList encode elements) = some (elements, []))
    : Set.InjOn (encodeList encode) (messages fits) := by
  intro left hl right hr heq
  have hread := h left hl
  rw [heq, h right hr] at hread
  cases hread
  rfl

end Messages

/-- Lists of tokens and of values are read back from their bytes, which reading takes to the last,
and from no fewer bytes. Values that are read back also compare equal to those that were written.
So different lists have different bytes.
-/
theorem messages_read_back
    : (∀ tokens ∈ messages Token.Fits,
        readList readToken (encodeTokens tokens) = some (tokens, [])
        ∧ decodeTokens (encodeTokens tokens) = some tokens
        ∧ ∀ bytes, decodeTokens bytes = some tokens
            → (encodeTokens tokens).length ≤ bytes.length)
      ∧ Set.InjOn encodeTokens (messages Token.Fits)
      ∧ (∀ values ∈ messages Value.Fits,
        readList readValue (encodeValues values) = some (values, [])
        ∧ decodeValues (encodeValues values) = some values
        ∧ (decodeValues (encodeValues values) == some values) = true
        ∧ ∀ bytes, decodeValues bytes = some values
            → (encodeValues values).length ≤ bytes.length)
      ∧ Set.InjOn encodeValues (messages Value.Fits) := by
  have htokens (tokens : List Token) (h : tokens ∈ messages Token.Fits)
      : ShortestForm (readList readToken) (encodeTokens tokens) tokens :=
    shortestForm_message shortestForm_token h
  have hvalues (values : List Value) (h : values ∈ messages Value.Fits)
      : ShortestForm (readList readValue) (encodeValues values) values :=
    shortestForm_message shortestForm_value h
  refine ⟨?_, ?_, ?_, ?_⟩
  · intro tokens h
    have hread := (htokens tokens h).readList_eq
    exact ⟨hread, decodeList_eq_some_iff.mpr hread, (htokens tokens h).length_le⟩
  · exact injOn_of_readList (fun tokens h => (htokens tokens h).readList_eq)
  · intro values h
    have hread := (hvalues values h).readList_eq
    have hdecode : decodeValues (encodeValues values) = some values :=
      decodeList_eq_some_iff.mpr hread
    refine ⟨hread, hdecode, ?_, (hvalues values h).length_le⟩
    rw [hdecode]
    exact list_beq_self_of_fits h.2
  · exact injOn_of_readList (fun values h => (hvalues values h).readList_eq)

/-- The theorem on offsets and integers at the ends of their ranges, a text of several bytes a
character and a number below zero.
-/
theorem messages_read_back_ends
    : decodeTokens (encodeTokens [⟨"go", ⟨0, 127⟩⟩, ⟨"né", ⟨128, 18446744073709551615⟩⟩])
        = some [⟨"go", ⟨0, 127⟩⟩, ⟨"né", ⟨128, 18446744073709551615⟩⟩]
      ∧ decodeValues (encodeValues [.str "né", .int (-9223372036854775808), .float (-0.5)])
        = some [.str "né", .int (-9223372036854775808), .float (-0.5)]
      ∧ encodeValues [.bool true] ≠ encodeValues [.int 1] := by
  have htokens : [⟨"go", ⟨0, 127⟩⟩, ⟨"né", ⟨128, 18446744073709551615⟩⟩] ∈ messages Token.Fits := by
    refine ⟨by decide, ?_⟩
    simp only [List.forall_mem_cons]
    exact ⟨⟨by decide, by decide, by decide⟩, ⟨by decide, by decide, by decide⟩, by simp⟩
  have hvalues : [.str "né", .int (-9223372036854775808), .float (-0.5)] ∈ messages Value.Fits := by
    refine ⟨by decide, ?_⟩
    simp only [List.forall_mem_cons]
    exact ⟨show "né".utf8ByteSize < 65536 by decide, trivial,
      show (-0.5 : Float).isNaN = false by decide, by simp⟩
  have hbool : [.bool true] ∈ messages Value.Fits := ⟨by decide, by simp [Value.Fits]⟩
  have hint : [.int 1] ∈ messages Value.Fits := ⟨by decide, by simp [Value.Fits]⟩
  refine ⟨(messages_read_back.1 _ htokens).2.1, (messages_read_back.2.2.1 _ hvalues).2.1, ?_⟩
  intro heq
  cases messages_read_back.2.2.2 hbool hint heq

end Wire

end CallGrammar

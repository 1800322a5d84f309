import CallGrammar.Token
import CallGrammar.Value
import CallGrammar.Wire.Scalar

/-! Lists of tokens and of values as MessagePack bytes. -/

namespace CallGrammar.Wire

/-- Reads a text that must be the given one. -/
def readKey (key : String) : Reader Unit :=
  fun bytes => do
    let (text, rest) ← readStr bytes
    if text = key then return ((), rest) else none

------------------------------------------------------------
-- Lists

/-- A list behind its length. -/
def encodeList {α : Type} (encode : α → List UInt8) (elements : List α) : List UInt8 :=
  encodeListHead elements.length ++ elements.flatMap encode

/-- Reads a given number of elements. -/
def readMany {α : Type} (read : Reader α) : Nat → Reader (List α)
  | 0, bytes => some ([], bytes)
  | count + 1, bytes => do
      let (element, rest) ← read bytes
      let (elements, rest) ← readMany read count rest
      return (element :: elements, rest)

/-- Reads a list. -/
def readList {α : Type} (read : Reader α) : Reader (List α) :=
  fun bytes => do
    let (length, rest) ← readListHead bytes
    readMany read length rest

/-- Reads a list that must take all bytes. -/
def decodeList {α : Type} (read : Reader α) (bytes : List UInt8) : Option (List α) :=
  match readList read bytes with
  | some (elements, []) => some elements
  | _ => none

------------------------------------------------------------
-- Tokens

/-- A record of the two ends of a span. -/
def encodeSpan (span : Span) : List UInt8 :=
  encodeRecordHead 2
    ++ encodeStr "start" ++ encodeNat span.start
    ++ encodeStr "end" ++ encodeNat span.stop

def readSpan : Reader Span :=
  fun bytes => do
    let ((), rest) ← readRecordHead 2 bytes
    let ((), rest) ← readKey "start" rest
    let (start, rest) ← readNat rest
    let ((), rest) ← readKey "end" rest
    let (stop, rest) ← readNat rest
    return (⟨start, stop⟩, rest)

/-- A record of a token's value and span. -/
def encodeToken (token : Token) : List UInt8 :=
  encodeRecordHead 2
    ++ encodeStr "value" ++ encodeStr token.value
    ++ encodeStr "span" ++ encodeSpan token.span

def readToken : Reader Token :=
  fun bytes => do
    let ((), rest) ← readRecordHead 2 bytes
    let ((), rest) ← readKey "value" rest
    let (value, rest) ← readStr rest
    let ((), rest) ← readKey "span" rest
    let (span, rest) ← readSpan rest
    return (⟨value, span⟩, rest)

/-- The bytes of a list of tokens. -/
def encodeTokens (tokens : List Token) : List UInt8 :=
  encodeList encodeToken tokens

def decodeTokens (bytes : List UInt8) : Option (List Token) :=
  decodeList readToken bytes

------------------------------------------------------------
-- Values

/-- A record of one field, which tells the type of the value. -/
def encodeValue (value : Value) : List UInt8 :=
  encodeRecordHead 1
    ++ match value with
      | .str text => encodeStr "Str" ++ encodeStr text
      | .int number => encodeStr "Int" ++ encodeInt number.toInt
      | .float number => encodeStr "Float" ++ encodeFloat number
      | .bool truth => encodeStr "Bool" ++ encodeBool truth

/-- Reads an integer that must fit in 64 bits with sign. -/
def readInt64 : Reader Int64 :=
  fun bytes => do
    let (number, rest) ← readInt bytes
    if (Int64.ofInt number).toInt = number then return (Int64.ofInt number, rest) else none

def readValue : Reader Value :=
  fun bytes => do
    let ((), rest) ← readRecordHead 1 bytes
    let (key, rest) ← readStr rest
    if key = "Str" then (readStr rest).map (fun (text, rest) => (.str text, rest))
    else if key = "Int" then (readInt64 rest).map (fun (number, rest) => (.int number, rest))
    else if key = "Float" then (readFloat rest).map (fun (number, rest) => (.float number, rest))
    else if key = "Bool" then (readBool rest).map (fun (truth, rest) => (.bool truth, rest))
    else none

/-- The bytes of a list of values. -/
def encodeValues (values : List Value) : List UInt8 :=
  encodeList encodeValue values

def decodeValues (bytes : List UInt8) : Option (List Value) :=
  decodeList readValue bytes

end CallGrammar.Wire

import CallGrammar.Decimal.Reading
import CallGrammar.Fault
import CallGrammar.NameMap
import CallGrammar.Text.Lowercase
import CallGrammar.Value

/-! Argument types: named ways to turn the text of an argument into a value. -/

namespace CallGrammar

/-- A coercion turns a text into a value or rejects it with a message. -/
abbrev Coercion :=
  String → Except String Value

------------------------------------------------------------
-- Built-in coercions

namespace Coercion

/-- Any text, as it is. -/
def str : Coercion :=
  fun raw => .ok (.str raw)

/-- A 64-bit integer in decimal, blanks around it ignored. -/
def int : Coercion :=
  fun raw =>
    match Decimal.readInteger (Text.trim raw.toList) with
    | .ok number => .ok (.int number)
    | .error e => .error ("invalid integer " ++ Text.quoted raw ++ ": " ++ e.message)

/-- A floating-point number, blanks around it ignored. -/
def float : Coercion :=
  fun raw =>
    match Decimal.readNumber (Text.trim raw.toList) with
    | .ok number => .ok (.float number)
    | .error e => .error ("invalid number " ++ Text.quoted raw ++ ": " ++ e.message)

/-- The words that mean yes. -/
def trueWords : List String :=
  ["y", "yes", "t", "true", "do", "ok", "sure", "alright"]

/-- The words that mean no. -/
def falseWords : List String :=
  ["n", "no", "f", "false", "dont"]

/-- Reads a truth value generously: a number is true unless it is zero, and several words in
any case are known.
-/
def looseBool (raw : String) : Except String Bool :=
  let trimmed := Text.trim raw.toList
  match Decimal.readNumber trimmed with
  | .ok number => .ok (number != 0.0)
  | .error _ =>
      let word := Text.lowercase (String.ofList trimmed)
      if trueWords.contains word then .ok true
      else if falseWords.contains word then .ok false
      else .error ("cannot interpret " ++ Text.quoted raw ++ " as a boolean")

/-- A truth value, read generously. -/
def bool : Coercion :=
  fun raw => (looseBool raw).map .bool

end Coercion

------------------------------------------------------------
-- Registries

/-- The types that parameters may name. -/
abbrev Types :=
  NameMap Coercion

/-- Why an argument has no value of a type. -/
inductive CoercionError where
  /-- The type does not exist. -/
  | undefinedType (name : String)
  /-- The type refuses the argument. -/
  | rejected (message : String)
deriving DecidableEq

/-- The wording of a coercion error. -/
def CoercionError.message : CoercionError → String
  | .undefinedType name => (Fault.undefinedType name).message
  | .rejected message => message

namespace Types

/-- The types known without registration. -/
def builtin : Types :=
  .ofList [("str", .str), ("int", .int), ("float", .float), ("bool", .bool)]

/-- The value of an argument under a named type. -/
def coerce (types : Types) (typeName raw : String) : Except CoercionError Value :=
  match types.get? typeName with
  | none => .error (.undefinedType typeName)
  | some coercion =>
      match coercion raw with
      | .ok value => .ok value
      | .error message => .error (.rejected message)

/-- The names of the types between braces, quoted. -/
def summary (types : Types) : String :=
  "\x7b" ++ String.intercalate ", " (types.names.map Text.quoted) ++ "\x7d"

end Types

end CallGrammar

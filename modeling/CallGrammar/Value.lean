import CallGrammar.Decimal.Text

/-! Values: what arguments and groups of a call are bound to. -/

namespace CallGrammar

/-- A bound value. Comparing two values with `==` compares numbers as numbers, so that a value
that is no number differs from itself.
-/
inductive Value where
  | str (text : String)
  | int (number : Int64)
  | float (number : Float)
  | bool (truth : Bool)
deriving BEq

namespace Value

/-- The name of the type a value belongs to. -/
def typeName : Value → String
  | .str _ => "str"
  | .int _ => "int"
  | .float _ => "float"
  | .bool _ => "bool"

def str? : Value → Option String
  | .str text => some text
  | _ => none

def int? : Value → Option Int64
  | .int number => some number
  | _ => none

/-- The value as a floating-point number; integers are rounded to the nearest one. -/
def float? : Value → Option Float
  | .int number => some number.toFloat
  | .float number => some number
  | _ => none

def bool? : Value → Option Bool
  | .bool truth => some truth
  | _ => none

/-- The plain text of a value. -/
def text : Value → String
  | .str text => text
  | .int number => toString number.toInt
  | .float number => Decimal.text number
  | .bool truth => if truth then "true" else "false"

end Value

end CallGrammar

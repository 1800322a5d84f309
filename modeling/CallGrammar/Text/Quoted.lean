import CallGrammar.Text.Classes

/-! The quoted form in which messages show a text: one line, every character visible. -/

namespace CallGrammar.Text

/-- A code point in lowercase hexadecimal between braces. -/
def escapedCode (c : Char) : String :=
  "\\u\x7b" ++ String.ofList (Nat.toDigits 16 c.toNat) ++ "\x7d"

/-- How a character shows between two of the given marks: the mark itself, the backslash and
the common controls behind a backslash, anything else that does not print by its code.
-/
def escapedIn (mark c : Char) : String :=
  if c = '\t' then "\\t"
  else if c = '\r' then "\\r"
  else if c = '\n' then "\\n"
  else if c.toNat = 0 then "\\0"
  else if c = '\\' then "\\\\"
  else if c = mark then "\\" ++ mark.toString
  else if isPrintable c then c.toString
  else escapedCode c

/-- A text between double quotes. -/
def quoted (text : String) : String :=
  "\"" ++ String.join (text.toList.map (escapedIn '"')) ++ "\""

/-- A single character between single quotes. -/
def quotedChar (c : Char) : String :=
  "'" ++ escapedIn '\'' c ++ "'"

end CallGrammar.Text

import CallGrammar.Text.CharWidth

/-! How many columns a text takes on a terminal. Escape sequences take none. -/

namespace CallGrammar.Text

/-- Where a reader of a terminal text stands with respect to escape sequences. -/
inductive EscapeState where
  | outside
  /-- The escape character was just read. -/
  | opened
  /-- Inside a control sequence, which ends at a character from `@` to `~`. -/
  | control
  /-- Inside a command string, with whether its last character was an escape. -/
  | command (afterEscape : Bool)

/-- The state after one more character. -/
def EscapeState.next : EscapeState → Char → EscapeState
  | .outside, c => if c.toNat = 0x1B then .opened else .outside
  | .opened, c => if c = '[' then .control else if c = ']' then .command false else .outside
  | .control, c => if 0x40 ≤ c.toNat && c.toNat ≤ 0x7E then .outside else .control
  | .command afterEscape, c =>
      if c.toNat = 7 || (c = '\\' && afterEscape) then .outside
      else .command (c.toNat == 0x1B)

/-- The columns a character adds in a state, none if it belongs to an escape sequence. -/
def EscapeState.columns? : EscapeState → Char → Option Nat
  | .outside, c => if c.toNat = 0x1B then none else some (charWidth c)
  | _, _ => none

/-- Each character with the columns it adds. -/
def columns (state : EscapeState) : List Char → List (Char × Option Nat)
  | [] => []
  | c :: rest => (c, state.columns? c) :: columns (state.next c) rest

/-- The columns of a text. -/
def width (cs : List Char) : Nat :=
  (columns .outside cs).foldr (fun column total => column.2.getD 0 + total) 0

end CallGrammar.Text

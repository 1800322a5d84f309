import CallGrammar.Text.Slice

/-! Spans: stretches of a text given by the byte offsets of their ends. -/

namespace CallGrammar

/-- A span runs from the byte at `start` up to, not including, the byte at `stop`. -/
structure Span where
  start : Nat
  stop : Nat
deriving DecidableEq

namespace Span

/-- The number of bytes a span covers. -/
def length (span : Span) : Nat :=
  span.stop - span.start

/-- A span is empty if its ends meet. -/
def isEmpty (span : Span) : Bool :=
  span.start == span.stop

/-- The span from the start of one span to the end of another. -/
def upTo (first last : Span) : Span :=
  ⟨first.start, last.stop⟩

/-- The empty span at an offset. -/
def point (offset : Nat) : Span :=
  ⟨offset, offset⟩

/-- The characters a span covers, or none if an end lies outside the text or inside a
character, or the ends are out of order.
-/
def text? (span : Span) (source : List Char) : Option (List Char) :=
  if span.start ≤ span.stop then
    (Text.dropBytes? span.start source).bind (Text.takeBytes? span.length)
  else
    none

/-- The text a span covers, empty where the span does not fit the source. -/
def text (span : Span) (source : String) : String :=
  String.ofList ((span.text? source.toList).getD [])

end Span

end CallGrammar

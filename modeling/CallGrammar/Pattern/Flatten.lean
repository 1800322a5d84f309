import CallGrammar.Pattern.Basic

/-! Removing nesting from patterns that changes nothing about the calls they accept. -/

namespace CallGrammar.Pattern

/-- What a pattern contributes to a sequence around it: a sequence its parts, anything else
itself.
-/
def spliced : Pattern → List Pattern
  | .sequence children => children
  | p => [p]

/-- The sequence of some patterns, or the pattern alone if there is one. -/
def ofSequence : List Pattern → Pattern
  | [p] => p
  | ps => .sequence ps

mutual

/-- A pattern without sequences of one part, sequences inside sequences, and choices without
identifier that have one alternative.
-/
def flattened : Pattern → Pattern
  | .literal text caseSensitive => .literal text caseSensitive
  | .parameter name typeName => .parameter name typeName
  | .tail name => .tail name
  | .optional identifier inner => .optional identifier inner.flattened
  | .variant none _ [alternative] => alternative.flattened
  | .variant identifier parenthesized alternatives =>
      .variant identifier parenthesized (flattenedAll alternatives)
  | .sequence children => ofSequence ((flattenedAll children).flatMap spliced)

/-- Flattens every pattern of a list. -/
def flattenedAll : List Pattern → List Pattern
  | [] => []
  | p :: rest => p.flattened :: flattenedAll rest

end

end CallGrammar.Pattern

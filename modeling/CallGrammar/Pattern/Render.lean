import CallGrammar.Pattern.Basic

/-! The text of a pattern, as a definition that describes it. -/

namespace CallGrammar.Pattern

/-- Where a pattern is written, which decides whether it needs parentheses. -/
inductive Place where
  /-- Alone in a definition. -/
  | root
  /-- Alone inside brackets. -/
  | bracket
  /-- As an alternative of a choice. -/
  | alternative
  /-- Beside others in a sequence. -/
  | inner
deriving DecidableEq

/-- At the top of a definition or of brackets a pattern needs no parentheses of its own. -/
def Place.isTop : Place → Bool
  | .root | .bracket => true
  | .alternative | .inner => false

/-- An identifier written behind its group. -/
def suffixText : Option String → String
  | some identifier => ":" ++ identifier
  | none => ""

/-- The identifier written behind the brackets of an optional group: a choice written without
parentheses lends its own.
-/
def bracketIdentifier (identifier : Option String) : Pattern → Option String
  | .variant own false _ => own
  | _ => identifier

/-- A sequence directly inside a sequence keeps its parentheses. -/
def loneChildPlace (place : Place) : Pattern → Place
  | .sequence _ => .inner
  | _ => place

mutual

/-- The text of a pattern at a place. -/
def renderAt (place : Place) : Pattern → String
  | .literal text caseSensitive => text ++ if caseSensitive then "" else "^"
  | .parameter name (some typeName) => "<" ++ name ++ ": " ++ typeName ++ ">"
  | .parameter name none => "<" ++ name ++ ">"
  | .tail name => "<" ++ name ++ "...>"
  | .optional identifier inner =>
      "[" ++ inner.renderAt .bracket ++ "]" ++ suffixText (bracketIdentifier identifier inner)
  | .variant identifier parenthesized alternatives =>
      let text := String.intercalate "|" (renderAllAt .alternative alternatives)
      if !parenthesized && place.isTop then text else "(" ++ text ++ ")" ++ suffixText identifier
  | .sequence [child] =>
      if place.isTop then child.renderAt (loneChildPlace place child)
      else if place = .inner then "(" ++ child.renderAt .inner ++ ")"
      else child.renderAt .inner
  | .sequence children =>
      let text := String.intercalate " " (renderAllAt .inner children)
      if place = .inner then "(" ++ text ++ ")" else text

/-- The texts of patterns that stand at the same kind of place. -/
def renderAllAt (place : Place) : List Pattern → List String
  | [] => []
  | p :: rest => p.renderAt place :: renderAllAt place rest

end

/-- The definition text of a pattern. -/
def render (p : Pattern) : String :=
  p.renderAt .root

end CallGrammar.Pattern

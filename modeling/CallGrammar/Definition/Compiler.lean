import CallGrammar.Definition.Draft
import CallGrammar.Event
import CallGrammar.Pattern.Flatten
import CallGrammar.Pattern.Render

/-! Compilers: from the text of a definition to the pattern that calls are matched against. -/

namespace CallGrammar.Definition

/-- What to do about nesting that can be removed. -/
inductive Simplify where
  /-- Keep the pattern exactly as written. -/
  | no
  /-- Keep nesting, and tell that it could be removed. -/
  | warn
  /-- Remove nesting, and tell so. -/
  | yes
  /-- Remove nesting without a word. -/
  | silently
deriving DecidableEq

/-- How definitions are compiled. -/
structure Compiler where
  simplify : Simplify
  ignoreCase : Bool
deriving DecidableEq

namespace Compiler

/-- The standard compiler keeps nesting but tells about it, and respects case. -/
def standard : Compiler :=
  ⟨.warn, false⟩

/-- The only part of a sequence of one part, or the pattern itself. -/
def unwrapped : Pattern → Pattern
  | .sequence [p] => p
  | p => p

/-- Treats nesting as a mode demands. -/
def simplified : Simplify → Pattern → Pattern
  | .no, p => p
  | .warn, p => unwrapped p
  | .yes, p => (unwrapped p).flattened
  | .silently, p => (unwrapped p).flattened

/-- Compiles a definition. -/
def compile (compiler : Compiler) (definition : String) : Except Malformed Pattern :=
  (parse compiler.ignoreCase definition).map (simplified compiler.simplify)

/-- The words in which a mode tells that nesting can be or was removed. -/
def notice? : Simplify → Option String
  | .warn => some "syntax can be simplified"
  | .yes => some "syntax simplified"
  | .no | .silently => none

/-- What compiling a definition tells a log: a pattern with removable nesting, if the mode says
so.
-/
def events (compiler : Compiler) (definition : String) : List Event :=
  match parse compiler.ignoreCase definition, notice? compiler.simplify with
  | .ok root, some message =>
      let p := unwrapped root
      if p = p.flattened then []
      else [⟨.info, message, [("syntax", p.render), ("simplified", p.flattened.render)]⟩]
  | _, _ => []

end Compiler

end CallGrammar.Definition

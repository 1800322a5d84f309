import CallGrammar.Matching.Best
import CallGrammar.Text.Wrap

/-! Commands: patterns with something to do when a call matches. -/

namespace CallGrammar

/-- A pattern and what to do with a matching call. -/
structure Command (σ ρ : Type) where
  pattern : Pattern
  callback : Outcome σ → ρ
  description : Option String
  /-- The matcher for this command alone, instead of the dispatcher's. -/
  matcher : Option Matcher

/-- How usage help is laid out. -/
structure UsageOptions where
  /-- The columns of a line, or zero for no limit. -/
  maxWidth : Nat
  /-- The spaces in front of a description. -/
  indentWidth : Nat
  /-- A line put between commands. -/
  separator : Option String
deriving DecidableEq

/-- Seventy columns, descriptions four spaces in, nothing between commands. -/
def UsageOptions.standard : UsageOptions :=
  ⟨70, 4, none⟩

namespace Command

variable {σ ρ : Type}

/-- Runs the command on a matched call. -/
def execute (command : Command σ ρ) (outcome : Outcome σ) : ρ :=
  command.callback outcome

/-- The help for a command: its pattern, then its description further in. -/
def usageLines (command : Command σ ρ) (options : UsageOptions) : List String :=
  Text.wrap options.maxWidth 0 command.pattern.render
    ++ match command.description with
      | some description => Text.wrap options.maxWidth options.indentWidth description
      | none => []

/-- An optional detail of a summary. -/
def optionSummary : Option String → String
  | some text => "Some(" ++ text ++ ")"
  | none => "None"

/-- The command on one line, without its callback. -/
def summary (command : Command σ ρ) : String :=
  "Command \x7b syntax: " ++ Text.quoted command.pattern.render
    ++ ", description: " ++ optionSummary (command.description.map Text.quoted)
    ++ ", matcher: " ++ optionSummary (command.matcher.map Matcher.summary) ++ ", .. \x7d"

end Command

end CallGrammar

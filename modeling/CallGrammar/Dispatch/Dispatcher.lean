import CallGrammar.Definition.Compiler
import CallGrammar.Dispatch.Command

/-! Dispatchers: sets of commands of which the best match of a call is run. Where no command
matches, the one that got furthest tells why, unless none matched anything.
-/

namespace CallGrammar

/-- Commands, with the compiler and the matcher for those that bring none of their own. -/
structure Dispatcher (σ ρ : Type) where
  commands : List (Command σ ρ)
  compiler : Definition.Compiler
  matcher : Matcher

/-- Why no command ran. -/
inductive DispatchError (σ : Type) where
  | mismatch (reason : Mismatch σ)
  | unknownCommand
  | fault (fault : Fault)

/-- A command whose pattern matched. -/
structure Match (σ ρ : Type) where
  index : Nat
  command : Command σ ρ
  outcome : Outcome σ

/-- What trying commands in turn has found so far. -/
structure Standing (σ ρ : Type) where
  /-- The tokens of the call under the dispatcher's matcher, once a command needed them. -/
  shared : Option (List Token)
  best : Option (Match σ ρ)
  furthest : Option (Rejection σ)

namespace Standing

variable {σ ρ : Type} [Scale σ]

/-- No command was tried. -/
def start : Standing σ ρ :=
  ⟨none, none, none⟩

/-- Takes note of an attempt of a command; what was there before wins ties. -/
def note (standing : Standing σ ρ) (index : Nat) (command : Command σ ρ)
    : Attempt σ → Standing σ ρ
  | .ok outcome =>
      if standing.best.all (fun best => outcome.score > best.outcome.score) then
        { standing with best := some ⟨index, command, outcome⟩ }
      else standing
  | .error rejection =>
      if standing.furthest.all (fun furthest => rejection.progress > furthest.progress) then
        { standing with furthest := some rejection }
      else standing

end Standing

namespace Dispatcher

variable {σ ρ : Type} [Scale σ]

------------------------------------------------------------
-- Commands

/-- A dispatcher without commands. -/
def ofMatcher (compiler : Definition.Compiler) (matcher : Matcher) : Dispatcher σ ρ :=
  ⟨[], compiler, matcher⟩

/-- Adds a command after the others. -/
def register (d : Dispatcher σ ρ) (command : Command σ ρ) : Dispatcher σ ρ :=
  { d with commands := d.commands ++ [command] }

/-- Compiles a definition and adds the command made of its pattern. -/
def command (d : Dispatcher σ ρ) (definition : String) (make : Pattern → Command σ ρ)
    : Except Definition.Malformed (Dispatcher σ ρ) :=
  (d.compiler.compile definition).map (fun pattern => d.register (make pattern))

------------------------------------------------------------
-- Dispatch

/-- Tries a command. Commands without a matcher of their own share the tokens of the call,
which are read when the first of them needs them.
-/
def tryCommand (d : Dispatcher σ ρ) (raw : String) (index : Nat) (command : Command σ ρ)
    (standing : Standing σ ρ) : Except Fault (Attempt σ × Standing σ ρ) :=
  match command.matcher, standing.shared with
  | some own, _ =>
      (own.tokenize raw).bind (fun tokens =>
        (own.attempt index command.pattern tokens raw).map (·, standing))
  | none, some tokens =>
      (d.matcher.attempt index command.pattern tokens raw).map (·, standing)
  | none, none =>
      (d.matcher.tokenize raw).bind (fun tokens =>
        (d.matcher.attempt index command.pattern tokens raw).map
          (·, { standing with shared := some tokens }))

/-- Tries commands in turn up to the first fault, with what each attempt tells a log. -/
def survey (d : Dispatcher σ ρ) (raw : String) (index : Nat) (standing : Standing σ ρ)
    : List (Command σ ρ) → List Event × Except Fault (Standing σ ρ)
  | [] => ([], .ok standing)
  | command :: rest =>
      match d.tryCommand raw index command standing with
      | .error fault => ([], .error fault)
      | .ok (attempt, standing) =>
          let standing := standing.note index command attempt
          let (events, result) := d.survey raw (index + 1) standing rest
          (Matcher.attemptEvent "command" index attempt :: events, result)

/-- The match to run. -/
def select (d : Dispatcher σ ρ) (raw : String) : Except (DispatchError σ) (Match σ ρ) :=
  match (d.survey raw 0 .start d.commands).2 with
  | .error fault => .error (.fault fault)
  | .ok ⟨_, some best, _⟩ => .ok best
  | .ok ⟨_, none, some rejection⟩ =>
      if rejection.progress > 0 then .error (.mismatch rejection.reason)
      else .error .unknownCommand
  | .ok ⟨_, none, none⟩ => .error .unknownCommand

/-- Runs the command that matches a call best. -/
def dispatch (d : Dispatcher σ ρ) (raw : String) : Except (DispatchError σ) ρ :=
  (d.select raw).map (fun best => best.command.execute best.outcome)

/-- What dispatching a call tells a log: every attempt, then the command about to run. -/
def dispatchEvents (d : Dispatcher σ ρ) (raw : String) : List Event :=
  let (events, result) := d.survey raw 0 .start d.commands
  let running :=
    match result with
    | .ok ⟨_, some best, _⟩ => [⟨.debug, "dispatching", [("index", toString best.index)]⟩]
    | _ => []
  events ++ running

------------------------------------------------------------
-- Usage

/-- The help for commands, each but the very first after the separator. -/
def usageLines (d : Dispatcher σ ρ) (options : UsageOptions) : List String :=
  (d.commands.mapIdx (fun index command =>
    match command.usageLines options, options.separator with
    | [], _ => []
    | lines, some separator => if index > 0 then separator :: lines else lines
    | lines, none => lines)).flatten

end Dispatcher

end CallGrammar

import FlagLogic.Cli.Usage
import FlagLogic.Log
import FlagLogic.Value.Yaml

/-!
What a run of a command does: lines on two streams and events, in order, and how it ends.
-/

namespace FlagLogic.Cli

/-- Where a line goes: results, or what is said about them. -/
inductive Stream where
  | out
  | err
  deriving DecidableEq, Repr

/-- A line that is printed. -/
structure Line where
  stream : Stream
  text : String
  /-- The line is a page of help. -/
  isHelp : Bool := false
  deriving DecidableEq, Repr

/-- One thing that a command does. -/
inductive Act where
  | say (line : Line)
  | announce (event : Event)
  deriving DecidableEq, Repr

/-- What a command does, and the code that it ends with. -/
structure Outcome where
  acts : List Act
  code : Nat
  /-- The failure that ends the command and that nothing handles, if there is one. -/
  escaped : Option Yaml.Failure := none
  deriving DecidableEq, Repr

/-- A result line. -/
def Act.out (text : String) : Act := .say { stream := .out, text }

/-- A line about what went wrong. -/
def Act.err (text : String) : Act := .say { stream := .err, text }

/-- The line that an act comes to, given where the log goes. -/
def Act.line? (sink : Option Log.Sink) (clock : Log.Clock) : Act → Option Line
  | say line => some line
  | announce event =>
    (event.record.line? sink clock).map fun text => { stream := .err, text }

namespace Outcome

/-- The result lines. -/
def results (o : Outcome) : List String :=
  o.acts.filterMap fun
    | .say ⟨.out, text, _⟩ => some text
    | _ => none

/-- The lines about what went wrong, without the log. -/
def complaints (o : Outcome) : List String :=
  o.acts.filterMap fun
    | .say ⟨.err, text, _⟩ => some text
    | _ => none

/-- A page of help. -/
def help (c : Command) : Outcome := { acts := [.say ⟨.out, c.usage, true⟩], code := 0 }

/-- The end of a command that is used wrongly. -/
def misused (c : Command) (m : Misuse) : Outcome := { acts := [.err (m.report c)], code := 2 }

end Outcome

end FlagLogic.Cli

import ConsoleKit.Network
import ConsoleKit.Plan
import ConsoleKit.Rendering

/-!
# A run of the command

From arguments, environment and network to everything that can be seen of a run: exit code, both outputs,
which consoles it tried to reach, and what they received. A missing console is no failure of the run; a
missing command, an unreachable console and a failed exchange are. A reply that the console flags as failed
is printed and is no failure.

A run begins with arguments that are texts. A process that is given an argument which is no text, as the system
allows, ends before that, also if no console is configured; of this nothing is said here. Logging is left out.
-/

namespace ConsoleKit.CommandLine

/-- Everything that can be seen of a run. -/
structure Outcome where
  /-- The exit code. -/
  exitCode : Nat
  /-- What was written to standard output. -/
  stdout : Bytes := []
  /-- What was written to standard error, logging left aside. -/
  stderr : String := ""
  /-- The consoles to which a connection was attempted, in order. -/
  attempts : List Console := []
  /-- What the console received, if one was reached. -/
  received : Option Bytes := none
  deriving DecidableEq, Repr

/-- The line that reports why a run failed. -/
def errorLine (message : String) : String :=
  "Error: " ++ message ++ "\n"

/-- A run that failed without any output. -/
def Outcome.failed (message : String) : Outcome :=
  { exitCode := 1, stderr := errorLine message }

/-- Prints a reply to standard output, which takes everything. -/
def printReply (frame : Frame) : Outcome :=
  match frame.print {} with
  | (.ok (), writer) => { exitCode := 0, stdout := writer.written }
  | (.error text, writer) => { exitCode := 1, stdout := writer.written, stderr := errorLine text }

/-- Does what was planned. -/
def perform (network : Network) : Plan → Outcome
  | .noConsole message => { exitCode := 0, stdout := Text.Utf8.encodeString (message ++ "\n") }
  | .noCommand => .failed Plan.usageLine
  | .send console command =>
    let sent := console.send network command
    let outcome := match sent.result with
      | .ok frame => printReply frame
      | .error failure => .failed failure.toError.message
    { outcome with attempts := sent.attempts, received := sent.received }

/-- Does what was planned, or reports why nothing could be. -/
def carryOut (network : Network) : Except Error Plan → Outcome
  | .ok plan => perform network plan
  | .error error => .failed error.message

/-- A run with the given arguments, the program's name first. -/
def run (args : List String) (lookup : String → Option String) (network : Network) : Outcome :=
  let planned : Id (Except Error Plan) := Plan.make args (fun name => pure (lookup name))
  carryOut network planned.run

end ConsoleKit.CommandLine

import ConsoleKit.Console

/-!
# What a run is to do

The environment is looked at before the arguments: without a console there is nothing to do, whatever the
arguments are. Of the arguments only the first after the program's name matters.
-/

namespace ConsoleKit

/-- What a run is to do. -/
inductive Plan where
  /-- No console is configured: say so and end well. -/
  | noConsole (message : String)
  /-- No command was given. -/
  | noCommand
  /-- Send a command to a console. -/
  | send (console : Console) (command : String)
  deriving DecidableEq, Repr

namespace Plan

/-- The name under which the program is called. -/
def programName : String := "run-lua"

/-- The line shown when no command is given. -/
def usageLine : String := "usage: " ++ programName ++ " <command>"

/-- What to do with the given arguments, the program's name first, once the console is known, or an error is known
that was met on the way to it. A missing console is no failure of the run; any other error is passed on. -/
def ofConsole (args : List String) : Except Error Console → Except Error Plan
  | .error error => if error.kind = .missingEnv then .ok (.noConsole error.message) else .error error
  | .ok console =>
    match args[1]? with
    | none => .ok .noCommand
    | some command => .ok (.send console command)

/-- What to do with the given arguments, the program's name first, in the given environment. -/
def make {m : Type → Type} [Monad m] (args : List String) (lookup : String → m (Option String)) :
    m (Except Error Plan) := do
  return ofConsole args ((← Console.fromEnvironment lookup).mapError MissingVariable.toError)

/-- A lookup that keeps a record of the names it was asked for. -/
def recorded (lookup : String → Option String) (name : String) :
    StateM (List String) (Option String) := do
  modify (· ++ [name])
  return lookup name

/-- What to do, and the names that the environment was asked for, in order. -/
def makeRecorded (args : List String) (lookup : String → Option String) : Except Error Plan × List String :=
  (make args (recorded lookup)).run []

end Plan

end ConsoleKit

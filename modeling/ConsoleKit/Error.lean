import ConsoleKit.Text.Quoted

/-!
# Errors as they are shown

Each part of the library has failures of its own, told apart by their causes. At the boundary they are shown
as one of four kinds of error with a text. `Error.message` is what an operator reads, `Error.debug` is the
form that shows kind and text apart.
-/

namespace ConsoleKit

/-- The kinds of error that an operator can meet. -/
inductive ErrorKind where
  /-- A required environment variable is missing or empty. -/
  | missingEnv
  /-- The console could not be reached or talked to. -/
  | connection
  /-- A reply does not have the expected layout. -/
  | protocol
  /-- Staging of resources failed in the file system. -/
  | deploy
  deriving DecidableEq, Repr

/-- The name of a kind of error. -/
def ErrorKind.name : ErrorKind → String
  | .missingEnv => "MissingEnv"
  | .connection => "ConnectionError"
  | .protocol => "ProtocolError"
  | .deploy => "DeployError"

/-- The kind of error with the given name. -/
def ErrorKind.ofName? (name : String) : Option ErrorKind :=
  [.missingEnv, .connection, .protocol, .deploy].find? (·.name == name)

/-- An error as it is shown. -/
structure Error where
  /-- The kind of error. -/
  kind : ErrorKind
  /-- The variable that is missing, or what went wrong. -/
  text : String
  deriving DecidableEq, Repr

/-- What an operator reads. -/
def Error.message (error : Error) : String :=
  match error.kind with
  | .missingEnv => error.text ++ " is empty!"
  | .connection => "Connection error: " ++ error.text
  | .protocol => "Protocol error: " ++ error.text
  | .deploy => "Deploy error: " ++ error.text

/-- The kind of error, and its text in quotes. -/
def Error.debug (error : Error) : String :=
  error.kind.name ++ "(" ++ Text.Quoted.ofString error.text ++ ")"

end ConsoleKit

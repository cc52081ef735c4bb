import ConsoleKit.Error

/-!
# Where the console is

A console is reached at a host and a port. The host comes from one environment variable, which is looked up
once; a variable that is missing and one that is empty are treated alike. The lookup may be any effect, so
that what was asked can be observed.
-/

namespace ConsoleKit

/-- Where a console is reached. -/
structure Console where
  /-- Host name or address. Any text is accepted here. -/
  host : String
  /-- TCP port. -/
  port : UInt16
  deriving DecidableEq, Repr

/-- A required environment variable is missing or empty. -/
structure MissingVariable where
  /-- The name of the variable. -/
  name : String
  deriving DecidableEq, Repr

/-- A missing variable as it is shown. -/
def MissingVariable.toError (missing : MissingVariable) : Error :=
  ⟨.missingEnv, missing.name⟩

namespace Console

/-- The port on which consoles take commands. -/
def defaultPort : UInt16 := 6969

/-- The environment variable that holds the host. -/
def hostVariable : String := "IP"

/-- The console at a host, on the default port. -/
def ofHost (host : String) : Console :=
  ⟨host, defaultPort⟩

/-- The same host on another port. -/
def withPort (console : Console) (port : UInt16) : Console :=
  { console with port := port }

/-- Host and port in one text, separated by a colon. -/
def address (console : Console) : String :=
  console.host ++ ":" ++ toString console.port.toNat

/-- The console whose host is the value of the host variable. -/
def ofHostValue? : Option String → Except MissingVariable Console
  | none => .error ⟨hostVariable⟩
  | some host => if host.isEmpty then .error ⟨hostVariable⟩ else .ok (ofHost host)

/-- The console that the environment names. The host variable is looked up once, and no other. -/
def fromEnvironment {m : Type → Type} [Monad m] (lookup : String → m (Option String)) :
    m (Except MissingVariable Console) := do
  return ofHostValue? (← lookup hostVariable)

/-- The value of an environment variable as text. Bytes that are not UTF-8 count as no value. -/
def textValue? (value : Option Bytes) : Option String :=
  value.bind fun bytes => (Text.Utf8.decode? bytes).map String.ofList

end Console

end ConsoleKit

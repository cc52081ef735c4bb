import ConsoleKit.Console
import ConsoleKit.Exchange

/-!
# Reaching a console

A network says for each console what an attempt to connect comes to: a failure with a text, or a stream with
a behaviour. A client makes one attempt, and over the stream one exchange. The attempt may have any effect, so
that it can be observed how often and to which consoles a client connects (`request`); sending a command keeps a
record of this. The main statement is that there is one attempt, to the console in question, whatever it does
besides answering (`request_eq_map`). What was sent over which stream, and the record, follow from it
(`send_of_unreached`, `send_of_reached`).
-/

namespace ConsoleKit

/-- What an attempt to connect to a console comes to. -/
abbrev Network := Console → Except String Script

namespace Network

/-- A network in which every connection leads to a stream of the same behaviour. -/
def always (script : Script) : Network :=
  fun _ => .ok script

/-- The text of the failure on an address that cannot be handed to the system, because it has a NUL in it. -/
def nulInHost : String := "file name contained an unexpected NUL byte"

/-- The text of the failure where no route leads to an address. -/
def noRoute : String := "Network is unreachable (os error 101)"

/-- A network without a route to anywhere. -/
def unreachable : Network :=
  fun console => .error (if '\x00' ∈ console.host.toList then nulInHost else noRoute)

/-- A network that keeps a record of the consoles to which a connection was attempted. -/
def recorded (network : Network) (console : Console) : StateM (List Console) (Except String Script) := do
  modify (· ++ [console])
  return network console

end Network

namespace Console

/-- The ways of getting no reply from a console. -/
inductive Failure where
  /-- The console was not reached. -/
  | connect (console : Console) (text : String)
  /-- The console was reached, and the exchange failed. -/
  | exchange (failure : Exchange.Failure)
  deriving DecidableEq, Repr

/-- A failure to get a reply as it is shown. -/
def Failure.toError : Failure → Error
  | .connect console text => ⟨.connection, "connect to " ++ console.address ++ " failed: " ++ text⟩
  | .exchange failure => failure.toError

/-- What a request to a console came to. -/
structure Answer where
  /-- The reply, or why there is none. -/
  result : Except Failure Frame
  /-- The bytes that the console took, if it was reached. -/
  received : Option Bytes

/-- What a request comes to, once it is known what the attempt to connect came to. -/
def answer (console : Console) (command : String) : Except String Script → Answer
  | .error text => ⟨.error (.connect console text), none⟩
  | .ok script =>
    let transcript := Exchange.run command script
    ⟨transcript.result.mapError .exchange, some transcript.written⟩

/-- Sends one command: one attempt to connect, one exchange. -/
def request {m : Type → Type} [Monad m] (console : Console) (connect : Console → m (Except String Script))
    (command : String) : m Answer := do
  return console.answer command (← connect console)

/-- What sending a command came to, and the attempts to connect that were made for it. -/
structure Sent extends Answer where
  /-- The consoles to which a connection was attempted, in order. -/
  attempts : List Console

/-- Sends one command in a network, with a record of the attempts to connect. -/
def send (console : Console) (network : Network) (command : String) : Sent :=
  let (answer, attempts) := (console.request network.recorded command).run []
  { answer with attempts }

/-! ## One attempt -/

section

variable {console : Console} {network : Network} {text : String} {script : Script}

/-- One connection is attempted, to the console in question, whatever the attempt does besides answering. -/
theorem request_eq_map {m : Type → Type} [Monad m] [LawfulMonad m] (console : Console)
    (connect : Console → m (Except String Script)) (command : String) :
    console.request connect command = console.answer command <$> connect console := by
  simp only [request, bind_pure_comp]

theorem send_eq (console : Console) (network : Network) (command : String) :
    console.send network command = { console.answer command (network console) with attempts := [console] } := by
  unfold send
  rw [request_eq_map]
  rfl

theorem send_of_unreached (h : network console = .error text) (command : String) :
    console.send network command =
      { result := .error (.connect console text), received := none, attempts := [console] } := by
  rw [send_eq, h]
  rfl

theorem send_of_reached (h : network console = .ok script) (command : String) :
    console.send network command =
      { result := (Exchange.run command script).result.mapError .exchange
        received := some (Exchange.run command script).written
        attempts := [console] } := by
  rw [send_eq, h]
  rfl

end

end Console

end ConsoleKit

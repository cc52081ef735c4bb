import ConsoleKit.CommandLine
import Std.Async.DNS
import Std.Async.TCP

/-!
# The program

The outer layer: it reads arguments and environment, talks to the console, and writes the outputs. What it
writes is decided by `CommandLine.carryOut`. The conversation with the console is held first and handed over as the
script of what the stream did.
-/

namespace ConsoleKit

open Std.Async
open Std.Net

/-- Connects to the first of the addresses that can be reached. -/
def connectFirst (port : UInt16) : List IPAddr → IO TCP.Socket.Client
  | [] => throw (IO.userError "no address for the host")
  | address :: addresses => do
    let target := match address with
      | .v4 addr => SocketAddress.v4 ⟨addr, port⟩
      | .v6 addr => SocketAddress.v6 ⟨addr, port⟩
    try
      let client ← TCP.Socket.Client.mk
      (client.connect target).block
      return client
    catch error =>
      if addresses.isEmpty then throw error else connectFirst port addresses

/-- Holds one exchange over a connection, and tells what the stream did. -/
def converse (client : TCP.Socket.Client) (command : String) : IO Script := do
  try
    (client.send command.toUTF8).block
  catch error =>
    return { writes := [.fail error.toString false] }
  try
    match ← (client.recv? (UInt64.ofNat Frame.bufferSize)).block with
    | some data => return { reads := [.deliver data.toList] }
    | none => return {}
  catch error =>
    return { reads := [.fail error.toString false] }

/-- What the network did when a command was sent to a console. -/
def reach (console : Console) (command : String) : IO (Except String Script) := do
  try
    let addresses ← (DNS.getAddrInfo console.host (toString console.port.toNat)).block
    let client ← connectFirst console.port addresses.toList
    return .ok (← converse client command)
  catch error =>
    return .error error.toString

/-- The network that a run with the given plan meets. -/
def networkFor : Except Error Plan → IO Network
  | .ok (.send console command) => do
    let reached ← reach console command
    return fun _ => reached
  | _ => return Network.unreachable

end ConsoleKit

/-- Sends the first argument to the console named by the environment, and prints the reply. -/
def main (args : List String) : IO UInt32 := do
  let planned ← ConsoleKit.Plan.make (ConsoleKit.Plan.programName :: args) fun name => liftM (IO.getEnv name)
  let outcome := ConsoleKit.CommandLine.carryOut (← ConsoleKit.networkFor planned) planned
  let stdout ← IO.getStdout
  stdout.write ⟨outcome.stdout.toArray⟩
  stdout.flush
  (← IO.getStderr).putStr outcome.stderr
  return UInt32.ofNat outcome.exitCode

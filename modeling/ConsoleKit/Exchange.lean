import ConsoleKit.Frame

/-!
# One command, one reply

An exchange writes the bytes of a command to a stream, over as many calls as the stream makes of it, and then
reads once; what that read delivers is the reply. Nothing marks the end of a command or of a reply.

A stream is given by the script of its behaviour, one list of steps for writes and one for reads. Running an
exchange over a script yields a transcript: the outcome, the bytes the stream took, and its calls in order.
Writing is a recursion on the script. A stream whose script is used up takes everything that is offered and
delivers nothing.

That the command is written in full is left to a general routine, of which `sendAll` assumes what it promises: it
offers what is left after a call that took only a part, makes a call again that was interrupted, and gives up on
one that took nothing. Reading is one call, which is not made again. How long a stream makes its caller wait is left
out.
-/

namespace ConsoleKit

/-- What a stream does on a write. -/
inductive WriteStep where
  /-- Takes up to so many of the offered bytes. -/
  | accept (count : Nat)
  /-- Fails with a text. A failure that says the call was only interrupted leaves the stream usable. -/
  | fail (text : String) (interrupted : Bool)
  /-- Is not ready; the caller waits. -/
  | pending
  deriving DecidableEq, Repr

/-- What a stream does on a read. -/
inductive ReadStep where
  /-- Has these bytes; what does not fit into the reader's buffer is lost. -/
  | deliver (bytes : Bytes)
  /-- Fails with a text. -/
  | fail (text : String) (interrupted : Bool)
  /-- Is not ready; the caller waits. -/
  | pending
  deriving DecidableEq, Repr

/-- The behaviour of a stream. -/
structure Script where
  /-- What the writes do, in order. -/
  writes : List WriteStep := []
  /-- What the reads do, in order. -/
  reads : List ReadStep := []
  deriving DecidableEq, Repr

/-- A call that a stream answered. Waiting is no call. -/
inductive StreamCall where
  /-- A write: the bytes offered, and how many were taken unless it failed. -/
  | write (offered : Bytes) (taken : Option Nat)
  /-- A read: the size of the buffer, and how many bytes were delivered unless it failed. -/
  | read (room : Nat) (delivered : Option Nat)
  /-- A request to pass on what was taken. -/
  | flush
  /-- The end of what will be written. -/
  | shutdown
  deriving DecidableEq, Repr

namespace Exchange

/-- The ways an exchange fails on a stream, with the text of the stream's failure. -/
inductive Failure where
  /-- The command was not taken in full. -/
  | send (text : String)
  /-- No reply could be read. -/
  | receive (text : String)
  deriving DecidableEq, Repr

/-- A failed exchange as it is shown. -/
def Failure.toError : Failure → Error
  | .send text => ⟨.connection, "send failed: " ++ text⟩
  | .receive text => ⟨.connection, "recv failed: " ++ text⟩

/-- What became of the bytes that were to be written. -/
structure Sending where
  /-- The text of the failure that ended the writing early. -/
  failure : Option String
  /-- The bytes taken. -/
  taken : Bytes
  /-- The write calls. -/
  calls : List StreamCall
  deriving DecidableEq, Repr

/-- The text of the failure that a write of nothing amounts to. -/
def nothingTaken : String := "write zero"

/-- Writes all bytes. Each call offers what is left; an interrupted call is made again, a call that takes
nothing is a failure. No call is made once nothing is left. -/
def sendAll : Bytes → List WriteStep → Sending
  | [], _ => ⟨none, [], []⟩
  | left, [] => ⟨none, left, [.write left (some left.length)]⟩
  | left, .pending :: steps => sendAll left steps
  | left, .fail text interrupted :: steps =>
    if interrupted then
      let later := sendAll left steps
      { later with calls := .write left none :: later.calls }
    else
      ⟨some text, [], [.write left none]⟩
  | left, .accept count :: steps =>
    let taken := left.take count
    if taken.isEmpty then
      ⟨some nothingTaken, [], [.write left (some 0)]⟩
    else
      let later := sendAll (left.drop count) steps
      { later with
        taken := taken ++ later.taken
        calls := .write left (some taken.length) :: later.calls }

/-- What one read yields: the bytes delivered or the text of the failure, and the read call. -/
structure Receiving where
  /-- The bytes delivered, or why there are none. -/
  outcome : Except String Bytes
  /-- The read call. -/
  call : StreamCall

/-- Reads once, into a buffer of the size of a reply. -/
def receive : List ReadStep → Receiving
  | [] => ⟨.ok [], .read Frame.bufferSize (some 0)⟩
  | .pending :: steps => receive steps
  | .fail text _ :: _ => ⟨.error text, .read Frame.bufferSize none⟩
  | .deliver bytes :: _ =>
    let delivered := bytes.take Frame.bufferSize
    ⟨.ok delivered, .read Frame.bufferSize (some delivered.length)⟩

/-- What an exchange came to. -/
structure Transcript where
  /-- The decoded reply, or why there is none. -/
  result : Except Failure Frame
  /-- The bytes the stream took. -/
  written : Bytes
  /-- The calls on the stream, in order. -/
  calls : List StreamCall

/-- Writes the command, then reads one reply. Nothing is read unless the whole command was taken. -/
def run (command : String) (script : Script) : Transcript :=
  let sending := sendAll (Text.Utf8.encodeString command) script.writes
  match sending.failure with
  | some text => ⟨.error (.send text), sending.taken, sending.calls⟩
  | none =>
    let receiving := receive script.reads
    let result := match receiving.outcome with
      | .ok data => .ok (Frame.decode data)
      | .error text => .error (.receive text)
    ⟨result, sending.taken, sending.calls ++ [receiving.call]⟩

end Exchange

end ConsoleKit

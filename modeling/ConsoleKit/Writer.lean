import ConsoleKit.Bytes

/-!
# Writers

A writer takes bytes, as many per call as suits it and perhaps only so many in all. Once it has no room left it
refuses: it fails with a text, or takes nothing, which whoever has to write everything treats as a failure too. Asked to flush, it counts the request and may fail.
-/

namespace ConsoleKit

/-- A writer: how it behaves from now on, and what it has taken. -/
structure Writer where
  /-- The number of bytes that it still takes in all, if that is limited. -/
  room : Option Nat := none
  /-- The number of bytes taken per call, if it is limited. -/
  chunk : Option Nat := none
  /-- The text of the failure once there is no room left; without one, nothing more is taken. -/
  refusal : Option String := none
  /-- The text of the failure on a flush. -/
  flushFailure : Option String := none
  /-- What was taken by each call, the last call first. -/
  accepted : List Bytes := []
  /-- The number of flushes asked for. -/
  flushes : Nat := 0
  deriving DecidableEq, Repr

namespace Writer

/-- What has been written. -/
def written (writer : Writer) : Bytes :=
  writer.accepted.reverse.flatten

/-- The first bytes, as many as a limit allows. -/
def takeUpTo : Option Nat → Bytes → Bytes
  | none, bytes => bytes
  | some most, bytes => bytes.take most

/-- What one call takes of the offered bytes. -/
def portion (writer : Writer) (offered : Bytes) : Bytes :=
  takeUpTo writer.room (takeUpTo writer.chunk offered)

/-- The writer after a call that took something. -/
def accept (writer : Writer) (taken : Bytes) : Writer :=
  { writer with room := writer.room.map (· - taken.length), accepted := taken :: writer.accepted }

/-- One write call: how many of the offered bytes were taken, or the text of a failure. -/
def write (writer : Writer) (offered : Bytes) : Except String Nat × Writer :=
  if writer.room = some 0 then
    match writer.refusal with
    | some text => (.error text, writer)
    | none => (.ok 0, writer)
  else
    let taken := writer.portion offered
    (.ok taken.length, writer.accept taken)

/-- The text of the failure when a writer takes nothing. -/
def notWritten : String := "failed to write whole buffer"

/-- Writes all bytes, in as many calls as it takes, and none if there is nothing to write. -/
def writeAll (writer : Writer) : Bytes → Except String Unit × Writer
  | [] => (.ok (), writer)
  | byte :: bytes =>
    match writer.write (byte :: bytes) with
    | (.error text, writer') => (.error text, writer')
    | (.ok 0, writer') => (.error notWritten, writer')
    | (.ok (count + 1), writer') => writer'.writeAll (bytes.drop count)
termination_by bytes => bytes.length
decreasing_by simp only [List.length_drop, List.length_cons]; omega

/-- Writes the pieces one after the other, up to the first failure. -/
def writePieces (writer : Writer) : List Bytes → Except String Unit × Writer
  | [] => (.ok (), writer)
  | piece :: pieces =>
    match writer.writeAll piece with
    | (.error text, writer') => (.error text, writer')
    | (.ok (), writer') => writer'.writePieces pieces

/-- Flushes. -/
def flush (writer : Writer) : Except String Unit × Writer :=
  let flushed := { writer with flushes := writer.flushes + 1 }
  match writer.flushFailure with
  | some text => (.error text, flushed)
  | none => (.ok (), flushed)

end Writer

end ConsoleKit

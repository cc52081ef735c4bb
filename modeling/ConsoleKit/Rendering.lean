import ConsoleKit.Frame
import ConsoleKit.Writer

/-!
# Printing a reply

A reply is printed as its text and a newline. A failed reply has a line in front of it that says so; its
content is printed all the same. The output is written piece by piece and flushed at the end.
-/

namespace ConsoleKit.Frame

/-- The line in front of a failed reply. -/
def failureNotice : String := "Request failed"

/-- The newline that ends a line. -/
def newline : Bytes := [0x0A]

/-- The pieces in which a reply is written. -/
def pieces (frame : Frame) : List Bytes :=
  (if frame.success then [] else [Text.Utf8.encodeString failureNotice, newline]) ++
    [Text.Utf8.encode frame.text, newline]

/-- The whole output for a reply. -/
def rendering (frame : Frame) : Bytes :=
  frame.pieces.flatten

/-- Prints a reply to a writer. The writer is flushed if all was written. -/
def print (frame : Frame) (writer : Writer) : Except String Unit × Writer :=
  match writer.writePieces frame.pieces with
  | (.error text, writer') => (.error text, writer')
  | (.ok (), writer') => writer'.flush

end ConsoleKit.Frame

import ConsoleKit.Error

/-!
# Reply frames

A console answers a command with one buffer:

| bytes     | meaning                                     |
|-----------|---------------------------------------------|
| 0         | success flag, anything but zero is success  |
| 1, 2, 3   | length of the content, big-endian           |
| 4 onwards | content                                     |

Decoding accepts every buffer. What a short buffer lacks counts as empty: no flag is a failure, and the
length is made of the bytes that are there. Whether the announced length is the length of the content is a
check of its own, which a caller may leave out.
-/

namespace ConsoleKit

/-- A decoded reply. -/
structure Frame where
  /-- Whether the console reported success. -/
  success : Bool
  /-- The length that the console announced. -/
  declaredLength : UInt32
  /-- The content that was received. -/
  content : Bytes
  deriving DecidableEq, Repr

/-- The announced length of a content is not the length that was received. -/
structure LengthMismatch where
  /-- The announced length. -/
  declared : Nat
  /-- The number of content bytes received. -/
  received : Nat
  deriving DecidableEq, Repr

/-- A length mismatch as it is shown. -/
def LengthMismatch.toError (mismatch : LengthMismatch) : Error :=
  ⟨.protocol, s!"declared length {mismatch.declared} but received {mismatch.received} content bytes"⟩

namespace Frame

/-- The greatest number of bytes that is read as one reply. -/
def bufferSize : Nat := 4096

/-- The number of bytes in front of the content. -/
def headerSize : Nat := 4

/-- The length announced by the length bytes of a header, the most significant byte first. -/
def lengthOf (lengthBytes : Bytes) : UInt32 :=
  lengthBytes.foldl (fun length byte => (length <<< 8) ||| byte.toUInt32) 0

/-- Decodes a reply. An empty buffer is a failed reply without content. -/
def decode (data : Bytes) : Frame where
  success := data.head?.any (· != 0)
  declaredLength := lengthOf ((data.take headerSize).drop 1)
  content := data.drop headerSize

/-- The length bytes of a header, the most significant first. Only the last 24 bits of the length have a
place in them. -/
def lengthBytes (length : Nat) : Bytes :=
  [UInt8.ofNat (length / 0x10000), UInt8.ofNat (length / 0x100), UInt8.ofNat length]

/-- A reply as a console writes it. -/
def compose (flag : UInt8) (length : Nat) (content : Bytes) : Bytes :=
  flag :: lengthBytes length ++ content

/-- Writes a frame out again, a success with the flag 1. -/
def encode (frame : Frame) : Bytes :=
  compose (if frame.success then 1 else 0) frame.declaredLength.toNat frame.content

/-- The content as text, with one U+FFFD for every stretch that is not UTF-8. -/
def text (frame : Frame) : List Char :=
  Text.Utf8.lossy frame.content

/-- The strict check: the announced length is the length of the content. -/
def checkLength (frame : Frame) : Except LengthMismatch Unit :=
  if frame.declaredLength.toNat = frame.content.length then .ok ()
  else .error ⟨frame.declaredLength.toNat, frame.content.length⟩

end Frame

end ConsoleKit

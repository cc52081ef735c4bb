import ConsoleKit.Frame

/-!
# Reading a frame byte by byte

A second account of the layout of a reply: a reader that is fed one byte at a time and computes the length in
natural numbers. It says what a reply means when it arrives in pieces.
-/

namespace ConsoleKit.Frame

/-- What has been read of a reply. -/
structure Reader where
  /-- The number of header bytes read. -/
  headerRead : Nat
  /-- Whether the flag was anything but zero. -/
  success : Bool
  /-- The number made of the length bytes so far. -/
  length : Nat
  /-- The content so far. -/
  content : Bytes
  deriving DecidableEq, Repr

namespace Reader

/-- Before the first byte: a failure of length 0 without content. -/
def empty : Reader :=
  ⟨0, false, 0, []⟩

/-- Takes the next byte: the flag, then three digits of the length in base 256, then content. -/
def feed (reader : Reader) (byte : UInt8) : Reader :=
  match reader.headerRead with
  | 0 => { reader with headerRead := 1, success := byte != 0 }
  | 1 | 2 | 3 =>
    { reader with headerRead := reader.headerRead + 1, length := 256 * reader.length + byte.toNat }
  | _ => { reader with content := reader.content ++ [byte] }

/-- Takes the bytes in order. -/
def feedAll (reader : Reader) (bytes : Bytes) : Reader :=
  bytes.foldl feed reader

/-- The frame read so far. -/
def frame (reader : Reader) : Frame :=
  ⟨reader.success, UInt32.ofNat reader.length, reader.content⟩

end Reader

end ConsoleKit.Frame

import ConsoleKit.Bytes

/-!
# UTF-8

Text goes out as UTF-8, and what comes in is read as UTF-8 that may be damaged. Reading splits the bytes,
from left to right, into *parts*: well-formed characters, and maximal ill-formed subparts. An ill-formed
subpart is the longest stretch of bytes that could still have begun a character, or one byte that can begin
none. The reader is a machine that is fed one byte at a time, so that a byte which breaks a character off is
looked at again as the possible beginning of the next one.

The two uses differ only in what becomes of an ill-formed part: `lossy` shows each as one U+FFFD, `decode?`
refuses the bytes.
-/

namespace ConsoleKit.Text.Utf8

/-- The UTF-8 form of a text. -/
def encode (text : List Char) : Bytes :=
  text.flatMap String.utf8EncodeChar

/-- The UTF-8 form of a string. -/
def encodeString (text : String) : Bytes :=
  encode text.toList

/-! ## Which bytes follow which -/

/-- A range of byte values, both ends included. -/
structure ByteRange where
  /-- The least value. -/
  low : UInt8
  /-- The greatest value. -/
  high : UInt8
  deriving DecidableEq, Repr

/-- Whether a byte lies in the range. -/
def ByteRange.contains (range : ByteRange) (byte : UInt8) : Bool :=
  range.low ≤ byte && byte ≤ range.high

/-- The bytes that can continue a character. -/
def continuation : ByteRange :=
  ⟨0x80, 0xBF⟩

/-- The ranges of the bytes that have to follow a first byte, or `none` if no character begins with it.
The second byte of some characters has a narrower range: that excludes forms longer than needed (after
`E0`, `F0`), surrogates (after `ED`) and values above U+10FFFF (after `F4`). -/
def followers (first : UInt8) : Option (List ByteRange) :=
  if first < 0x80 then some []
  else if first < 0xC2 then none
  else if first < 0xE0 then some [continuation]
  else if first = 0xE0 then some [⟨0xA0, 0xBF⟩, continuation]
  else if first = 0xED then some [⟨0x80, 0x9F⟩, continuation]
  else if first < 0xF0 then some [continuation, continuation]
  else if first = 0xF0 then some [⟨0x90, 0xBF⟩, continuation, continuation]
  else if first < 0xF4 then some [continuation, continuation, continuation]
  else if first = 0xF4 then some [⟨0x80, 0x8F⟩, continuation, continuation]
  else none

/-- The code point that a well-formed sequence stands for: the low bits of the first byte, fewer the longer
the sequence, then six bits of every further byte. -/
def codePoint : Bytes → Nat
  | [] => 0
  | first :: rest =>
    let leading := match rest.length with
      | 0 => first.toNat
      | 1 => first.toNat % 0x20
      | 2 => first.toNat % 0x10
      | _ => first.toNat % 0x08
    rest.foldl (fun value byte => value * 0x40 + byte.toNat % 0x40) leading

/-! ## Parts -/

/-- A part of a byte sequence that is read as UTF-8. -/
inductive Part where
  /-- A well-formed character. -/
  | char (c : Char)
  /-- A maximal ill-formed subpart. -/
  | illFormed (bytes : Bytes)
  deriving DecidableEq, Repr

/-- Where the reader stands between two bytes. -/
inductive Reader where
  /-- Between two parts. -/
  | between
  /-- Inside a character: the bytes taken so far, the range of the next one, the ranges after that. -/
  | inside (taken : Bytes) (next : ByteRange) (more : List ByteRange)
  deriving DecidableEq, Repr

/-- Reads a byte at the beginning of a part. -/
def Reader.start (byte : UInt8) : List Part × Reader :=
  match followers byte with
  | none => ([.illFormed [byte]], .between)
  | some [] => ([.char (Char.ofNat (codePoint [byte]))], .between)
  | some (next :: more) => ([], .inside [byte] next more)

/-- Reads one byte: the parts that it completes, and where the reader stands after it. -/
def Reader.feed : Reader → UInt8 → List Part × Reader
  | .between, byte => Reader.start byte
  | .inside taken next more, byte =>
    if next.contains byte then
      match more with
      | [] => ([.char (Char.ofNat (codePoint (taken ++ [byte])))], .between)
      | next' :: more' => ([], .inside (taken ++ [byte]) next' more')
    else
      let (parts, reader) := Reader.start byte
      (.illFormed taken :: parts, reader)

/-- What is left when the bytes end: a character that was begun is an ill-formed part. -/
def Reader.finish : Reader → List Part
  | .between => []
  | .inside taken _ _ => [.illFormed taken]

/-- The parts of the bytes, read from where the reader stands. -/
def Reader.run (reader : Reader) : Bytes → List Part
  | [] => reader.finish
  | byte :: bytes =>
    let (parts, reader') := reader.feed byte
    parts ++ reader'.run bytes

/-- The left-to-right decomposition of a byte sequence into well-formed characters and maximal ill-formed
subparts. -/
def parts (bytes : Bytes) : List Part :=
  Reader.between.run bytes

/-! ## Reading -/

/-- The character shown for what could not be read, U+FFFD. -/
def replacement : Char := '\uFFFD'

/-- A part as one character of text. -/
def Part.lossy : Part → Char
  | .char c => c
  | .illFormed _ => replacement

/-- The character of a well-formed part. -/
def Part.char? : Part → Option Char
  | .char c => some c
  | .illFormed _ => none

/-- The bytes as text, with one U+FFFD for every maximal ill-formed subpart. -/
def lossy (bytes : Bytes) : List Char :=
  (parts bytes).map Part.lossy

/-- The text that the bytes are the UTF-8 form of, if they are well-formed throughout. -/
def decode? (bytes : Bytes) : Option (List Char) :=
  (parts bytes).mapM Part.char?

end ConsoleKit.Text.Utf8

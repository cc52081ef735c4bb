import ConsoleKit.Text.Property.DefaultIgnorable
import ConsoleKit.Text.Property.ExtendingMark
import ConsoleKit.Text.Property.Unprintable
import ConsoleKit.Text.Utf8

/-!
# Quoted text

Texts and paths are shown between double quotes, with everything escaped that a reader could not see or
could take for something else. A backslash begins every escape and is itself escaped, so the written form
determines what was quoted. Bytes that are not UTF-8 have an escape of their own; `ofChars` and `ofBytes`
therefore write a text and its UTF-8 form alike.
-/

namespace ConsoleKit.Text.Quoted

/-- Whether a character is shown by its code point: it has no printed form, is drawn onto the character in
front of it, or is ignored by default. -/
def isConcealed (c : Char) : Bool :=
  unprintable.contains c.toNat || extendingMark.contains c.toNat || defaultIgnorable.contains c.toNat

/-- A character by its code point: lower-case hexadecimal digits without padding, in braces. -/
def codePointEscape (c : Char) : List Char :=
  ['\\', 'u', '\x7b'] ++ Nat.toDigits 16 c.toNat ++ ['\x7d']

/-- A character as it stands between the quotes. -/
def escapeChar (c : Char) : List Char :=
  if c = '"' then ['\\', '"']
  else if c = '\\' then ['\\', '\\']
  else if c = '\x00' then ['\\', '0']
  else if c = '\t' then ['\\', 't']
  else if c = '\n' then ['\\', 'n']
  else if c = '\r' then ['\\', 'r']
  else if isConcealed c then codePointEscape c
  else [c]

/-- A byte that is part of no character: two upper-case hexadecimal digits. -/
def escapeByte (byte : UInt8) : List Char :=
  let digit (value : Nat) := (Nat.digitChar value).toUpper
  ['\\', 'x', digit (byte.toNat / 16), digit (byte.toNat % 16)]

/-- A part of a byte sequence as it stands between the quotes. -/
def escapePart : Utf8.Part → List Char
  | .char c => escapeChar c
  | .illFormed bytes => bytes.flatMap escapeByte

/-- Puts a text between double quotes. -/
def enclose (inner : List Char) : List Char :=
  ['"'] ++ inner ++ ['"']

/-- A text in quotes. -/
def ofChars (text : List Char) : List Char :=
  enclose (text.flatMap escapeChar)

/-- A string in quotes. -/
def ofString (text : String) : String :=
  String.ofList (ofChars text.toList)

/-- Bytes in quotes, read as UTF-8 as far as they are UTF-8. -/
def ofBytes (bytes : Bytes) : List Char :=
  enclose ((Utf8.parts bytes).flatMap escapePart)

end ConsoleKit.Text.Quoted

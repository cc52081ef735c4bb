import ConsoleKit.Frame.Reader
import ConsoleKit.Proofs.Frame.Collisions

/-!
# Decoding, byte by byte

A reply can be decoded as a whole, or be fed to a reader as it arrives. Both come to the same frame, however the
reply is cut into pieces. `Reader.after` says what a reader holds once it has been fed some bytes; `feed_after` is
what one byte does to it, and `feedAll_empty` is the run over all of them.
-/

namespace ConsoleKit.Frame

/-- Three length bytes are at most three digits in base 256. -/
theorem positional_lengthField_lt (data : Bytes) : positional (lengthField data) < 2 ^ 24 := by
  have hlength : (lengthField data).length ≤ 3 := List.length_take_le 3 _
  calc positional (lengthField data)
      < 256 ^ (lengthField data).length := positional_lt _
    _ ≤ 256 ^ 3 := Nat.pow_le_pow_right (by decide) hlength
    _ = 2 ^ 24 := by decide

namespace Reader

/-! ## What a reader holds -/

/-- A reader that was fed these bytes: each part of the layout as far as the bytes go. -/
def after (data : Bytes) : Reader :=
  ⟨min data.length headerSize, data.head?.any (· != 0), positional (lengthField data), data.drop headerSize⟩

theorem after_nil : after [] = empty := rfl

/-- What one byte does. The cases are the bytes of the header, and the content behind it. -/
theorem feed_after (data : Bytes) (byte : UInt8) : (after data).feed byte = after (data ++ [byte]) := by
  match data with
  | [] => rfl
  | [flag] => rfl
  | [flag, high] => rfl
  | [flag, high, middle] => rfl
  | flag :: high :: middle :: low :: content =>
    have hread : min (flag :: high :: middle :: low :: content).length headerSize = 4 := by
      simp only [List.length_cons, headerSize]
      omega
    have hread' : min (flag :: high :: middle :: low :: content ++ [byte]).length headerSize = 4 := by
      simp only [List.length_append, List.length_cons, headerSize]
      omega
    rw [after, after, hread, hread']
    rfl

/-- What a run does: a reader holds the bytes that it was fed, in order. -/
theorem feedAll_empty (data : Bytes) : empty.feedAll data = after data := by
  induction data using List.reverseRecOn with
  | nil => exact after_nil.symm
  | append_singleton data byte ih =>
    calc empty.feedAll (data ++ [byte])
        = (empty.feedAll data).feed byte := List.foldl_concat ..
      _ = (after data).feed byte := by rw [ih]
      _ = after (data ++ [byte]) := feed_after data byte

/-- Pieces are read as the bytes that they are made of. -/
theorem foldl_feedAll (reader : Reader) (pieces : List Bytes) :
    pieces.foldl feedAll reader = reader.feedAll pieces.flatten :=
  List.foldl_flatten.symm

/-- The frame of what a reader holds is the decoded frame. -/
theorem frame_after (data : Bytes) : (after data).frame = decode data := by
  have hlength : UInt32.ofNat (positional (lengthField data)) = (decode data).declaredLength := by
    rw [← toNat_declaredLength]
    exact UInt32.ofNat_toNat
  simp only [frame, after, hlength, decode]

end Reader

/-- **Decoding is reading byte by byte.** A decoded reply is the frame of a reader that was fed the bytes one at a
time, the announced length is the number that the reader makes in natural numbers, and that number is below 2²⁴.
A reader that is fed the pieces of a reply in order has the frame of the whole, however the reply is cut. -/
theorem decode_bytewise :
    (∀ data : Bytes,
      decode data = (Reader.empty.feedAll data).frame ∧
      (decode data).declaredLength.toNat = (Reader.empty.feedAll data).length ∧
      (decode data).declaredLength.toNat < 2 ^ 24) ∧
    (∀ pieces : List Bytes, (pieces.foldl Reader.feedAll Reader.empty).frame = decode pieces.flatten) := by
  constructor
  · intro data
    rw [Reader.feedAll_empty, toNat_declaredLength]
    exact ⟨(Reader.frame_after data).symm, rfl, positional_lengthField_lt data⟩
  · intro pieces
    rw [Reader.foldl_feedAll, Reader.feedAll_empty, Reader.frame_after]

/-- Two of the three length bytes have come, and then the rest. -/
example : (([[1, 1], [2], [3, 104]] : List Bytes).foldl Reader.feedAll Reader.empty).frame = ⟨true, 0x10203, [104]⟩ := by
  decide

end ConsoleKit.Frame

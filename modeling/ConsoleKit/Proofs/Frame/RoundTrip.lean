import ConsoleKit.Proofs.Frame.Length

/-!
# Writing and reading frames

A reply that is written and read again is the same frame, as long as its length has a place in the three length
bytes. The other way round every buffer with a whole header is the one that its frame is written as, but for the
flag, for which every byte other than zero stands for success.
-/

namespace ConsoleKit.Frame

/-! ## The parts of a buffer -/

section

variable (flag high middle low : UInt8) (content : Bytes)

@[simp] theorem success_decode_cons (rest : Bytes) : (decode (flag :: rest)).success = (flag != 0) := rfl

/-- The content begins where the header ends. -/
@[simp] theorem content_decode : (decode (flag :: high :: middle :: low :: content)).content = content := rfl

@[simp] theorem declaredLength_decode :
    (decode (flag :: high :: middle :: low :: content)).declaredLength = lengthOf [high, middle, low] := rfl

theorem toNat_declaredLength_decode :
    (decode (flag :: high :: middle :: low :: content)).declaredLength.toNat = positional [high, middle, low] := by
  rw [declaredLength_decode]
  exact toNat_lengthOf _ (by simp)

/-- A buffer with a whole header, by its parts. -/
theorem exists_header {data : Bytes} (h : headerSize ≤ data.length) :
    ∃ flag high middle low content, data = flag :: high :: middle :: low :: content := by
  match data, h with
  | flag :: high :: middle :: low :: content, _ => exact ⟨flag, high, middle, low, content, rfl⟩

/-! ## The two directions -/

theorem toNat_declaredLength_compose {length : Nat} (h : length < 2 ^ 24) :
    (decode (compose flag length content)).declaredLength.toNat = length :=
  lengthOf_lengthBytes h

/-- Of a flag only success or failure is kept. -/
theorem encode_decode_cons :
    encode (decode (flag :: high :: middle :: low :: content)) =
      (if flag = 0 then 0 else 1) :: high :: middle :: low :: content := by
  simp only [encode, compose, success_decode_cons, toNat_declaredLength_decode, lengthBytes_positional, content_decode,
    List.cons_append, List.nil_append]
  by_cases h : flag = 0 <;> simp [h]

end

/-- **Frames survive the wire.** A composed reply is decoded to its flag, length and content, and a buffer with a
whole header is composed again out of its frame, with the flag 1 for every flag but 0. -/
theorem round_trip :
    (∀ flag length content, length < 2 ^ 24 →
      (decode (compose flag length content)).success = (flag != 0) ∧
      (decode (compose flag length content)).declaredLength.toNat = length ∧
      (decode (compose flag length content)).content = content) ∧
    (∀ data : Bytes, headerSize ≤ data.length →
      encode (decode data) = data.modifyHead fun flag => if flag = 0 then 0 else 1) := by
  constructor
  · intro flag length content h
    exact ⟨rfl, toNat_declaredLength_compose flag content h, rfl⟩
  · intro data h
    obtain ⟨flag, high, middle, low, content, rfl⟩ := exists_header h
    exact encode_decode_cons flag high middle low content

/-- The length 0x10203 is written as the bytes 1, 2 and 3, and the flag 7 of such a reply becomes 1. -/
theorem round_trip_seven :
    (decode (compose 7 0x10203 [0x68, 0x69])).declaredLength.toNat = 0x10203 ∧
    encode (decode [7, 1, 2, 3, 0x68, 0x69]) = [1, 1, 2, 3, 0x68, 0x69] :=
  ⟨(round_trip.1 7 0x10203 [0x68, 0x69] (by decide)).2.1, round_trip.2 [7, 1, 2, 3, 0x68, 0x69] (by decide)⟩

end ConsoleKit.Frame

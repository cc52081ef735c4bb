import ConsoleKit.Proofs.Frame.RoundTrip
import Mathlib.Data.Nat.Digits.Lemmas

/-!
# Which buffers decode alike

A short buffer has fewer than three length bytes, and they are read as the number that they are in base 256. So
buffers of different lengths can be the same frame: a numeral does not show the zeros in front of it. Nothing
else is lost but which byte other than zero stood for success.
-/

namespace ConsoleKit.Frame

/-- The bytes of a numeral from its first digit other than zero on. -/
def significant (bytes : Bytes) : Bytes :=
  bytes.dropWhile (· == 0)

/-- The bytes at the offsets 1 to 3, as far as a buffer has them. -/
def lengthField (data : Bytes) : Bytes :=
  (data.drop 1).take 3

/-- There is a flag, and it stands for success. -/
def Flagged (data : Bytes) : Prop :=
  ∃ flag, data.head? = some flag ∧ flag ≠ 0

/-- The flag that a decoded frame is written out with again. -/
def normalFlag (flag : UInt8) : UInt8 :=
  if flag = 0 then 0 else 1

/-! ## Numerals of any length -/

theorem positional_eq_ofDigits (bytes : Bytes) :
    positional bytes = Nat.ofDigits 256 (bytes.reverse.map UInt8.toNat) := by
  induction bytes using List.reverseRecOn with
  | nil => rfl
  | append_singleton bytes byte ih =>
    rw [positional_concat, ih, List.reverse_concat, List.map_cons, Nat.ofDigits_cons]
    exact Nat.add_comm _ _

@[simp] theorem positional_zero_cons (bytes : Bytes) : positional (0 :: bytes) = positional bytes := rfl

theorem positional_significant (bytes : Bytes) : positional (significant bytes) = positional bytes := by
  induction bytes with
  | nil => rfl
  | cons byte bytes ih =>
    by_cases hzero : byte = 0
    · subst hzero
      simpa [significant] using ih
    · simp [significant, hzero]

/-- What is left of a numeral does not begin with a zero. -/
theorem head_significant_ne_zero {bytes : Bytes} (hne : significant bytes ≠ []) :
    (significant bytes).head hne ≠ 0 := by
  have hhead := List.head_dropWhile_not (· == 0) hne
  simpa [significant] using hhead

/-- The digits of the number are the significant bytes, the last of them first. -/
theorem digits_positional (bytes : Bytes) :
    Nat.digits 256 (positional bytes) = (significant bytes).reverse.map UInt8.toNat := by
  rw [← positional_significant, positional_eq_ofDigits]
  apply Nat.digits_ofDigits 256 (by decide)
  · intro digit hdigit
    obtain ⟨byte, -, rfl⟩ := List.mem_map.mp hdigit
    exact byte.toNat_lt
  · intro hne
    have hsignificant : significant bytes ≠ [] := by
      intro hempty
      simp [hempty] at hne
    rw [List.getLast_map, List.getLast_reverse]
    intro hzero
    exact head_significant_ne_zero hsignificant (UInt8.toNat_inj.mp hzero)

/-- **Numerals are unique.** Bytes are the same number exactly if they are the same but for the zeros that they
begin with. -/
theorem positional_eq_iff {left right : Bytes} :
    positional left = positional right ↔ significant left = significant right := by
  constructor
  · intro h
    have hdigits := congrArg (Nat.digits 256) h
    rw [digits_positional, digits_positional] at hdigits
    have hreverse := (List.map_inj_right fun _ _ => UInt8.toNat_inj.mp).mp hdigits
    exact List.reverse_injective hreverse
  · intro h
    rw [← positional_significant left, h, positional_significant]

theorem lengthOf_eq_iff {left right : Bytes} (hleft : left.length ≤ 4) (hright : right.length ≤ 4) :
    lengthOf left = lengthOf right ↔ significant left = significant right := by
  rw [← UInt32.toNat_inj, toNat_lengthOf left hleft, toNat_lengthOf right hright, positional_eq_iff]

/-! ## Frames by their parts -/

theorem length_lengthField_le (data : Bytes) : (lengthField data).length ≤ 4 := by
  simp only [lengthField, List.length_take]
  omega

theorem declaredLength_decode_eq (data : Bytes) : (decode data).declaredLength = lengthOf (lengthField data) := by
  simp only [decode, lengthField, List.drop_take, headerSize]

/-- No bit of the length bytes is lost, however many of them there are. -/
theorem toNat_declaredLength (data : Bytes) : (decode data).declaredLength.toNat = positional (lengthField data) := by
  rw [declaredLength_decode_eq]
  exact toNat_lengthOf _ (length_lengthField_le data)

theorem success_decode_iff (data : Bytes) : (decode data).success = true ↔ Flagged data := by
  simp [decode, Flagged, Option.any_eq_true]

/-- Two buffers are the same frame exactly if they are alike in each of the three parts. -/
theorem decode_eq_iff (left right : Bytes) :
    decode left = decode right ↔
      (Flagged left ↔ Flagged right) ∧ left.drop 4 = right.drop 4 ∧
        significant (lengthField left) = significant (lengthField right) := by
  have hparts : decode left = decode right ↔
      (decode left).success = (decode right).success ∧
        (decode left).declaredLength = (decode right).declaredLength ∧
          (decode left).content = (decode right).content := by
    rw [← Frame.mk.injEq]
  rw [hparts, Bool.eq_iff_iff, success_decode_iff, success_decode_iff, declaredLength_decode_eq,
    declaredLength_decode_eq, lengthOf_eq_iff (length_lengthField_le left) (length_lengthField_le right)]
  exact and_congr_right fun _ => and_comm

/-- The frame does not tell which flag stood for success. -/
theorem decode_modifyHead_normalFlag (data : Bytes) : decode (data.modifyHead normalFlag) = decode data := by
  cases data with
  | nil => rfl
  | cons flag rest =>
    by_cases hzero : flag = 0
    · subst hzero
      rfl
    · have hflag : (flag != 0) = ((1 : UInt8) != 0) := by simpa using hzero
      rw [List.modifyHead_cons, normalFlag, if_neg hzero]
      simp only [decode, List.head?_cons, Option.any_some, hflag]
      rfl

/-- With a whole header nothing else is lost. -/
theorem decode_eq_iff_of_header {left right : Bytes} (hleft : headerSize ≤ left.length)
    (hright : headerSize ≤ right.length) :
    decode left = decode right ↔ left.modifyHead normalFlag = right.modifyHead normalFlag := by
  constructor
  · intro h
    have hencode := congrArg encode h
    obtain ⟨flag, high, middle, low, content, rfl⟩ := exists_header hleft
    obtain ⟨flag', high', middle', low', content', rfl⟩ := exists_header hright
    rw [encode_decode_cons, encode_decode_cons] at hencode
    exact hencode
  · intro h
    rw [← decode_modifyHead_normalFlag left, h, decode_modifyHead_normalFlag]

/-- **Which buffers decode alike.** Those, of any lengths, that both have a flag for success or both have none,
have the same bytes behind the header, and have the same length bytes but for the zeros in front. Buffers with a
whole header are the same but for the flag, and for it too once 1 is written for every flag other than 0. -/
theorem decode_collisions (left right : Bytes) :
    (decode left = decode right ↔
      (Flagged left ↔ Flagged right) ∧ left.drop 4 = right.drop 4 ∧
        significant (lengthField left) = significant (lengthField right)) ∧
    (headerSize ≤ left.length → headerSize ≤ right.length →
      (decode left = decode right ↔ left.modifyHead normalFlag = right.modifyHead normalFlag)) :=
  ⟨decode_eq_iff left right, decode_eq_iff_of_header⟩

/-- A flag and the length byte 5 are the same frame with one or two zeros in between, and the flag may be any but
zero. With a content byte there is no such freedom. -/
theorem decode_collisions_short :
    decode [1, 5] = decode [9, 0, 0, 5] ∧ decode [1, 5] ≠ decode [1, 5, 0] ∧
    decode [2, 0, 0, 5, 7] = decode [1, 0, 0, 5, 7] := by
  refine ⟨?_, ?_, ?_⟩
  · rw [(decode_collisions _ _).1]
    exact ⟨⟨fun _ => ⟨9, rfl, by decide⟩, fun _ => ⟨1, rfl, by decide⟩⟩, rfl, rfl⟩
  · rw [Ne, (decode_collisions _ _).1]
    rintro ⟨-, -, hlength⟩
    exact absurd hlength (by decide)
  · rw [(decode_collisions _ _).2 (by decide) (by decide)]
    rfl

end ConsoleKit.Frame

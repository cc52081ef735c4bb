import ConsoleKit.Frame
import Mathlib.Data.List.Induction
import Mathlib.Data.Nat.Bitwise
import Mathlib.Tactic.Ring

/-!
# The length bytes of a header

Decoding makes the announced length out of its bytes by shifts and disjunctions on 32-bit words. As long as no
more than four bytes are folded that is the number that the bytes are in base 256. The length bytes that a
header is written with are the digits of that number.
-/

namespace ConsoleKit.Frame

/-- The number that bytes are in base 256, the most significant digit first. -/
def positional (bytes : Bytes) : Nat :=
  bytes.foldl (fun number byte => 256 * number + byte.toNat) 0

@[simp] theorem positional_nil : positional [] = 0 := rfl

@[simp] theorem positional_concat (bytes : Bytes) (byte : UInt8) :
    positional (bytes ++ [byte]) = 256 * positional bytes + byte.toNat := by
  simp [positional]

theorem positional_lt (bytes : Bytes) : positional bytes < 256 ^ bytes.length := by
  induction bytes using List.reverseRecOn with
  | nil => simp
  | append_singleton bytes byte ih =>
    have hbyte : byte.toNat < 256 := byte.toNat_lt
    rw [positional_concat, List.length_append, List.length_singleton, pow_succ]
    omega

/-! ## The fold on words -/

@[simp] theorem lengthOf_concat (bytes : Bytes) (byte : UInt8) :
    lengthOf (bytes ++ [byte]) = (lengthOf bytes <<< 8) ||| byte.toUInt32 := by
  simp [lengthOf]

/-- A word of at most three bytes has room for one more: the shift loses nothing, and the new byte meets only
zeros. -/
theorem toNat_shift_or (length : UInt32) (byte : UInt8) (h : length.toNat < 256 ^ 3) :
    ((length <<< 8) ||| byte.toUInt32).toNat = 256 * length.toNat + byte.toNat := by
  have hbyte : byte.toNat < 2 ^ 8 := byte.toNat_lt
  have hroom : length.toNat <<< 8 < 2 ^ 32 := by
    rw [Nat.shiftLeft_eq]
    omega
  have hshift : (length <<< 8).toNat = length.toNat <<< 8 := by
    rw [UInt32.toNat_shiftLeft]
    exact Nat.mod_eq_of_lt hroom
  rw [UInt32.toNat_or, hshift, UInt8.toNat_toUInt32, ← Nat.shiftLeft_add_eq_or_of_lt hbyte, Nat.shiftLeft_eq]
  ring

/-- **The announced length is positional.** -/
theorem toNat_lengthOf (bytes : Bytes) (h : bytes.length ≤ 4) : (lengthOf bytes).toNat = positional bytes := by
  induction bytes using List.reverseRecOn with
  | nil => rfl
  | append_singleton bytes byte ih =>
    rw [List.length_append, List.length_singleton] at h
    have hbegins := ih (by omega)
    have hroom : (lengthOf bytes).toNat < 256 ^ 3 := by
      rw [hbegins]
      exact (positional_lt bytes).trans_le (Nat.pow_le_pow_right (by decide) (by omega))
    rw [lengthOf_concat, toNat_shift_or _ _ hroom, hbegins, positional_concat]

/-! ## The digits of a length -/

theorem length_lengthBytes (length : Nat) : (lengthBytes length).length = 3 := rfl

theorem positional_lengthBytes {length : Nat} (h : length < 2 ^ 24) : positional (lengthBytes length) = length := by
  simp only [positional, lengthBytes, List.foldl_cons, List.foldl_nil, UInt8.toNat_ofNat']
  omega

theorem lengthBytes_positional (high middle low : UInt8) :
    lengthBytes (positional [high, middle, low]) = [high, middle, low] := by
  have hhigh : high.toNat < 256 := high.toNat_lt
  have hmiddle : middle.toNat < 256 := middle.toNat_lt
  have hlow : low.toNat < 256 := low.toNat_lt
  simp only [positional, lengthBytes, List.foldl_cons, List.foldl_nil, List.cons.injEq, and_true,
    ← UInt8.toNat_inj, UInt8.toNat_ofNat']
  omega

/-- What is read back from written length bytes. -/
theorem lengthOf_lengthBytes {length : Nat} (h : length < 2 ^ 24) :
    (lengthOf (lengthBytes length)).toNat = length := by
  rw [toNat_lengthOf _ (by simp [length_lengthBytes]), positional_lengthBytes h]

end ConsoleKit.Frame

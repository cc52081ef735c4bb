import ConsoleKit.Proofs.Text.Characters
import Mathlib.Data.List.Induction

/-!
# Text that is cut off

The bytes of a text can be cut anywhere. What is read of them is the longest beginning of the text whose bytes all
came, and one U+FFFD more if the cut falls inside of a character: the character that is broken off is one ill-formed
part, however many of its bytes came.
-/

namespace ConsoleKit.Text.Utf8

/-- Some of the bytes of one character are in front of the position, and some are behind it. -/
def FallsInside (position : Nat) (text : List Char) : Prop :=
  ∃ before c after, text = before ++ c :: after ∧
    (encode before).length < position ∧ position < (encode (before ++ [c])).length

/-- The longest beginning of a text, in whole characters, that has room in so many bytes. -/
structure LongestFitting (room : Nat) (text kept : List Char) : Prop where
  /-- It is a beginning of the text. -/
  isPrefix : kept <+: text
  /-- It has room. -/
  fits : (encode kept).length ≤ room
  /-- Every beginning that has room is a beginning of it. -/
  longest : ∀ other, other <+: text → (encode other).length ≤ room → other <+: kept

section

variable {room : Nat} {text before after kept other : List Char} {c : Char}

/-! ## Where a cut falls -/

theorem length_encode_le (h : before <+: text) : (encode before).length ≤ (encode text).length := by
  obtain ⟨after, rfl⟩ := h
  rw [encode_append, List.length_append]
  exact Nat.le_add_right _ _

/-- A beginning of a text ends in front of a character or goes past it. -/
theorem ends_before_or_past (htext : text = before ++ c :: after) (h : other <+: text) :
    other <+: before ∨ before ++ [c] <+: other := by
  have hpast : before ++ [c] <+: text := ⟨after, by rw [htext, List.append_assoc, List.singleton_append]⟩
  rcases List.prefix_or_prefix_of_prefix h hpast with hother | hother
  · rcases List.prefix_concat_iff.1 hother with rfl | hother
    · exact .inr (List.prefix_refl _)
    · exact .inl hother
  · exact .inr hother

/-- A cut behind whole characters falls inside of none. -/
theorem not_fallsInside (h : kept <+: text) : ¬FallsInside (encode kept).length text := by
  rintro ⟨before, c, after, htext, hbefore, hpast⟩
  rcases ends_before_or_past htext h with hkept | hkept
  · exact absurd (length_encode_le hkept) (Nat.not_le.2 hbefore)
  · exact absurd (length_encode_le hkept) (Nat.not_le.2 hpast)

theorem FallsInside.lt_length (h : FallsInside room text) : room < (encode text).length := by
  obtain ⟨before, c, after, rfl, -, hpast⟩ := h
  have hwhole : before ++ [c] <+: before ++ c :: after := ⟨after, by rw [List.append_assoc, List.singleton_append]⟩
  exact Nat.lt_of_lt_of_le hpast (length_encode_le hwhole)

/-- Either there is room for the text, or for the characters in front of one for which there is none. -/
theorem fits_or_exceeds (room : Nat) (text : List Char) :
    (encode text).length ≤ room ∨ ∃ before c after, text = before ++ c :: after ∧
      (encode before).length ≤ room ∧ room < (encode (before ++ [c])).length := by
  induction text using List.reverseRecOn with
  | nil => exact .inl (Nat.zero_le _)
  | append_singleton text c ih =>
    rcases ih with hfits | ⟨before, d, after, rfl, hfits, hexceeds⟩
    · by_cases hall : (encode (text ++ [c])).length ≤ room
      · exact .inl hall
      · exact .inr ⟨text, c, [], rfl, hfits, Nat.lt_of_not_le hall⟩
    · exact .inr ⟨before, d, after ++ [c], by rw [List.append_assoc, List.cons_append], hfits, hexceeds⟩

theorem longestFitting_self (h : (encode text).length ≤ room) : LongestFitting room text text :=
  ⟨List.prefix_refl text, h, fun _ hother _ => hother⟩

theorem longestFitting_before (htext : text = before ++ c :: after) (hfits : (encode before).length ≤ room)
    (hexceeds : room < (encode (before ++ [c])).length) : LongestFitting room text before := by
  refine ⟨⟨c :: after, htext.symm⟩, hfits, fun other hother hroom => ?_⟩
  rcases ends_before_or_past htext hother with h | h
  · exact h
  · have hlength := length_encode_le h
    omega

theorem LongestFitting.unique (h : LongestFitting room text kept) (h' : LongestFitting room text other) : kept = other := by
  have hle : kept <+: other := h'.longest kept h.isPrefix h.fits
  have hge : other <+: kept := h.longest other h'.isPrefix h'.fits
  exact hle.eq_of_length_le hge.length_le

/-! ## What is read of it -/

theorem lossy_take_of_fits (h : (encode text).length ≤ room) : lossy ((encode text).take room) = text := by
  rw [List.take_of_length_le h, lossy_encode]

/-- The bytes in front of a cut are those of the characters in front of it, and some of the next one. -/
theorem take_encode (before : List Char) (c : Char) (after : List Char) {count : Nat}
    (h : count ≤ (String.utf8EncodeChar c).length) :
    (encode (before ++ c :: after)).take ((encode before).length + count) =
      encode before ++ (String.utf8EncodeChar c).take count := by
  rw [encode_append, encode_cons, List.take_length_add_append, List.take_append_of_le_length h]

/-- A character of which some bytes came is read as one U+FFFD. -/
theorem lossy_take_char (c : Char) {count : Nat} (hpos : 0 < count) (hlt : count < (String.utf8EncodeChar c).length) :
    lossy ((String.utf8EncodeChar c).take count) = [replacement] := by
  have hlength : ((String.utf8EncodeChar c).take count).length = count := by
    rw [List.length_take]
    omega
  have hsome : (String.utf8EncodeChar c).take count ≠ [] := by
    intro h
    rw [h, List.length_nil] at hlength
    omega
  have hne : (String.utf8EncodeChar c).take count ≠ String.utf8EncodeChar c := by
    intro h
    rw [h] at hlength
    omega
  rw [lossy, (wellFormed_utf8EncodeChar c).parts_cut (List.take_prefix _ _) hsome hne]
  rfl

/-- **What is read of a text that is cut off.** It is the longest beginning that has room, with one U+FFFD behind it
if the cut falls inside of a character, and with nothing behind it otherwise. -/
theorem lossy_take_encode (room : Nat) (text : List Char) :
    ∃ kept, LongestFitting room text kept ∧
      (FallsInside room text → lossy ((encode text).take room) = kept ++ [replacement]) ∧
      (¬FallsInside room text → lossy ((encode text).take room) = kept) := by
  rcases fits_or_exceeds room text with hfits | ⟨before, c, after, htext, hfits, hexceeds⟩
  · refine ⟨text, longestFitting_self hfits, fun hinside => ?_, fun _ => lossy_take_of_fits hfits⟩
    exact absurd hfits (Nat.not_le.2 hinside.lt_length)
  · obtain ⟨count, rfl⟩ := Nat.exists_eq_add_of_le hfits
    have hchar : count < (String.utf8EncodeChar c).length := by
      rw [encode_append, List.length_append, encode_cons, encode_nil, List.append_nil] at hexceeds
      omega
    have hread : lossy ((encode text).take ((encode before).length + count)) =
        before ++ lossy ((String.utf8EncodeChar c).take count) := by
      rw [htext, take_encode before c after (Nat.le_of_lt hchar), lossy_encode_append]
    refine ⟨before, longestFitting_before htext hfits hexceeds, fun hinside => ?_, fun houtside => ?_⟩
    · have hpos : 0 < count := by
        by_contra hzero
        obtain rfl : count = 0 := by omega
        exact not_fallsInside ⟨c :: after, htext.symm⟩ hinside
      rw [hread, lossy_take_char c hpos hchar]
    · have hzero : count = 0 := by
        by_contra hne
        exact houtside ⟨before, c, after, htext, by omega, hexceeds⟩
      rw [hread, hzero, List.take_zero, lossy_nil, List.append_nil]

end

end ConsoleKit.Text.Utf8

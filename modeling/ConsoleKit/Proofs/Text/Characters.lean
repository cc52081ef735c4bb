import ConsoleKit.Text.Utf8
import Mathlib.Data.List.Forall2
import Mathlib.Tactic.SplitIfs

/-!
# Characters among bytes

The reader takes the UTF-8 form of a character for that character, whatever comes after it. Where the bytes end
inside of a character, or go on with a byte that is none of it, all that is there of it is one ill-formed part.

The form of a character is known to the reader by its first byte, which says in which ranges the further bytes lie
(`wellFormed_utf8EncodeChar`). What the reader does inside of a character is two inductions on these ranges: either
it reaches the end of the character (`Follow`), or the bytes break off before (`Breaks`).
-/

namespace ConsoleKit.Text.Utf8

/-! ## First bytes -/

section

variable {first : UInt8}

theorem followers_of_one (h : first.toNat < 0x80) : followers first = some [] := by
  simp only [followers, UInt8.lt_iff_toNat_lt, UInt8.reduceToNat, h, if_true]

theorem followers_of_two (hlow : 0xC2 ≤ first.toNat) (hhigh : first.toNat < 0xE0) :
    followers first = some [continuation] := by
  simp only [followers, UInt8.lt_iff_toNat_lt, UInt8.reduceToNat]
  split_ifs <;> first | rfl | omega

theorem followers_of_three (hlow : 0xE0 < first.toNat) (hhigh : first.toNat < 0xF0) (hne : first.toNat ≠ 0xED) :
    followers first = some [continuation, continuation] := by
  simp only [followers, UInt8.lt_iff_toNat_lt, ← UInt8.toNat_inj, UInt8.reduceToNat]
  split_ifs <;> first | rfl | omega

theorem followers_of_three_least (h : first.toNat = 0xE0) : followers first = some [⟨0xA0, 0xBF⟩, continuation] := by
  obtain rfl : first = 0xE0 := UInt8.toNat_inj.1 h
  rfl

theorem followers_of_three_surrogate (h : first.toNat = 0xED) :
    followers first = some [⟨0x80, 0x9F⟩, continuation] := by
  obtain rfl : first = 0xED := UInt8.toNat_inj.1 h
  rfl

theorem followers_of_four (hlow : 0xF0 < first.toNat) (hhigh : first.toNat < 0xF4) :
    followers first = some [continuation, continuation, continuation] := by
  simp only [followers, UInt8.lt_iff_toNat_lt, ← UInt8.toNat_inj, UInt8.reduceToNat]
  split_ifs <;> first | rfl | omega

theorem followers_of_four_least (h : first.toNat = 0xF0) :
    followers first = some [⟨0x90, 0xBF⟩, continuation, continuation] := by
  obtain rfl : first = 0xF0 := UInt8.toNat_inj.1 h
  rfl

theorem followers_of_four_greatest (h : first.toNat = 0xF4) :
    followers first = some [⟨0x80, 0x8F⟩, continuation, continuation] := by
  obtain rfl : first = 0xF4 := UInt8.toNat_inj.1 h
  rfl

end

/-! ## The bytes of a character -/

/-- Bytes that lie in ranges, one in each. -/
def Follow (ranges : List ByteRange) (bytes : Bytes) : Prop :=
  List.Forall₂ (fun range byte => range.contains byte = true) ranges bytes

/-- Bytes that lie in the first of some ranges, one in each, and then the next one does not come: either there are no more
bytes, or another one comes. -/
inductive Breaks : List ByteRange → Bytes → Bytes → Prop where
  /-- The byte for the first range does not come. -/
  | here {range : ByteRange} {ranges : List ByteRange} {rest : Bytes}
      (hstop : ∀ byte, rest.head? = some byte → range.contains byte = false) : Breaks (range :: ranges) [] rest
  /-- It comes, and one behind it does not. -/
  | later {range : ByteRange} {ranges : List ByteRange} {byte : UInt8} {stretch rest : Bytes}
      (hcontains : range.contains byte = true) (hbreaks : Breaks ranges stretch rest) :
      Breaks (range :: ranges) (byte :: stretch) rest

/-- A first byte, and behind it the bytes that have to follow it. -/
def WellFormed (bytes : Bytes) : Prop :=
  ∃ first rest ranges, bytes = first :: rest ∧ followers first = some ranges ∧ Follow ranges rest

@[simp] theorem follow_nil : Follow [] [] := .nil

@[simp] theorem follow_cons {range : ByteRange} {ranges : List ByteRange} {byte : UInt8} {bytes : Bytes} :
    Follow (range :: ranges) (byte :: bytes) ↔ range.contains byte = true ∧ Follow ranges bytes :=
  List.forall₂_cons

theorem breaks_of_cut {ranges : List ByteRange} {bytes cut : Bytes} (h : Follow ranges bytes) (hcut : cut <+: bytes)
    (hne : cut ≠ bytes) : Breaks ranges cut [] := by
  induction cut generalizing ranges bytes with
  | nil =>
    obtain ⟨byte, bytes, rfl⟩ := List.exists_cons_of_ne_nil hne.symm
    cases h with
    | cons _ _ => exact .here fun byte hbyte => by cases hbyte
  | cons byte cut ih =>
    obtain ⟨later, rfl⟩ := hcut
    cases h with
    | cons hcontains hmore =>
      have hrest : cut ≠ cut ++ later := fun heq => hne (by rw [List.cons_append, ← heq])
      exact .later hcontains (ih hmore (List.prefix_append cut later) hrest)

theorem contains_iff (range : ByteRange) (byte : UInt8) :
    range.contains byte = true ↔ range.low.toNat ≤ byte.toNat ∧ byte.toNat ≤ range.high.toNat := by
  simp [ByteRange.contains, UInt8.le_iff_toNat_le]

section

variable {first second third fourth : UInt8}

/-- Six bits behind the mark of a byte that continues a character. -/
theorem continues {byte : UInt8} {bits : Nat} (h : byte.toNat = bits % 0x40 + 0x80) :
    continuation.contains byte = true := by
  simp only [contains_iff, continuation, UInt8.reduceToNat]
  omega

theorem wellFormed_one (value : Nat) (hvalue : value < 0x80) (hfirst : first.toNat = value) : WellFormed [first] :=
  ⟨first, [], [], rfl, followers_of_one (by omega), follow_nil⟩

theorem wellFormed_two (value : Nat) (hlow : 0x80 ≤ value) (hhigh : value < 0x800) (hfirst : first.toNat = value / 0x40 + 0xC0)
    (hsecond : second.toNat = value % 0x40 + 0x80) : WellFormed [first, second] := by
  refine ⟨first, [second], _, rfl, followers_of_two (by omega) (by omega), ?_⟩
  simp only [follow_cons, follow_nil, continues hsecond, and_true]

/-- In a form that is no longer than needed, and no surrogate, the second byte is in the range for its first. -/
theorem wellFormed_three (value : Nat) (hlow : 0x800 ≤ value) (hhigh : value < 0x10000) (hscalar : value < 0xD800 ∨ 0xDFFF < value)
    (hfirst : first.toNat = value / 0x1000 + 0xE0) (hsecond : second.toNat = value / 0x40 % 0x40 + 0x80)
    (hthird : third.toNat = value % 0x40 + 0x80) : WellFormed [first, second, third] := by
  have hrange : ∃ range, followers first = some [range, continuation] ∧ range.contains second = true := by
    by_cases hleast : first.toNat = 0xE0
    · refine ⟨_, followers_of_three_least hleast, ?_⟩
      simp only [contains_iff, UInt8.reduceToNat]
      omega
    by_cases hsurrogate : first.toNat = 0xED
    · refine ⟨_, followers_of_three_surrogate hsurrogate, ?_⟩
      simp only [contains_iff, UInt8.reduceToNat]
      omega
    · exact ⟨_, followers_of_three (by omega) (by omega) hsurrogate, continues hsecond⟩
  obtain ⟨range, hfollowers, hcontains⟩ := hrange
  refine ⟨first, [second, third], _, rfl, hfollowers, ?_⟩
  simp only [follow_cons, follow_nil, hcontains, continues hthird, and_true]

/-- In a form that is no longer than needed, of a value that is not too great, the second byte is in the range for
its first. -/
theorem wellFormed_four (value : Nat) (hlow : 0x10000 ≤ value) (hhigh : value < 0x110000)
    (hfirst : first.toNat = value / 0x40000 + 0xF0) (hsecond : second.toNat = value / 0x1000 % 0x40 + 0x80)
    (hthird : third.toNat = value / 0x40 % 0x40 + 0x80) (hfourth : fourth.toNat = value % 0x40 + 0x80) :
    WellFormed [first, second, third, fourth] := by
  have hrange : ∃ range, followers first = some [range, continuation, continuation] ∧
      range.contains second = true := by
    by_cases hleast : first.toNat = 0xF0
    · refine ⟨_, followers_of_four_least hleast, ?_⟩
      simp only [contains_iff, UInt8.reduceToNat]
      omega
    by_cases hgreatest : first.toNat = 0xF4
    · refine ⟨_, followers_of_four_greatest hgreatest, ?_⟩
      simp only [contains_iff, UInt8.reduceToNat]
      omega
    · exact ⟨_, followers_of_four (by omega) (by omega), continues hsecond⟩
  obtain ⟨range, hfollowers, hcontains⟩ := hrange
  refine ⟨first, [second, third, fourth], _, rfl, hfollowers, ?_⟩
  simp only [follow_cons, follow_nil, hcontains, continues hthird, continues hfourth, and_true]

end

theorem wellFormed_utf8EncodeChar (c : Char) : WellFormed (String.utf8EncodeChar c) := by
  have hvalid : c.toNat < 0xD800 ∨ 0xDFFF < c.toNat ∧ c.toNat < 0x110000 := c.valid
  have hval : c.val.toNat = c.toNat := rfl
  simp only [String.utf8EncodeChar, hval]
  -- The forms have room for 7, 11, 16 and 21 bits.
  split_ifs with hone htwo hthree
  · refine wellFormed_one c.toNat (by omega) ?_
    rw [UInt8.toNat_ofNat']
    omega
  · refine wellFormed_two c.toNat (by omega) (by omega) ?_ ?_
    all_goals
      rw [UInt8.toNat_ofNat']
      omega
  · refine wellFormed_three c.toNat (by omega) (by omega) (by omega) ?_ ?_ ?_
    all_goals
      rw [UInt8.toNat_ofNat']
      omega
  · refine wellFormed_four c.toNat (by omega) (by omega) ?_ ?_ ?_ ?_
    all_goals
      rw [UInt8.toNat_ofNat']
      omega

theorem codePoint_utf8EncodeChar (c : Char) : codePoint (String.utf8EncodeChar c) = c.toNat := by
  have hvalid : c.toNat < 0xD800 ∨ 0xDFFF < c.toNat ∧ c.toNat < 0x110000 := c.valid
  have hval : c.val.toNat = c.toNat := rfl
  simp only [String.utf8EncodeChar, hval]
  split_ifs with hone htwo hthree
  all_goals
    simp only [codePoint, List.length_cons, List.length_nil, List.foldl_cons, List.foldl_nil, UInt8.toNat_ofNat']
    omega


/-! ## Inside of a character -/

section

variable {bytes cut stretch rest : Bytes} {next : ByteRange} {more : List ByteRange}

/-- Where all the bytes come that have to follow, the reader is at the end of the character. -/
theorem run_inside_of_follow (taken : Bytes) (h : Follow (next :: more) bytes) (rest : Bytes) :
    (Reader.inside taken next more).run (bytes ++ rest) =
      .char (Char.ofNat (codePoint (taken ++ bytes))) :: parts rest := by
  induction bytes generalizing taken next more with
  | nil => cases h
  | cons byte bytes ih =>
    obtain ⟨hcontains, hmore⟩ := follow_cons.1 h
    cases more with
    | nil =>
      obtain rfl : bytes = [] := List.forall₂_nil_left_iff.1 hmore
      simp only [List.cons_append, List.nil_append, Reader.run, Reader.feed, hcontains, if_true, parts]
    | cons next' more' =>
      simp only [List.cons_append, Reader.run, Reader.feed, hcontains, if_true, List.nil_append]
      rw [ih _ hmore, List.append_assoc, List.singleton_append]

/-- Where the bytes break off, what there is of the character is one ill-formed part, and the byte that is none of it is read
again. -/
theorem run_inside_of_breaks (taken : Bytes) (h : Breaks (next :: more) stretch rest) :
    (Reader.inside taken next more).run (stretch ++ rest) = .illFormed (taken ++ stretch) :: parts rest := by
  induction stretch generalizing taken next more with
  | nil =>
    cases h with
    | here hstop =>
      cases rest with
      | nil => simp [Reader.run, Reader.finish, parts]
      | cons byte rest =>
        have hcontains : next.contains byte = false := hstop byte rfl
        simp only [List.nil_append, List.append_nil, Reader.run, Reader.feed, hcontains, parts]
        rfl
  | cons byte stretch ih =>
    cases h with
    | later hcontains hbreaks =>
      cases more with
      | nil => cases hbreaks
      | cons next' more' =>
        simp only [List.cons_append, Reader.run, Reader.feed, hcontains, if_true, List.nil_append]
        rw [ih _ hbreaks, List.append_assoc, List.singleton_append]

/-- A character is read as such, whatever comes after it. -/
theorem WellFormed.parts_append (h : WellFormed bytes) (rest : Bytes) :
    parts (bytes ++ rest) = .char (Char.ofNat (codePoint bytes)) :: parts rest := by
  obtain ⟨first, following, ranges, rfl, hfirst, hfollow⟩ := h
  cases ranges with
  | nil =>
    obtain rfl : following = [] := List.forall₂_nil_left_iff.1 hfollow
    simp only [List.cons_append, List.nil_append, parts, Reader.run, Reader.feed, Reader.start, hfirst]
  | cons next more =>
    have hinside := run_inside_of_follow [first] hfollow rest
    simpa only [List.cons_append, List.nil_append, parts, Reader.run, Reader.feed, Reader.start, hfirst] using hinside

/-- A beginning of a character that breaks off is one ill-formed part, whatever comes after it. -/
theorem parts_of_breaks {first : UInt8} {ranges : List ByteRange} (hfirst : followers first = some ranges)
    (h : Breaks ranges stretch rest) : parts (first :: stretch ++ rest) = .illFormed (first :: stretch) :: parts rest := by
  cases ranges with
  | nil => cases h
  | cons next more =>
    have hinside := run_inside_of_breaks [first] h
    simpa only [List.cons_append, List.nil_append, parts, Reader.run, Reader.feed, Reader.start, hfirst] using hinside

/-- A character that is cut is one ill-formed part. -/
theorem WellFormed.parts_cut (h : WellFormed bytes) (hcut : cut <+: bytes) (hsome : cut ≠ []) (hne : cut ≠ bytes) :
    parts cut = [.illFormed cut] := by
  obtain ⟨first, following, ranges, rfl, hfirst, hfollow⟩ := h
  obtain ⟨byte, cut, rfl⟩ := List.exists_cons_of_ne_nil hsome
  obtain ⟨rfl, hrest⟩ := List.cons_prefix_cons.1 hcut
  have hshort : cut ≠ following := fun heq => hne (by rw [heq])
  have hparts := parts_of_breaks hfirst (breaks_of_cut hfollow hrest hshort)
  rwa [List.append_nil] at hparts

end

/-! ## Text -/

@[simp] theorem encode_nil : encode [] = [] := rfl

@[simp] theorem encode_cons (c : Char) (text : List Char) :
    encode (c :: text) = String.utf8EncodeChar c ++ encode text := rfl

@[simp] theorem encode_append (text text' : List Char) : encode (text ++ text') = encode text ++ encode text' :=
  List.flatMap_append

/-- Text in front of other bytes is read as itself, and the other bytes as if there were no text in front. -/
theorem parts_encode_append (text : List Char) (rest : Bytes) :
    parts (encode text ++ rest) = text.map .char ++ parts rest := by
  induction text with
  | nil => rfl
  | cons c text ih =>
    rw [encode_cons, List.append_assoc, (wellFormed_utf8EncodeChar c).parts_append, codePoint_utf8EncodeChar,
      Char.ofNat_toNat, ih]
    rfl

@[simp] theorem lossy_nil : lossy [] = [] := rfl

theorem lossy_encode_append (text : List Char) (rest : Bytes) : lossy (encode text ++ rest) = text ++ lossy rest := by
  rw [lossy, parts_encode_append, List.map_append, List.map_map]
  congr 1
  exact List.map_id text

/-- Text is read back from its UTF-8 form. -/
theorem lossy_encode (text : List Char) : lossy (encode text) = text := by
  have hread := lossy_encode_append text []
  rwa [List.append_nil, lossy_nil, List.append_nil] at hread

theorem encode_inj {text text' : List Char} : encode text = encode text' ↔ text = text' := by
  constructor
  · intro h
    rw [← lossy_encode text, h, lossy_encode]
  · exact congrArg encode

end ConsoleKit.Text.Utf8

import ConsoleKit.Proofs.Text.Characters

/-!
# Maximal ill-formed subparts

Bytes that need not be UTF-8 are read, from left to right, as characters and maximal ill-formed subparts. What such a
decomposition is can be said without a reader, by the forms of all characters alone (`MaximalSubpart`, `Decomposition`). Every
byte sequence has exactly one, and it is the one that the reader finds (`decomposition_iff`).

The reader knows a character by the ranges of the bytes behind its first one. This goes both ways: the form of a character
lies in its ranges, and what lies in the ranges is the form of a character (`WellFormed.exists_char`), so that what has broken
off could have become one.
-/

namespace ConsoleKit.Text.Utf8

/-! ## What a decomposition is -/

/-- A maximal ill-formed subpart at the beginning of some bytes. No character stands there, and it is the longest stretch
with which a character begins, or one byte with which none begins. -/
structure MaximalSubpart (subpart bytes : Bytes) : Prop where
  /-- No character stands at the beginning. -/
  unreadable : ∀ c, ¬ String.utf8EncodeChar c <+: bytes
  /-- It stands at the beginning. -/
  isPrefix : subpart <+: bytes
  /-- It is not empty. -/
  ne_nil : subpart ≠ []
  /-- Some character begins with it, or it is one byte. -/
  begins : (∃ c, subpart <+: String.utf8EncodeChar c) ∨ subpart.length = 1
  /-- No character begins with a longer stretch. -/
  longest : ∀ stretch c, stretch <+: bytes → stretch <+: String.utf8EncodeChar c → stretch.length ≤ subpart.length

/-- The parts of some bytes, from left to right: characters where they stand, and maximal ill-formed subparts elsewhere. -/
inductive Decomposition : Bytes → List Part → Prop where
  /-- Nothing has no parts. -/
  | nil : Decomposition [] []
  /-- A character stands at the beginning. -/
  | char {rest : Bytes} {parts : List Part} (c : Char) (hrest : Decomposition rest parts) :
      Decomposition (String.utf8EncodeChar c ++ rest) (.char c :: parts)
  /-- No character stands at the beginning. -/
  | illFormed {subpart rest : Bytes} {parts : List Part} (hsubpart : MaximalSubpart subpart (subpart ++ rest))
      (hrest : Decomposition rest parts) : Decomposition (subpart ++ rest) (.illFormed subpart :: parts)

section

variable {first second third fourth : UInt8} {ranges : List ByteRange} {bytes stretch rest following other subpart : Bytes}
  {parts' : List Part}

/-! ## From ranges to characters -/

theorem continuation_inv {byte : UInt8} (h : continuation.contains byte = true) :
    0x80 ≤ byte.toNat ∧ byte.toNat ≤ 0xBF := by
  simpa only [contains_iff, continuation, UInt8.reduceToNat] using h

/-- What has to follow a first byte, by the number of bytes that have to follow it. -/
theorem followers_inv (h : followers first = some ranges) :
    first.toNat < 0x80 ∧ ranges = [] ∨
    0xC2 ≤ first.toNat ∧ first.toNat < 0xE0 ∧ ranges = [continuation] ∨
    0xE0 ≤ first.toNat ∧ first.toNat < 0xF0 ∧ (∃ range, ranges = [range, continuation] ∧
      0x80 ≤ range.low.toNat ∧ range.high.toNat ≤ 0xBF ∧
      (first.toNat = 0xE0 → 0xA0 ≤ range.low.toNat) ∧ (first.toNat = 0xED → range.high.toNat ≤ 0x9F)) ∨
    0xF0 ≤ first.toNat ∧ first.toNat < 0xF5 ∧ ∃ range, ranges = [range, continuation, continuation] ∧
      0x80 ≤ range.low.toNat ∧ range.high.toNat ≤ 0xBF ∧
      (first.toNat = 0xF0 → 0x90 ≤ range.low.toNat) ∧ (first.toNat = 0xF4 → range.high.toNat ≤ 0x8F) := by
  simp only [followers, UInt8.lt_iff_toNat_lt, ← UInt8.toNat_inj, UInt8.reduceToNat] at h
  -- One case for each line of the table that has ranges.
  split_ifs at h
  all_goals cases h
  · exact .inl ⟨by omega, rfl⟩
  · exact .inr (.inl ⟨by omega, by omega, rfl⟩)
  · exact .inr (.inr (.inl ⟨by omega, by omega, _, rfl, by decide, by decide, fun _ => by decide, by omega⟩))
  · exact .inr (.inr (.inl ⟨by omega, by omega, _, rfl, by decide, by decide, by omega, fun _ => by decide⟩))
  · exact .inr (.inr (.inl ⟨by omega, by omega, _, rfl, by decide, by decide, by omega, by omega⟩))
  · exact .inr (.inr (.inr ⟨by omega, by omega, _, rfl, by decide, by decide, fun _ => by decide, by omega⟩))
  · exact .inr (.inr (.inr ⟨by omega, by omega, _, rfl, by decide, by decide, by omega, by omega⟩))
  · exact .inr (.inr (.inr ⟨by omega, by omega, _, rfl, by decide, by decide, by omega, fun _ => by decide⟩))

/-- The form of the character with a given code point. -/
theorem utf8EncodeChar_ofNat {value : Nat} (h : value < 0xD800 ∨ 0xDFFF < value ∧ value < 0x110000) :
    String.utf8EncodeChar (Char.ofNat value) =
      if value ≤ 0x7F then [UInt8.ofNat value]
      else if value ≤ 0x7FF then [UInt8.ofNat (value / 0x40 % 0x20 + 0xC0), UInt8.ofNat (value % 0x40 + 0x80)]
      else if value ≤ 0xFFFF then
        [UInt8.ofNat (value / 0x1000 % 0x10 + 0xE0), UInt8.ofNat (value / 0x40 % 0x40 + 0x80),
          UInt8.ofNat (value % 0x40 + 0x80)]
      else
        [UInt8.ofNat (value / 0x40000 % 0x08 + 0xF0), UInt8.ofNat (value / 0x1000 % 0x40 + 0x80),
          UInt8.ofNat (value / 0x40 % 0x40 + 0x80), UInt8.ofNat (value % 0x40 + 0x80)] := by
  have hvalue : (Char.ofNat value).val.toNat = value := by
    rw [Char.ofNat, dif_pos h]
    rfl
  rw [String.utf8EncodeChar, hvalue]

theorem eq_ofNat {byte : UInt8} {value : Nat} (h : byte.toNat = value) : byte = UInt8.ofNat value := by
  rw [← h, UInt8.ofNat_toNat]

theorem exists_char_of_one (hfirst : first.toNat < 0x80) : ∃ c, [first] = String.utf8EncodeChar c := by
  refine ⟨Char.ofNat first.toNat, ?_⟩
  rw [utf8EncodeChar_ofNat (by omega), if_pos (by omega), ← eq_ofNat rfl]

theorem exists_char_of_two (hlow : 0xC2 ≤ first.toNat) (hhigh : first.toNat < 0xE0)
    (hsecond : 0x80 ≤ second.toNat ∧ second.toNat ≤ 0xBF) : ∃ c, [first, second] = String.utf8EncodeChar c := by
  refine ⟨Char.ofNat (first.toNat % 0x20 * 0x40 + second.toNat % 0x40), ?_⟩
  rw [utf8EncodeChar_ofNat (by omega), if_neg (by omega), if_pos (by omega)]
  congr
  · exact eq_ofNat (by omega)
  · exact eq_ofNat (by omega)

theorem exists_char_of_three (hlow : 0xE0 ≤ first.toNat) (hhigh : first.toNat < 0xF0)
    (hsecond : 0x80 ≤ second.toNat ∧ second.toNat ≤ 0xBF) (hleast : first.toNat = 0xE0 → 0xA0 ≤ second.toNat)
    (hscalar : first.toNat = 0xED → second.toNat ≤ 0x9F) (hthird : 0x80 ≤ third.toNat ∧ third.toNat ≤ 0xBF) :
    ∃ c, [first, second, third] = String.utf8EncodeChar c := by
  refine ⟨Char.ofNat (first.toNat % 0x10 * 0x1000 + second.toNat % 0x40 * 0x40 + third.toNat % 0x40), ?_⟩
  rw [utf8EncodeChar_ofNat (by omega), if_neg (by omega), if_neg (by omega), if_pos (by omega)]
  congr
  · exact eq_ofNat (by omega)
  · exact eq_ofNat (by omega)
  · exact eq_ofNat (by omega)

theorem exists_char_of_four (hlow : 0xF0 ≤ first.toNat) (hhigh : first.toNat < 0xF5)
    (hsecond : 0x80 ≤ second.toNat ∧ second.toNat ≤ 0xBF) (hleast : first.toNat = 0xF0 → 0x90 ≤ second.toNat)
    (hgreatest : first.toNat = 0xF4 → second.toNat ≤ 0x8F) (hthird : 0x80 ≤ third.toNat ∧ third.toNat ≤ 0xBF)
    (hfourth : 0x80 ≤ fourth.toNat ∧ fourth.toNat ≤ 0xBF) :
    ∃ c, [first, second, third, fourth] = String.utf8EncodeChar c := by
  refine ⟨Char.ofNat (first.toNat % 0x08 * 0x40000 + second.toNat % 0x40 * 0x1000 + third.toNat % 0x40 * 0x40 +
    fourth.toNat % 0x40), ?_⟩
  rw [utf8EncodeChar_ofNat (by omega), if_neg (by omega), if_neg (by omega), if_neg (by omega)]
  congr
  · exact eq_ofNat (by omega)
  · exact eq_ofNat (by omega)
  · exact eq_ofNat (by omega)
  · exact eq_ofNat (by omega)

/-- A first byte with the bytes that have to follow it is the form of a character. -/
theorem WellFormed.exists_char (h : WellFormed bytes) : ∃ c, bytes = String.utf8EncodeChar c := by
  obtain ⟨first, following, ranges, rfl, hfirst, hfollow⟩ := h
  rcases followers_inv hfirst with ⟨hlow, rfl⟩ | ⟨hlow, hhigh, rfl⟩ | ⟨hlow, hhigh, range, rfl, hleast, hmost, hlonger, hscalar⟩ |
    ⟨hlow, hhigh, range, rfl, hleast, hmost, hlonger, hgreatest⟩
  · obtain rfl : following = [] := List.forall₂_nil_left_iff.1 hfollow
    exact exists_char_of_one hlow
  · obtain _ | ⟨hsecond, hnone⟩ := hfollow
    obtain rfl := List.forall₂_nil_left_iff.1 hnone
    exact exists_char_of_two hlow hhigh (continuation_inv hsecond)
  · obtain _ | ⟨hsecond, _ | ⟨hthird, hnone⟩⟩ := hfollow
    obtain rfl := List.forall₂_nil_left_iff.1 hnone
    obtain ⟨hlow', hhigh'⟩ := (contains_iff _ _).1 hsecond
    exact exists_char_of_three hlow hhigh ⟨by omega, by omega⟩ (by omega) (by omega) (continuation_inv hthird)
  · obtain _ | ⟨hsecond, _ | ⟨hthird, _ | ⟨hfourth, hnone⟩⟩⟩ := hfollow
    obtain rfl := List.forall₂_nil_left_iff.1 hnone
    obtain ⟨hlow', hhigh'⟩ := (contains_iff _ _).1 hsecond
    exact exists_char_of_four hlow hhigh ⟨by omega, by omega⟩ (by omega) (by omega) (continuation_inv hthird)
      (continuation_inv hfourth)

/-! ## Where bytes break off -/

/-- Bytes go on as they have to, or break off somewhere. -/
theorem follow_or_breaks (ranges : List ByteRange) (bytes : Bytes) :
    (∃ following rest, bytes = following ++ rest ∧ Follow ranges following) ∨
      ∃ stretch rest, bytes = stretch ++ rest ∧ Breaks ranges stretch rest := by
  induction ranges generalizing bytes with
  | nil => exact .inl ⟨[], bytes, rfl, follow_nil⟩
  | cons range ranges ih =>
    by_cases hhead : ∃ byte, bytes.head? = some byte ∧ range.contains byte = true
    · obtain ⟨byte, hbyte, hcontains⟩ := hhead
      obtain ⟨bytes, rfl⟩ := List.head?_eq_some_iff.1 hbyte
      rcases ih bytes with ⟨following, rest, rfl, hfollow⟩ | ⟨stretch, rest, rfl, hbreaks⟩
      · exact .inl ⟨byte :: following, rest, rfl, follow_cons.2 ⟨hcontains, hfollow⟩⟩
      · exact .inr ⟨byte :: stretch, rest, rfl, .later hcontains hbreaks⟩
    · refine .inr ⟨[], bytes, rfl, .here fun byte hbyte => ?_⟩
      rw [Bool.eq_false_iff]
      exact fun hcontains => hhead ⟨byte, hbyte, hcontains⟩

theorem Breaks.length_lt (h : Breaks ranges stretch rest) : stretch.length < ranges.length := by
  induction h with
  | here hstop =>
    rw [List.length_nil, List.length_cons]
    omega
  | later hcontains hbreaks ih =>
    rw [List.length_cons, List.length_cons]
    omega

/-- What has broken off could have gone on, if there is a byte in each of the ranges. -/
theorem Breaks.exists_follow (h : Breaks ranges stretch rest) (hranges : ∀ range ∈ ranges, range.contains range.low = true) :
    ∃ missing, Follow ranges (stretch ++ missing) := by
  induction h with
  | @here range ranges rest hstop =>
    refine ⟨(range :: ranges).map ByteRange.low, ?_⟩
    rw [List.nil_append, Follow, List.forall₂_map_right_iff, List.forall₂_same]
    exact hranges
  | later hcontains hbreaks ih =>
    obtain ⟨missing, hmissing⟩ := ih fun range hrange => hranges range (.tail _ hrange)
    exact ⟨missing, follow_cons.2 ⟨hcontains, hmissing⟩⟩

/-- No bytes that go on as they have to agree with those that break off any further. -/
theorem Breaks.length_le (h : Breaks ranges stretch rest) (hfollow : Follow ranges following) (hfollowing : other <+: following)
    (hbytes : other <+: stretch ++ rest) : other.length ≤ stretch.length := by
  induction h generalizing following other with
  | here hstop =>
    cases other with
    | nil => exact Nat.le_refl 0
    | cons byte other =>
      obtain ⟨later, rfl⟩ := hbytes
      cases hfollow with
      | cons hcontains hmore =>
        obtain ⟨rfl, -⟩ := List.cons_prefix_cons.1 hfollowing
        rw [hstop byte rfl] at hcontains
        cases hcontains
  | later hcontains hbreaks ih =>
    cases other with
    | nil => exact Nat.zero_le _
    | cons byte other =>
      cases hfollow with
      | cons hcontains' hmore =>
        obtain ⟨-, hother⟩ := List.cons_prefix_cons.1 hfollowing
        obtain ⟨-, hother'⟩ := List.cons_prefix_cons.1 hbytes
        exact Nat.succ_le_succ (ih hmore hother hother')

/-! ## The first part -/

theorem followers_low (h : followers first = some ranges) : ∀ range ∈ ranges, range.contains range.low = true := by
  unfold followers at h
  split_ifs at h
  all_goals
    cases h
    decide

/-- What has to follow the first byte of a character follows it. -/
theorem follow_of_char {c : Char} (hfirst : followers first = some ranges) (h : first :: following = String.utf8EncodeChar c) :
    Follow ranges following := by
  obtain ⟨first', following', ranges', hform, hfirst', hfollow⟩ := wellFormed_utf8EncodeChar c
  obtain ⟨rfl, rfl⟩ := List.cons.inj (h.trans hform)
  obtain rfl : ranges = ranges' := Option.some.inj (hfirst.symm.trans hfirst')
  exact hfollow

/-- What a character and a byte have in common is nothing, if no character begins with the byte. -/
theorem eq_nil_of_followers_none {c : Char} (hfirst : followers first = none) (hbytes : other <+: first :: rest)
    (hchar : other <+: String.utf8EncodeChar c) : other = [] := by
  obtain ⟨first', following, ranges, hform, hfirst', -⟩ := wellFormed_utf8EncodeChar c
  cases other with
  | nil => rfl
  | cons byte other =>
    obtain ⟨rfl, -⟩ := List.cons_prefix_cons.1 hbytes
    rw [hform] at hchar
    obtain ⟨rfl, -⟩ := List.cons_prefix_cons.1 hchar
    rw [hfirst] at hfirst'
    cases hfirst'

/-- A byte with which no character begins is a maximal subpart. -/
theorem maximalSubpart_of_followers_none (hfirst : followers first = none) (rest : Bytes) :
    MaximalSubpart [first] (first :: rest) where
  unreadable c hc := by
    obtain ⟨first', following, ranges, hform, -⟩ := wellFormed_utf8EncodeChar c
    have hnil := eq_nil_of_followers_none hfirst hc (List.prefix_refl _)
    rw [hform] at hnil
    cases hnil
  isPrefix := ⟨rest, rfl⟩
  ne_nil := by simp
  begins := .inr rfl
  longest stretch c hbytes hchar := by
    rw [eq_nil_of_followers_none hfirst hbytes hchar]
    exact Nat.zero_le _

/-- A beginning of a character that breaks off is a maximal subpart. -/
theorem maximalSubpart_of_breaks (hfirst : followers first = some ranges) (h : Breaks ranges stretch rest) :
    MaximalSubpart (first :: stretch) (first :: stretch ++ rest) where
  unreadable c hc := by
    obtain ⟨first', following, ranges', hform, -⟩ := wellFormed_utf8EncodeChar c
    rw [hform] at hc
    obtain ⟨rfl, hfollowing⟩ := List.cons_prefix_cons.1 hc
    have hfollow := follow_of_char hfirst hform.symm
    have hle := h.length_le hfollow (List.prefix_refl _) hfollowing
    have hlt := h.length_lt
    have heq := List.Forall₂.length_eq hfollow
    omega
  isPrefix := List.prefix_append _ _
  ne_nil := by simp
  begins := by
    obtain ⟨missing, hfollow⟩ := h.exists_follow (followers_low hfirst)
    have hwellFormed : WellFormed (first :: stretch ++ missing) := ⟨first, stretch ++ missing, ranges, rfl, hfirst, hfollow⟩
    obtain ⟨c, hc⟩ := hwellFormed.exists_char
    exact .inl ⟨c, missing, hc⟩
  longest other c hbytes hchar := by
    cases other with
    | nil => exact Nat.zero_le _
    | cons byte other =>
      obtain ⟨rfl, hother⟩ := List.cons_prefix_cons.1 hbytes
      obtain ⟨later, hform⟩ := hchar
      have hfollow := follow_of_char hfirst hform
      exact Nat.succ_le_succ (h.length_le hfollow (List.prefix_append other later) hother)

/-- At the beginning of some bytes there is a character, or a maximal subpart that is read as one part. -/
theorem exists_first_part (first : UInt8) (bytes : Bytes) :
    (∃ c rest, first :: bytes = String.utf8EncodeChar c ++ rest) ∨
      ∃ subpart rest, first :: bytes = subpart ++ rest ∧ MaximalSubpart subpart (first :: bytes) ∧
        parts (first :: bytes) = .illFormed subpart :: parts rest := by
  cases hfirst : followers first with
  | none =>
    refine .inr ⟨[first], bytes, rfl, maximalSubpart_of_followers_none hfirst bytes, ?_⟩
    simp only [parts, Reader.run, Reader.feed, Reader.start, hfirst, List.cons_append, List.nil_append]
  | some ranges =>
    rcases follow_or_breaks ranges bytes with ⟨following, rest, rfl, hfollow⟩ | ⟨stretch, rest, rfl, hbreaks⟩
    · have hwellFormed : WellFormed (first :: following) := ⟨first, following, ranges, rfl, hfirst, hfollow⟩
      obtain ⟨c, hc⟩ := hwellFormed.exists_char
      exact .inl ⟨c, rest, by rw [← hc, List.cons_append]⟩
    · exact .inr ⟨first :: stretch, rest, rfl, maximalSubpart_of_breaks hfirst hbreaks, parts_of_breaks hfirst hbreaks⟩

/-! ## Decompositions -/

theorem parts_char_append (c : Char) (rest : Bytes) : parts (String.utf8EncodeChar c ++ rest) = .char c :: parts rest := by
  rw [(wellFormed_utf8EncodeChar c).parts_append, codePoint_utf8EncodeChar, Char.ofNat_toNat]

/-- There is only one maximal subpart at the beginning of some bytes. -/
theorem MaximalSubpart.unique (h : MaximalSubpart subpart bytes) (h' : MaximalSubpart other bytes) : subpart = other := by
  have hle {a b : Bytes} (ha : MaximalSubpart a bytes) (hb : MaximalSubpart b bytes) : a.length ≤ b.length := by
    rcases ha.begins with ⟨c, hc⟩ | hone
    · exact hb.longest a c ha.isPrefix hc
    · have hpos := List.length_pos_iff.2 hb.ne_nil
      omega
  have hprefix := List.prefix_of_prefix_length_le h.isPrefix h'.isPrefix (hle h h')
  exact hprefix.eq_of_length_le (hle h' h)

/-- A maximal subpart is read as one part. -/
theorem MaximalSubpart.parts_append (h : MaximalSubpart subpart (subpart ++ rest)) :
    parts (subpart ++ rest) = .illFormed subpart :: parts rest := by
  obtain ⟨first, stretch, rfl⟩ := List.exists_cons_of_ne_nil h.ne_nil
  rcases exists_first_part first (stretch ++ rest) with ⟨c, rest', hchar⟩ | ⟨subpart', rest', hbytes, hsubpart, hparts⟩
  · exact absurd ⟨rest', hchar.symm⟩ (h.unreadable c)
  · obtain rfl : first :: stretch = subpart' := h.unique hsubpart
    have hrest : first :: stretch ++ rest = first :: stretch ++ rest' := hbytes
    obtain rfl : rest = rest' := List.append_cancel_left hrest
    exact hparts

/-- What the reader finds is a decomposition. The induction is on the number of bytes: every part takes some of them. -/
theorem decomposition_parts (bytes : Bytes) : Decomposition bytes (parts bytes) := by
  induction hlength : bytes.length using Nat.strongRecOn generalizing bytes with
  | ind length ih =>
    cases bytes with
    | nil => exact .nil
    | cons first bytes =>
      rcases exists_first_part first bytes with ⟨c, rest, hchar⟩ | ⟨subpart, rest, hbytes, hsubpart, hparts⟩
      · rw [hchar, parts_char_append]
        have hpos := c.utf8Size_pos
        refine .char c (ih rest.length ?_ rest rfl)
        rw [← hlength, hchar, List.length_append, String.length_utf8EncodeChar]
        omega
      · have hpos := List.length_pos_iff.2 hsubpart.ne_nil
        rw [hparts]
        rw [hbytes] at hsubpart hlength ⊢
        refine .illFormed hsubpart (ih rest.length ?_ rest rfl)
        rw [← hlength, List.length_append]
        omega

/-- **The parts of some bytes are what the reader finds.** There is one decomposition and no other. -/
theorem decomposition_iff : Decomposition bytes parts' ↔ parts' = parts bytes := by
  constructor
  · intro h
    induction h with
    | nil => rfl
    | char c hrest ih => rw [parts_char_append, ih]
    | illFormed hsubpart hrest ih => rw [hsubpart.parts_append, ih]
  · rintro rfl
    exact decomposition_parts bytes

/-- A character that breaks off in front of another one, and two bytes with which none begins: the long form of a slash. -/
example : parts [0xF0, 0x9F, 0x92, 0x41, 0xC0, 0xAF] =
    [.illFormed [0xF0, 0x9F, 0x92], .char 'A', .illFormed [0xC0], .illFormed [0xAF]] := by
  decide

end

/-! ## What is shown -/

/-- What is shown for a part, in UTF-8: a character as it is, and U+FFFD for a maximal subpart. -/
def Part.shown : Part → Bytes
  | .char c => String.utf8EncodeChar c
  | .illFormed _ => [0xEF, 0xBF, 0xBD]

theorem encode_lossy (bytes : Bytes) : encode (lossy bytes) = (parts bytes).flatMap Part.shown := by
  unfold lossy encode
  rw [List.flatMap_map]
  congr 1
  funext part
  cases part with
  | char c => rfl
  | illFormed bytes =>
    show String.utf8EncodeChar replacement = [0xEF, 0xBF, 0xBD]
    decide

theorem isValidUTF8_iff {bytes : Bytes} : bytes.toByteArray.IsValidUTF8 ↔ ∃ text, bytes = encode text := by
  constructor
  · rintro ⟨text, htext⟩
    exact ⟨text, List.toByteArray_inj.1 htext⟩
  · rintro ⟨text, rfl⟩
    exact ⟨text, rfl⟩

/-- Of bytes that are UTF-8, what is shown is the bytes. -/
theorem encode_lossy_of_isValidUTF8 {bytes : Bytes} (h : bytes.toByteArray.IsValidUTF8) : encode (lossy bytes) = bytes := by
  obtain ⟨text, rfl⟩ := isValidUTF8_iff.1 h
  rw [lossy_encode]

/-- Behind bytes that are UTF-8, other bytes are read as if they stood alone. -/
theorem lossy_append_of_isValidUTF8 {bytes : Bytes} (h : bytes.toByteArray.IsValidUTF8) (rest : Bytes) :
    lossy (bytes ++ rest) = lossy bytes ++ lossy rest := by
  obtain ⟨text, rfl⟩ := isValidUTF8_iff.1 h
  rw [lossy_encode_append, lossy_encode]

end ConsoleKit.Text.Utf8

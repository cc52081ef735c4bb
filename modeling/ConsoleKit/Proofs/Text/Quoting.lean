import ConsoleKit.Proofs.Text.Subparts
import ConsoleKit.Text.Quoted

/-!
# Quoted text can be read back

Between the quotes stands a row of signs, each for a character or for one byte that is part of none. A reader can tell where
a sign ends, which one it is, and that it is not the closing quote (`Sign.written_inj`, `Sign.written_ne_quote`), so that a
quoted text tells where it ends and what was quoted, whatever comes after it (`ofBytes_append_inj`). It does not matter for
this which characters are shown by their code points.
-/

namespace ConsoleKit.Text.Quoted

open Utf8 (Part)

/-! ## Digits -/

theorem digitChar_inj {a b : Nat} (ha : a < 16) (hb : b < 16) (h : a.digitChar = b.digitChar) : a = b := by
  have hall : ∀ a < 16, ∀ b < 16, a.digitChar = b.digitChar → a = b := by decide
  exact hall a ha b hb h

theorem toUpper_digitChar_inj {a b : Nat} (ha : a < 16) (hb : b < 16) (h : a.digitChar.toUpper = b.digitChar.toUpper) :
    a = b := by
  have hall : ∀ a < 16, ∀ b < 16, a.digitChar.toUpper = b.digitChar.toUpper → a = b := by decide
  exact hall a ha b hb h

theorem digitChar_ne_brace {a : Nat} (ha : a < 16) : a.digitChar ≠ '\x7d' := by
  have hall : ∀ a < 16, a.digitChar ≠ '\x7d' := by decide
  exact hall a ha

/-- The digits of a number, the last one apart. -/
theorem toDigits_split (n : Nat) :
    n < 16 ∧ Nat.toDigits 16 n = [n.digitChar] ∨
      16 ≤ n ∧ Nat.toDigits 16 n = Nat.toDigits 16 (n / 16) ++ [(n % 16).digitChar] := by
  by_cases h : n < 16
  · exact .inl ⟨h, Nat.toDigits_of_lt_base h⟩
  · exact .inr ⟨by omega, Nat.toDigits_of_base_le (by decide) (by omega)⟩

theorem brace_notMem_toDigits (n : Nat) : '\x7d' ∉ Nat.toDigits 16 n := by
  induction n using Nat.strongRecOn with
  | ind n ih =>
    rcases toDigits_split n with ⟨hlt, hdigits⟩ | ⟨hle, hdigits⟩
    · rw [hdigits, List.mem_singleton]
      exact (digitChar_ne_brace hlt).symm
    · rw [hdigits, List.mem_append, List.mem_singleton, not_or]
      exact ⟨ih (n / 16) (by omega), (digitChar_ne_brace (Nat.mod_lt n (by decide))).symm⟩

theorem toDigits_inj {n m : Nat} (h : Nat.toDigits 16 n = Nat.toDigits 16 m) : n = m := by
  induction n using Nat.strongRecOn generalizing m with
  | ind n ih =>
    rcases toDigits_split n with ⟨hlt, hn⟩ | ⟨hle, hn⟩
    · rcases toDigits_split m with ⟨hlt', hm⟩ | ⟨-, hm⟩
      · rw [hn, hm, List.singleton_inj] at h
        exact digitChar_inj hlt hlt' h
      · rw [hn, hm, ← List.nil_append [n.digitChar]] at h
        exact absurd (List.append_inj' h rfl).1.symm Nat.toDigits_ne_nil
    · rcases toDigits_split m with ⟨-, hm⟩ | ⟨hle', hm⟩
      · rw [hn, hm, ← List.nil_append [m.digitChar]] at h
        exact absurd (List.append_inj' h rfl).1 Nat.toDigits_ne_nil
      · rw [hn, hm] at h
        obtain ⟨hfront, hlast⟩ := List.append_inj' h rfl
        have hquotient := ih (n / 16) (by omega) hfront
        have hremainder := digitChar_inj (Nat.mod_lt n (by decide)) (Nat.mod_lt m (by decide)) (List.singleton_inj.1 hlast)
        omega

/-! ## What has an end can be told from what comes after it -/

/-- Two stretches without a mark, each up to the first mark. -/
theorem append_mark_inj {α : Type} {mark : α} {a b x y : List α} (ha : mark ∉ a) (hb : mark ∉ b)
    (h : a ++ mark :: x = b ++ mark :: y) : a = b ∧ x = y := by
  rcases List.append_eq_append_iff.1 h with ⟨rest, rfl, hrest⟩ | ⟨rest, rfl, hrest⟩
  · cases rest with
    | nil => simpa using hrest
    | cons head rest =>
      obtain ⟨rfl, -⟩ := List.cons.inj hrest
      exact absurd (List.mem_append_right _ List.mem_cons_self) hb
  · cases rest with
    | nil => simpa [eq_comm] using hrest
    | cons head rest =>
      obtain ⟨rfl, -⟩ := List.cons.inj hrest
      exact absurd (List.mem_append_right _ List.mem_cons_self) ha

/-! ## Signs -/

/-- What stands between the quotes stands for characters, and for bytes that are part of none. -/
inductive Sign where
  | char (c : Char)
  | byte (value : UInt8)

/-- How a sign is written. -/
def Sign.written : Sign → List Char
  | .char c => escapeChar c
  | .byte value => escapeByte value

/-- What a sign stands for. -/
def Sign.bytes : Sign → Bytes
  | .char c => String.utf8EncodeChar c
  | .byte value => [value]

/-- The letter of an escape, and the character that it stands for. -/
def lettered : List (Char × Char) :=
  [('"', '"'), ('\\', '\\'), ('0', '\x00'), ('t', '\t'), ('n', '\n'), ('r', '\r')]

/-- A sign is a character as it is; or an escape by a letter, by a code point, or by the value of a byte. -/
theorem Sign.written_cases (sign : Sign) :
    (∃ c, sign = .char c ∧ c ≠ '"' ∧ c ≠ '\\' ∧ sign.written = [c]) ∨
      (∃ letter c, sign = .char c ∧ (letter, c) ∈ lettered ∧ sign.written = ['\\', letter]) ∨
      (∃ c, sign = .char c ∧ sign.written = ['\\', 'u', '\x7b'] ++ Nat.toDigits 16 c.toNat ++ ['\x7d']) ∨
      ∃ value, sign = .byte value ∧ sign.written = escapeByte value := by
  cases sign with
  | byte value => exact .inr (.inr (.inr ⟨value, rfl, rfl⟩))
  | char c =>
    simp only [written, escapeChar]
    split_ifs with hquote hbackslash hnul htab hnewline hreturn hconcealed
    · exact .inr (.inl ⟨_, c, rfl, by simp [lettered, hquote], rfl⟩)
    · exact .inr (.inl ⟨_, c, rfl, by simp [lettered, hbackslash], rfl⟩)
    · exact .inr (.inl ⟨_, c, rfl, by simp [lettered, hnul], rfl⟩)
    · exact .inr (.inl ⟨_, c, rfl, by simp [lettered, htab], rfl⟩)
    · exact .inr (.inl ⟨_, c, rfl, by simp [lettered, hnewline], rfl⟩)
    · exact .inr (.inl ⟨_, c, rfl, by simp [lettered, hreturn], rfl⟩)
    · exact .inr (.inr (.inl ⟨c, rfl, rfl⟩))
    · exact .inl ⟨c, rfl, hquote, hbackslash, rfl⟩

theorem lettered_inj {letter c c' : Char} (h : (letter, c) ∈ lettered) (h' : (letter, c') ∈ lettered) : c = c' := by
  have hall : ∀ entry ∈ lettered, ∀ entry' ∈ lettered, entry.1 = entry'.1 → entry.2 = entry'.2 := by decide
  exact hall _ h _ h' rfl

theorem lettered_ne {letter c : Char} (h : (letter, c) ∈ lettered) : letter ≠ 'u' ∧ letter ≠ 'x' := by
  have hall : ∀ entry ∈ lettered, entry.1 ≠ 'u' ∧ entry.1 ≠ 'x' := by decide
  exact hall _ h

theorem escapeByte_append_inj {byte byte' : UInt8} {x y : List Char} (h : escapeByte byte ++ x = escapeByte byte' ++ y) :
    byte = byte' ∧ x = y := by
  simp only [escapeByte, List.cons_append, List.nil_append, List.cons.injEq, true_and] at h
  obtain ⟨hhigh, hlow, hrest⟩ := h
  have hbyte := byte.toNat_lt
  have hbyte' := byte'.toNat_lt
  have hquotient := toUpper_digitChar_inj (by omega) (by omega) hhigh
  have hremainder := toUpper_digitChar_inj (by omega) (by omega) hlow
  exact ⟨UInt8.toNat_inj.1 (by omega), hrest⟩

theorem codePointEscape_append_inj {c c' : Char} {x y : List Char}
    (h : ['\\', 'u', '\x7b'] ++ Nat.toDigits 16 c.toNat ++ ['\x7d'] ++ x =
      ['\\', 'u', '\x7b'] ++ Nat.toDigits 16 c'.toNat ++ ['\x7d'] ++ y) : c = c' ∧ x = y := by
  simp only [List.append_assoc, List.singleton_append, List.append_cancel_left_eq] at h
  obtain ⟨hdigits, hrest⟩ := append_mark_inj (brace_notMem_toDigits _) (brace_notMem_toDigits _) h
  exact ⟨Char.toNat_inj.1 (toDigits_inj hdigits), hrest⟩

/-- **A sign can be told from every other one, whatever comes after it.** -/
theorem Sign.written_inj {a b : Sign} {x y : List Char} (h : a.written ++ x = b.written ++ y) : a = b ∧ x = y := by
  rcases a.written_cases with ⟨c, rfl, -, hplain, ha⟩ | ⟨letter, c, rfl, hmem, ha⟩ | ⟨c, rfl, ha⟩ | ⟨byte, rfl, ha⟩
  · rw [ha] at h
    rcases b.written_cases with ⟨c', rfl, -, -, hb⟩ | ⟨_, _, -, -, hb⟩ | ⟨_, -, hb⟩ | ⟨_, -, hb⟩
    · rw [hb] at h
      obtain ⟨rfl, rfl⟩ := List.cons.inj h
      exact ⟨rfl, rfl⟩
    -- Every escape begins with a backslash, and no plain character is one.
    all_goals
      rw [hb] at h
      exact absurd (List.cons.inj h).1 hplain
  · rw [ha] at h
    rcases b.written_cases with ⟨_, -, -, hplain, hb⟩ | ⟨letter', c', rfl, hmem', hb⟩ | ⟨_, -, hb⟩ | ⟨_, -, hb⟩
    · rw [hb] at h
      exact absurd (List.cons.inj h).1.symm hplain
    · rw [hb] at h
      obtain ⟨rfl, rfl⟩ := List.cons.inj (List.cons.inj h).2
      exact ⟨congrArg _ (lettered_inj hmem hmem'), rfl⟩
    · rw [hb] at h
      exact absurd (List.cons.inj (List.cons.inj h).2).1 (lettered_ne hmem).1
    · rw [hb] at h
      exact absurd (List.cons.inj (List.cons.inj h).2).1 (lettered_ne hmem).2
  · rw [ha] at h
    rcases b.written_cases with ⟨_, -, -, hplain, hb⟩ | ⟨letter', _, -, hmem', hb⟩ | ⟨c', rfl, hb⟩ | ⟨_, -, hb⟩
    · rw [hb] at h
      exact absurd (List.cons.inj h).1.symm hplain
    · rw [hb] at h
      exact absurd (List.cons.inj (List.cons.inj h).2).1.symm (lettered_ne hmem').1
    · rw [hb] at h
      obtain ⟨rfl, rfl⟩ := codePointEscape_append_inj h
      exact ⟨rfl, rfl⟩
    · rw [hb] at h
      exact absurd (List.cons.inj (List.cons.inj h).2).1 (by decide)
  · rw [ha] at h
    rcases b.written_cases with ⟨_, -, -, hplain, hb⟩ | ⟨letter', _, -, hmem', hb⟩ | ⟨_, -, hb⟩ | ⟨byte', rfl, hb⟩
    · rw [hb] at h
      exact absurd (List.cons.inj h).1.symm hplain
    · rw [hb] at h
      exact absurd (List.cons.inj (List.cons.inj h).2).1.symm (lettered_ne hmem').2
    · rw [hb] at h
      exact absurd (List.cons.inj (List.cons.inj h).2).1 (by decide)
    · rw [hb] at h
      obtain ⟨rfl, rfl⟩ := escapeByte_append_inj h
      exact ⟨rfl, rfl⟩

/-- No sign begins with the quote that ends the text. -/
theorem Sign.written_ne_quote (sign : Sign) (x y : List Char) : sign.written ++ x ≠ '"' :: y := by
  intro h
  rcases sign.written_cases with ⟨c, -, hquote, -, hwritten⟩ | ⟨_, _, -, -, hwritten⟩ | ⟨_, -, hwritten⟩ | ⟨_, -, hwritten⟩
  · rw [hwritten] at h
    exact hquote (List.cons.inj h).1
  all_goals
    rw [hwritten] at h
    exact absurd (List.cons.inj h).1 (by decide)

/-- A row of signs ends at the first quote, and can be read from its beginning. -/
theorem flatMap_written_inj {row row' : List Sign} {x y : List Char}
    (h : row.flatMap Sign.written ++ '"' :: x = row'.flatMap Sign.written ++ '"' :: y) : row = row' ∧ x = y := by
  induction row generalizing row' with
  | nil =>
    cases row' with
    | nil => exact ⟨rfl, (List.cons.inj h).2⟩
    | cons sign row' =>
      rw [List.flatMap_cons, List.append_assoc] at h
      exact absurd h.symm (sign.written_ne_quote _ _)
  | cons sign row ih =>
    rw [List.flatMap_cons, List.append_assoc] at h
    cases row' with
    | nil => exact absurd h (sign.written_ne_quote _ _)
    | cons sign' row' =>
      rw [List.flatMap_cons, List.append_assoc] at h
      obtain ⟨rfl, hrest⟩ := Sign.written_inj h
      obtain ⟨rfl, rfl⟩ := ih hrest
      exact ⟨rfl, rfl⟩

/-! ## Bytes -/

/-- The signs for a part. -/
def partSigns : Part → List Sign
  | .char c => [.char c]
  | .illFormed bytes => bytes.map .byte

/-- The signs for some bytes. -/
def signs (bytes : Bytes) : List Sign :=
  (Utf8.parts bytes).flatMap partSigns

theorem flatMap_written_partSigns (part : Part) : (partSigns part).flatMap Sign.written = escapePart part := by
  cases part with
  | char c => simp [partSigns, escapePart, Sign.written]
  | illFormed bytes => simp [partSigns, escapePart, Sign.written, List.flatMap_map]

theorem ofBytes_append (bytes : Bytes) (x : List Char) :
    ofBytes bytes ++ x = '"' :: ((signs bytes).flatMap Sign.written ++ '"' :: x) := by
  have hwritten : (signs bytes).flatMap Sign.written = (Utf8.parts bytes).flatMap escapePart := by
    rw [signs, List.flatMap_assoc]
    simp only [flatMap_written_partSigns]
  rw [hwritten, ofBytes, enclose]
  simp

theorem flatMap_bytes_of_decomposition {bytes : Bytes} {parts : List Part} (h : Utf8.Decomposition bytes parts) :
    (parts.flatMap partSigns).flatMap Sign.bytes = bytes := by
  induction h with
  | nil => rfl
  | char c _ ih => simp [partSigns, Sign.bytes, ih]
  | illFormed _ _ ih => simp [partSigns, Sign.bytes, List.flatMap_map, ih]

/-- Nothing is lost: the signs for some bytes stand for these bytes. -/
theorem flatMap_bytes_signs (bytes : Bytes) : (signs bytes).flatMap Sign.bytes = bytes :=
  flatMap_bytes_of_decomposition (Utf8.decomposition_parts bytes)

/-- **A quoted text tells where it ends and what was quoted.** -/
theorem ofBytes_append_inj {bytes bytes' : Bytes} {x y : List Char} (h : ofBytes bytes ++ x = ofBytes bytes' ++ y) :
    bytes = bytes' ∧ x = y := by
  rw [ofBytes_append, ofBytes_append] at h
  obtain ⟨hsigns, hrest⟩ := flatMap_written_inj (List.cons.inj h).2
  have hbytes := congrArg (List.flatMap Sign.bytes) hsigns
  rw [flatMap_bytes_signs, flatMap_bytes_signs] at hbytes
  exact ⟨hbytes, hrest⟩

end ConsoleKit.Text.Quoted

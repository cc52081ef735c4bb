/-!
# The decimal form of a number

The decimal form is given by what it is made of: a digit alone, or the decimal form of a number other than zero with one
more digit behind it. So no zero is in front of another digit. Every number has one decimal form, which is what is written
for it (`isDecimal_iff`), and the decimal form tells the number (`IsDecimal.number_unique`). It consists of digits only
(`IsDecimal.isDigit`), so that whatever is no digit can mark where it begins.
-/

namespace ConsoleKit.Text

/-- These digits are the decimal form of this number. -/
inductive IsDecimal : List Char → Nat → Prop where
  /-- A digit alone stands for its value. -/
  | digit {d : Nat} (hd : d < 10) : IsDecimal [d.digitChar] d
  /-- A digit behind the decimal form of a number other than zero. -/
  | append {front : List Char} {n d : Nat} (hfront : IsDecimal front n) (hn : 0 < n) (hd : d < 10) :
      IsDecimal (front ++ [d.digitChar]) (10 * n + d)

variable {digits : List Char} {n m : Nat}

/-- The digits that are written for a number are a decimal form of it. -/
theorem isDecimal_toDigits (n : Nat) : IsDecimal (Nat.toDigits 10 n) n := by
  induction n using Nat.strongRecOn with
  | ind n ih =>
    by_cases hdigit : n < 10
    · rw [Nat.toDigits_of_lt_base hdigit]
      exact .digit hdigit
    · rw [Nat.toDigits_of_base_le (by decide) (by omega)]
      have hfront : IsDecimal (Nat.toDigits 10 (n / 10)) (n / 10) := ih (n / 10) (by omega)
      have hwhole := hfront.append (by omega) (Nat.mod_lt n (by decide : 0 < 10))
      rwa [Nat.div_add_mod] at hwhole

/-- A number has no decimal form but the digits that are written for it. -/
theorem IsDecimal.eq_toDigits (h : IsDecimal digits n) : digits = Nat.toDigits 10 n := by
  induction h with
  | digit hd => exact (Nat.toDigits_of_lt_base hd).symm
  | append hfront hn hd ih =>
    rw [ih, ← Nat.toDigits_of_lt_base hd]
    exact Nat.toDigits_append_toDigits (by decide) hn hd

theorem isDecimal_iff : IsDecimal digits n ↔ digits = Nat.toDigits 10 n := by
  constructor
  · exact IsDecimal.eq_toDigits
  · rintro rfl
    exact isDecimal_toDigits n

/-- Read position by position, the digits amount to the number. -/
theorem IsDecimal.ofDigitChars_eq (h : IsDecimal digits n) : Nat.ofDigitChars 10 digits 0 = n := by
  rw [h.eq_toDigits]
  exact Nat.ofDigitChars_ten_toDigits

/-- No digits are the decimal form of two numbers. -/
theorem IsDecimal.number_unique (h : IsDecimal digits n) (h' : IsDecimal digits m) : n = m :=
  h.ofDigitChars_eq.symm.trans h'.ofDigitChars_eq

theorem IsDecimal.isDigit (h : IsDecimal digits n) {c : Char} (hc : c ∈ digits) : c.isDigit := by
  rw [h.eq_toDigits] at hc
  exact Nat.isDigit_of_mem_toDigits (by decide) (by decide) hc

end ConsoleKit.Text

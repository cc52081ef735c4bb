import ConsoleKit.Bytes

/-!
# File names

The name of a directory entry: any bytes but a slash and NUL, not empty, not one of the two names that every
directory gives to itself and to its parent, and no longer than the system allows. Names are ordered by their
bytes.
-/

namespace ConsoleKit

/-- The byte that separates the names in a path. -/
def slash : UInt8 := 0x2F

/-- The byte that makes up the names for a directory itself and for its parent. -/
def dot : UInt8 := 0x2E

namespace FileName

/-- The greatest length of a name. -/
def maxLength : Nat := 255

/-- The bytes that can be the name of a directory entry. -/
structure Valid (bytes : Bytes) : Prop where
  /-- A name is not empty. -/
  ne_nil : bytes ≠ []
  /-- A name is not the name for the directory itself. -/
  ne_current : bytes ≠ [dot]
  /-- A name is not the name for the parent directory. -/
  ne_parent : bytes ≠ [dot, dot]
  /-- A name holds no slash. -/
  slash_notMem : slash ∉ bytes
  /-- A name holds no NUL. -/
  nul_notMem : 0 ∉ bytes
  /-- A name is not too long. -/
  length_le : bytes.length ≤ maxLength

theorem valid_iff {bytes : Bytes} :
    Valid bytes ↔ bytes ≠ [] ∧ bytes ≠ [dot] ∧ bytes ≠ [dot, dot] ∧ slash ∉ bytes ∧ 0 ∉ bytes ∧
      bytes.length ≤ maxLength :=
  ⟨fun h => ⟨h.ne_nil, h.ne_current, h.ne_parent, h.slash_notMem, h.nul_notMem, h.length_le⟩,
    fun ⟨h₁, h₂, h₃, h₄, h₅, h₆⟩ => ⟨h₁, h₂, h₃, h₄, h₅, h₆⟩⟩

/-- Whether bytes are neither empty nor a name that every directory has. -/
def isOrdinary : Bytes → Bool
  | [] => false
  | [byte] => byte != dot
  | [byte, byte'] => byte != dot || byte' != dot
  | _ => true

theorem isOrdinary_iff {bytes : Bytes} :
    isOrdinary bytes = true ↔ bytes ≠ [] ∧ bytes ≠ [dot] ∧ bytes ≠ [dot, dot] := by
  fun_cases isOrdinary bytes <;> simp_all [Decidable.imp_iff_not_or]

/-- Whether bytes can be the name of a directory entry. -/
def isValid (bytes : Bytes) : Bool :=
  isOrdinary bytes && bytes.all (fun byte => byte != slash && byte != 0) && bytes.length ≤ maxLength

theorem isValid_iff {bytes : Bytes} : isValid bytes = true ↔ Valid bytes := by
  have hall : (bytes.all fun byte => byte != slash && byte != 0) = true ↔
      slash ∉ bytes ∧ 0 ∉ bytes := by
    simp only [List.all_eq_true, Bool.and_eq_true, bne_iff_ne, ne_eq]
    exact ⟨fun h => ⟨fun hm => (h _ hm).1 rfl, fun hm => (h _ hm).2 rfl⟩,
      fun h byte hm => ⟨fun he => h.1 (he ▸ hm), fun he => h.2 (he ▸ hm)⟩⟩
  rw [valid_iff, isValid, Bool.and_eq_true, Bool.and_eq_true, isOrdinary_iff, hall, decide_eq_true_eq]
  simp only [and_assoc]

instance (bytes : Bytes) : Decidable (Valid bytes) :=
  decidable_of_iff _ isValid_iff

end FileName

/-- The name of a directory entry. -/
structure FileName where
  /-- The bytes of the name. -/
  bytes : Bytes
  /-- The bytes can be a name. -/
  valid : FileName.Valid bytes
  deriving Repr

namespace FileName

theorem ext {a b : FileName} (h : a.bytes = b.bytes) : a = b := by
  cases a; cases b; cases h; rfl

instance : DecidableEq FileName := fun a b =>
  decidable_of_iff (a.bytes.isEq b.bytes = true)
    ⟨fun h => ext (Bytes.isEq_iff.1 h), fun h => Bytes.isEq_iff.2 (congrArg bytes h)⟩

/-- The name with the given bytes, if they can be one. -/
def ofBytes? (bytes : Bytes) : Option FileName :=
  if h : Valid bytes then some ⟨bytes, h⟩ else none

instance : LT FileName :=
  ⟨fun a b => a.bytes < b.bytes⟩

instance (a b : FileName) : Decidable (a < b) :=
  inferInstanceAs (Decidable (a.bytes < b.bytes))

theorem lt_trans {a b c : FileName} (hab : a < b) (hbc : b < c) : a < c :=
  show a.bytes < c.bytes from List.lt_trans hab hbc

theorem lt_irrefl (a : FileName) : ¬ a < a :=
  List.lt_irrefl a.bytes

theorem lt_of_not_lt_of_ne {a b : FileName} (h : ¬ a < b) (hne : a ≠ b) : b < a := by
  by_cases hba : b < a
  · exact hba
  · exact absurd (ext (List.le_antisymm (List.not_lt.1 hba) (List.not_lt.1 h))) hne

end FileName

end ConsoleKit

/-!
# Bytes

Everything that crosses a boundary of the program (replies, commands, file contents, names, paths) is a
finite sequence of bytes. A list is used rather than a packed buffer: all functions on bytes are then
recursions on their data.
-/

namespace ConsoleKit

/-- A finite sequence of bytes. -/
abbrev Bytes := List UInt8

namespace Bytes

/-- Whether two sequences of bytes are the same. -/
def isEq : Bytes → Bytes → Bool
  | [], [] => true
  | [], _ :: _ => false
  | _ :: _, [] => false
  | byte :: bytes, byte' :: bytes' => byte == byte' && isEq bytes bytes'

theorem isEq_iff {a b : Bytes} : isEq a b = true ↔ a = b := by
  fun_induction isEq a b with
  | case4 byte bytes byte' bytes' ih => simp [ih]
  | _ => simp

/-- Whether bytes come before others, or are the same, in the order of lists: the first difference decides, and
a beginning comes before what it begins. -/
def isLE : Bytes → Bytes → Bool
  | [], _ => true
  | _ :: _, [] => false
  | byte :: bytes, byte' :: bytes' => byte < byte' || (byte == byte' && isLE bytes bytes')

theorem isLE_iff {a b : Bytes} : isLE a b = true ↔ a ≤ b := by
  fun_induction isLE a b with
  | case1 b => simp
  | case2 byte bytes => simp
  | case3 byte bytes byte' bytes' ih =>
    simp [List.cons_le_cons_iff, ih]

end Bytes

end ConsoleKit

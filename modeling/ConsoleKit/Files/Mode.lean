/-!
# Permission bits

The permission bits of a file or directory are the lowest twelve bits of a number, written in octal. The two
highest among them tell that a program runs as the owner or as the group of its file. They do not outlive a
change of the file: whoever writes to a file must not run something of their own in the name of another
(`Mode.written`). The main statements are that the other bits stay as they are (`written_mod_setGroup`), and that
nothing changes for a file without the two (`written_of_lt`).

This is the rule for a process without privileges. The system leaves the two bits to one that has the privilege to
keep them; such a process is left out.
-/

namespace ConsoleKit

/-- The permission bits of a file or directory. -/
abbrev Mode := Nat

namespace Mode

/-- The bit with which a program runs as the owner of its file. It is the highest. -/
def setUser : Mode := 0o4000

/-- The bit with which a program runs as the group of its file, and a directory hands its group on to new
entries. It is the second highest. -/
def setGroup : Mode := 0o2000

/-- The permission bits among the bits of a number. Higher bits are left out. -/
def ofBits (bits : Nat) : Mode :=
  bits % 0o10000

/-- The permission bits of a file that was written without asking for others. -/
def newFile : Mode := 0o644

/-- The permission bits of a new directory in a directory with the given bits: everybody may enter it, only its
owner may change it, and it hands its group on if the directory around it does. -/
def newDirectory (around : Mode) : Mode :=
  0o755 ||| (around &&& setGroup)

/-- The permission bits of every device. -/
def device : Mode := 0o666

/-! ## Writing to a file -/

/-- Whether the group of a file may run it. -/
def groupMayRun (mode : Mode) : Bool :=
  mode.testBit 3

/-- The permission bits of a file after something was written to it. It does not run as its owner any more, and
does not run as its group if the group may run it; for a group that may not, the bit means something else and
stays. -/
def written (mode : Mode) : Mode :=
  if mode.groupMayRun then mode % setGroup else mode % setUser

/-- The bits below the two stay as they are. -/
theorem written_mod_setGroup (mode : Mode) : mode.written % setGroup = mode % setGroup := by
  have hdvd : setGroup ∣ setUser := by decide
  unfold written
  split
  · exact Nat.mod_mod mode setGroup
  · exact Nat.mod_mod_of_dvd mode hdvd

/-- A file that runs neither as its owner nor as its group keeps its permission bits when it is written to. -/
theorem written_of_lt {mode : Mode} (h : mode < setGroup) : mode.written = mode := by
  have hle : setGroup ≤ setUser := by decide
  unfold written
  split
  · exact Nat.mod_eq_of_lt h
  · exact Nat.mod_eq_of_lt (Nat.lt_of_lt_of_le h hle)

end Mode

end ConsoleKit

import ConsoleKit.Files.Mode
import ConsoleKit.Files.Path

/-!
# Trees of files

A file system is a tree. A directory lists its entries in ascending order of their names, so that a tree is
determined by what is found in it (`Node.Ordered`; every operation keeps it). A regular file has its data in
the tree, unless the file has several names: then every name refers to the same data by an identifier.

A place in a tree is given by the names that lead to it from the root, the last name first. The parent of a
place is then the tail of its list, and looking up a place is a recursion on it.

Of special files there is a device that is always ready. Pipes, sockets and other devices are left out: a call on
one of them may wait for another process, and what comes of it is not told by the tree. So are owners. No call is
refused for want of a permission, and nobody else changes the tree in the meantime.
-/

namespace ConsoleKit

/-- The data of a regular file. -/
structure FileData where
  /-- The content. -/
  content : Bytes
  /-- The permission bits. -/
  mode : Mode
  deriving DecidableEq, Repr

/-- What the names of a file with several names refer to. -/
abbrev FileId := Nat

/-- A node of a tree of files. -/
inductive Node where
  /-- A directory with its permission bits and its entries. -/
  | directory (mode : Mode) (entries : List (FileName × Node))
  /-- A regular file with one name. -/
  | file (data : FileData)
  /-- A name of a regular file that has, or has had, several names. -/
  | shared (id : FileId)
  /-- A symbolic link. -/
  | link (target : Path)
  /-- A device. It is readable and takes every write, but is no regular file. -/
  | device

/-- The names from a place up to the root, the name of the place itself first. -/
abbrev Location := List FileName

namespace Node

/-! ## Entries of a directory -/

/-- Enters a node under a name, in place of what had the name before. -/
def insertEntry (name : FileName) (node : Node) :
    List (FileName × Node) → List (FileName × Node)
  | [] => [(name, node)]
  | (name', node') :: entries =>
    if name < name' then (name, node) :: (name', node') :: entries
    else if name = name' then (name, node) :: entries
    else (name', node') :: insertEntry name node entries

/-- Changes the node under a name. -/
def mapEntry (name : FileName) (f : Node → Node) :
    List (FileName × Node) → List (FileName × Node)
  | [] => []
  | (name', node) :: entries =>
    if name' = name then (name', f node) :: entries
    else (name', node) :: mapEntry name f entries

/-- Takes a name out. -/
def eraseEntry (name : FileName) (entries : List (FileName × Node)) : List (FileName × Node) :=
  entries.filter fun entry => entry.1 ≠ name

/-! ## Nodes below a node -/

/-- The entry of a directory with a name. -/
def child? (name : FileName) : Node → Option Node
  | .directory _ entries => entries.lookup name
  | _ => none

/-- The node at a place. -/
def at? (root : Node) : Location → Option Node
  | [] => some root
  | name :: parent => (root.at? parent).bind (child? name)

/-- Changes the node at a place. -/
def modify (root : Node) (f : Node → Node) : Location → Node
  | [] => f root
  | name :: parent =>
    root.modify (fun node => match node with
      | .directory mode entries => .directory mode (mapEntry name f entries)
      | node => node) parent

/-- Enters a node at a place, in the directory that is the parent of the place. -/
def put (root : Node) (node : Node) : Location → Node
  | [] => node
  | name :: parent =>
    root.modify (fun parent => match parent with
      | .directory mode entries => .directory mode (insertEntry name node entries)
      | parent => parent) parent

/-- A directory with other permission bits; anything else as it is. -/
def withMode (mode : Mode) : Node → Node
  | .directory _ entries => .directory mode entries
  | node => node

/-- Takes away the node at a place. -/
def erase (root : Node) : Location → Node
  | [] => root
  | name :: parent =>
    root.modify (fun parent => match parent with
      | .directory mode entries => .directory mode (eraseEntry name entries)
      | parent => parent) parent

/-! ## Order -/

/-- Entries in ascending order of their names. -/
abbrev Ascending (entries : List (FileName × Node)) : Prop :=
  entries.Pairwise fun a b => a.1 < b.1

/-- Every directory lists its entries in ascending order of their names, and so each name once. -/
inductive Ordered : Node → Prop where
  /-- A directory is ordered if its entries are in order, and are ordered themselves. -/
  | directory {mode : Mode} {entries : List (FileName × Node)} (ascending : Ascending entries)
      (entries_ordered : ∀ entry ∈ entries, entry.2.Ordered) : Ordered (.directory mode entries)
  /-- A regular file is ordered. -/
  | file (data : FileData) : Ordered (.file data)
  /-- A name of a shared file is ordered. -/
  | shared (id : FileId) : Ordered (.shared id)
  /-- A link is ordered. -/
  | link (target : Path) : Ordered (.link target)
  /-- A device is ordered. -/
  | device : Ordered .device

theorem Ordered.emptyDirectory (mode : Mode) : Ordered (.directory mode []) :=
  .directory .nil (by simp)

theorem mem_insertEntry {name : FileName} {node : Node} {entries : List (FileName × Node)}
    {entry : FileName × Node} (h : entry ∈ insertEntry name node entries) :
    entry = (name, node) ∨ entry ∈ entries := by
  induction entries with
  | nil => simpa [insertEntry] using h
  | cons head entries ih =>
    rw [insertEntry] at h
    split at h
    · simpa using h
    · split at h
      · rcases List.mem_cons.1 h with h | h
        · exact .inl h
        · exact .inr (.tail _ h)
      · rcases List.mem_cons.1 h with h | h
        · exact .inr (h ▸ .head _)
        · exact (ih h).imp id (.tail _)

theorem ascending_insertEntry {name : FileName} {node : Node} {entries : List (FileName × Node)}
    (h : Ascending entries) : Ascending (insertEntry name node entries) := by
  induction entries with
  | nil => exact .cons (by simp) .nil
  | cons head entries ih =>
    obtain ⟨h₁, h₂⟩ := List.pairwise_cons.1 h
    rw [insertEntry]
    split
    · rename_i hlt
      refine .cons (fun entry hentry => ?_) h
      rcases List.mem_cons.1 hentry with hentry | hentry
      · exact hentry ▸ hlt
      · exact FileName.lt_trans hlt (h₁ entry hentry)
    · rename_i hlt
      split
      · rename_i heq
        subst heq
        exact .cons h₁ h₂
      · rename_i hne
        refine .cons (fun entry hentry => ?_) (ih h₂)
        rcases mem_insertEntry hentry with rfl | hentry
        · exact FileName.lt_of_not_lt_of_ne hlt hne
        · exact h₁ entry hentry

theorem mem_mapEntry {name : FileName} {f : Node → Node} {entries : List (FileName × Node)}
    {entry : FileName × Node} (h : entry ∈ mapEntry name f entries) :
    ∃ node, (entry.1, node) ∈ entries ∧ (entry.2 = node ∨ entry.2 = f node) := by
  induction entries with
  | nil => simp [mapEntry] at h
  | cons head entries ih =>
    obtain ⟨name', node⟩ := head
    rw [mapEntry] at h
    split at h
    · rcases List.mem_cons.1 h with rfl | h
      · exact ⟨node, .head _, .inr rfl⟩
      · exact ⟨entry.2, .tail _ h, .inl rfl⟩
    · rcases List.mem_cons.1 h with rfl | h
      · exact ⟨node, .head _, .inl rfl⟩
      · obtain ⟨node', hmem, heq⟩ := ih h
        exact ⟨node', .tail _ hmem, heq⟩

theorem ascending_mapEntry {name : FileName} {f : Node → Node} {entries : List (FileName × Node)}
    (h : Ascending entries) : Ascending (mapEntry name f entries) := by
  induction entries with
  | nil => exact .nil
  | cons head entries ih =>
    obtain ⟨name', node⟩ := head
    obtain ⟨h₁, h₂⟩ := List.pairwise_cons.1 h
    rw [mapEntry]
    split
    · exact .cons h₁ h₂
    · refine .cons (fun entry hentry => ?_) (ih h₂)
      obtain ⟨node', hmem, -⟩ := mem_mapEntry hentry
      exact h₁ (entry.1, node') hmem

theorem Ordered.insertEntry {mode : Mode} {name : FileName} {node : Node} {entries : List (FileName × Node)}
    (h : Ordered (.directory mode entries)) (hnode : node.Ordered) :
    Ordered (.directory mode (insertEntry name node entries)) := by
  cases h with
  | directory ascending entries_ordered =>
    refine .directory (ascending_insertEntry ascending) fun entry hentry => ?_
    rcases mem_insertEntry hentry with rfl | hentry
    · exact hnode
    · exact entries_ordered entry hentry

theorem Ordered.eraseEntry {mode : Mode} {name : FileName} {entries : List (FileName × Node)}
    (h : Ordered (.directory mode entries)) : Ordered (.directory mode (eraseEntry name entries)) := by
  cases h with
  | directory ascending entries_ordered =>
    exact .directory (ascending.filter _) fun entry hentry =>
      entries_ordered entry (List.mem_filter.1 hentry).1

theorem Ordered.mapEntry {mode : Mode} {name : FileName} {f : Node → Node} {entries : List (FileName × Node)}
    (h : Ordered (.directory mode entries)) (hf : ∀ node : Node, node.Ordered → (f node).Ordered) :
    Ordered (.directory mode (mapEntry name f entries)) := by
  cases h with
  | directory ascending entries_ordered =>
    refine .directory (ascending_mapEntry ascending) fun entry hentry => ?_
    obtain ⟨node, hmem, heq | heq⟩ := mem_mapEntry hentry
    · exact heq ▸ entries_ordered _ hmem
    · exact heq ▸ hf _ (entries_ordered _ hmem)

theorem Ordered.modify {root : Node} {f : Node → Node} {location : Location} (h : root.Ordered)
    (hf : ∀ node : Node, node.Ordered → (f node).Ordered) : (root.modify f location).Ordered := by
  induction location generalizing f with
  | nil => exact hf root h
  | cons name parent ih =>
    refine ih fun node hnode => ?_
    split
    · exact hnode.mapEntry hf
    · exact hnode

theorem Ordered.withMode {node : Node} (mode : Mode) (h : node.Ordered) : (node.withMode mode).Ordered := by
  cases h with
  | directory ascending entries_ordered => exact .directory ascending entries_ordered
  | _ => constructor

theorem Ordered.put {root node : Node} {location : Location} (h : root.Ordered)
    (hnode : node.Ordered) : (root.put node location).Ordered := by
  cases location with
  | nil => exact hnode
  | cons name parent =>
    refine h.modify fun node' hnode' => ?_
    split
    · exact hnode'.insertEntry hnode
    · exact hnode'

theorem Ordered.erase {root : Node} {location : Location} (h : root.Ordered) :
    (root.erase location).Ordered := by
  cases location with
  | nil => exact h
  | cons name parent =>
    refine h.modify fun node' hnode' => ?_
    split
    · exact hnode'.eraseEntry
    · exact hnode'

end Node

end ConsoleKit

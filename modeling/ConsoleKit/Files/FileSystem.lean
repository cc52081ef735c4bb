import ConsoleKit.Files.Node

/-!
# File systems

A file system is an ordered tree of files, the data of the files with several names, and the directory in
which relative paths begin (`WorkingDirectory`), which may have been taken out of the tree. What is found at a
place is its `Entry`, which hides whether the data of a file stand in the tree or are shared. A `FileRef` tells
which file a place holds: two names of a shared file have the same.
-/

namespace ConsoleKit

/-- The directory in which relative paths begin. -/
inductive WorkingDirectory where
  /-- A directory of the tree, by its place. -/
  | within (location : Location)
  /-- A directory that was taken out of the tree: where it was, and its permission bits. It is empty and takes
  no new entries, but is still a directory, and still leads to the parent that it had. -/
  | removed (location : Location) (mode : Mode)
  deriving DecidableEq, Repr

/-- A file system. -/
structure FileSystem where
  /-- The root directory. -/
  root : Node
  /-- The data of the files with several names. -/
  shared : FileId → FileData
  /-- The directory in which relative paths begin. -/
  workingDirectory : WorkingDirectory
  /-- Directories list their entries in ascending order. -/
  ordered : root.Ordered

/-- What is found at a place, entries of a directory left aside. -/
inductive Entry where
  /-- A directory and its permission bits. -/
  | directory (mode : Mode)
  /-- A regular file and its data. -/
  | file (data : FileData)
  /-- A symbolic link. -/
  | link (target : Path)
  /-- A device. -/
  | device
  deriving DecidableEq, Repr

/-- Which regular file a place holds. -/
inductive FileRef where
  /-- The file that has this place as its one name. -/
  | own (location : Location)
  /-- The file that has several names. -/
  | shared (id : FileId)
  deriving DecidableEq, Repr

namespace FileSystem

/-- The node at a place. -/
def node? (files : FileSystem) (location : Location) : Option Node :=
  files.root.at? location

/-- What a node is in this file system. -/
def entryOf (files : FileSystem) : Node → Entry
  | .directory mode _ => .directory mode
  | .file data => .file data
  | .shared id => .file (files.shared id)
  | .link target => .link target
  | .device => .device

/-- What is found at a place. -/
def get? (files : FileSystem) (location : Location) : Option Entry :=
  (files.node? location).map files.entryOf

/-- Enters a node at a place, in the directory that is the parent of the place. -/
def put (files : FileSystem) (location : Location) (node : Node) (hnode : node.Ordered) : FileSystem :=
  { files with root := files.root.put node location, ordered := files.ordered.put hnode }

/-- The working directory after something is taken away: if it is at the place or below, it is removed. -/
def workingDirectoryWithout (files : FileSystem) (location : Location) : WorkingDirectory :=
  match files.workingDirectory with
  | .within place =>
    match location.isSuffixOf place, files.node? place with
    | true, some (.directory mode _) => .removed place mode
    | _, _ => .within place
  | .removed place mode => .removed place mode

/-- Takes away what is at a place. -/
def erase (files : FileSystem) (location : Location) : FileSystem :=
  { files with
    root := files.root.erase location
    workingDirectory := files.workingDirectoryWithout location
    ordered := files.ordered.erase }

/-- Sets the permission bits of the directory at a place. -/
def setDirectoryMode (files : FileSystem) (location : Location) (mode : Mode) : FileSystem :=
  { files with
    root := files.root.modify (Node.withMode mode) location
    ordered := files.ordered.modify fun _ => .withMode mode }

/-! ## Regular files -/

/-- Which regular file the node at a place is, and its data, if it is one. -/
def regular? (files : FileSystem) (location : Location) : Node → Option (FileRef × FileData)
  | .file data => some (.own location, data)
  | .shared id => some (.shared id, files.shared id)
  | _ => none

/-- Replaces the data of a regular file. -/
def setData (files : FileSystem) (ref : FileRef) (data : FileData) : FileSystem :=
  match ref with
  | .own location => files.put location (.file data) (.file data)
  | .shared id => { files with shared := fun id' => if id' = id then data else files.shared id' }

end FileSystem

end ConsoleKit

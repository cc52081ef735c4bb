import ConsoleKit.Files.Walk

/-!
# Surveying a tree

Functions that go through a whole tree: everything below a place with its path, and the identifiers of shared
files that occur. They are recursions on the tree, one function for a node and one for a list of entries.
-/

namespace ConsoleKit

mutual

/-- Everything below a node. Each path is prefixed with the given bytes. -/
def Node.survey (files : FileSystem) (lead : Bytes) : Node → List (Bytes × Entry)
  | .directory _ entries => Node.surveyEntries files lead entries
  | _ => []

/-- The entries of a directory and everything below them. -/
def Node.surveyEntries (files : FileSystem) (lead : Bytes) :
    List (FileName × Node) → List (Bytes × Entry)
  | [] => []
  | (name, node) :: entries =>
    let path := lead ++ name.bytes
    (path, files.entryOf node) ::
      (node.survey files (path ++ [slash]) ++ Node.surveyEntries files lead entries)

end

mutual

/-- A number above all identifiers of shared files in a tree. -/
def Node.idBound : Node → FileId
  | .directory _ entries => Node.idBoundEntries entries
  | .shared id => id + 1
  | _ => 0

/-- A number above all identifiers of shared files in the entries of a directory. -/
def Node.idBoundEntries : List (FileName × Node) → FileId
  | [] => 0
  | (_, node) :: entries => max node.idBound (Node.idBoundEntries entries)

end

namespace FileSystem

/-- An identifier that no name in the tree refers to. -/
def freshId (files : FileSystem) : FileId :=
  files.root.idBound

/-- Everything below what a path leads to, links not followed, with its path from there. Paths are in the order
of their bytes, a slash being a byte like any other. -/
def survey (files : FileSystem) (path : Path) : Except SystemError (List (Bytes × Entry)) := do
  let spot ← files.find path
  return (spot.node.survey files []).mergeSort fun a b => a.1.isLE b.1

end FileSystem

end ConsoleKit

import ConsoleKit.Deployment

/-!
# When source and target are apart

A deployment never compares its two paths, and the names that lead from them may meet in the same files. Here
it is said what it means that they do not: no file or directory is reached, links followed, from both, and
none of the directories in which the missing part of the target will be made belongs to the source. A target
is *plain below* if no link and no file with several names is in it, so that what is written below the target
stays there.
-/

namespace ConsoleKit

namespace FileSystem

/-- The same directory, the same link, or the same regular file, perhaps under two names. -/
def Spot.Same (a b : Spot) : Prop :=
  a.location = b.location ∧ a.removed = b.removed ∨ ∃ id, a.node = .shared id ∧ b.node = .shared id

/-- A path or some path below it leads to the place, links followed. -/
def Reaches (files : FileSystem) (path : Path) (spot : Spot) : Prop :=
  ∃ names, files.find (path.joinAll names).directory = .ok spot

/-- The file system once a path is made, with its missing parents. -/
def withDirectory (files : FileSystem) (path : Path) : FileSystem :=
  (files.makeDirectories path path.pieces.ancestors).2

/-- An existing directory gets a new entry when the missing part of a path is made. -/
def Receives (files : FileSystem) (path : Path) (directory : Location) : Prop :=
  (∃ mode, files.get? directory = some (.directory mode)) ∧
    ∃ name, files.get? (name :: directory) = none ∧ (files.withDirectory path).get? (name :: directory) ≠ none

/-- Nothing is reached from the source that is reached from the target too, once its missing part is made, or receives
an entry for that part. What is reached from the target cannot be told before: `a/../s` leads nowhere as long as `a` is
missing. -/
structure Separated (files : FileSystem) (source target : Path) : Prop where
  /-- Source and target have nothing in common. -/
  not_same : ∀ a b, files.Reaches source a → (files.withDirectory target).Reaches target b → ¬ a.Same b
  /-- The target is not made inside the source. -/
  not_receives : ∀ a, files.Reaches source a → a.removed = false → ¬ files.Receives target a.location

/-- No link and no file with several names is below what a path leads to. -/
def PlainBelow (files : FileSystem) (path : Path) : Prop :=
  ∀ spot, files.find path.directory = .ok spot → spot.removed = false → ∀ names node, names ≠ [] →
    files.node? (names ++ spot.location) = some node →
      (∀ target, node ≠ .link target) ∧ ∀ id, node ≠ .shared id

end FileSystem

end ConsoleKit

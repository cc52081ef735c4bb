import ConsoleKit.Files.Calls
import ConsoleKit.Files.Survey

/-!
# Setting a file system up

Calls that put files, links and permissions in place, and take things away. They create missing parent
directories, so that a file system can be described by naming what is in it.
-/

namespace ConsoleKit.FileSystem

/-- A file system with an empty root, in which relative paths begin. -/
def empty : FileSystem where
  root := .directory (Mode.newDirectory 0) []
  shared := fun _ => ⟨[], 0⟩
  workingDirectory := .within []
  ordered := .emptyDirectory _

/-- Makes a directory with its missing parents. -/
def ensurePath (files : FileSystem) (path : Path) : Except SystemError FileSystem :=
  match files.makeDirectories path path.pieces.ancestors with
  | (.ok (), files) => .ok files
  | (.error error, _) => .error error

/-- Makes the missing parents of a path. -/
def ensureParents (files : FileSystem) (path : Path) : Except SystemError FileSystem :=
  match path.pieces.ancestors with
  | [] => .ok files
  | parent :: above =>
    match files.makeDirectories parent.path above with
    | (.ok (), files) => .ok files
    | (.error error, _) => .error error

/-- Writes or replaces a file. -/
def writeFile (files : FileSystem) (path : Path) (content : Bytes) : Except SystemError FileSystem := do
  let files ← files.ensureParents path
  return files.store (← files.destination path) ⟨content, Mode.newFile⟩

/-- Makes a symbolic link. -/
def makeLink (files : FileSystem) (path target : Path) : Except SystemError FileSystem := do
  let files ← files.ensureParents path
  return files.put (← files.vacancy path).location (.link target) (.link target)

/-- Makes a device. -/
def makeDevice (files : FileSystem) (path : Path) : Except SystemError FileSystem := do
  let files ← files.ensureParents path
  return files.put (← files.vacancy path).location .device .device

/-- Lets relative paths begin at what a path leads to. -/
def changeDirectory (files : FileSystem) (path : Path) : Except SystemError FileSystem := do
  return { files with workingDirectory := .within (← files.find path).location }

/-- The entry of a directory to which a path leads. It is not followed if it is a link. -/
def place (files : FileSystem) (path : Path) : Except SystemError Spot := do
  let (spot, last) ← files.walkToLast path
  match last with
  | .entry piece =>
    match FileName.ofBytes? piece with
    | none => .error .nameTooLong
    | some name =>
      match spot.node.child? name with
      | some node => return ⟨name :: spot.location, node, false⟩
      | none => .error .notFound
  | _ => .error .isDirectory

/-- Gives an existing file one more name. -/
def makeName (files : FileSystem) (path existing : Path) : Except SystemError FileSystem := do
  let files ← files.ensureParents path
  let location := (← files.vacancy path).location
  let spot ← files.place existing
  match spot.node with
  | .file data =>
    let id := files.freshId
    let files := files.put spot.location (.shared id) (.shared id)
    return (files.put location (.shared id) (.shared id)).setData (.shared id) data
  | .shared id => return files.put location (.shared id) (.shared id)
  | .link target => return files.put location (.link target) (.link target)
  | .device => return files.put location .device .device
  | .directory _ _ => .error .isDirectory

/-- Sets the permission bits of a file or directory, links followed. -/
def setMode (files : FileSystem) (path : Path) (bits : Nat) : Except SystemError FileSystem := do
  let mode := Mode.ofBits bits
  let spot ← files.find path
  match files.regular? spot.location spot.node with
  | some (ref, data) => return files.setData ref { data with mode := mode }
  | none =>
    if spot.removed then return { files with workingDirectory := .removed spot.location mode }
    else return files.setDirectoryMode spot.location mode

/-- Takes away a file, a link, or a directory with its contents. -/
def remove (files : FileSystem) (path : Path) : Except SystemError FileSystem := do
  return files.erase (← files.place path).location

/-- The permission bits of what is at a path, links followed. -/
def mode (files : FileSystem) (path : Path) : Except SystemError Mode := do
  match ← files.stat path with
  | .file data => return data.mode
  | .directory mode => return mode
  | _ => return Mode.device

end ConsoleKit.FileSystem

import ConsoleKit.Files.Walk

/-!
# Calls on a file system

Looking at files, making directories and copying files, each by path. A call that fails leaves the file system
as it was, with one exception that is made visible in its type: making a directory with its missing parents
may have made some of them before it fails.
-/

namespace ConsoleKit.FileSystem

/-! ## Looking -/

/-- What is at a path, links followed. -/
def stat (files : FileSystem) (path : Path) : Except SystemError Entry := do
  return files.entryOf (← files.find path).node

/-- Whether something is at a path, links followed. A failure of any kind counts as nothing. -/
def contains (files : FileSystem) (path : Path) : Bool :=
  match files.find path with
  | .ok _ => true
  | .error _ => false

/-- Whether a directory is at a path, links followed. -/
def isDirectory (files : FileSystem) (path : Path) : Bool :=
  match files.stat path with
  | .ok (.directory _) => true
  | _ => false

/-- The names in the directory at a path, in ascending order. -/
def list (files : FileSystem) (path : Path) : Except SystemError (List FileName) := do
  match (← files.find path).node with
  | .directory _ entries => return entries.map Prod.fst
  | _ => .error .notDirectory

/-! ## Making directories -/

/-- The directory in which the last name of a path stands, and that name, which may be a dot or two. A slash
at the end of the path is ignored. -/
def walkToLast (files : FileSystem) (path : Path) : Except SystemError (Spot × Path.Segment) := do
  checkPath path
  match path.steps.reverse with
  | [] => return (files.rootSpot, .current)
  | last :: before =>
    match ← files.follow .find linkLimit (← files.origin path) before.reverse with
    | .found spot => return (spot, last)
    | .vacant _ _ => .error .notFound

/-- A name that a directory does not have. -/
structure Vacancy where
  /-- The place of the directory. -/
  directory : Location
  /-- The permission bits of the directory. -/
  mode : Mode
  /-- The name. -/
  name : FileName

/-- The place that the name would have. -/
def Vacancy.location (vacancy : Vacancy) : Location :=
  vacancy.name :: vacancy.directory

/-- The place for a new entry: the last name of the path in a directory that does not have it. A link there
is not followed. -/
def vacancy (files : FileSystem) (path : Path) : Except SystemError Vacancy := do
  let (spot, last) ← files.walkToLast path
  match spot.node with
  | .directory mode entries =>
    match last with
    | .entry piece =>
      if spot.removed then .error .notFound
      else
        match FileName.ofBytes? piece with
        | none => .error .nameTooLong
        | some name =>
          if (entries.lookup name).isSome then .error .alreadyExists else return ⟨spot.location, mode, name⟩
    | _ => .error .alreadyExists
  | _ => .error .notDirectory

/-- Makes a directory. -/
def makeDirectory (files : FileSystem) (path : Path) : Except SystemError FileSystem := do
  let vacancy ← files.vacancy path
  return files.put vacancy.location (.directory vacancy.mode.newDirectory []) (.emptyDirectory _)

/-- What a failure to make a directory comes to: it counts for nothing if the directory is there. -/
def settle (files : FileSystem) (path : Path) (error : SystemError) : Except SystemError Unit :=
  if files.isDirectory path then .ok () else .error error

/-- Makes a directory, and its parents as far as they are missing. The path is given together with its proper
ancestors, the nearest first; a path without a spelling needs not be made. -/
def makeDirectories (files : FileSystem) (path : Path) (above : List Path.Pieces) :
    Except SystemError Unit × FileSystem :=
  if path.isEmpty then (.ok (), files)
  else
    match files.makeDirectory path with
    | .ok made => (.ok (), made)
    | .error .notFound =>
      match above with
      | [] => (.error .notFound, files)
      | parent :: above =>
        match files.makeDirectories parent.path above with
        | (.error error, files') => (.error error, files')
        | (.ok (), files') =>
          match files'.makeDirectory path with
          | .ok made => (.ok (), made)
          | .error error => (files'.settle path error, files')
    | .error error => (files.settle path error, files)

/-! ## Copying -/

/-- What a path that is opened for writing leads to. -/
inductive Destination where
  /-- An existing regular file. -/
  | existing (ref : FileRef)
  /-- A place in a directory, at which nothing is. -/
  | vacant (location : Location)
  /-- A device, which takes every write. -/
  | device
  deriving DecidableEq, Repr

/-- What a path leads to when it is opened for writing. A link is followed, even if it leads to a missing
file. -/
def destination (files : FileSystem) (path : Path) : Except SystemError Destination := do
  match ← files.walk .write path with
  | .vacant directory name => return .vacant (name :: directory)
  | .found spot =>
    match files.regular? spot.location spot.node with
    | some (ref, _) => return .existing ref
    | none =>
      match spot.node with
      | .device => return .device
      | _ => .error .isDirectory

/-- Writes a file: an existing one loses the data that it had, a missing one is created. -/
def store (files : FileSystem) (destination : Destination) (data : FileData) : FileSystem :=
  match destination with
  | .existing ref => files.setData ref data
  | .vacant location => files.put location (.file data) (.file data)
  | .device => files

/-- Copies a file. Both files are opened before anything is copied, and opening the target empties it: a file
that is copied onto itself ends up empty. The target first gets the permission bits of the source, whether it is
new or not, and is then written to, unless there is nothing to write. -/
def copyFile (files : FileSystem) (source target : Path) : Except SystemError FileSystem := do
  let spot ← files.find source
  match files.regular? spot.location spot.node with
  | none => .error .notRegularFile
  | some (ref, data) =>
    let destination ← files.destination target
    let content := if destination = .existing ref then [] else data.content
    return files.store destination ⟨content, if content.isEmpty then data.mode else data.mode.written⟩

end ConsoleKit.FileSystem

import ConsoleKit.Files.FileSystem
import ConsoleKit.Files.SystemError

/-!
# Walking a path

A walk goes along the segments of a path from a starting place, through directories only, and follows the
symbolic links that it meets. It is made of stretches without links: `advance` goes on until it has arrived or
meets a link, by recursion on the segments; `follow` continues at the target of a link with one link less to
spend, by recursion on the links that are left. A walk may arrive where nothing is, provided that only the
last name of the path is missing; whether that is a failure depends on what the caller is after.
-/

namespace ConsoleKit.FileSystem

open ConsoleKit.Path (Segment)

/-- A place in a file system together with the node there. -/
structure Spot where
  /-- The place. -/
  location : Location
  /-- The node at the place. -/
  node : Node
  /-- Whether the node was taken out of the tree. Its place is then where it was. -/
  removed : Bool

/-- Where a walk arrives. -/
inductive Arrival where
  /-- At something. -/
  | found (spot : Spot)
  /-- At a name that its directory does not have. -/
  | vacant (directory : Location) (name : FileName)

/-- Where a stretch without links ends. -/
inductive Stretch where
  /-- The path is walked to its end. -/
  | arrived (arrival : Arrival)
  /-- At a link in a directory, with the rest of the path still to go. -/
  | link (directory : Spot) (target : Path) (rest : List Segment)

/-- What a walk is for. -/
inductive Purpose where
  /-- To find what is there. -/
  | find
  /-- To write to a file, which is created if it is missing. A path with a slash at its end cannot be the
  path of a file. -/
  | write
  deriving DecidableEq, Repr

/-- The root of a file system. -/
def rootSpot (files : FileSystem) : Spot :=
  ⟨[], files.root, false⟩

/-- The parent of a place; the root is its own parent. -/
def parentSpot (files : FileSystem) (spot : Spot) : Except SystemError Spot :=
  match files.node? spot.location.tail with
  | some node => .ok ⟨spot.location.tail, node, false⟩
  | none => .error .notFound

/-- Goes along the segments up to their end or to the first link. -/
def advance (files : FileSystem) (purpose : Purpose) (spot : Spot) :
    List Segment → Except SystemError Stretch
  | [] => .ok (.arrived (.found spot))
  | segment :: rest =>
    match spot.node with
    | .directory _ entries =>
      match segment with
      | .current | .trailingSlash => files.advance purpose spot rest
      | .parent =>
        match files.parentSpot spot with
        | .ok parent => files.advance purpose parent rest
        | .error error => .error error
      | .entry piece =>
        if purpose = .write ∧ rest = [.trailingSlash] then .error .isDirectory
        else if spot.removed then .error .notFound
        else
          match FileName.ofBytes? piece with
          | none => .error .nameTooLong
          | some name =>
            match entries.lookup name with
            | none => if rest.isEmpty then .ok (.arrived (.vacant spot.location name)) else .error .notFound
            | some (.link target) => .ok (.link spot target rest)
            | some node => files.advance purpose ⟨name :: spot.location, node, false⟩ rest
    | _ => .error .notDirectory

/-- Where a path begins if it is met in the given directory. -/
def startSpot (files : FileSystem) (directory : Spot) (path : Path) : Spot :=
  if path.isAbsolute then files.rootSpot else directory

/-- Goes along the segments to their end, following up to the given number of links. -/
def follow (files : FileSystem) (purpose : Purpose) :
    (links : Nat) → Spot → List Segment → Except SystemError Arrival
  | links, spot, segments =>
    match files.advance purpose spot segments with
    | .error error => .error error
    | .ok (.arrived arrival) => .ok arrival
    | .ok (.link directory target rest) =>
      match links with
      | 0 => .error .tooManyLinks
      | links + 1 => files.follow purpose links (files.startSpot directory target) (target.segments ++ rest)

/-- The greatest number of links that one walk follows. -/
def linkLimit : Nat := 40

/-- The length from which on a path is too long. -/
def pathLimit : Nat := 4096

/-- What the system refuses without looking at any file: a path with a NUL in it, one without a spelling, and
one that is too long. -/
def checkPath (path : Path) : Except SystemError Unit :=
  if path.spelling.any (· == 0) then .error .nulInPath
  else if path.isEmpty then .error .notFound
  else if pathLimit ≤ path.spelling.length then .error .nameTooLong
  else .ok ()

/-- Where a path begins. -/
def origin (files : FileSystem) (path : Path) : Except SystemError Spot :=
  if path.isAbsolute then .ok files.rootSpot
  else
    match files.workingDirectory with
    | .within location =>
      match files.node? location with
      | some node => .ok ⟨location, node, false⟩
      | none => .error .notFound
    | .removed location mode => .ok ⟨location, .directory mode [], true⟩

/-- Walks a path. -/
def walk (files : FileSystem) (purpose : Purpose) (path : Path) : Except SystemError Arrival := do
  checkPath path
  files.follow purpose linkLimit (← files.origin path) path.segments

/-- What a path leads to, links followed. -/
def find (files : FileSystem) (path : Path) : Except SystemError Spot := do
  match ← files.walk .find path with
  | .found spot => return spot
  | .vacant _ _ => .error .notFound

end ConsoleKit.FileSystem

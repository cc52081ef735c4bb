import ConsoleKit.Files.FileName
import ConsoleKit.Text.Quoted

/-!
# Paths

A path is its spelling, and two views are taken of it. The system walks a path along its *segments*: the
pieces between slashes, where empty pieces mean nothing and a slash at the end asks for a directory. Its
*ancestors* are read off the spelling alone: the path, the path without its last component, and so on, where a
component is a piece that is neither empty nor a dot; only a dot at the very beginning counts as a component.
The second view does not know what the names stand for, so that `a/..` has the ancestor `a` whatever `a` is.
-/

namespace ConsoleKit

/-- A path, as it is spelled. -/
structure Path where
  /-- The bytes of the path. -/
  spelling : Bytes
  deriving DecidableEq, Repr

namespace Path

/-- The path spelled by a string. -/
def ofString (text : String) : Path :=
  ⟨Text.Utf8.encodeString text⟩

/-- Whether the path has no spelling at all. -/
def isEmpty (path : Path) : Bool :=
  path.spelling.isEmpty

/-- Whether the path begins at the root. -/
def isAbsolute (path : Path) : Bool :=
  path.spelling.head? == some slash

/-- Whether the path ends in a slash. -/
def endsInSlash (path : Path) : Bool :=
  path.spelling.getLast? == some slash

/-- The path as it is shown in a message. -/
def quoted (path : Path) : String :=
  String.ofList (Text.Quoted.ofBytes path.spelling)

/-- The path of an entry of the directory at a path. -/
def join (path : Path) (name : FileName) : Path :=
  if path.isEmpty || path.endsInSlash then ⟨path.spelling ++ name.bytes⟩
  else ⟨path.spelling ++ slash :: name.bytes⟩

/-- The path of something below the directory at a path, by the names that lead to it. -/
def joinAll (path : Path) (names : List FileName) : Path :=
  names.foldl join path

/-- The path of the directory whose entries are joined to a path. It is the path itself, except that the entries of
a path without a spelling are those of the directory in which relative paths begin. -/
def directory (path : Path) : Path :=
  if path.isEmpty then ⟨[dot]⟩ else path

/-! ## Segments -/

/-- A segment of a path, as the system walks it. -/
inductive Segment where
  /-- A dot: the directory itself. -/
  | current
  /-- Two dots: the parent directory. -/
  | parent
  /-- Any other piece: an entry of the directory. -/
  | entry (piece : Bytes)
  /-- The slash at the end of a path: what was reached has to be a directory. -/
  | trailingSlash
  deriving DecidableEq, Repr

/-- The segment that a piece between slashes stands for. Nothing stands between two slashes in a row. -/
def Segment.ofPiece? : Bytes → Option Segment
  | [] => none
  | [byte] => some (if byte = dot then .current else .entry [byte])
  | [byte, byte'] => some (if byte = dot ∧ byte' = dot then .parent else .entry [byte, byte'])
  | piece => some (.entry piece)

/-- Puts the segment that a piece stands for, if any, in front of the segments after it. The piece is given
with its last byte first. -/
def Segment.consPiece (reversed : Bytes) (rest : List Segment) : List Segment :=
  match Segment.ofPiece? reversed.reverse with
  | none => rest
  | some segment => segment :: rest

/-- The segments of the rest of a path, when some bytes of its first piece are read already, the last one
first. A slash at the end is left out. -/
def stepsFrom (reversed : Bytes) : Bytes → List Segment
  | [] => Segment.consPiece reversed []
  | byte :: bytes =>
    if byte = slash then Segment.consPiece reversed (stepsFrom [] bytes)
    else stepsFrom (byte :: reversed) bytes

/-- The segments of a path, without the slash at its end. -/
def steps (path : Path) : List Segment :=
  stepsFrom [] path.spelling

/-- The segments of a path. -/
def segments (path : Path) : List Segment :=
  if path.endsInSlash then path.steps ++ [.trailingSlash] else path.steps

/-! ## Ancestors -/

/-- A path cut at its slashes: whether it begins at the root, and the pieces after that, the last one first. -/
structure Pieces where
  /-- Whether the path begins at the root. -/
  absolute : Bool
  /-- The pieces, the last one first. -/
  reversed : List Bytes
  deriving DecidableEq, Repr

/-- The pieces of a path. -/
def pieces (path : Path) : Pieces :=
  match path.spelling with
  | [] => ⟨false, []⟩
  | first :: rest =>
    if first = slash then ⟨true, if rest.isEmpty then [] else (rest.splitOn slash).reverse⟩
    else ⟨false, (path.spelling.splitOn slash).reverse⟩

namespace Pieces

/-- The path with the given pieces. -/
def path (cut : Pieces) : Path :=
  let body := [slash].intercalate cut.reversed.reverse
  ⟨if cut.absolute then slash :: body else body⟩

/-- Whether a piece with the given pieces before it is no component: it is empty, or a dot that is not the
beginning of a relative path. -/
def isBlank (absolute : Bool) (piece : Bytes) (before : List Bytes) : Bool :=
  piece == [] || (piece == [dot] && (absolute || !before.isEmpty))

/-- Takes away the pieces at the end that are no components. -/
def trimmed (absolute : Bool) : List Bytes → List Bytes
  | [] => []
  | piece :: before => if isBlank absolute piece before then trimmed absolute before else piece :: before

/-- What is left as one component after the other is taken away from the end. -/
def above (absolute : Bool) : List Bytes → List (List Bytes)
  | [] => []
  | piece :: before =>
    if isBlank absolute piece before then above absolute before
    else trimmed absolute before :: above absolute before

/-- The pieces of the proper ancestors, the nearest first. -/
def ancestors (cut : Pieces) : List Pieces :=
  (above cut.absolute cut.reversed).map (⟨cut.absolute, ·⟩)

end Pieces

/-- The proper ancestors of a path, the nearest first. The last one is the root or, for a relative path, the
empty path; neither of these two has a proper ancestor. -/
def properAncestors (path : Path) : List Path :=
  path.pieces.ancestors.map Pieces.path

/-- The path and its proper ancestors. -/
def ancestors (path : Path) : List Path :=
  path :: path.properAncestors

end Path

end ConsoleKit

import ConsoleKit.Deployment.Failure
import ConsoleKit.Files.Calls

/-!
# Deploying a tree of files

A deployment copies what is in a source directory, links followed, into a target directory that is created if
it is missing. Files that are there already are overwritten, and what is only in the target stays.

The work is done directory by directory. All entries of a directory are handled first: files are copied, and
for each directory among them the target gets one, too. The directories found are then gone through, the last
one first, each with everything below it. The order in which the system lists a directory is a parameter
(`ListingOrder`), because nothing fixes it.

A failure ends the deployment where it stands; what was done so far stays done. Every part of a deployment is
therefore a function from the progress so far to an `Attempt`, which has a result and, in either case, the
progress made. Every step from a directory to one below it makes the path of the source longer, and the system
accepts no path beyond a fixed length: `descend` is a recursion on the length that is left, and where none is
left a directory cannot be listed any more.
-/

namespace ConsoleKit

namespace Deployment

/-- What a deployment did. -/
structure Report where
  /-- The number of files copied. -/
  copiedFiles : Nat
  /-- The number of directories that did not exist before, parents of the target included. -/
  createdDirectories : Nat
  deriving DecidableEq, Repr

/-- How far a deployment has come. -/
structure Progress where
  /-- The file system. -/
  files : FileSystem
  /-- What was done. -/
  report : Report

/-- What a part of a deployment comes to. -/
structure Attempt (α : Type) where
  /-- The result, or why there is none. -/
  result : Except Failure α
  /-- How far the deployment has come. -/
  progress : Progress

namespace Attempt

/-- The part succeeds. -/
def ok {α : Type} (value : α) (progress : Progress) : Attempt α :=
  ⟨.ok value, progress⟩

/-- The part fails. -/
def fail {α : Type} (failure : Failure) (progress : Progress) : Attempt α :=
  ⟨.error failure, progress⟩

/-- Goes on after a success; a failure stays. -/
def andThen {α β : Type} (attempt : Attempt α) (next : α → Progress → Attempt β) : Attempt β :=
  match attempt.result with
  | .ok value => next value attempt.progress
  | .error failure => fail failure attempt.progress

/-- Does the same with one thing after the other, up to the first failure. -/
def forEach {α : Type} (act : α → Progress → Attempt Unit) : List α → Progress → Attempt Unit
  | [], progress => ok () progress
  | a :: as, progress => (act a progress).andThen fun _ => forEach act as

end Attempt

/-- A directory of the source and the directory of the target that takes its entries. -/
structure Job where
  /-- The directory of the source. -/
  source : Path
  /-- The directory of the target. -/
  target : Path
  deriving DecidableEq, Repr

/-- The job for a directory with the given name in the source directory. -/
def Job.inner (job : Job) (name : FileName) : Job :=
  ⟨job.source.join name, job.target.join name⟩

/-- The order in which directories are listed: for each directory a permutation of its names. -/
structure ListingOrder where
  /-- The names in the directory at a path, put into the order in which they are listed. -/
  arrange : Path → List FileName → List FileName
  /-- Every name is listed exactly once. -/
  perm : ∀ path names, (arrange path names).Perm names

/-- Every directory is listed in ascending order of the names. -/
def ListingOrder.byName : ListingOrder :=
  ⟨fun _ names => names, fun _ _ => .rfl⟩

/-! ## Directories of the target -/

/-- Whether nothing is at a path that has a spelling. -/
def isMissing (files : FileSystem) (path : Path) : Bool :=
  !path.isEmpty && !files.contains path

/-- The number of directories that have to be made for a path with the given proper ancestors: the path and its
ancestors up to the first that exists or has no spelling. -/
def missingCount (files : FileSystem) (path : Path) (above : List Path.Pieces) : Nat :=
  if isMissing files path then
    (above.takeWhile fun ancestor => isMissing files ancestor.path).length + 1
  else 0

/-- Makes sure that something is at a path: if nothing is there, a directory is made, together with its missing
parents. The directories that were missing count as created if the attempt succeeds. -/
def provideDirectory (path : Path) (progress : Progress) : Attempt Unit :=
  let above := path.pieces.ancestors
  let missing := missingCount progress.files path above
  if missing = 0 then .ok () progress
  else
    match progress.files.makeDirectories path above with
    | (.error error, files) => .fail (.call .create path error) { progress with files := files }
    | (.ok (), files) =>
      .ok () ⟨files, { progress.report with createdDirectories := progress.report.createdDirectories + missing }⟩

/-! ## Entries of the source -/

/-- Copies a file. -/
def copyFile (source target : Path) (progress : Progress) : Attempt Unit :=
  match progress.files.copyFile source target with
  | .error error => .fail (.call .copy source error) progress
  | .ok files =>
    .ok () ⟨files, { progress.report with copiedFiles := progress.report.copiedFiles + 1 }⟩

/-- Handles one entry of a directory: a directory gets one in the target, and its contents remain to be done;
anything else is copied as a file. -/
def handleEntry (job : Job) (name : FileName) (progress : Progress) : Attempt (Option Job) :=
  let inner := job.inner name
  match progress.files.stat inner.source with
  | .error error => .fail (.call .stat inner.source error) progress
  | .ok (.directory _) => (provideDirectory inner.target progress).andThen fun _ => .ok (some inner)
  | .ok _ => (copyFile inner.source inner.target progress).andThen fun _ => .ok none

/-- Handles the entries with the given names: the jobs that remain to be done, in order. -/
def handleEntries (job : Job) : List FileName → Progress → Attempt (List Job)
  | [], progress => .ok [] progress
  | name :: names, progress =>
    (handleEntry job name progress).andThen fun inner progress =>
      (handleEntries job names progress).andThen fun inners => .ok (inner.toList ++ inners)

/-- Handles all entries of a directory: the jobs that remain to be done, in order. -/
def handleDirectory (order : ListingOrder) (job : Job) (progress : Progress) : Attempt (List Job) :=
  match progress.files.list job.source with
  | .error error => .fail (.call .list job.source error) progress
  | .ok names => handleEntries job (order.arrange job.source names) progress

/-- Does a job with everything below it, as far as the path of the source may still grow. -/
def descend (order : ListingOrder) : (room : Nat) → Job → Progress → Attempt Unit
  | 0, job, progress => .fail (.call .list job.source .nameTooLong) progress
  | room + 1, job, progress =>
    (handleDirectory order job progress).andThen fun inners =>
      Attempt.forEach (descend order room) inners.reverse

/-! ## The whole deployment -/

/-- Deploys a source directory into a target directory. -/
def start (order : ListingOrder) (source target : Path) (progress : Progress) : Attempt Unit :=
  match progress.files.stat source with
  | .error error => .fail (.call .readSource source error) progress
  | .ok (.directory _) =>
    (provideDirectory target progress).andThen fun _ =>
      descend order (FileSystem.pathLimit - source.spelling.length) ⟨source, target⟩
  | .ok _ => .fail (.notDirectory source) progress

/-- What a deployment comes to. -/
structure Outcome where
  /-- What was done, or why the deployment failed. -/
  result : Except Failure Report
  /-- The file system afterwards. -/
  files : FileSystem

end Deployment

/-- Deploys a source directory into a target directory of a file system. -/
def FileSystem.deploy (files : FileSystem) (order : Deployment.ListingOrder) (source target : Path) :
    Deployment.Outcome :=
  let attempt := Deployment.start order source target ⟨files, ⟨0, 0⟩⟩
  ⟨attempt.result.map fun _ => attempt.progress.report, attempt.progress.files⟩

end ConsoleKit

import ConsoleKit.Error
import ConsoleKit.Files.Path
import ConsoleKit.Files.SystemError

/-!
# Failed deployments

A deployment fails because a call on the file system failed, or because its source is no directory. The
message names what was done, the path it was done to, and the system's reason.
-/

namespace ConsoleKit.Deployment

/-- What a deployment was doing when a call failed. -/
inductive Action where
  /-- Looking at the source. -/
  | readSource
  /-- Listing a directory of the source. -/
  | list
  /-- Looking at an entry of the source. -/
  | stat
  /-- Copying a file. -/
  | copy
  /-- Making a directory of the target. -/
  | create
  deriving DecidableEq, Repr

/-- The words for an action. -/
def Action.text : Action → String
  | .readSource => "read source"
  | .list => "list"
  | .stat => "stat"
  | .copy => "copy"
  | .create => "create"

/-- Why a deployment failed. -/
inductive Failure where
  /-- A call failed: what was done, to which path, and the system's reason. -/
  | call (action : Action) (path : Path) (reason : SystemError)
  /-- The source exists and is no directory. -/
  | notDirectory (source : Path)
  deriving DecidableEq, Repr

/-- The path that a failure names. -/
def Failure.path : Failure → Path
  | .call _ path _ => path
  | .notDirectory source => source

/-- What a failure says, after the kind of error. -/
def Failure.text : Failure → String
  | .call action path reason => action.text ++ " " ++ path.quoted ++ " failed: " ++ reason.text
  | .notDirectory source => "source " ++ source.quoted ++ " is not a directory"

/-- A failed deployment as it is shown. -/
def Failure.toError (failure : Failure) : Error :=
  ⟨.deploy, failure.text⟩

end ConsoleKit.Deployment

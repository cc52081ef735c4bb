/-!
# Errors of the file system

The causes for which a call on the file system fails, and the text of each as the system gives it.
-/

namespace ConsoleKit

/-- Why a call on the file system failed. -/
inductive SystemError where
  /-- Nothing is there. -/
  | notFound
  /-- Something is there already. -/
  | alreadyExists
  /-- A directory is needed, and there is something else. -/
  | notDirectory
  /-- A directory is there, and something else is needed. -/
  | isDirectory
  /-- A path, or a name in it, is too long. -/
  | nameTooLong
  /-- Too many symbolic links on the way. -/
  | tooManyLinks
  /-- A path with a NUL in it cannot be handed to the system. -/
  | nulInPath
  /-- What is to be copied is no regular file. -/
  | notRegularFile
  /-- Any other failure, by its text. -/
  | other (text : String)
  deriving DecidableEq, Repr

/-- The text of a failure. -/
def SystemError.text : SystemError → String
  | .notFound => "No such file or directory (os error 2)"
  | .alreadyExists => "File exists (os error 17)"
  | .notDirectory => "Not a directory (os error 20)"
  | .isDirectory => "Is a directory (os error 21)"
  | .nameTooLong => "File name too long (os error 36)"
  | .tooManyLinks => "Too many levels of symbolic links (os error 40)"
  | .nulInPath => "file name contained an unexpected NUL byte"
  | .notRegularFile => "the source path is neither a regular file nor a symlink to a regular file"
  | .other text => text

end ConsoleKit

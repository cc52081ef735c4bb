import ConsoleKit.Deployment
import ConsoleKit.Files.Setup

/-!
# The bundled resources

The loader's resources come with the program: one directory with a version stamp in it, which holds the version
of the console's command protocol.
-/

namespace ConsoleKit.Bundle

/-- The name of the directory that holds the resources. -/
def directoryName : String := "deploy"

/-- The name of the version stamp. -/
def stampName : String := "exlaunch-version"

/-- What the version stamp holds. -/
def stamp : Bytes := Text.Utf8.encodeString "1\n"

/-- The path of something in the directory at a path, by its name. -/
def inside (directory : Path) (name : String) : Path :=
  ⟨directory.spelling ++ slash :: Text.Utf8.encodeString name⟩

/-- Where the resources are, if the program is installed in the given directory. -/
def resources (home : Path) : Path :=
  inside home directoryName

/-- Puts the resources in place. -/
def install (files : FileSystem) (home : Path) : Except SystemError FileSystem :=
  files.writeFile (inside (resources home) stampName) stamp

/-- Deploys the resources into a target directory. -/
def deploy (files : FileSystem) (order : Deployment.ListingOrder) (home target : Path) :
    Deployment.Outcome :=
  files.deploy order (resources home) target

end ConsoleKit.Bundle

import PackageResolution.Path
/-!
# Targets

What is built, and for which architecture: the packages a build starts from and the features that
are enabled before resolution. A target lives in its own directory below the project.
-/
namespace PackageResolution

/-- What is built. -/
structure Target where
  name : String
  arch : String
  /-- The dependency texts that the build starts from. -/
  packages : List String := []
  /-- The features that are enabled before resolution. -/
  features : List String := []
  deriving DecidableEq, Inhabited

namespace Target

def directoryName : String := "targets"

def fileName : String := "target.toml"

/-- Where a project keeps the target of a name (`path_in`). -/
def pathIn (root : Path) (name : String) : Path := ((root.join directoryName).join name).join fileName

def display (t : Target) : String := "target " ++ t.name

end Target
end PackageResolution

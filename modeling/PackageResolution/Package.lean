import PackageResolution.Descriptor
import PackageResolution.Path
import PackageResolution.Settings
import PackageResolution.Version
/-!
# Packages

A source package: its name, the repository it lives in, the directory its files hang off, and its
settings.
-/
namespace PackageResolution

structure Package where
  /-- Slash-separated, unique within the repository. -/
  name : String
  repo : String
  /-- The package directory. -/
  base : Path
  version : Option Version := none
  settings : Settings := {}
  deriving DecidableEq, Inhabited

namespace Package

/-- The descriptor that names a package (`as_dependency`). -/
def descriptor (p : Package) : Descriptor := ⟨p.repo, p.name⟩

def display (p : Package) : String := p.descriptor.display

/-- The last segment of the name (`base_name`). -/
def baseName (p : Package) : String := Text.lastSegment p.name

def includeDir (p : Package) : Path := p.base.join "include"

def sourceDir (p : Package) : Path := p.base.join "src"

/-- Where dependents find headers: the include directory and its part for the architecture
(`public_include_dirs`). -/
def publicIncludes (p : Package) (arch : String) : List Path :=
  [p.includeDir, ((p.includeDir.join p.baseName).join "arch").join arch]

/-- A source directory and its part for the architecture. -/
def withArch (dir : Path) (arch : String) : List Path := [dir, (dir.join "arch").join arch]

/-- Where the package alone finds headers: its sources and, while the test feature is enabled, its
test sources (`private_include_dirs`). -/
def privateIncludes (p : Package) (arch : String) (features : FeatureSet) : List Path :=
  withArch p.sourceDir arch ++
    if features.isTest then withArch (p.sourceDir.join "test") arch else []

end Package
end PackageResolution

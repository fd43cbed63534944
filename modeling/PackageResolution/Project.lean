import PackageResolution.Registry
/-!
# Projects

The packages of a project in the order in which they were added, and an index of them by repository
and name. A name can be taken once.
-/
namespace PackageResolution

/-- A project and its packages. -/
structure Project where
  name : String
  root : Path
  packages : List Package := []
  /-- The identities of the packages by name. -/
  index : List (Descriptor × PackageId) := []
  deriving Inhabited

/-- Two packages of one name, by their directories. -/
structure DefinedTwice where
  descriptor : Descriptor
  first : Path
  second : Path
  deriving DecidableEq

def DefinedTwice.message (e : DefinedTwice) : String :=
  "package `" ++ e.descriptor.display ++ "` is defined twice: " ++ e.first.text ++ " and " ++
    e.second.text

namespace Project

/-- The identity that the index has for a name (`resolve`). -/
def resolve (p : Project) (d : Descriptor) : Option PackageId := p.index.lookup d

/-- Adds a package and gives it the next identity, unless the index has its name (`add_package`). -/
def add (p : Project) (pkg : Package) : Except DefinedTwice PackageId × Project :=
  match p.resolve pkg.descriptor with
  | some existing =>
    let first := (p.packages[existing.index]?.map Package.base).getD ""
    (.error ⟨pkg.descriptor, first, pkg.base⟩, p)
  | none =>
    let id := PackageId.ofIndex p.packages.length
    (.ok id, { p with packages := p.packages ++ [pkg], index := (pkg.descriptor, id) :: p.index })

/-- Adds packages one after another: the answers, and the project after the last addition. -/
def addEach (p : Project) : List Package → List (Except DefinedTwice PackageId) × Project
  | [] => ([], p)
  | pkg :: pkgs =>
    let (answer, p') := p.add pkg
    let (answers, p'') := p'.addEach pkgs
    (answer :: answers, p'')

/-- A project as a source of packages. -/
def registry (p : Project) : Registry := ⟨p.packages, p.resolve⟩

/-- The packages with their identities, in order (`packages`). -/
def identified (p : Project) : List (PackageId × Package) :=
  p.packages.zipIdx.map fun (pkg, i) => (.ofIndex i, pkg)

end Project
end PackageResolution

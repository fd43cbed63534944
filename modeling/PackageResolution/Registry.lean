import PackageResolution.Package
import PackageResolution.PackageId
/-!
# Registries

A registry holds packages and answers which of them a descriptor means. The answer is a function
of the descriptor; nothing forces it to be a package that the registry holds.
-/
namespace PackageResolution

/-- A source of packages. -/
structure Registry where
  packages : List Package
  resolve : Descriptor → Option PackageId

namespace Registry

def package? (r : Registry) (id : PackageId) : Option Package := r.packages[id.index]?

def size (r : Registry) : Nat := r.packages.length

/-- How messages name an identity: by its package, or by its place if there is none. -/
def describe (r : Registry) (id : PackageId) : String :=
  ((r.package? id).map Package.display).getD id.display

/-- The registry with other answers for some descriptors. -/
def override (r : Registry) (answer? : Descriptor → Option (Option PackageId)) : Registry :=
  { r with resolve := fun d => (answer? d).getD (r.resolve d) }

/-- A registry is closed if every answer is the identity of a package that it holds. -/
def Closed (r : Registry) : Prop := ∀ d id, r.resolve d = some id → (r.package? id).isSome

end Registry
end PackageResolution

import PackageResolution.Session.Basic
/-!
# Load attempts

A load attempt enables the features that a package declares, then finds the dependencies that it
declares under the features enabled by then. If neither brought anything new the package is final:
its capabilities are recorded and it counts as loaded. Otherwise it stays pending, because what was
new may change what it declares.

Main statement: `load_eq_of_loaded`, that a loaded package is left alone.
-/
namespace PackageResolution

/-- What a load attempt came to. -/
inductive LoadState where
  | pending
  | loaded
  deriving DecidableEq

/-- What following dependency texts lets grow: the registered identities and the dependencies that
were found. -/
structure Trail where
  order : List PackageId
  deps : List Descriptor
  deriving DecidableEq

namespace Trail

/-- Adds a dependency and the identity that it means, each unless it is there. -/
def record (t : Trail) (d : Descriptor) (id : PackageId) : Trail :=
  ⟨if id ∈ t.order then t.order else t.order ++ [id],
    if d ∈ t.deps then t.deps else t.deps ++ [d]⟩

/-- Follows the dependency texts of a package, up to the first that fails (`load_deps`). -/
def follow (r : Registry) (owner : Package) :
    List String → Trail → Except ResolutionError Unit × Trail
  | [], t => (.ok (), t)
  | entry :: entries, t =>
    match Session.resolveEntry r owner.display owner.repo entry with
    | .error e => (.error e, t)
    | .ok (d, id) => follow r owner entries (t.record d id)

end Trail

namespace Member

/-- Enables the features that a package declares (`load_features`). -/
def enableFeatures (m : Member) (s : Shared) : Shared :=
  let (declared, s) := m.read .features s
  { s with features := s.features.insertAll declared }

/-- One load attempt (`load`). -/
def load (r : Registry) (m : Member) (s : Shared) : Except ResolutionError LoadState × Shared × Member :=
  match m.phase with
  | .loaded .. => (.ok .loaded, s, m)
  | .pending =>
    let (entries, s₁) := m.read .deps (m.enableFeatures s)
    let (result, trail) := Trail.follow r m.package entries ⟨s.order, m.deps⟩
    let s₂ := { s₁ with order := trail.order }
    let m₂ := { m with deps := trail.deps }
    match result with
    | .error e => (.error e, s₂, m₂)
    | .ok () =>
      if s₂.features = s.features ∧ trail = ⟨s.order, m.deps⟩ then
        let (provides, s₃) := m.read .caps s₂
        let (requires, s₄) := m.read .reqCaps s₃
        (.ok .loaded, s₄, { m₂ with phase := .loaded provides requires none })
      else (.ok .pending, s₂, m₂)

/-- A loaded package is left alone, and so is all that attempts share. -/
theorem load_eq_of_loaded (r : Registry) {m : Member} (s : Shared) (h : m.isLoaded = true) :
    m.load r s = (.ok .loaded, s, m) := by
  cases hp : m.phase with
  | pending => simp [isLoaded, hp] at h
  | loaded => simp [load, hp]

end Member

namespace Session

/-- One load attempt for a registered package (`load_package`). Identities that it registered become
members, unless the attempt failed. -/
def loadPackage (r : Registry) (s : Session) (id : PackageId) : Outcome LoadState :=
  match s.member? id with
  | none => (.error (.notRegistered id.display), s)
  | some m =>
    let (result, shared, m') := m.load r s.toShared
    let s' := { s with toShared := shared }.setMember m'
    match result with
    | .error e => (.error e, s')
    | .ok state =>
      let (made, s'') := materialize r s'
      (made.map fun _ => state, s'')

end Session
end PackageResolution

import PackageResolution.CompilerInfo
import PackageResolution.Registry
import PackageResolution.Session.Error
import PackageResolution.Target
/-!
# Resolution sessions

A session resolves one target over a registry. It holds the enabled features, the identities that
are registered, in order, and for each of them a member: the package together with what resolution
has found out about it. Members are made a step after registration, so an identity can be
registered without having one; `materialize` makes those that are missing.

Every operation yields the session after it also when it fails: what was found before the failure
stays.
-/
namespace PackageResolution

/-- How far resolution has come with a package. -/
inductive Phase where
  /-- Another load attempt is due. -/
  | pending
  /-- The package is final. Its flags are put together when they are first asked for. -/
  | loaded (provides requires : List String) (flags : Option CompilerInfo)
  deriving DecidableEq

/-- A package that takes part in a session. -/
structure Member where
  id : PackageId
  package : Package
  /-- The dependencies found so far, in the order in which they were found. -/
  deps : List Descriptor := []
  phase : Phase := .pending
  deriving DecidableEq

namespace Member

def display (m : Member) : String := m.package.display

def isLoaded (m : Member) : Bool := m.phase != .pending

/-- The capabilities that the package provides; none until it is loaded (`apis`). -/
def provides (m : Member) : List String :=
  match m.phase with
  | .pending => []
  | .loaded provides _ _ => provides

/-- The capabilities that the package requires; none until it is loaded (`req_apis`). -/
def requires (m : Member) : List String :=
  match m.phase with
  | .pending => []
  | .loaded _ requires _ => requires

def flags (m : Member) : Option CompilerInfo :=
  match m.phase with
  | .pending => none
  | .loaded _ _ flags => flags

theorem isLoaded_eq_false_iff {m : Member} : m.isLoaded = false ↔ m.phase = .pending := by
  simp [isLoaded]

theorem flags_of_pending {m : Member} (h : m.phase = .pending) : m.flags = none := by
  rw [flags, h]

/-- Whether a dependency has been found (`has_dep`). -/
def hasDep (m : Member) (d : Descriptor) : Bool := m.deps.contains d

end Member

/-- One reading of a list of a package's settings. -/
structure Reading where
  id : PackageId
  key : Settings.Key
  deriving DecidableEq

/-- What load attempts share and let grow. -/
structure Shared where
  features : FeatureSet
  /-- The registered identities, in the order of their registration. -/
  order : List PackageId
  /-- Which settings were read so far, the last reading first. -/
  readings : List Reading := []
  deriving DecidableEq

namespace Shared

/-- Registers an identity, unless it is registered (`register`). -/
def register (s : Shared) (id : PackageId) : Shared :=
  if id ∈ s.order then s else { s with order := s.order ++ [id] }

/-- Notes that a list of settings was read. -/
def note (s : Shared) (id : PackageId) (key : Settings.Key) : Shared :=
  { s with readings := ⟨id, key⟩ :: s.readings }

/-- How often a list of settings was read. -/
def readCount (s : Shared) (id : PackageId) (key : Settings.Key) : Nat :=
  s.readings.count ⟨id, key⟩

end Shared

/-- Reads a list of a member's settings under the enabled features, and notes the reading
(`string_list`). -/
def Member.read (m : Member) (key : Settings.Key) (s : Shared) : List String × Shared :=
  (m.package.settings.values key s.features, s.note m.id key)

/-- A resolution session. -/
structure Session extends Shared where
  target : Target
  members : List Member := []
  deriving DecidableEq

/-- What an operation answers, and the session after it. -/
abbrev Outcome (α : Type) := Except ResolutionError α × Session

namespace Session

/-- A session without packages, in which the target's features are enabled (`new`). -/
def start (target : Target) : Session where
  features := .ofList target.features
  order := []
  target := target

@[simp] theorem start_order (target : Target) : (start target).order = [] := rfl

@[simp] theorem start_members (target : Target) : (start target).members = [] := rfl

def member? (s : Session) (id : PackageId) : Option Member := s.members.find? (·.id == id)

/-- Whether an identity has a member (`is_registered`). -/
def isRegistered (s : Session) (id : PackageId) : Bool := (s.member? id).isSome

/-- The members in the order of registration (`packages`). -/
def packages (s : Session) : List Member := s.order.filterMap s.member?

/-- The member of an identity, or the error that there is none (`build_package`). -/
def requireMember (r : Registry) (s : Session) (id : PackageId) : Except ResolutionError Member :=
  match s.member? id with
  | some m => .ok m
  | none => .error (.notRegistered (r.describe id))

def setMember (s : Session) (m : Member) : Session :=
  { s with members := s.members.map fun old => if old.id = m.id then m else old }

/-- Enables a feature; answers whether it was not enabled before (`add_feature`). -/
def addFeature (s : Session) (name : String) : Bool × Session :=
  (decide (name ∉ s.features), { s with features := s.features.insert name })

/-! ## Registration -/

/-- Makes the members that are missing among the given identities, up to the first identity whose
package the registry does not hold. -/
def materializeEach (r : Registry) :
    List PackageId → List Member → Except ResolutionError Unit × List Member
  | [], members => (.ok (), members)
  | id :: ids, members =>
    if members.any (·.id == id) then materializeEach r ids members
    else match r.package? id with
      | none => (.error (.notRegistered id.display), members)
      | some package => materializeEach r ids (members ++ [{ id, package }])

/-- Makes the members that are missing among the registered identities
(`materialize_registrations`). -/
def materialize (r : Registry) (s : Session) : Outcome Unit :=
  let (result, members) := materializeEach r s.order s.members
  (result, { s with members })

/-- Registers a package of the registry; answers whether it was not registered before
(`add_package`). -/
def addPackage (r : Registry) (s : Session) (id : PackageId) : Outcome Bool :=
  match r.package? id with
  | none => (.error (.notRegistered id.display), s)
  | some _ =>
    let (result, s') := materialize r { s with toShared := s.register id }
    (result.map fun _ => decide (id ∉ s.order), s')

/-- Reads a dependency text and finds what it means. The errors name `owner`. -/
def resolveEntry (r : Registry) (owner repo entry : String) :
    Except ResolutionError (Descriptor × PackageId) :=
  match Descriptor.parse entry repo with
  | .error cause => .error (.malformedDependency owner entry cause)
  | .ok d =>
    match r.resolve d with
    | none => .error (.unresolvedDependency owner d.display)
    | some id => .ok (d, id)

/-- Registers the package that a dependency text means; texts without repository mean the project's
own packages (`add_dependency_root`). -/
def addRoot (r : Registry) (s : Session) (entry : String) : Outcome PackageId :=
  match resolveEntry r s.target.display Descriptor.localRepo entry with
  | .error e => (.error e, s)
  | .ok (_, id) =>
    let (result, s') := addPackage r s id
    (result.map fun _ => id, s')

/-- Registers the packages that dependency texts mean, up to the first text that fails. -/
def addRoots (r : Registry) (s : Session) : List String → Outcome (List PackageId)
  | [] => (.ok [], s)
  | entry :: entries =>
    match addRoot r s entry with
    | (.error e, s') => (.error e, s')
    | (.ok id, s') =>
      let (result, s'') := addRoots r s' entries
      (result.map (id :: ·), s'')

/-- Registers the packages that the target names (`seed_target`). -/
def seedTarget (r : Registry) (s : Session) : Outcome (List PackageId) :=
  addRoots r s s.target.packages

end Session
end PackageResolution

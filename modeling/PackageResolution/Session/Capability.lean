import PackageResolution.Session.Basic
/-!
# Capabilities

Packages provide capabilities and require them. Each one that a package requires has to be provided
by some package; one that is provided more than once is worth a warning.
-/
namespace PackageResolution

/-- The packages that provide each capability. The capabilities come in no order that matters. -/
abbrev Providers := List (String × List Member)

namespace Providers

/-- Adds a package at the end of the group of a capability, which is made if there is none. -/
def push (m : Member) (capability : String) : Providers → Providers
  | [] => [(capability, [m])]
  | g :: gs =>
    if g.1 = capability then (g.1, g.2 ++ [m]) :: gs else g :: push m capability gs

def contains (groups : Providers) (capability : String) : Bool := groups.any (·.1 == capability)

/-- The groups of more than one, in the order of the capabilities' names. -/
def repeated (groups : Providers) : Providers :=
  (groups.filter (1 < ·.2.length)).mergeSort fun a b => a.1 ≤ b.1

/-- The warning about a capability. -/
def warning (capability : String) (providers : List Member) : String :=
  "capability `" ++ capability ++ "` is provided by several packages: " ++
    ", ".intercalate (providers.map Member.display)

end Providers

namespace Session

/-- The packages that provide each capability, once for each time a package lists it, in the order
of registration. -/
def providers (s : Session) : Providers :=
  s.packages.foldl (fun groups m => m.provides.foldl (fun groups c => groups.push m c) groups) []

/-- The warnings that verification gives: one for each capability that is provided more than
once. -/
def capabilityWarnings (s : Session) : List String :=
  s.providers.repeated.map fun g => Providers.warning g.1 g.2

/-- The first requirement that no package meets, with the package that has it. -/
def unmet? (s : Session) : Option (Member × String) :=
  s.packages.findSome? fun m =>
    (m.requires.find? fun capability => !s.providers.contains capability).map (m, ·)

/-- Whether every requirement is met (`verify_capabilities`). -/
def verifyCapabilities (s : Session) : Except ResolutionError Unit :=
  match s.unmet? with
  | some (m, capability) => .error (.missingCapability m.display capability)
  | none => .ok ()

end Session
end PackageResolution

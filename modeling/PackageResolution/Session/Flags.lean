import PackageResolution.Session.Closure
/-!
# Flags of a package

The compiler information of a loaded package. It is put together when it is first asked for, from
the package's own flags under the features enabled then and the include path of its closure, and
kept from then on.
-/
namespace PackageResolution

namespace Member

/-- The compiler information of a package with a given include path, from flags that are read for it
(`assemble_compiler_info`). -/
def assemble (m : Member) (includes : List Path) (s : Shared) : CompilerInfo × Shared :=
  let (cflags, s) := m.read .cflags s
  let (lflags, s) := m.read .lflags s
  let (aflags, s) := m.read .aflags s
  ({ cflags, lflags, aflags, includes }, s)

/-- A loaded member that keeps flags: those it keeps already, or else the given ones
(`cache_compiler_info`). -/
def keep (m : Member) (ci : CompilerInfo) : Member :=
  match m.phase with
  | .loaded provides requires none => { m with phase := .loaded provides requires (some ci) }
  | _ => m

end Member

namespace Session

/-- Puts the flags of a member together and keeps them. -/
def keepFlags (s : Session) (m : Member) (includes : List Path) : Session :=
  let (ci, shared) := m.assemble includes s.toShared
  { s with toShared := shared }.setMember (m.keep ci)

/-- The flags that are kept for a package. -/
def keptFlags (r : Registry) (s : Session) (id : PackageId) : Except ResolutionError CompilerInfo := do
  let m ← requireMember r s id
  match m.flags with
  | some ci => return ci
  | none => throw (.notLoaded m.display)

/-- The compiler information of a loaded package (`compiler_info`). -/
def compilerInfo (r : Registry) (s : Session) (id : PackageId) : Outcome CompilerInfo :=
  match requireMember r s id with
  | .error e => (.error e, s)
  | .ok m =>
    if !m.isLoaded then (.error (.notLoaded m.display), s)
    else
      let put := if m.flags.isSome then .ok s else (includePath r s id).map (s.keepFlags m)
      match put with
      | .error e => (.error e, s)
      -- the member is looked up again, and by now it keeps flags
      | .ok s => (keptFlags r s id, s)

end Session
end PackageResolution

import PackageResolution.Session.Basic
/-!
# Dependency closures

The packages that one package depends on, at first or at second hand, itself included. They are
found depth first, each once, so that dependencies in a circle do no harm: first the package, then
what each of its dependencies leads to, in the order in which they are recorded.
-/
namespace PackageResolution

namespace Session

/-- The members that a list of identities leaves out. -/
def unvisited (s : Session) (seen : List PackageId) : List Member :=
  s.members.filter fun m => !seen.contains m.id

theorem length_unvisited_lt {s : Session} {seen : List PackageId} {id : PackageId} {m : Member}
    (hm : s.member? id = some m) (hs : id ∉ seen) :
    (s.unvisited (seen ++ [id])).length < (s.unvisited seen).length := by
  have mem : m ∈ s.members := List.mem_of_find?_eq_some hm
  have hid : m.id = id := by simpa using List.find?_some hm
  have sub : s.unvisited (seen ++ [id]) = (s.unvisited seen).filter (·.id != id) := by
    unfold unvisited
    rw [List.filter_filter]
    refine List.filter_congr fun x _ => ?_
    by_cases hx : x.id = id <;> simp [hx]
  rw [sub]
  refine List.length_filter_lt_length_iff_exists.2 ⟨m, ?_, by simp [hid]⟩
  simpa [unvisited, hid, hs] using mem

/-- Follows dependencies, each given with the name of its owner, and adds what they lead to to the
packages seen before (`collect_deps_aux`). -/
def explore (r : Registry) (s : Session) (seen : List PackageId) :
    List (String × Descriptor) → Except ResolutionError (List PackageId)
  | [] => .ok seen
  | (owner, d) :: rest =>
    match r.resolve d with
    | none => .error (.unresolvedDependency owner d.display)
    | some id =>
      if id ∈ seen then explore r s seen rest
      else match _hm : s.member? id with
        | none => .error (.notRegistered (r.describe id))
        | some m => explore r s (seen ++ [id]) (m.deps.map (m.display, ·) ++ rest)
termination_by todo => ((s.unvisited seen).length, todo.length)
decreasing_by
  · exact Prod.Lex.right _ (by simp)
  · exact Prod.Lex.left _ _ (length_unvisited_lt ‹_› ‹_›)

/-- The dependency closure of a package in the order of discovery (`collect_deps`). -/
def collectDeps (r : Registry) (s : Session) (id : PackageId) :
    Except ResolutionError (List PackageId) := do
  let m ← requireMember r s id
  explore r s [id] (m.deps.map (m.display, ·))

/-- Where dependents of a package find headers (`public_include_dirs`). -/
def publicIncludes (r : Registry) (s : Session) (id : PackageId) :
    Except ResolutionError (List Path) := do
  return (← requireMember r s id).package.publicIncludes s.target.arch

/-- Where the package alone finds headers (`private_include_dirs`). -/
def privateIncludes (r : Registry) (s : Session) (id : PackageId) :
    Except ResolutionError (List Path) := do
  return (← requireMember r s id).package.privateIncludes s.target.arch s.features

/-- Where a package finds headers: its private directories, then the public ones of its closure
(`recursive_include_paths`). -/
def includePath (r : Registry) (s : Session) (id : PackageId) :
    Except ResolutionError (List Path) := do
  let own ← privateIncludes r s id
  let closure ← collectDeps r s id
  return own ++ (← closure.mapM (publicIncludes r s)).flatten

end Session
end PackageResolution

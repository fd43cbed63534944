import PackageResolution.Session.Closure
/-!
# Dependency trees

The dependencies of a package as a tree of lines. A package that was shown before is marked and not
followed again, so the tree is finite even where dependencies run in a circle.
-/
namespace PackageResolution

/-- A line of a dependency tree. -/
structure TreeLine where
  depth : Nat
  member : Member
  /-- Whether the package was shown before. -/
  repeated : Bool

namespace TreeLine

/-- The text of a line. -/
def text (l : TreeLine) : String :=
  (if l.depth = 0 then "" else String.join (List.replicate (l.depth - 1) "│   ") ++ "├── ") ++
    l.member.display ++ ((l.member.package.version.map fun v => " v" ++ v.display).getD "") ++
    if l.repeated then " (*)" else ""

end TreeLine

namespace Session

/-- The lines for packages that are to be shown at a depth each, after others were shown before.
Nothing is shown below `limit`. -/
def treeBelow (r : Registry) (s : Session) (limit : Option Nat) (shown : List PackageId) :
    List (Nat × PackageId) → List TreeLine
  | [] => []
  | (depth, id) :: rest =>
    if limit.any (· < depth) then treeBelow r s limit shown rest
    else match _hm : s.member? id with
      | none => treeBelow r s limit shown rest
      | some m =>
        if id ∈ shown then ⟨depth, m, true⟩ :: treeBelow r s limit shown rest
        else ⟨depth, m, false⟩ :: treeBelow r s limit (shown ++ [id])
          ((m.deps.filterMap r.resolve).map (depth + 1, ·) ++ rest)
termination_by todo => ((s.unvisited shown).length, todo.length)
decreasing_by
  · exact Prod.Lex.right _ (by simp)
  · exact Prod.Lex.right _ (by simp)
  · exact Prod.Lex.right _ (by simp)
  · exact Prod.Lex.left _ _ (length_unvisited_lt ‹_› ‹_›)

/-- The dependency tree of a package, down to a depth if one is given. -/
def tree (r : Registry) (s : Session) (id : PackageId) (limit : Option Nat) : List TreeLine :=
  treeBelow r s limit [] [(0, id)]

end Session
end PackageResolution

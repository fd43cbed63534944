import PackageResolution.FileTree
/-!
# Walking a directory

What is below a directory, depth first, a directory before what it holds, and the entries of each
directory in ascending order of name. An entry that the walk does not keep is passed over together
with all below it.
-/
namespace PackageResolution

/-- Something met on a walk. -/
structure Found where
  path : Path
  name : FileName
  isDir : Bool
  isFile : Bool
  deriving DecidableEq

/-- Whether a directory met on a walk has a path too long for it to be opened. A file is met by its
name alone. -/
def Found.isOutOfReach (f : Found) : Bool := f.isDir && FileTree.isTooLong f.path

namespace Node

def found (n : Node) (path : Path) (name : FileName) : Found := ⟨path, name, n.isDir, n.isFile⟩

mutual

/-- What is met at and below a node that stands at `path` under `name`. -/
def walk (keep : Path → FileName → Bool) (path : Path) (name : FileName) : Node → List Found
  | dir es =>
    (dir es).found path name ::
      ((walkEach keep path es).mergeSort fun a b => a.1 ≤ b.1).flatMap (·.2)
  | file bytes => [(file bytes).found path name]
  | other => [other.found path name]

/-- What is met at and below each kept entry of a directory, beside the entry's name. -/
def walkEach (keep : Path → FileName → Bool) (path : Path) :
    List (FileName × Node) → List (FileName × List Found)
  | [] => []
  | (name, node) :: es =>
    if keep (path.join name) name then
      (name, walk keep (path.join name) name node) :: walkEach keep path es
    else walkEach keep path es

end

/-- What is met at and below a directory; the directory itself is kept whatever its name. -/
def walkBelow (keep : Path → FileName → Bool) (path : Path) (n : Node) : List Found :=
  n.walk keep path ⟨[]⟩

end Node
end PackageResolution

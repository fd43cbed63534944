import PackageResolution.FileTree.Walk
import PackageResolution.Loading
/-!
# Finding a project's packages

A project is the directory that holds its project file. Every directory below it that holds a
manifest is a package of the project's own repository, and likewise below the directories of the
further repositories, which are not searched for the project's own packages. Directories for targets
and hidden entries are passed over.
-/
namespace PackageResolution

namespace Project

/-- Whether a search passes over an entry by its name (`is_skipped_dir`). A name that is no text is
never passed over, whatever its first byte. -/
def isSkipped (name : FileName) : Bool :=
  match name.text? with
  | some text => text == Target.directoryName || text.toList.head? == some '.'
  | none => false

/-- Whether a search that leaves some directories out goes on to an entry. -/
def isKept (exclude : List Path) (path : Path) (name : FileName) : Bool :=
  !isSkipped name && !exclude.any (·.sameAs path)

def isManifest (f : Found) : Bool := f.isFile && f.name == (Manifest.fileName : FileName)

/-- The manifests below a directory, in the order of the walk, or the first directory on it that
cannot be opened. -/
def manifestPaths (t : FileTree) (root : Path) (exclude : List Path) :
    Except (Path × AccessError) (List Path) := do
  let node ← (t.node root).mapError (root, ·)
  let found := node.walkBelow (isKept exclude) root
  match found.find? Found.isOutOfReach with
  | some dir => throw (dir.path, .nameTooLong)
  | none => return (found.filter isManifest).map Found.path

/-- Adds the packages of manifests, up to the first that cannot be loaded or added. -/
def addManifests (t : FileTree) (repo : String) (p : Project) : List Path → Except LoadError Project
  | [] => .ok p
  | path :: paths => do
    let pkg ← t.loadPackage path repo
    match p.add pkg with
    | (.error e, _) => throw (.definedTwice e)
    | (.ok _, p) => addManifests t repo p paths

/-- Adds the packages of a repository (`scan_repository`). -/
def scan (t : FileTree) (repo : String) (root : Path) (exclude : List Path) (p : Project) :
    Except LoadError Project := do
  let paths ← (manifestPaths t root exclude).mapError fun (dir, cause) =>
    .unscannable repo root dir cause
  addManifests t repo p paths

/-- The directories of the further repositories, in the order of their names. -/
def repositoryRoots (t : FileTree) (root : Path) (f : ProjectFile) :
    Except LoadError (List (String × Path)) :=
  f.repositories.entries.mapM fun (repo, path) =>
    let dir := root.join path
    if t.isDir dir then .ok (repo, dir) else .error (.repositoryNotFound repo dir)

/-- Loads the project at a directory with all its packages: first those of its own, then those of
each further repository (`load`). -/
def load (t : FileTree) (root : Path) : Except LoadError Project := do
  let f ← t.loadProjectFile (root.join ProjectFile.fileName)
  let roots ← repositoryRoots t root f
  let p ← scan t Descriptor.localRepo root (roots.map (·.2)) { name := f.name, root }
  roots.foldlM (fun p (repo, dir) => scan t repo dir [] p) p

/-- Loads a target of a project by its name (`load_target`). -/
def loadTarget (t : FileTree) (p : Project) (name : String) : Except LoadError Target :=
  t.loadTarget (Target.pathIn p.root name)

/-- The nearest directory, from a given one upwards, that holds a project file
(`find_project_root`). -/
def findRoot (t : FileTree) (start : Path) : Option Path :=
  (start :: start.above).find? fun dir => t.isFile (dir.join ProjectFile.fileName)

end Project
end PackageResolution

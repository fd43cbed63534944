import PackageResolution.Config
import PackageResolution.FileTree
import PackageResolution.Manifest
import PackageResolution.Project
import PackageResolution.Project.File
import PackageResolution.Target.Schema
/-!
# Loading files

Reads manifests, targets, project files and configuration from a file tree. An error names the file
and, the position within the file apart, everything that led to it.
-/
namespace PackageResolution

/-- What a file is read as. -/
inductive FileRole where
  | manifest
  | target
  | project
  | config
  deriving DecidableEq

def FileRole.describe : FileRole → String
  | manifest => "manifest"
  | target => "target"
  | project => "project file"
  | config => "config file"

/-- Why something cannot be loaded. -/
inductive LoadError where
  | unreadable (role : FileRole) (path : Path) (cause : AccessError)
  /-- A file does not hold what it should. -/
  | undecodable (role : FileRole) (path : Path) (cause : DecodeError)
  | badManifest (path : Path) (cause : Manifest.Error)
  | badTarget (path : Path) (cause : Target.Error)
  | reservedRepository (path : Path)
  | repositoryNotFound (repo : String) (path : Path)
  /-- A repository's directory, or one below it, cannot be opened. -/
  | unscannable (repo : String) (root dir : Path) (cause : AccessError)
  | definedTwice (cause : DefinedTwice)
  deriving DecidableEq

namespace LoadError

def message : LoadError → String
  | unreadable role path cause =>
    "failed to read " ++ role.describe ++ ": " ++ path.text ++ ": " ++ cause.message
  | undecodable role path _ => "failed to parse " ++ role.describe ++ ": " ++ path.text
  | badManifest path cause => "failed to parse manifest: " ++ path.text ++ ": " ++ cause.message
  | badTarget path cause => "failed to parse target: " ++ path.text ++ ": " ++ cause.message
  | reservedRepository path =>
    "repository name `" ++ Descriptor.localRepo ++ "` is reserved for the project itself (" ++
      path.text ++ ")"
  | repositoryNotFound repo path => "repository `" ++ repo ++ "` not found at " ++ path.text
  | unscannable repo root dir cause =>
    "failed to scan repository `" ++ repo ++ "` at " ++ root.text ++ ": IO error for operation on " ++
      dir.text ++ ": " ++ cause.message ++ ": " ++ cause.message
  | definedTwice cause => cause.message

def ofManifest (path : Path) : Manifest.Error → LoadError
  | .document cause => undecodable .manifest path cause
  | cause => badManifest path cause

def ofTarget (path : Path) : Target.Error → LoadError
  | .document cause => undecodable .target path cause
  | cause => badTarget path cause

def ofProjectFile (path : Path) : ProjectFile.Error → LoadError
  | .document cause => undecodable .project path cause
  | .reservedRepository => reservedRepository path

end LoadError

namespace FileTree

/-- The text of a file that is read in a role. -/
def readAs (t : FileTree) (role : FileRole) (path : Path) : Except LoadError String :=
  (t.readText path).mapError (.unreadable role path)

/-- The manifest at a path. -/
def loadManifest (t : FileTree) (path : Path) : Except LoadError Manifest := do
  (Manifest.parse (← t.readAs .manifest path)).mapError (.ofManifest path)

/-- The package that the manifest at a path defines, in the manifest's directory. -/
def loadPackage (t : FileTree) (path : Path) (repo : String) : Except LoadError Package := do
  let m ← t.loadManifest path
  (m.toPackage repo (path.parent?.getD ".")).mapError (.ofManifest path)

def loadTarget (t : FileTree) (path : Path) : Except LoadError Target := do
  (Target.parse (← t.readAs .target path)).mapError (.ofTarget path)

def loadProjectFile (t : FileTree) (path : Path) : Except LoadError ProjectFile := do
  (ProjectFile.parse (← t.readAs .project path)).mapError (.ofProjectFile path)

def loadConfig (t : FileTree) (path : Path) : Except LoadError Config := do
  (Config.parse (← t.readAs .config path)).mapError (.undecodable .config path)

/-- The configuration layer at a path, or none of it where there is no file (`load_or_default`). A
file that cannot be loaded counts as if it were not there, with a warning. -/
def configOrDefault (t : FileTree) (path : Path) : Config × List String :=
  if t.hasPath path then
    match t.loadConfig path with
    | .ok c => (c, [])
    | .error e => ({}, ["Failed to load config from " ++ path.text ++ ": " ++ e.message])
  else ({}, [])

/-- Configuration from files, the first over nothing and each further one over those before it
(`load_config`). -/
def layeredConfig (t : FileTree) (paths : List Path) : Config × List String :=
  paths.foldl (fun (c, warnings) path =>
    let (layer, more) := t.configOrDefault path
    (c.merge layer, warnings ++ more)) ({}, [])

end FileTree
end PackageResolution

import PackageResolution.CompilerInfo.Schema
import PackageResolution.Project.Discovery
import PackageResolution.Session.Capability
import PackageResolution.Session.Flags
import PackageResolution.Session.Resolve
/-!
# Resolving a project

Loads a project and one of its targets, enables the features of configuration and options, registers
the packages that the target and the options name, resolves, and checks capabilities unless that is
switched off.
-/
namespace PackageResolution

/-- Where a run takes place and how it talks. -/
structure Context where
  /-- The directory that the search for the project starts in. -/
  cwd : Path
  /-- The directory of the user's own configuration. -/
  home : Path
  verbose : Bool := false
  colour : Bool := true

namespace Context

def configPath (c : Context) : Path := c.home.join Config.fileName

/-- The configuration file of a project (`project_config_path`). -/
def projectConfigPath (root : Path) : Path := (root.join Config.directoryName).join Config.fileName

/-- The configuration of a project (`load_config`): the user's own, and the project's over it. -/
def config (c : Context) (t : FileTree) (root : Path) : Config × List String :=
  t.layeredConfig [c.configPath, projectConfigPath root]

end Context

/-- What a run is asked for. -/
structure Options where
  /-- The target, unless the configuration's is meant. -/
  target : Option String := none
  /-- Features to enable besides those of target and configuration. -/
  features : List String := []
  /-- Packages to build besides the target's own. -/
  packages : List String := []
  /-- Whether to check capabilities, unless the configuration says it. -/
  verifyCaps : Option Bool := none

/-- Why a project cannot be resolved. -/
inductive ProjectError where
  /-- No directory from the current one upwards holds a project file. -/
  | noProject (cwd : Path)
  | load (cause : LoadError)
  | noTarget
  | unknownPackage (cause : UnknownPackage)
  | resolution (cause : ResolutionError)
  /-- A document was to hold a path that is no text. -/
  | pathNotText
  deriving DecidableEq

def ProjectError.message : ProjectError → String
  | noProject cwd =>
    "could not find `" ++ ProjectFile.fileName ++ "` in " ++ cwd.text ++ " or any parent directory"
  | load cause => cause.message
  | noTarget =>
    "no target selected\nhelp: Pass `--target <name>` or set `[build] target` in .keelson/config.toml"
  | unknownPackage cause => cause.message
  | resolution cause => cause.message
  | pathNotText => "path contains invalid UTF-8 characters"

/-- A project whose session is resolved. -/
structure Resolution where
  project : Project
  session : Session
  summary : Summary
  /-- The packages that the options name, in their order. -/
  roots : List PackageId

/-- What a run reports. -/
structure Report where
  project : String
  target : String
  arch : String
  passes : Nat
  packages : List String
  features : List String
  deriving DecidableEq

namespace Report

def toValue (r : Report) : Value :=
  .table [("project", .text r.project), ("target", .text r.target), ("arch", .text r.arch),
    ("passes", .integer r.passes), ("packages", Settings.listValue r.packages),
    ("features", Settings.listValue r.features)]

end Report

namespace Resolution

/-- The report on a resolution (`report`). -/
def report (r : Resolution) : Report where
  project := r.project.name
  target := r.session.target.name
  arch := r.session.target.arch
  passes := r.summary.passes
  packages := r.session.packages.map Member.display
  features := r.session.features.names

/-- The error for a text that is a descriptor of no package of the project (`ensure_known`). A text
that is no descriptor at all is left to the session. -/
def requireKnown (p : Project) (entry : String) : Except ProjectError Unit :=
  match Descriptor.parse entry Descriptor.localRepo with
  | .error _ => .ok ()
  | .ok d =>
    if (p.resolve d).isSome then .ok ()
    else .error (.unknownPackage (.ofKnown entry p.name (p.packages.map Package.display)))

/-- The project, and the target that options or configuration choose. -/
def prepare (t : FileTree) (root : Path) (config : Config) (opts : Options) :
    Except ProjectError (Project × Target) := do
  let p ← (Project.load t root).mapError .load
  let some name := opts.target <|> config.target | throw .noTarget
  let target ← (p.loadTarget t name).mapError .load
  opts.packages.forM (requireKnown p)
  return (p, target)

/-- The session of a target with the features of configuration and options. -/
def begin (target : Target) (config : Config) (opts : Options) : Session :=
  let s := Session.start target
  { s with features := s.features.insertAll (config.features ++ opts.features) }

/-- Registers what the target and the options name, and resolves. -/
def drive (r : Registry) (s : Session) (packages : List String) :
    Except ResolutionError (List PackageId × Summary × Session) :=
  match s.seedTarget r with
  | (.error e, _) => .error e
  | (.ok _, s) =>
    match s.addRoots r packages with
    | (.error e, _) => .error e
    | (.ok roots, s) =>
      match s.resolve r with
      | (.error e, _) => .error e
      | (.ok summary, s) => .ok (roots, summary, s)

/-- Resolves the project at a directory (`resolve_project_at`). The warnings stand beside the
answer. -/
def resolveAt (t : FileTree) (c : Context) (root : Path) (opts : Options) :
    Except ProjectError Resolution × List String :=
  let (config, warnings) := c.config t root
  match prepare t root config opts with
  | .error e => (.error e, warnings)
  | .ok (project, target) =>
    match drive project.registry (begin target config opts) opts.packages with
    | .error e => (.error (.resolution e), warnings)
    | .ok (roots, summary, session) =>
      let resolution : Resolution := { project, session, summary, roots }
      if opts.verifyCaps.getD config.effectiveVerifyCaps then
        match session.verifyCapabilities with
        | .error e => (.error (.resolution e), warnings ++ session.capabilityWarnings)
        | .ok () => (.ok resolution, warnings ++ session.capabilityWarnings)
      else (.ok resolution, warnings)

/-- Resolves the project that the current directory belongs to (`resolve_project`). -/
def resolveHere (t : FileTree) (c : Context) (opts : Options) :
    Except ProjectError Resolution × List String :=
  match Project.findRoot t c.cwd with
  | some root => resolveAt t c root opts
  | none => (.error (.noProject c.cwd), [])

end Resolution
end PackageResolution

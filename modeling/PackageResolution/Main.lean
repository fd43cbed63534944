import PackageResolution.Arguments.Usage
import PackageResolution.Commands
/-!
# The command line

Takes a picture of the files that a run can need, runs the command on it, and prints. Only what
projects are made of is read: the project file of the current directory or of one above it, all below
that directory, the directories of the further repositories, the target's file and the user's
configuration. Links within a directory are not followed.
-/
namespace PackageResolution.CommandLine

/-- The files whose content matters. -/
def isRead (name : String) : Bool :=
  [ProjectFile.fileName, Manifest.fileName, Target.fileName, Config.fileName].contains name

/-- Whether a directory below another is looked into: hidden ones are not, but for the one that holds
a project's configuration. -/
def isEntered (name : String) : Bool := name.toList.head? != some '.' || name == Config.directoryName

partial def readDirectory (path : String) : IO Node := do
  let mut entries : List (FileName × Node) := []
  for name in ← names path do
    let below := path ++ "/" ++ name
    match ← kindOf below with
    | some .dir => if isEntered name then entries := (.ofText name, ← readDirectory below) :: entries
    | some .file =>
      let bytes ← if isRead name then IO.FS.readBinFile below else pure .empty
      entries := (.ofText name, .file bytes) :: entries
    | some .other => entries := (.ofText name, .other) :: entries
    | _ => pure ()
  return .dir entries
where
  /-- The names of a directory's entries, none of a directory that cannot be read. -/
  names (path : String) : IO (List String) := do
    let here ← IO.currentDir
    try return ((← (here / path).readDir).map (·.fileName)).toList
    catch _ => return []
  /-- What an entry is, links not followed. -/
  kindOf (path : String) : IO (Option IO.FS.FileType) := do
    let here ← IO.currentDir
    try return some (← (here / path).symlinkMetadata).type
    catch _ => return none

/-- The names on the way to an absolute path. -/
def wayOf (path : String) : List FileName :=
  ((path.splitOn "/").filter (· != "")).map Path.ofText

/-- The tree with the file at an absolute path, if there is one. -/
def withFile (t : FileTree) (path : Path) : IO FileTree := do
  try
    let bytes ← IO.FS.readBinFile path.text
    return { t with top := Node.put (.file bytes) (wayOf path.text) t.top }
  catch _ => return t

/-- The tree with the directory at an absolute path and all below it. -/
def withDirectory (t : FileTree) (path : Path) : IO FileTree := do
  let here ← IO.currentDir
  if ← (here / path.text).isDir then
    return { t with top := Node.put (← readDirectory path.text) (wayOf path.text) t.top }
  else return t

def homeDirectory : IO Path := do
  match ← IO.getEnv "XDG_CONFIG_HOME", ← IO.getEnv "HOME" with
  | some base, home =>
    if Path.isAbsolute base then return Path.join base Arguments.programName
    else return below (home.getD "")
  | none, some home => return below home
  | none, none => return Config.directoryName
where
  /-- Where configuration is kept below a home directory. -/
  below (home : String) : Path := (Path.join home ".config").join Arguments.programName

/-- What a run of a command can see. -/
def snapshot (c : Context) (target : Option String) : IO FileTree := do
  let mut t : FileTree :=
    { top := Node.makeDir (wayOf c.cwd.text) (.dir []), current := wayOf c.cwd.text }
  for dir in c.cwd :: c.cwd.above do
    t ← withFile t (dir.join ProjectFile.fileName)
  match Project.findRoot t c.cwd with
  | none => return t
  | some root =>
    t ← withDirectory t root
    if let .ok f := t.loadProjectFile (root.join ProjectFile.fileName) then
      for (_, path) in f.repositories.entries do
        t ← withDirectory t (root.join path)
    t ← withFile t c.configPath
    if let some name := target <|> (c.config t root).1.target then
      t ← withFile t (Target.pathIn root name)
    return t

def targetOf : Arguments.Command → Option String
  | .resolve args _ => args.target
  | .flags _ args _ => args.target
  | .tree _ args _ => args.target
  | .completions _ => none

/-- Runs a command line that was understood, and answers the exit code. -/
def execute (i : Arguments.Invocation) : IO UInt32 := do
  let cwd := (← IO.currentDir).toString
  let c : Context := { cwd, home := ← homeDirectory, verbose := i.verbose, colour := !i.noColour }
  let (result, warnings) := Commands.run (← snapshot c (targetOf i.command)) c i.command
  for warning in warnings do
    IO.eprintln (" WARN " ++ warning)
  match result with
  | .ok text =>
    IO.print text
    return 0
  | .error e =>
    IO.eprint (Commands.errorText c.colour e)
    return 1

end PackageResolution.CommandLine

def main (args : List String) : IO UInt32 := do
  match PackageResolution.Arguments.read args with
  | .ok i => PackageResolution.CommandLine.execute i
  | .error e =>
    if e.isAnswer then IO.print e.text else IO.eprint e.text
    return e.exitCode.toUInt32

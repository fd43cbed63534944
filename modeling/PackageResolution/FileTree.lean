import PackageResolution.Path
/-!
# File trees

The files that a run of the program sees: directories with named entries, files with bytes, and a
current directory that relative paths start from. A path is followed piece by piece from the
directory it starts in; `.` and an empty piece stay where they are and `..` goes up, and all three
need a directory to stand in. A name has at most 255 bytes and a path fewer than 4096; a path with
the byte 0 in it is not looked for at all.
-/
namespace PackageResolution

/-- What a path can lead to. -/
inductive Node where
  | file (bytes : ByteArray)
  | dir (entries : List (FileName × Node))
  /-- Neither of the two, such as a socket. It cannot be opened. -/
  | other

namespace Node

def isDir : Node → Bool
  | dir _ => true
  | _ => false

def isFile : Node → Bool
  | file _ => true
  | _ => false

/-- Entries with one of them replaced, or added at the end. -/
def setEntry (name : FileName) (value : Node) : List (FileName × Node) → List (FileName × Node)
  | [] => [(name, value)]
  | e :: es => if e.1 = name then (name, value) :: es else e :: setEntry name value es

/-- A node with `value` put at a place below it. The directories on the way are made; whatever else
is on the way gives way to a directory. -/
def put (value : Node) : List FileName → Node → Node
  | [], _ => value
  | name :: names, dir es =>
    dir (setEntry name (put value names ((es.lookup name).getD (dir []))) es)
  | name :: names, _ => dir [(name, put value names (dir []))]

/-- A node with directories made along a way below it, as far as they are missing. -/
def makeDir : List FileName → Node → Node
  | [], dir es => dir es
  | [], _ => dir []
  | name :: names, dir es => dir (setEntry name (makeDir names ((es.lookup name).getD (dir []))) es)
  | name :: names, _ => dir [(name, makeDir names (dir []))]

end Node

/-- Why a path cannot be read. -/
inductive AccessError where
  | notFound
  | notADirectory
  | isADirectory
  /-- A path or one of the names in it has too many bytes. -/
  | nameTooLong
  /-- A path has the byte 0 in it. -/
  | nulInPath
  | invalidText
  /-- What is neither a file nor a directory cannot be opened. -/
  | noDevice
  deriving DecidableEq

def AccessError.message : AccessError → String
  | notFound => "No such file or directory (os error 2)"
  | notADirectory => "Not a directory (os error 20)"
  | isADirectory => "Is a directory (os error 21)"
  | nameTooLong => "File name too long (os error 36)"
  | nulInPath => "file name contained an unexpected NUL byte"
  | invalidText => "stream did not contain valid UTF-8"
  | noDevice => "No such device or address (os error 6)"

/-- What a run of the program sees of the file system. -/
structure FileTree where
  /-- The root directory. -/
  top : Node
  /-- The way from the root directory to the current one. -/
  current : List FileName

namespace FileTree

def nameLimit : Nat := 255

/-- The fewest bytes that are too many for a path. -/
def pathLimit : Nat := 4096

def isTooLong (p : Path) : Bool := pathLimit ≤ p.bytes.length

def entry (es : List (FileName × Node)) (name : FileName) : Except AccessError Node :=
  if nameLimit < name.bytes.length then .error .nameTooLong
  else match es.lookup name with
    | some node => .ok node
    | none => .error .notFound

/-- One step from a node to the next. The nodes passed on the way from the root come nearest
first. -/
def step : List Node → List UInt8 → Except AccessError (List Node)
  | .dir es :: up, piece =>
    if Path.isIdle piece then .ok (.dir es :: up)
    else if piece = [Path.dot, Path.dot] then .ok (if up.isEmpty then [.dir es] else up)
    else (entry es ⟨piece⟩).map (· :: .dir es :: up)
  | _ :: _, _ => .error .notADirectory
  | [], _ => .error .notFound

/-- The node a path leads to. -/
def node (t : FileTree) (p : Path) : Except AccessError Node := do
  if p.bytes.contains 0 then throw .nulInPath
  if p.bytes = [] then throw .notFound
  if isTooLong p then throw .nameTooLong
  let start ←
    if p.isAbsolute then pure [t.top]
    else (t.current.map Path.bytes).foldlM step [t.top]
  match ← p.pieces.foldlM step start with
  | node :: _ => pure node
  | [] => throw .notFound

def hasPath (t : FileTree) (p : Path) : Bool := (t.node p).toOption.isSome

def isDir (t : FileTree) (p : Path) : Bool := (t.node p).toOption.any Node.isDir

def isFile (t : FileTree) (p : Path) : Bool := (t.node p).toOption.any Node.isFile

/-- The text of a file. -/
def readText (t : FileTree) (p : Path) : Except AccessError String := do
  match ← t.node p with
  | .dir _ => throw .isADirectory
  | .other => throw .noDevice
  | .file bytes =>
    match String.fromUTF8? bytes with
    | some text => pure text
    | none => throw .invalidText

end FileTree
end PackageResolution

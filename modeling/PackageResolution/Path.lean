import PackageResolution.Text.Utf8
/-!
# Paths

A path is kept as it was written: `.`, `..` and repeated separators stay, and joining only
appends. Where a path is taken apart (a parent directory, a comparison), it is read as a list of
components, and there repeated separators and a `.` anywhere but at the start count for nothing.

Paths are bytes. Most of them spell a text, but the names in a directory need not.
-/
namespace PackageResolution

/-- A path as written. -/
structure Path where
  bytes : List UInt8
  deriving DecidableEq, Inhabited

/-- The name of an entry of a directory, which is a path of one piece. -/
abbrev FileName := Path

namespace Path

/-- The path that a text spells. -/
def ofText (s : String) : Path := ⟨Text.utf8 s⟩

instance : Coe String Path := ⟨ofText⟩

/-- How messages show a path. -/
def text (p : Path) : String := Text.lossy p.bytes

/-- The text that a path spells, if it spells one. -/
def text? (p : Path) : Option String := Text.ofUtf8? p.bytes

/-! Names come in the order of their bytes. -/

instance : LT Path := ⟨fun p q => p.bytes < q.bytes⟩

instance : LE Path := ⟨fun p q => p.bytes ≤ q.bytes⟩

instance (p q : Path) : Decidable (p ≤ q) := inferInstanceAs (Decidable (p.bytes ≤ q.bytes))

def separator : UInt8 := 0x2F

def dot : UInt8 := 0x2E

def isAbsolute (p : Path) : Bool := p.bytes.head? == some separator

/-- A path followed by another one: an absolute second path takes the place of the first, and a
relative one is appended with one separator between them, unless the first path is empty or has
one at its end. -/
def join (p more : Path) : Path :=
  if more.isAbsolute then more
  else if p.bytes.getLast?.all (· == separator) then ⟨p.bytes ++ more.bytes⟩
  else ⟨p.bytes ++ separator :: more.bytes⟩

/-! ## Pieces and components -/

/-- What stands between separators, empty pieces included. -/
def pieces (p : Path) : List (List UInt8) := p.bytes.splitOn separator

inductive Component where
  /-- The separator an absolute path starts with. -/
  | root
  /-- A `.` at the start of a relative path. -/
  | here
  /-- The parent directory. -/
  | up
  | named (name : FileName)
  deriving DecidableEq

def isIdle (piece : List UInt8) : Bool := piece == [] || piece == [dot]

/-- The component of a piece, if the piece names anything. -/
def componentOf? (piece : List UInt8) : Option Component :=
  if isIdle piece then none
  else if piece = [dot, dot] then some .up
  else some (.named ⟨piece⟩)

def components (p : Path) : List Component :=
  match p.pieces with
  | [] => []
  | first :: rest =>
    let body := rest.filterMap componentOf?
    if first = [] then (if rest = [] then [] else .root :: body)
    else if first = [dot] then .here :: body
    else (componentOf? first).toList ++ body

def sameAs (p q : Path) : Bool := p.components == q.components

/-! ## Parent directories -/

/-- The path of the pieces up to the last that names anything; the separator that an absolute
path starts with is kept. -/
def ofPieces (first : List UInt8) (reversed : List (List UInt8)) : Path :=
  match reversed.dropWhile isIdle with
  | [] => if first = [] then ⟨[separator]⟩ else ⟨first⟩
  | kept => ⟨[separator].intercalate (first :: kept.reverse)⟩

/-- The paths above the path with the given pieces, nearest first. The pieces after the first
come in reverse. -/
def abovePieces (first : List UInt8) : List (List UInt8) → List Path
  | [] => if first = [] then [] else [⟨[]⟩]
  | piece :: reversed =>
    if isIdle piece then abovePieces first reversed
    else ofPieces first reversed :: abovePieces first reversed

/-- The directories above a path, nearest first. A relative path ends at the empty path, which
stands for the current directory; an absolute one ends at the root. -/
def above (p : Path) : List Path :=
  match p.pieces with
  | [] => []
  | first :: rest => abovePieces first rest.reverse

/-- The directory that holds a path. -/
def parent? (p : Path) : Option Path := p.above.head?

example : (ofText "p/a/").parent? = some ↑"p" := by decide +kernel
example : (ofText "p/./a").parent? = some ↑"p" := by decide +kernel
example : (ofText "p").parent? = some ↑"" := by decide +kernel
example : (ofText "").parent? = none := by decide +kernel
example : (ofText "//a").above = [↑"/"] := by decide +kernel
example : (ofText "./a").above = [↑".", ↑""] := by decide +kernel

end Path
end PackageResolution

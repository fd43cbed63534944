import PackageResolution.Text.Quoted
/-!
# Package versions

A version is three numbers with dots between them, then, each if present, a pre-release after a
hyphen and build metadata after a plus sign. Numbers have no leading zeros and fit 64 bits. The
pre-release and the metadata are segments of ASCII letters, digits and hyphens with dots between
them; no segment is empty, and a pre-release segment of digits alone has no leading zero.
-/
namespace PackageResolution

namespace Version

/-- The characters of identifier segments. -/
def isIdentifierChar (c : Char) : Bool := c.isAlphanum || c == '-'

/-- The characters that identifiers are written with. -/
def isWritten (c : Char) : Bool := isIdentifierChar c || c == '.'

/-- A pre-release or build metadata, empty if there is none. -/
structure Identifier where
  text : String
  written : text.toList.all isWritten = true
  deriving DecidableEq

def Identifier.none : Identifier := ⟨"", rfl⟩

/-- The identifier that characters start with. -/
def Identifier.atFront (cs : List Char) : Identifier :=
  ⟨String.ofList (cs.takeWhile isWritten), by rw [String.toList_ofList, List.all_takeWhile]⟩

end Version

structure Version where
  major : Nat
  minor : Nat
  patch : Nat
  pre : Version.Identifier
  build : Version.Identifier
  deriving DecidableEq

namespace Version

/-- The parts of a version, as messages name them. -/
inductive Part where
  | major
  | minor
  | patch
  | pre
  | build
  deriving DecidableEq

def Part.describe : Part → String
  | major => "major version number"
  | minor => "minor version number"
  | patch => "patch version number"
  | pre => "pre-release identifier"
  | build => "build metadata"

/-- Why a text is no version. -/
inductive ParseError where
  | empty
  /-- The text ends where the part, or the dot after it, should stand. -/
  | unexpectedEnd (part : Part)
  /-- The part should start with another character. -/
  | unexpectedStart (part : Part) (c : Char)
  /-- The part is followed by a character that cannot follow it. -/
  | unexpectedAfter (part : Part) (c : Char)
  | leadingZero (part : Part)
  | overflow (part : Part)
  | emptySegment (part : Part)
  deriving DecidableEq

def ParseError.message : ParseError → String
  | empty => "empty string, expected a semver version"
  | unexpectedEnd part => "unexpected end of input while parsing " ++ part.describe
  | unexpectedStart part c =>
    "unexpected character " ++ Text.quotedLetter c ++ " while parsing " ++ part.describe
  | unexpectedAfter part c =>
    "unexpected character " ++ Text.quotedLetter c ++ " after " ++ part.describe
  | leadingZero part => "invalid leading zero in " ++ part.describe
  | overflow part => "value of " ++ part.describe ++ " exceeds u64::MAX"
  | emptySegment part => "empty identifier segment in " ++ part.describe

def digitsValue (digits : List Char) : Nat :=
  digits.foldl (fun n d => 10 * n + (d.toNat - '0'.toNat)) 0

/-- Reads a number and hands on what follows it. -/
def number (part : Part) (cs : List Char) : Except ParseError (Nat × List Char) :=
  match cs.takeWhile Char.isDigit with
  | [] =>
    match cs with
    | [] => .error (.unexpectedEnd part)
    | c :: _ => .error (.unexpectedStart part c)
  | '0' :: _ :: _ => .error (.leadingZero part)
  | digits =>
    if digitsValue digits < UInt64.size then .ok (digitsValue digits, cs.dropWhile Char.isDigit)
    else .error (.overflow part)

/-- Passes the dot after a number. -/
def dot (part : Part) : List Char → Except ParseError (List Char)
  | '.' :: rest => .ok rest
  | c :: _ => .error (.unexpectedAfter part c)
  | [] => .error (.unexpectedEnd part)

/-- What is wrong with one segment. -/
def segmentError? (part : Part) (segment : List Char) : Option ParseError :=
  if segment = [] then some (.emptySegment part)
  else if part = .pre ∧ segment.all Char.isDigit ∧ 1 < segment.length ∧ segment.head? = some '0' then
    some (.leadingZero part)
  else none

/-- Reads segments with dots between them and hands on what follows them. -/
def identifier (part : Part) (cs : List Char) : Except ParseError (Identifier × List Char) :=
  let body := Identifier.atFront cs
  match (body.text.toList.splitOn '.').findSome? (segmentError? part) with
  | some e => .error e
  | none => .ok (body, cs.dropWhile isWritten)

/-- Reads an identifier that stands after a mark, if the mark is there. -/
def marked (mark : Char) (part before : Part) (cs : List Char) :
    Except ParseError (Identifier × Part × List Char) :=
  match cs with
  | c :: rest =>
    if c = mark then (identifier part rest).map fun (found, after) => (found, part, after)
    else .ok (.none, before, cs)
  | [] => .ok (.none, before, [])

def parse (text : String) : Except ParseError Version := do
  if text.toList = [] then throw .empty
  let (major, cs) ← number .major text.toList
  let (minor, cs) ← number .minor (← dot .major cs)
  let (patch, cs) ← number .patch (← dot .minor cs)
  let (pre, last, cs) ← marked '-' .pre .patch cs
  let (build, last, cs) ← marked '+' .build last cs
  match cs with
  | [] => return { major, minor, patch, pre, build }
  | c :: _ => throw (.unexpectedAfter last c)

def display (v : Version) : String :=
  toString v.major ++ "." ++ toString v.minor ++ "." ++ toString v.patch ++
    (if v.pre = .none then "" else "-" ++ v.pre.text) ++
    (if v.build = .none then "" else "+" ++ v.build.text)

end Version
end PackageResolution

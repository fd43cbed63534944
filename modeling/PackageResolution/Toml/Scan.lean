/-!
# Scanning

Steps that take something off the front of a text and hand on the rest, or refuse.
-/
namespace PackageResolution.Toml

/-- A step over the front of a text. -/
abbrev Scan (α : Type) := List Char → Option (α × List Char)

def isSpace (c : Char) : Bool := c == ' ' || c == '\t'

def skipSpace (cs : List Char) : List Char := cs.dropWhile isSpace

/-- The text after a given start. -/
def after? (start : List Char) (cs : List Char) : Option (List Char) :=
  if start.isPrefixOf cs then some (cs.drop start.length) else none

def newline? : List Char → Option (List Char)
  | '\n' :: rest => some rest
  | '\r' :: '\n' :: rest => some rest
  | _ => none

/-- Whether a character may stand in a comment or, its quote apart, in a literal text: all but the
controls other than the tab. -/
def isPrinted (c : Char) : Bool := c == '\t' || (0x20 ≤ c.toNat && c.toNat ≠ 0x7F)

/-- A text after the comment at its front, if there is one. -/
def skipComment : List Char → List Char
  | '#' :: rest => rest.dropWhile isPrinted
  | cs => cs

/-- The text after the blanks and the comment that may end a line, and the end of the line. -/
def lineEnd? (cs : List Char) : Option (List Char) :=
  match skipComment (skipSpace cs) with
  | [] => some []
  | rest => newline? rest

def skipBlank : List Char → List Char
  | [] => []
  | '\r' :: '\n' :: rest => skipBlank rest
  | c :: rest => if isSpace c || c == '\n' then skipBlank rest else c :: rest

/-- Skips blanks, ends of lines and comments. The flag tells whether a comment goes on. -/
def skipLines (inComment : Bool) : List Char → List Char
  | [] => []
  | '\r' :: '\n' :: rest => skipLines false rest
  | c :: rest =>
    if c == '\n' then skipLines false rest
    else if inComment && isPrinted c then skipLines true rest
    else if isSpace c then skipLines false rest
    else if c == '#' then skipLines true rest
    else c :: rest

end PackageResolution.Toml

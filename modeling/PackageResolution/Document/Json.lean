import PackageResolution.Document
/-!
# JSON text

A value written as indented JSON: two blanks for each level, one item or entry a line, and nothing
between the brackets of an empty list or table. Control characters are escaped, all others stand for
themselves. A floating point number has an exponent if it is very large or very small.
-/
namespace PackageResolution

namespace Json

def fourDigits (n : Nat) : List Char :=
  let digits := Nat.toDigits 16 n
  List.replicate (4 - digits.length) '0' ++ digits

/-- A character of a text as it stands between the quotes. -/
def textChar (c : Char) : List Char :=
  if c = '"' then ['\\', '"']
  else if c = '\\' then ['\\', '\\']
  else if c = '\n' then ['\\', 'n']
  else if c = '\r' then ['\\', 'r']
  else if c = '\t' then ['\\', 't']
  else if c.toNat = 0x08 then ['\\', 'b']
  else if c.toNat = 0x0C then ['\\', 'f']
  else if c.toNat < 0x20 then '\\' :: 'u' :: fourDigits c.toNat
  else [c]

def text (s : String) : String := String.ofList ('"' :: s.toList.flatMap textChar ++ ['"'])

def indent (level : Nat) : String := String.ofList (List.replicate (2 * level) ' ')

/-- Lines of one level between brackets, or the brackets alone. -/
def block (start stop : String) (level : Nat) (lines : List String) : String :=
  if lines.isEmpty then start ++ stop
  else start ++ "\n" ++ ",\n".intercalate (lines.map (indent (level + 1) ++ ·)) ++ "\n" ++
    indent level ++ stop

mutual

/-- A value at a level. -/
def pretty (level : Nat) : Value → String
  | .null => "null"
  | .boolean b => toString b
  | .integer n => toString n
  | .float x => x.displayCompact
  | .text s => text s
  | .moment s => text s
  | .list items => block "[" "]" level (prettyItems (level + 1) items)
  | .table entries => block "\x7b" "\x7d" level (prettyEntries (level + 1) entries)

def prettyItems (level : Nat) : List Value → List String
  | [] => []
  | v :: vs => pretty level v :: prettyItems level vs

def prettyEntries (level : Nat) : List (String × Value) → List String
  | [] => []
  | (key, v) :: es => (text key ++ ": " ++ pretty level v) :: prettyEntries level es

end

end Json

/-- A value as indented JSON. -/
def Value.toJson (v : Value) : String := Json.pretty 0 v

end PackageResolution

import PackageResolution.Toml.Layout
import PackageResolution.Toml.Moment
import PackageResolution.Toml.Quotation
/-!
# Reading documents

Reads a TOML 1.0 text. Lists and inline tables nest less than eighty deep, and keys have less than
eighty parts.
-/
namespace PackageResolution.Toml

/-- The bound on nesting and on the parts of a key. -/
def depthLimit : Nat := 80

def isBareKeyChar (c : Char) : Bool := c.isAlphanum || c == '-' || c == '_'

def keyPart? : Scan String := fun cs =>
  match cs with
  | '"' :: _ | '\'' :: _ => lineQuotation? cs
  | _ =>
    match cs.takeWhile isBareKeyChar with
    | [] => none
    | name => some (String.ofList name, cs.dropWhile isBareKeyChar)

/-- The parts of a key, with blanks around each; there may be no more of them than a number. -/
def keyParts? : Nat → Scan (List String)
  | 0, _ => none
  | fuel + 1, cs => do
    let (part, cs) ← keyPart? (skipSpace cs)
    match skipSpace cs with
    | '.' :: rest =>
      let (parts, rest) ← keyParts? fuel rest
      return (part :: parts, rest)
    | rest => return ([part], rest)

/-- A key: the parts that lead to a table, and the part that names an entry of it. -/
def key? : Scan (List String × String) := fun cs => do
  let (parts, rest) ← keyParts? (depthLimit - 1) cs
  return ((parts.dropLast, ← parts.getLast?), rest)

/-- The items of a list after its opening bracket, within a number of steps. -/
def listItems (value? : Scan Value) : Nat → Scan (List Value)
  | 0, _ => none
  | fuel + 1, cs =>
    match skipLines false cs with
    | ']' :: rest => some ([], rest)
    | cs => do
      let (v, cs) ← value? cs
      match skipLines false cs with
      | ']' :: rest => return ([v], rest)
      | ',' :: rest =>
        let (vs, rest) ← listItems value? fuel rest
        return (v :: vs, rest)
      | _ => none

def assignment? (value? : Scan Value) : Scan (List String × String × Value) := fun cs => do
  let ((way, key), cs) ← key? cs
  let (v, cs) ← value? (skipSpace (← after? ['='] cs))
  return ((way, key, v), cs)

/-- The entries of an inline table, of which there is at least one, within a number of steps. -/
def inlineEntries (value? : Scan Value) (items : Items) : Nat → Scan Items
  | 0, _ => none
  | fuel + 1, cs => do
    let ((way, key, v), cs) ← assignment? value? cs
    let items ← items.addValue way key v
    match skipSpace cs with
    | '\x7d' :: rest => return (items, rest)
    | ',' :: rest => inlineEntries value? items fuel rest
    | _ => none

def boolean? (cs : List Char) : Option (Value × List Char) :=
  match after? "true".toList cs, after? "false".toList cs with
  | some rest, _ => some (.boolean true, rest)
  | none, some rest => some (.boolean false, rest)
  | none, none => none

/-- A value with less than a number of lists and inline tables in one another. -/
def value? : Nat → Scan Value
  | 0, _ => none
  | depth + 1, cs =>
    match cs with
    | [] => none
    | c :: rest =>
      if c = '"' ∨ c = '\'' then (quotation? cs).map fun (s, rest) => (.text s, rest)
      else if c = '[' then
        if depth = 0 then none
        else (listItems (value? depth) (rest.length + 1) rest).map fun (vs, rest) => (.list vs, rest)
      else if c = '\x7b' then
        if depth = 0 then none
        else match skipSpace rest with
          | '\x7d' :: rest => some (.table [], rest)
          | rest => (inlineEntries (value? depth) [] rest.length rest).map fun (items, rest) =>
            (.table (Items.toEntries items), rest)
      else if c = '+' ∨ c = '-' ∨ c.isDigit then moment? cs <|> number? cs
      else if c = 'i' ∨ c = 'n' then specialFloat? cs
      else boolean? cs

/-- The header of a table, after its opening bracket, and the end of its line. -/
def header? (d : Draft) (cs : List Char) : Option (Draft × List Char) :=
  match cs with
  | '[' :: rest => do
    let ((way, key), rest) ← key? rest
    let rest ← lineEnd? (← after? [']', ']'] rest)
    return (← d.openElement way key, rest)
  | _ => do
    let ((way, key), rest) ← key? cs
    let rest ← lineEnd? (← after? [']'] rest)
    return (← d.openTable way key, rest)

/-- Reads line after line, within a number of steps. -/
def lines? (d : Draft) : Nat → List Char → Option Draft
  | 0, _ => none
  | fuel + 1, cs =>
    match skipSpace cs with
    | [] => some d
    | '[' :: rest => do
      let (d, rest) ← header? d rest
      lines? d fuel rest
    | c :: rest =>
      if c = '#' ∨ c = '\n' ∨ c = '\r' then do
        lines? d fuel (← lineEnd? (c :: rest))
      else do
        let ((way, key, v), rest) ← assignment? (value? depthLimit) (c :: rest)
        let rest ← lineEnd? rest
        lines? (← d.add way key v) fuel rest

/-- The table that a text holds, unless the text is no document. A byte order mark may stand in
front. -/
def read? (text : String) : Option Value := do
  let cs := text.toList
  let cs := (after? ['\uFEFF'] cs).getD cs
  let d ← lines? {} (cs.length + 1) cs
  return .table (Items.toEntries (← d.close))

end PackageResolution.Toml

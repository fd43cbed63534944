import PackageResolution.Document
import PackageResolution.NameMap
import PackageResolution.Path
/-!
# Schemas

Reading the values of a document as what a program expects. A record is read from a table, whose
unknown entries count for nothing, or from a list, whose items are the fields in their order. The
first entry that does not fit decides the error; fields that are missing are looked for after that,
in the order of the fields.
-/
namespace PackageResolution

/-- Why a value does not fit. -/
inductive SchemaError where
  /-- The value is of one kind where another is expected. -/
  | wrongKind (found : Value.Kind) (expected : String)
  | missingField (field : String)
  /-- A list is too short to stand for a record. -/
  | tooShort (length : Nat) (record : String) (fields : Nat)
  /-- A list is too long to stand for a record. -/
  | tooLong (length : Nat)
  /-- A text is refused for a reason of its own. -/
  | refused (message : String)
  deriving DecidableEq

/-- The message of a misfit, with floating point numbers written in a given way. -/
def SchemaError.messageWith (number : Binary64 → String) : SchemaError → String
  | wrongKind found expected =>
    "invalid type: " ++ found.describe number ++ ", expected " ++ expected
  | missingField field => "missing field `" ++ field ++ "`"
  | tooShort length record fields =>
    "invalid length " ++ toString length ++ ", expected struct " ++ record ++ " with " ++
      toString fields ++ (if fields = 1 then " element" else " elements")
  | tooLong length =>
    "invalid length " ++ toString length ++ ", expected fewer elements in array"
  | refused message => message

def SchemaError.message : SchemaError → String := messageWith Binary64.display

/-- The message of a misfit in a JSON document, where very large and very small numbers are written
with an exponent. -/
def SchemaError.jsonMessage : SchemaError → String := messageWith Binary64.displayCompact

/-- A reading of values. -/
abbrev Schema (α : Type) := Value → Except SchemaError α

namespace Schema

def mismatch {α : Type} (expected : String) (v : Value) : Except SchemaError α :=
  .error (.wrongKind v.kind expected)

def text : Schema String
  | .text s => .ok s
  | v => mismatch "a string" v

def path : Schema Path
  | .text s => .ok s
  | v => mismatch "path string" v

def boolean : Schema Bool
  | .boolean b => .ok b
  | v => mismatch "a boolean" v

def list {α : Type} (item : Schema α) : Schema (List α)
  | .list items => items.mapM item
  | v => mismatch "a sequence" v

/-- Reads the values of entries and puts them under their keys. -/
def entries {α : Type} (value : Schema α) : List (String × Value) → Except SchemaError (NameMap α)
  | es => es.foldlM (fun m (key, v) => return m.insert key (← value v)) .empty

/-- A table with any keys. -/
def map {α : Type} (value : Schema α) : Schema (NameMap α) := fun v =>
  match v.entries? with
  | some es => entries value es
  | none => mismatch "a map" v

/-- A field of a record that is being read. -/
structure Field (α : Type) where
  name : String
  isRequired : Bool
  read : Value → α → Except SchemaError α

/-- A record: its name in messages, its fields, and the record before any field was read. -/
structure Record (α : Type) where
  name : String
  fields : List (Field α)
  initial : α

namespace Record

variable {α : Type}

/-- The field of a key. -/
def field? (r : Record α) (key : String) : Option (Field α) := r.fields.find? (·.name == key)

/-- Reads the fields among some entries, in the order of the entries. -/
def readEntries (r : Record α) (start : α) (es : List (String × Value)) : Except SchemaError α :=
  es.foldlM (fun a (key, v) =>
    match r.field? key with
    | some f => f.read v a
    | none => .ok a) start

/-- Reads a record from a table. -/
def ofEntries (r : Record α) (es : List (String × Value)) : Except SchemaError α := do
  let a ← r.readEntries r.initial es
  match r.fields.find? fun f => f.isRequired && !es.any (·.1 == f.name) with
  | some f => .error (.missingField f.name)
  | none => .ok a

/-- Reads the fields from a list of items, after `index` fields were read. -/
def ofItems (r : Record α) (a : α) (index : Nat) :
    List (Field α) → List Value → Except SchemaError α
  | [], _ => .ok a
  | f :: fs, v :: vs => do ofItems r (← f.read v a) (index + 1) fs vs
  | f :: fs, [] =>
    if f.isRequired then .error (.tooShort index r.name r.fields.length)
    else ofItems r a (index + 1) fs []

/-- Reads a record. -/
def read (r : Record α) : Schema α := fun v =>
  match v.entries?, v with
  | some es, _ => r.ofEntries es
  | none, .list items => ofItems r r.initial 0 r.fields items
  | none, v => mismatch ("struct " ++ r.name) v

/-- Reads a record, and refuses a list with more items than fields. -/
def readExactly (r : Record α) : Schema α := fun v => do
  let a ← r.read v
  match v with
  | .list items => if r.fields.length < items.length then .error (.tooLong items.length) else .ok a
  | _ => .ok a

end Record
end Schema
end PackageResolution

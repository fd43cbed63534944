import PackageResolution.Schema
import PackageResolution.Settings
/-!
# Settings in documents

Settings are written as one table: the seven lists under their keys, and under `feature` a table for
each feature that scopes further lists. All lists may be left out, and other keys count for nothing.
-/
namespace PackageResolution.Settings

/-- The key under which the feature-scoped tables stand. -/
def overlaysKey : String := "feature"

def Table.record : Schema.Record Table where
  name := "SettingsTable"
  fields := Key.all.map fun k =>
    { name := k.name, isRequired := false, read := fun v t => (t.set k ·) <$> Schema.list Schema.text v }
  initial := {}

/-- Reads settings. The feature-scoped tables are read first. -/
def ofValue : Schema Settings := fun v =>
  match v.entries? with
  | none => Schema.mismatch "struct ScopedSettings" v
  | some es => do
    let overlays ← match es.lookup overlaysKey with
      | some v => Schema.map Table.record.read v
      | none => .ok .empty
    let base ← Table.record.readEntries {} es
    return { base, overlays }

def listValue (texts : List String) : Value := .list (texts.map .text)

def Table.toEntries (t : Table) : List (String × Value) :=
  Key.all.map fun k => (k.name, listValue (t.get k))

/-- Settings as a value; every list is written out. -/
def toValue (s : Settings) : Value :=
  .table (s.base.toEntries ++
    [(overlaysKey, .table (s.overlays.entries.map fun e => (e.1, .table e.2.toEntries)))])

end PackageResolution.Settings

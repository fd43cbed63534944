import PackageResolution.Decimal.Shortest
import PackageResolution.Text.Quoted
/-!
# Documents

What a configuration text holds, whatever notation it was written in: a tree of tables and lists
with texts, numbers and truth values at its leaves. The entries of a table stand in the order in
which they were written.
-/
namespace PackageResolution

inductive Value where
  | null
  | boolean (b : Bool)
  | integer (n : Int)
  | float (x : Binary64)
  | text (s : String)
  /-- A date, a time or both, by its text. -/
  | moment (s : String)
  | list (items : List Value)
  | table (entries : List (String × Value))

namespace Value

/-- The name under which a date or time holds its text where a table is read from it. -/
def momentKey : String := "$__toml_private_datetime"

/-- The entries of a value that can be read as a table. -/
def entries? : Value → Option (List (String × Value))
  | table entries => some entries
  | moment s => some [(momentKey, text s)]
  | _ => none

/-- What messages can say of a value: its kind, and a leaf's content. -/
inductive Kind where
  | null
  | boolean (b : Bool)
  | integer (n : Int)
  | float (x : Binary64)
  | text (s : String)
  | sequence
  | map
  deriving DecidableEq

/-- What messages call a value, with floating point numbers written in a given way. -/
def Kind.describe (number : Binary64 → String) : Kind → String
  | null => "null"
  | boolean b => "boolean `" ++ toString b ++ "`"
  | integer n => "integer `" ++ toString n ++ "`"
  | float x => "floating point `" ++ number x ++ "`"
  | text s => "string " ++ Text.quoted s
  | sequence => "sequence"
  | map => "map"

def kind : Value → Kind
  | null => .null
  | boolean b => .boolean b
  | integer n => .integer n
  | float x => .float x
  | text s => .text s
  | moment _ => .map
  | list _ => .sequence
  | table _ => .map

/-! ## Equality -/

mutual
/-- Whether two values are the same. -/
def same : Value → Value → Bool
  | null, null => true
  | boolean b, boolean c => b == c
  | integer m, integer n => m == n
  | float x, float y => x == y
  | text s, text t => s == t
  | moment s, moment t => s == t
  | list vs, list ws => sameItems vs ws
  | table es, table fs => sameEntries es fs
  | _, _ => false

def sameItems : List Value → List Value → Bool
  | [], [] => true
  | v :: vs, w :: ws => v.same w && sameItems vs ws
  | _, _ => false

def sameEntries : List (String × Value) → List (String × Value) → Bool
  | [], [] => true
  | (key, v) :: es, (key', w) :: es' => key == key' && v.same w && sameEntries es es'
  | _, _ => false
end

mutual
theorem same_iff : (v w : Value) → (v.same w = true ↔ v = w)
  | null, w | boolean _, w | integer _, w | float _, w | text _, w | moment _, w => by
    cases w <;> simp [same]
  | list vs, w => by cases w <;> simp [same, sameItems_iff vs]
  | table es, w => by cases w <;> simp [same, sameEntries_iff es]

theorem sameItems_iff : (vs ws : List Value) → (sameItems vs ws = true ↔ vs = ws)
  | [], ws => by cases ws <;> simp [sameItems]
  | v :: vs, ws => by cases ws <;> simp [sameItems, same_iff v, sameItems_iff vs]

theorem sameEntries_iff : (es es' : List (String × Value)) → (sameEntries es es' = true ↔ es = es')
  | [], es' => by cases es' <;> simp [sameEntries]
  | (key, v) :: es, es' => by
    cases es' <;> simp [sameEntries, same_iff v, sameEntries_iff es, Prod.ext_iff]
end

instance : DecidableEq Value := fun v w => decidable_of_iff _ (same_iff v w)

end Value
end PackageResolution

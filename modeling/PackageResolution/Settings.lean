import PackageResolution.NameMap
import PackageResolution.FeatureSet
/-!
# Feature-scoped settings

A package has seven lists of strings. Each has base values, which always apply, and may have
further values scoped under a feature, which apply while that feature is enabled. The values that
apply are the base values, then those of each enabled feature in ascending order of its name.

Main statements: `get_append`, which says what adding to one list does to the others, and
`mem_declared_of_mem_values`.
-/
namespace PackageResolution

namespace Settings

/-- The lists that a package can set. -/
inductive Key where
  /-- The features the package enables. -/
  | features
  /-- The packages it depends on. -/
  | deps
  /-- Flags of the C compiler. -/
  | cflags
  /-- Flags of the linker. -/
  | lflags
  /-- Flags of the assembler. -/
  | aflags
  /-- The capabilities it provides. -/
  | caps
  /-- The capabilities it requires. -/
  | reqCaps
  deriving DecidableEq

def Key.all : List Key := [.features, .deps, .cflags, .lflags, .aflags, .caps, .reqCaps]

def Key.name : Key → String
  | features => "features"
  | deps => "deps"
  | cflags => "cflags"
  | lflags => "lflags"
  | aflags => "aflags"
  | caps => "caps"
  | reqCaps => "req_caps"

/-- The key of a name. -/
def Key.ofName? (name : String) : Option Key := Key.all.find? (·.name == name)

theorem Key.mem_all (k : Key) : k ∈ Key.all := by cases k <;> decide

/-- One table of the seven lists. -/
structure Table where
  features : List String := []
  deps : List String := []
  cflags : List String := []
  lflags : List String := []
  aflags : List String := []
  caps : List String := []
  reqCaps : List String := []
  deriving DecidableEq, Inhabited

namespace Table

def get (t : Table) : Key → List String
  | .features => t.features
  | .deps => t.deps
  | .cflags => t.cflags
  | .lflags => t.lflags
  | .aflags => t.aflags
  | .caps => t.caps
  | .reqCaps => t.reqCaps

def set (t : Table) (k : Key) (values : List String) : Table :=
  match k with
  | .features => { t with features := values }
  | .deps => { t with deps := values }
  | .cflags => { t with cflags := values }
  | .lflags => { t with lflags := values }
  | .aflags => { t with aflags := values }
  | .caps => { t with caps := values }
  | .reqCaps => { t with reqCaps := values }

/-- The table with values added at the end of the list under a key. -/
def append (t : Table) (k : Key) (values : List String) : Table := t.set k (t.get k ++ values)

@[simp] theorem get_set (t : Table) (k j : Key) (values : List String) :
    (t.set k values).get j = if j = k then values else t.get j := by
  cases k <;> cases j <;> rfl

@[simp] theorem get_append (t : Table) (k j : Key) (values : List String) :
    (t.append k values).get j = if j = k then t.get k ++ values else t.get j := by
  simp [append]

/-- A table is known by its lists. -/
theorem ext_get {t u : Table} (h : ∀ k, t.get k = u.get k) : t = u := by
  cases t
  cases u
  simp only [mk.injEq]
  exact ⟨h .features, h .deps, h .cflags, h .lflags, h .aflags, h .caps, h .reqCaps⟩

end Table

end Settings

/-- Base settings and the settings scoped under features. -/
structure Settings where
  base : Settings.Table := {}
  overlays : NameMap Settings.Table := .empty
  deriving DecidableEq, Inhabited

namespace Settings

/-- Adds base values under a key (`with`). -/
def add (s : Settings) (k : Key) (values : List String) : Settings :=
  { s with base := s.base.append k values }

/-- Adds values under a key that apply while a feature is enabled (`with_feature`). -/
def addScoped (s : Settings) (feature : String) (k : Key) (values : List String) : Settings :=
  { s with overlays := s.overlays.update feature {} (·.append k values) }

/-- The values under a key while the given features are enabled (`string_list`). -/
def values (s : Settings) (k : Key) (features : FeatureSet) : List String :=
  s.base.get k ++
    (s.overlays.entries.filter (features.contains ·.1)).flatMap (·.2.get k)

def declared (s : Settings) (k : Key) : List String :=
  s.base.get k ++ s.overlays.entries.flatMap (·.2.get k)

/-- Whatever applies under some features is declared. -/
theorem mem_declared_of_mem_values {s : Settings} {k : Key} {features : FeatureSet} {v : String}
    (h : v ∈ s.values k features) : v ∈ s.declared k := by
  simp only [values, declared, List.mem_append, List.mem_flatMap, List.mem_filter] at h ⊢
  rcases h with h | ⟨e, ⟨he, _⟩, hv⟩
  · exact .inl h
  · exact .inr ⟨e, he, hv⟩

end Settings
end PackageResolution

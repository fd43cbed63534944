import PackageResolution.Ascending
/-!
# Feature sets

A feature is a plain name. The set of enabled features only grows: there is no operation that
takes a feature out. Its names are kept in ascending order, which is the order in which they are
listed and in which feature-scoped settings apply.

Main statements: `mem_insert`, `subset_insert`, `ext_of_mem`.
-/
namespace PackageResolution

/-- The enabled features. -/
structure FeatureSet where
  names : List String
  ascending : Ascending names
  deriving DecidableEq

namespace FeatureSet

/-- The feature under which test sources join the private include path. -/
def testFeature : String := "test"

def empty : FeatureSet := ⟨[], ascending_nil⟩

instance : Inhabited FeatureSet := ⟨empty⟩

instance : Membership String FeatureSet := ⟨fun s name => name ∈ s.names⟩

instance (name : String) (s : FeatureSet) : Decidable (name ∈ s) :=
  inferInstanceAs (Decidable (name ∈ s.names))

/-- Every feature of one set is in the other. -/
instance : HasSubset FeatureSet := ⟨fun s t => ∀ name, name ∈ s → name ∈ t⟩

def contains (s : FeatureSet) (name : String) : Bool := s.names.contains name

/-- Enables a feature (`insert`). -/
def insert (s : FeatureSet) (name : String) : FeatureSet :=
  ⟨insertName name s.names, insertName_ascending s.ascending⟩

def insertAll (s : FeatureSet) (names : List String) : FeatureSet := names.foldl insert s

def ofList (names : List String) : FeatureSet := empty.insertAll names

def size (s : FeatureSet) : Nat := s.names.length

def isEmpty (s : FeatureSet) : Bool := s.names.isEmpty

/-- Whether the test feature is enabled (`is_test`). -/
def isTest (s : FeatureSet) : Bool := s.contains testFeature

/-- The names in order, set apart by spaces. -/
def display (s : FeatureSet) : String := " ".intercalate s.names

/-! ## Membership -/

theorem mem_def (s : FeatureSet) (name : String) : name ∈ s ↔ name ∈ s.names := Iff.rfl

@[simp] theorem contains_iff (s : FeatureSet) (name : String) :
    s.contains name = true ↔ name ∈ s := by
  simp [contains, mem_def]

@[simp] theorem mem_insert (s : FeatureSet) (name x : String) :
    x ∈ s.insert name ↔ x = name ∨ x ∈ s :=
  mem_insertName name x s.names

@[simp] theorem mem_insertAll (s : FeatureSet) (names : List String) (x : String) :
    x ∈ s.insertAll names ↔ x ∈ names ∨ x ∈ s := by
  induction names generalizing s with
  | nil => simp [insertAll]
  | cons n ns ih =>
    rw [insertAll, List.foldl_cons, ← insertAll, ih, mem_insert, List.mem_cons]
    constructor
    · rintro (h | h | h)
      · exact .inl (.inr h)
      · exact .inl (.inl h)
      · exact .inr h
    · rintro ((h | h) | h)
      · exact .inr (.inl h)
      · exact .inl h
      · exact .inr (.inr h)

theorem subset_insert (s : FeatureSet) (name : String) : s ⊆ s.insert name :=
  fun x hx => (mem_insert s name x).2 (.inr hx)

/-- A feature set is known by its members. -/
theorem ext_of_mem {s t : FeatureSet} (h : ∀ x, x ∈ s ↔ x ∈ t) : s = t := by
  cases s with
  | mk a ha =>
    cases t with
    | mk b hb =>
      have : a = b := ascending_ext ha hb h
      subst this
      rfl

end FeatureSet
end PackageResolution

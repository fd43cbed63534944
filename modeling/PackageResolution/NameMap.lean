import PackageResolution.Ascending
/-!
# Maps from names

A finite map whose entries stand in ascending order of name, so that two maps with the same
entries are equal and every walk over a map meets the names in order.
-/
namespace PackageResolution

/-- A finite map from names to values. -/
structure NameMap (α : Type) where
  entries : List (String × α)
  ascending : Ascending (entries.map (·.1))

namespace NameMap

variable {α β : Type}

instance [DecidableEq α] : DecidableEq (NameMap α) := fun a b =>
  if h : a.entries = b.entries then
    .isTrue (by cases a; cases b; cases h; rfl)
  else .isFalse fun e => h (e ▸ rfl)

def empty : NameMap α := ⟨[], ascending_nil⟩

instance : Inhabited (NameMap α) := ⟨empty⟩

def names (m : NameMap α) : List String := m.entries.map (·.1)

def find? (m : NameMap α) (name : String) : Option α := m.entries.lookup name

def contains (m : NameMap α) (name : String) : Bool := (m.find? name).isSome

/-- Puts an entry at its place among the others, over an entry of the same name. -/
def putEntry (name : String) (value : α) : List (String × α) → List (String × α)
  | [] => [(name, value)]
  | e :: es =>
    if name < e.1 then (name, value) :: e :: es
    else if name = e.1 then (name, value) :: es
    else e :: putEntry name value es

/-- Putting an entry inserts its name among the names. -/
theorem map_fst_putEntry (name : String) (value : α) (es : List (String × α)) :
    (putEntry name value es).map (·.1) = insertName name (es.map (·.1)) := by
  induction es with
  | nil => rfl
  | cons e es ih =>
    simp only [putEntry, List.map_cons, insertName]
    split
    · rfl
    · split
      · next h => simp [h]
      · simp [ih]

def insert (m : NameMap α) (name : String) (value : α) : NameMap α :=
  ⟨putEntry name value m.entries, by
    rw [map_fst_putEntry]; exact insertName_ascending m.ascending⟩

/-- Replaces the value of a name by what `f` makes of it; a name without value starts at
`default`. -/
def update (m : NameMap α) (name : String) (default : α) (f : α → α) : NameMap α :=
  m.insert name (f ((m.find? name).getD default))

/-- The map of a list of entries, later ones over earlier ones. -/
def ofList (es : List (String × α)) : NameMap α :=
  es.foldl (fun m e => m.insert e.1 e.2) empty

theorem lookup_putEntry_self (name : String) (value : α) (es : List (String × α)) :
    (putEntry name value es).lookup name = some value := by
  induction es with
  | nil => simp [putEntry]
  | cons e es ih =>
    obtain ⟨n, v⟩ := e
    rw [putEntry]
    split
    · simp
    · split
      · simp
      · next h => simp [List.lookup_cons, beq_eq_false_iff_ne.2 h, ih]

theorem lookup_putEntry_of_ne {name other : String} (value : α) (es : List (String × α))
    (h : other ≠ name) : (putEntry name value es).lookup other = es.lookup other := by
  have hb : (other == name) = false := beq_eq_false_iff_ne.2 h
  induction es with
  | nil => simp [putEntry, List.lookup_cons, hb]
  | cons e es ih =>
    obtain ⟨n, v⟩ := e
    rw [putEntry]
    split
    · simp [List.lookup_cons, hb]
    · split
      · next he => simp only at he; subst he; simp [List.lookup_cons, hb]
      · simp [List.lookup_cons, ih]

@[simp] theorem find?_insert_self (m : NameMap α) (name : String) (value : α) :
    (m.insert name value).find? name = some value :=
  lookup_putEntry_self name value m.entries

theorem find?_insert_of_ne (m : NameMap α) {name other : String} (value : α) (h : other ≠ name) :
    (m.insert name value).find? other = m.find? other :=
  lookup_putEntry_of_ne value m.entries h

theorem getD_find?_update (m : NameMap α) (name other : String) (default : α) (f : α → α) :
    ((m.update name default f).find? other).getD default =
      if other = name then f ((m.find? name).getD default) else (m.find? other).getD default := by
  rw [update]
  split
  · next h => rw [h, find?_insert_self, Option.getD_some]
  · next h => rw [find?_insert_of_ne m _ h]

theorem mem_names_iff {m : NameMap α} {name : String} : name ∈ m.names ↔ m.contains name = true := by
  simp [names, contains, find?, List.lookup_isSome_iff]

theorem lookup_of_mem {κ : Type} [BEq κ] [LawfulBEq κ] {es : List (κ × α)}
    (h : (es.map (·.1)).Nodup) {name : κ} {value : α} (he : (name, value) ∈ es) :
    es.lookup name = some value := by
  induction es with
  | nil => cases he
  | cons e es ih =>
    obtain ⟨new, rest⟩ := List.nodup_cons.1 h
    rcases List.mem_cons.1 he with rfl | later
    · exact List.lookup_cons_self
    · have ne : name ≠ e.1 := by
        rintro rfl
        exact new (List.mem_map.2 ⟨_, later, rfl⟩)
      rw [List.lookup_cons, beq_eq_false_iff_ne.2 ne]
      exact ih rest later

/-- The entries are the names with what is found under them. -/
theorem entries_eq (m : NameMap α) (default : α) :
    m.entries = m.names.map fun name => (name, (m.find? name).getD default) := by
  have found : ∀ e ∈ m.entries, (m.find? e.1).getD default = e.2 := by
    rintro ⟨name, value⟩ he
    rw [find?, lookup_of_mem m.ascending.nodup he]
    rfl
  rw [names, List.map_map]
  refine (List.map_id m.entries).symm.trans (List.map_congr_left fun e he => ?_)
  exact Prod.ext rfl (found e he).symm

end NameMap
end PackageResolution

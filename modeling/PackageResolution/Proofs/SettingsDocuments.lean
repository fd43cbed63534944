import PackageResolution.Settings.Schema
import PackageResolution.Toml.Decode
import PackageResolution.Proofs.Computations
import Mathlib.Data.List.Basic
import Mathlib.Data.Set.Basic
/-!
# Settings in documents

Settings that are written to a document are read from it as they were, whatever the features are
called: the tables of the features stand one level below the lists, so that their names cannot be taken
for the names of lists. What a document holds besides the lists and the tables is not looked at.

Main statements: `ofValue_toValue`, `ofValue_of_widened`, `settings_keep_meaning`.
-/
namespace PackageResolution

variable {α : Type} {known : Set String} {same : String → Value → Value → Prop}
  {es fs : List (String × Value)} {v w : Value}

/-! ## Maps from the list of their entries -/

namespace NameMap

theorem putEntry_of_above {name : String} {value : α} {es : List (String × α)}
    (h : ∀ e ∈ es, e.1 < name) : putEntry name value es = es ++ [(name, value)] := by
  induction es with
  | nil => rfl
  | cons e es ih =>
    obtain ⟨he, hes⟩ := List.forall_mem_cons.1 h
    have ne : name ≠ e.1 := by
      rintro rfl
      exact String.lt_irrefl _ he
    rw [putEntry, if_neg (String.lt_asymm he), if_neg ne, ih hes]
    rfl

theorem entries_foldl_insert {m : NameMap α} {es : List (String × α)}
    (h : Ascending ((m.entries ++ es).map (·.1))) :
    (es.foldl (fun m e => m.insert e.1 e.2) m).entries = m.entries ++ es := by
  induction es generalizing m with
  | nil => simp
  | cons e es ih =>
    have above : ∀ e' ∈ m.entries, e'.1 < e.1 := by
      intro e' he'
      rw [List.map_append, Ascending, List.pairwise_append] at h
      exact h.2.2 e'.1 (List.mem_map_of_mem he') e.1 (by simp)
    have put : (m.insert e.1 e.2).entries = m.entries ++ [e] := putEntry_of_above above
    rw [List.foldl_cons, ih (by simpa [put] using h), put, List.append_assoc]
    rfl

/-- A map is what comes of inserting its entries in their order. -/
theorem ofList_entries (m : NameMap α) : ofList m.entries = m := by
  have entries : (ofList m.entries).entries = m.entries :=
    entries_foldl_insert (m := empty) m.ascending
  cases h : ofList m.entries with
  | mk es asc =>
    rw [h] at entries
    cases m
    cases entries
    rfl

end NameMap

/-! ## Reading entries -/

namespace Schema

theorem list_text_listValue (texts : List String) :
    list text (Settings.listValue texts) = .ok texts := by
  show (texts.map Value.text).mapM text = .ok texts
  induction texts with
  | nil => rfl
  | cons t ts ih =>
    rw [List.map_cons, List.mapM_cons, ih]
    rfl

/-- Values that are read back one by one are read back as the map they were written from. -/
theorem entries_map {value : Schema α} {write : α → Value} (h : ∀ a, value (write a) = .ok a)
    (m : NameMap α) : entries value (m.entries.map fun e => (e.1, write e.2)) = .ok m := by
  have each : ∀ (es : List (String × α)) (m : NameMap α),
      (es.map fun e => (e.1, write e.2)).foldlM (fun m e => return m.insert e.1 (← value e.2)) m =
      (.ok (es.foldl (fun m e => m.insert e.1 e.2) m) : Except SchemaError (NameMap α)) := by
    intro es
    induction es with
    | nil => exact fun m => rfl
    | cons e es ih =>
      intro m
      rw [List.map_cons, List.foldlM_cons, List.foldl_cons]
      dsimp only
      rw [h]
      exact ih _
  exact (each m.entries .empty).trans (congrArg Except.ok m.ofList_entries)

end Schema

/-! ## Further entries -/

/-- Entries that have others among them under keys that are not known. For a key that is known the
values belong together. -/
inductive Widens (known : Set String) (same : String → Value → Value → Prop) :
    List (String × Value) → List (String × Value) → Prop
  | nil : Widens known same [] []
  | keep {key : String} {v w : Value} {es fs : List (String × Value)} (h : same key v w)
      (rest : Widens known same es fs) : Widens known same ((key, v) :: es) ((key, w) :: fs)
  | more {key : String} {w : Value} {es fs : List (String × Value)} (unknown : key ∉ known)
      (rest : Widens known same es fs) : Widens known same es ((key, w) :: fs)

/-- A value, or a table with further entries. -/
inductive Widened (known : Set String) (same : String → Value → Value → Prop) : Value → Value → Prop
  | refl (v : Value) : Widened known same v v
  | table {es fs : List (String × Value)} (h : Widens known same es fs) :
      Widened known same (.table es) (.table fs)

theorem Widens.lookup (h : Widens known same es fs) {key : String} (hkey : key ∈ known) :
    Option.Rel (same key) (es.lookup key) (fs.lookup key) := by
  induction h with
  | nil => exact .none
  | @keep own v w es fs h _ ih =>
    by_cases e : key = own
    · subst e
      simpa using Option.Rel.some h
    · simpa [List.lookup_cons, beq_eq_false_iff_ne.2 e] using ih
  | @more own w es fs unknown _ ih =>
    have e : key ≠ own := fun e => unknown (e ▸ hkey)
    simpa [List.lookup_cons, beq_eq_false_iff_ne.2 e] using ih

theorem Widens.any_key (h : Widens known same es fs) {key : String} (hkey : key ∈ known) :
    fs.any (·.1 == key) = es.any (·.1 == key) := by
  induction h with
  | nil => rfl
  | keep _ _ ih => rw [List.any_cons, List.any_cons, ih]
  | @more own w es fs unknown _ ih =>
    have e : (own == key) = false := beq_eq_false_iff_ne.2 fun e => unknown (e ▸ hkey)
    rw [List.any_cons, e, Bool.false_or, ih]

namespace Schema

/-- A map of values that belong together is read the same. -/
theorem entries_of_widens {value : Schema α} (h : Widens Set.univ same es fs)
    (reads : ∀ key v w, same key v w → value v = value w) : entries value fs = entries value es := by
  unfold entries
  generalize (NameMap.empty : NameMap α) = m
  induction h generalizing m with
  | nil => rfl
  | keep h _ ih =>
    rw [List.foldlM_cons, List.foldlM_cons]
    dsimp only
    rw [reads _ _ _ h]
    exact bind_congr ih
  | more unknown _ _ => exact absurd (Set.mem_univ _) unknown

namespace Record

variable {r : Record α}

theorem mem_of_field? {key : String} {f : Field α} (h : r.field? key = some f) :
    f ∈ r.fields ∧ f.name = key :=
  ⟨List.mem_of_find?_eq_some h, by simpa using List.find?_some h⟩

theorem readEntries_of_widens (h : Widens known same es fs) (fields : ∀ f ∈ r.fields, f.name ∈ known)
    (reads : ∀ key v w, same key v w → ∀ f, r.field? key = some f → f.read v = f.read w) (a : α) :
    r.readEntries a fs = r.readEntries a es := by
  unfold readEntries
  induction h generalizing a with
  | nil => rfl
  | @keep key v w es fs h _ ih =>
    rw [List.foldlM_cons, List.foldlM_cons]
    dsimp only
    cases hf : r.field? key with
    | none => exact ih a
    | some f =>
      dsimp only
      rw [reads key v w h f hf]
      exact bind_congr ih
  | @more key w es fs unknown _ ih =>
    have none : r.field? key = none := by
      refine Option.eq_none_iff_forall_ne_some.2 fun f hf => unknown ?_
      obtain ⟨hmem, rfl⟩ := mem_of_field? hf
      exact fields f hmem
    rw [List.foldlM_cons]
    dsimp only
    rw [none]
    exact ih a

/-- A record none of whose fields has to be there is read as soon as its entries are. -/
theorem ofEntries_of_optional {a : α} (h : r.readEntries r.initial es = .ok a)
    (optional : ∀ f ∈ r.fields, f.isRequired = false) : r.ofEntries es = .ok a := by
  have missing : (r.fields.find? fun f => f.isRequired && !es.any (·.1 == f.name)) = none :=
    List.find?_eq_none.2 fun f hf => by simp [optional f hf]
  simp only [ofEntries, h, missing, bind, Except.bind]

/-- A record is read from a table with further entries as from the table without them. -/
theorem read_of_widened (h : Widened known same v w) (fields : ∀ f ∈ r.fields, f.name ∈ known)
    (reads : ∀ key v w, same key v w → ∀ f, r.field? key = some f → f.read v = f.read w) :
    r.read w = r.read v := by
  cases h with
  | refl => rfl
  | @table es fs h =>
    have missing : (r.fields.find? fun f => f.isRequired && !fs.any (·.1 == f.name)) =
        r.fields.find? fun f => f.isRequired && !es.any (·.1 == f.name) := by
      rw [← List.head?_filter, ← List.head?_filter]
      refine congrArg List.head? (List.filter_congr fun f hf => ?_)
      rw [h.any_key (fields f hf)]
    show r.ofEntries fs = r.ofEntries es
    rw [ofEntries, ofEntries, readEntries_of_widens h fields reads, missing]

end Record
end Schema

/-! ## Settings -/

namespace Settings

/-- The keys under which lists stand. -/
def listKeys : Set String := {name | ∃ k : Key, k.name = name}

/-- The keys of a document of settings. -/
def documentKeys : Set String := insert overlaysKey listKeys

instance (name : String) : Decidable (name ∈ listKeys) :=
  decidable_of_iff (∃ k ∈ Key.all, k.name = name)
    ⟨fun ⟨k, _, h⟩ => ⟨k, h⟩, fun ⟨k, h⟩ => ⟨k, k.mem_all, h⟩⟩

instance (name : String) : Decidable (name ∈ documentKeys) :=
  inferInstanceAs (Decidable (name = overlaysKey ∨ name ∈ listKeys))

namespace Table

variable {t u : Table}

theorem name_mem_listKeys : ∀ f ∈ record.fields, f.name ∈ listKeys := by
  intro f hf
  obtain ⟨k, -, rfl⟩ := List.mem_map.1 hf
  exact ⟨k, rfl⟩

theorem field?_name (k : Key) : record.field? k.name =
    some ⟨k.name, false, fun v t => (t.set k ·) <$> Schema.list Schema.text v⟩ := by
  cases k <;> rfl

theorem overlaysKey_not_mem : overlaysKey ∉ listKeys := by
  rintro ⟨k, hk⟩
  revert hk
  cases k <;> decide

theorem readEntries_name (k : Key) (texts : List String) (rest : List (String × Value)) :
    record.readEntries t ((k.name, listValue texts) :: rest) =
      record.readEntries (t.set k texts) rest := by
  rw [Schema.Record.readEntries, List.foldlM_cons]
  dsimp only
  rw [field?_name]
  dsimp only
  rw [Schema.list_text_listValue]
  rfl

theorem readEntries_lists (ks : List Key) (rest : List (String × Value)) :
    record.readEntries u (ks.map (fun k => (k.name, listValue (t.get k))) ++ rest) =
      record.readEntries (ks.foldl (fun u k => u.set k (t.get k)) u) rest := by
  induction ks generalizing u with
  | nil => rfl
  | cons k ks ih => rw [List.map_cons, List.cons_append, readEntries_name, ih, List.foldl_cons]

theorem get_foldl_set (ks : List Key) (k : Key) :
    (ks.foldl (fun u k => u.set k (t.get k)) u).get k = if k ∈ ks then t.get k else u.get k := by
  induction ks generalizing u with
  | nil => simp
  | cons j ks ih =>
    rw [List.foldl_cons, ih, get_set]
    by_cases here : k = j
    · simp [here]
    · simp [here]

/-- All lists of a table are written out, so nothing is left of the table that they are read into. -/
theorem readEntries_toEntries (t u : Table) (rest : List (String × Value)) :
    record.readEntries u (t.toEntries ++ rest) = record.readEntries t rest := by
  have all : Key.all.foldl (fun u k => u.set k (t.get k)) u = t :=
    ext_get fun k => (get_foldl_set Key.all k).trans (if_pos k.mem_all)
  rw [toEntries, readEntries_lists, all]

theorem read_toEntries (t : Table) : record.read (.table t.toEntries) = .ok t := by
  have lists := readEntries_toEntries t {} []
  rw [List.append_nil] at lists
  refine Schema.Record.ofEntries_of_optional lists fun f hf => ?_
  obtain ⟨k, -, rfl⟩ := List.mem_map.1 hf
  rfl

end Table

theorem lookup_toEntries_append (t : Table) (v : Value) :
    (t.toEntries ++ [(overlaysKey, v)]).lookup overlaysKey = some v := by
  have absent : ∀ ks : List Key, (ks.map fun k => (k.name, listValue (t.get k))).lookup overlaysKey =
      none := by
    intro ks
    refine List.lookup_eq_none_iff.2 fun e he => ?_
    obtain ⟨k, -, rfl⟩ := List.mem_map.1 he
    exact bne_iff_ne.2 fun e => Table.overlaysKey_not_mem ⟨k, e.symm⟩
  rw [List.lookup_append, Table.toEntries, absent]
  rfl

/-- **`ofValue_toValue`**: settings are read as they were written. -/
theorem ofValue_toValue (s : Settings) : ofValue s.toValue = .ok s := by
  have overlays : Schema.map Table.record.read
      (.table (s.overlays.entries.map fun e => (e.1, .table e.2.toEntries))) = .ok s.overlays :=
    Schema.entries_map Table.read_toEntries s.overlays
  have base : ∀ v, Table.record.readEntries {} (s.base.toEntries ++ [(overlaysKey, v)]) =
      .ok s.base := fun v => Table.readEntries_toEntries s.base {} [(overlaysKey, v)]
  simp only [toValue, ofValue, Value.entries?, lookup_toEntries_append, overlays, base]
  rfl

/-! ## Documents with further keys -/

/-- A document in which further keys stand, beside the lists and tables of the settings or in the
table of a feature. -/
def WidenedDocument : Value → Value → Prop :=
  Widened documentKeys fun key v w => v = w ∨ key = overlaysKey ∧
    Widened Set.univ (fun _ => Widened listKeys fun _ => Eq) v w

theorem Table.read_of_widened (h : Widened listKeys (fun _ => Eq) v w) :
    Table.record.read w = Table.record.read v :=
  Schema.Record.read_of_widened h Table.name_mem_listKeys fun _ _ _ same _ _ => same ▸ rfl

theorem map_of_widened
    (h : Widened Set.univ (fun _ => Widened listKeys fun _ => Eq) v w) :
    Schema.map Table.record.read w = Schema.map Table.record.read v := by
  cases h with
  | refl => rfl
  | table h => exact Schema.entries_of_widens h fun _ _ _ same => (Table.read_of_widened same).symm

/-- **`ofValue_of_widened`**: further keys make no difference. -/
theorem ofValue_of_widened (h : WidenedDocument v w) : ofValue w = ofValue v := by
  cases h with
  | refl => rfl
  | @table es fs h =>
    have base : Table.record.readEntries {} fs = Table.record.readEntries {} es := by
      refine Schema.Record.readEntries_of_widens h
        (fun f hf => .inr (Table.name_mem_listKeys f hf)) ?_ {}
      rintro key v w (rfl | ⟨rfl, -⟩) f hf
      · rfl
      · -- under the key of the tables no list is read
        obtain ⟨hmem, named⟩ := Schema.Record.mem_of_field? hf
        exact absurd (named ▸ Table.name_mem_listKeys f hmem) Table.overlaysKey_not_mem
    have known : overlaysKey ∈ documentKeys := .inl rfl
    have found := h.lookup known
    simp only [ofValue, Value.entries?, base]
    revert found
    generalize es.lookup overlaysKey = a
    generalize fs.lookup overlaysKey = b
    rintro (@⟨v, w, rfl | ⟨-, h⟩⟩ | -)
    · rfl
    · simp only [map_of_widened h]
    · rfl

/-- **`settings_keep_meaning`**: settings are read from what is written for them as they were, so that
every list holds the same under all features. Further keys in a document, at its top or in the table of
a feature, change nothing in what is read from it, or in why it cannot be read. -/
theorem settings_keep_meaning :
    (∀ s : Settings, ofValue s.toValue = .ok s ∧
      ∀ k F, (ofValue s.toValue).map (·.values k F) = .ok (s.values k F)) ∧
    (∀ v w, WidenedDocument v w → ofValue w = ofValue v) ∧
    ∀ text more v w, Toml.read? text = some v → Toml.read? more = some w → WidenedDocument v w →
      Toml.decode ofValue more = Toml.decode ofValue text := by
  refine ⟨fun s => ?_, fun v w => ofValue_of_widened, ?_⟩
  · rw [ofValue_toValue]
    exact ⟨rfl, fun k F => rfl⟩
  · intro text more v w read readMore widened
    simp only [Toml.decode, read, readMore, ofValue_of_widened widened]

/-- A feature without a name, and a feature that is called as a list. -/
def plainText : String := "[feature.\"\"]\ncaps = []\n[feature.deps]\ndeps = [\"b\"]\n"

/-- The same with a title, a note in the table of one feature, and in that of the other one the key of
the features' tables, which means nothing there. -/
def annotatedText : String :=
  "title = 1\n[feature.\"\"]\ncaps = []\nnote = true\n[feature.deps]\ndeps = [\"b\"]\n" ++
    "[feature.deps.feature.x]\ndeps = [\"c\"]\n"

/-- What the tables of the two features hold, with further entries behind it. -/
def namedAsList (note nested : List (String × Value)) : Value :=
  .table [("", .table (("caps", .list []) :: note)),
    ("deps", .table (("deps", .list [.text "b"]) :: nested))]

theorem settings_keep_meaning_namedAsList : ∃ v w,
    Toml.read? plainText = some v ∧ Toml.read? annotatedText = some w ∧ WidenedDocument v w ∧
      ofValue w = ofValue v ∧
      Toml.decode ofValue annotatedText = Toml.decode ofValue plainText := by
  obtain ⟨-, values, texts⟩ := settings_keep_meaning
  have read : Toml.read? plainText = some (.table [("feature", namedAsList [] [])]) := by
    decide +kernel
  have readMore : Toml.read? annotatedText = some (.table [("title", .integer 1),
      ("feature", namedAsList [("note", .boolean true)]
        [("feature", .table [("x", .table [("deps", .list [.text "c"])])])])]) := by
    decide +kernel
  have tables : ∀ note nested, note.1 ∉ listKeys → nested.1 ∉ listKeys →
      Widened Set.univ (fun _ => Widened listKeys fun _ => Eq) (namedAsList [] [])
        (namedAsList [note] [nested]) := fun _ _ note nested =>
    .table (.keep (.table (.keep rfl (.more note .nil)))
      (.keep (.table (.keep rfl (.more nested .nil))) .nil))
  have widened : WidenedDocument (.table [("feature", namedAsList [] [])])
      (.table [("title", .integer 1), ("feature", namedAsList [("note", .boolean true)]
        [("feature", .table [("x", .table [("deps", .list [.text "c"])])])])]) :=
    .table (.more (by decide) (.keep (.inr ⟨rfl, tables _ _ (by decide) (by decide)⟩) .nil))
  exact ⟨_, _, read, readMore, widened, values _ _ widened, texts _ _ _ _ read readMore widened⟩

end Settings
end PackageResolution

import PackageResolution.Proofs.Values
/-!
# What feature-scoped lists depend on

A list of settings grows with the enabled features, and what it held before stays in its order: new
values come in between, behind the base values. Of the features only those count under which something
is scoped. Settings are put together by additions to one list at a time; additions to different lists do
not meddle with each other, so each list is what was added to it, in the order in which it was.

Main statements: `values_build`, `values_monotone_and_stable`.
-/
namespace PackageResolution

namespace Settings

variable {s : Settings} {k : Key} {F G : FeatureSet} {scope : Option String}

/-! ## Tables -/

/-- The table that is scoped under a feature, or the table of the base values. -/
def table (s : Settings) : Option String → Table
  | none => s.base
  | some feature => (s.overlays.find? feature).getD {}

theorem get_table_of_absent {feature : String} (h : s.overlays.contains feature = false) (k : Key) :
    (s.table (some feature)).get k = [] := by
  have none : s.overlays.find? feature = none := by simpa [NameMap.contains] using h
  rw [table, none]
  cases k <;> rfl

/-- The values are read by going through the enabled features instead of the tables. -/
theorem values_eq_tables (s : Settings) (k : Key) (F : FeatureSet) : s.values k F =
    (s.table none).get k ++ F.names.flatMap fun feature => (s.table (some feature)).get k := by
  -- the features with a table that are enabled are the enabled features with a table
  have common : s.overlays.names.filter F.contains = F.names.filter s.overlays.contains := by
    refine ascending_ext (s.overlays.ascending.filter _) (F.ascending.filter _) fun x => ?_
    rw [List.mem_filter, List.mem_filter, NameMap.mem_names_iff, FeatureSet.contains_iff,
      FeatureSet.mem_def, and_comm]
  have idle : F.names.flatMap (fun feature => (s.table (some feature)).get k) =
      (F.names.filter s.overlays.contains).flatMap
        fun feature => (s.table (some feature)).get k := by
    induction F.names with
    | nil => rfl
    | cons f fs ih =>
      cases h : s.overlays.contains f with
      | true => rw [List.filter_cons_of_pos h, List.flatMap_cons, List.flatMap_cons, ih]
      | false =>
        rw [List.filter_cons_of_neg (by simp [h]), List.flatMap_cons, get_table_of_absent h, ih]
        rfl
  rw [values, s.overlays.entries_eq {}, List.filter_map, List.flatMap_map, idle, ← common]
  rfl

/-! ## Feature sets -/

theorem base_prefix_values (s : Settings) (k : Key) (F : FeatureSet) :
    s.base.get k <+: s.values k F := List.prefix_append _ _

/-- Features without a table make no difference. -/
theorem values_congr (h : ∀ feature ∈ s.overlays.names, feature ∈ F ↔ feature ∈ G) :
    s.values k F = s.values k G := by
  have same : s.overlays.entries.filter (F.contains ·.1) =
      s.overlays.entries.filter (G.contains ·.1) := by
    refine List.filter_congr fun e he => ?_
    rw [Bool.eq_iff_iff, FeatureSet.contains_iff, FeatureSet.contains_iff]
    exact h e.1 (List.mem_map_of_mem he)
  rw [values, values, same]

/-! ## Additions -/

/-- Values that are added under a key, to the base values or under a feature. -/
structure Addition where
  scope : Option String
  key : Key
  values : List String

/-- The settings with an addition made to them. -/
def Addition.apply (s : Settings) (a : Addition) : Settings :=
  match a.scope with
  | none => s.add a.key a.values
  | some feature => s.addScoped feature a.key a.values

/-- The settings that come of additions, made one after another. -/
def build (additions : List Addition) : Settings := additions.foldl Addition.apply {}

/-- What additions add to one list, addition by addition. -/
def addedTo (scope : Option String) (k : Key) (additions : List Addition) : List (List String) :=
  (additions.filter fun a => a.scope = scope ∧ a.key = k).map Addition.values

/-- An addition changes the one table that it is made to. -/
theorem table_apply (s : Settings) (a : Addition) (scope : Option String) :
    (a.apply s).table scope =
      if a.scope = scope then (s.table scope).append a.key a.values else s.table scope := by
  obtain ⟨own, key, values⟩ := a
  cases own with
  | none => cases scope <;> simp [Addition.apply, add, table]
  | some feature =>
    cases scope with
    | none => simp [Addition.apply, addScoped, table]
    | some other =>
      simp only [Addition.apply, addScoped, table, NameMap.getD_find?_update, Option.some.injEq]
      by_cases h : other = feature
      · simp [h]
      · simp [h, Ne.symm h]

theorem get_table_foldl (additions : List Addition) (s : Settings) (scope : Option String) (k : Key) :
    ((additions.foldl Addition.apply s).table scope).get k =
      (s.table scope).get k ++ (addedTo scope k additions).flatten := by
  induction additions generalizing s with
  | nil => simp [addedTo]
  | cons a additions ih =>
    rw [List.foldl_cons, ih, table_apply]
    by_cases hscope : a.scope = scope
    · by_cases hkey : a.key = k
      · simp [addedTo, hscope, hkey]
      · simp [addedTo, hscope, hkey, Ne.symm hkey]
    · simp [addedTo, hscope]

/-- **`values_build`**: under some features, a list holds what was added to its base values, and then
what was added under each of the features, feature by feature. -/
theorem values_build (additions : List Addition) (k : Key) (F : FeatureSet) :
    (build additions).values k F = (addedTo none k additions).flatten ++
      F.names.flatMap fun feature => (addedTo (some feature) k additions).flatten := by
  have table_empty : ∀ scope, (({} : Settings).table scope).get k = [] := by
    rintro (- | feature) <;> cases k <;> rfl
  simp only [values_eq_tables, build, get_table_foldl, table_empty, List.nil_append]

/-- Two series of additions give the same lists exactly if each list is added the same to. -/
theorem values_build_eq_iff {as bs : List Addition} :
    (∀ k F, (build as).values k F = (build bs).values k F) ↔
      ∀ scope k, (addedTo scope k as).flatten = (addedTo scope k bs).flatten := by
  simp only [values_build]
  constructor
  · intro same scope k
    have bases : (addedTo none k as).flatten = (addedTo none k bs).flatten := by
      simpa [FeatureSet.empty] using same k .empty
    cases scope with
    | none => exact bases
    | some feature =>
      have alone : (FeatureSet.ofList [feature]).names = [feature] := rfl
      have both := same k (.ofList [feature])
      rw [bases, alone] at both
      simpa using both
  · intro same k F
    simp only [same]

/-- **`values_monotone_and_stable`**: more features leave a list as it is but for values that come in
behind the base values; features without a table count for nothing; and series of additions that agree
on the order of the additions to each list give the same lists, as they also do if only all that is
added to each list is the same, and not otherwise. -/
theorem values_monotone_and_stable :
    (∀ (s : Settings) k (F G : FeatureSet), F ⊆ G →
      List.Sublist (s.values k F) (s.values k G) ∧
        s.base.get k <+: s.values k F ∧ s.base.get k <+: s.values k G) ∧
    (∀ (s : Settings) k (F G : FeatureSet),
      (∀ feature ∈ s.overlays.names, feature ∈ F ↔ feature ∈ G) → s.values k F = s.values k G) ∧
    (∀ as bs : List Addition, (∀ scope k, addedTo scope k as = addedTo scope k bs) →
      ∀ k F, (build as).values k F = (build bs).values k F) ∧
    ∀ as bs : List Addition, (∀ k F, (build as).values k F = (build bs).values k F) ↔
      ∀ scope k, (addedTo scope k as).flatten = (addedTo scope k bs).flatten := by
  refine ⟨fun s k F G more => ⟨values_sublist more, ?_, ?_⟩, fun s k F G => values_congr, ?_,
    fun as bs => values_build_eq_iff⟩
  · exact base_prefix_values s k F
  · exact base_prefix_values s k G
  · intro as bs same
    exact values_build_eq_iff.2 fun scope k => congrArg List.flatten (same scope k)

/-- Two lists of one feature, a list of the feature without a name, and base values that come last. -/
def interleaved : List Addition := [
  ⟨some "tls", .deps, ["net/tls"]⟩, ⟨some "", .deps, ["net/raw"]⟩, ⟨some "tls", .cflags, ["-DTLS"]⟩,
  ⟨some "tls", .deps, ["crypto", "net/tls"]⟩, ⟨none, .deps, ["net/ip"]⟩]

/-- The same additions with those to the base values first. -/
def sorted : List Addition := [
  ⟨none, .deps, ["net/ip"]⟩, ⟨some "", .deps, ["net/raw"]⟩, ⟨some "tls", .deps, ["net/tls"]⟩,
  ⟨some "tls", .deps, ["crypto", "net/tls"]⟩, ⟨some "tls", .cflags, ["-DTLS"]⟩]

theorem values_monotone_and_stable_interleaved :
    (FeatureSet.ofList ["tls"] ⊆ .ofList ["log", "tls", ""] ∧
      List.Sublist ["net/ip", "net/tls", "crypto", "net/tls"]
        ((build interleaved).values .deps (.ofList ["log", "tls", ""]))) ∧
    (build interleaved).values .deps (.ofList ["tls"]) =
      (build interleaved).values .deps (.ofList ["log", "tls", "test"]) ∧
    (∀ scope k, addedTo scope k interleaved = addedTo scope k sorted) ∧
    ∀ k F, (build interleaved).values k F = (build sorted).values k F := by
  obtain ⟨mono, sections, stable, -⟩ := values_monotone_and_stable
  have more : FeatureSet.ofList ["tls"] ⊆ .ofList ["log", "tls", ""] := by
    have names : ∀ x ∈ (FeatureSet.ofList ["tls"]).names,
        x ∈ (FeatureSet.ofList ["log", "tls", ""]).names := by decide
    exact names
  have few : (build interleaved).values .deps (.ofList ["tls"]) =
      ["net/ip", "net/tls", "crypto", "net/tls"] := by decide +kernel
  have same : ∀ scope k, addedTo scope k interleaved = addedTo scope k sorted := by
    intro scope k
    rcases scope with - | feature
    · cases k <;> rfl
    · by_cases tls : "tls" = feature
      · subst tls
        cases k <;> rfl
      · by_cases nameless : "" = feature
        · subst nameless
          cases k <;> rfl
        · simp [addedTo, interleaved, sorted, tls, nameless]
  exact ⟨⟨more, few ▸ (mono _ .deps _ _ more).1⟩,
    sections _ _ _ _ (by decide +kernel), same, stable _ _ same⟩

end Settings
end PackageResolution

import PackageResolution.Settings
import Mathlib.Data.List.Basic
import Mathlib.Data.List.Flatten
import Mathlib.Data.Set.Basic
/-!
# What settings give under a set of features

A list of settings is read under the features enabled so far. Here it is read under any set of
names, so that a set that is no session's can be spoken of as well, such as one that is closed
under everything its packages declare.

Main statements: `mem_values` and `values_mono`; enabling more features never takes a value away.
-/
namespace PackageResolution

/-! ## Feature sets as sets of names -/

namespace FeatureSet

/-- The enabled names. -/
def toSet (s : FeatureSet) : Set String := {name | name ∈ s}

@[simp] theorem mem_toSet (s : FeatureSet) (name : String) : name ∈ s.toSet ↔ name ∈ s := Iff.rfl

@[simp] theorem subset_refl (s : FeatureSet) : s ⊆ s := fun _ h => h

theorem subset_trans {s t u : FeatureSet} (h : s ⊆ t) (h' : t ⊆ u) : s ⊆ u :=
  fun x hx => h' x (h x hx)

theorem subset_antisymm {s t : FeatureSet} (h : s ⊆ t) (h' : t ⊆ s) : s = t :=
  ext_of_mem fun x => ⟨h x, h' x⟩

theorem subset_insertAll (s : FeatureSet) (names : List String) : s ⊆ s.insertAll names :=
  fun x hx => (mem_insertAll s names x).2 (.inr hx)

theorem isTest_mono {s t : FeatureSet} (h : s ⊆ t) (hs : s.isTest = true) : t.isTest = true :=
  (contains_iff t _).2 (h _ ((contains_iff s _).1 hs))

/-- Enabling a list changes nothing exactly if all of it is enabled. -/
theorem insertAll_eq_self_iff {s : FeatureSet} {names : List String} :
    s.insertAll names = s ↔ ∀ x ∈ names, x ∈ s := by
  constructor
  · intro h x hx
    rw [← h]
    exact (mem_insertAll s names x).2 (.inl hx)
  · intro h
    refine ext_of_mem fun x => ⟨fun hx => ?_, fun hx => subset_insertAll s names x hx⟩
    rcases (mem_insertAll s names x).1 hx with hx | hx
    · exact h x hx
    · exact hx

end FeatureSet

/-! ## Values -/

namespace Settings

/-- A value applies under the names in `F`: it is a base value, or scoped under one of them. -/
def Applies (s : Settings) (k : Key) (F : Set String) (v : String) : Prop :=
  v ∈ s.base.get k ∨ ∃ e ∈ s.overlays.entries, e.1 ∈ F ∧ v ∈ e.2.get k

theorem Applies.mono {s : Settings} {k : Key} {F G : Set String} {v : String} (hFG : F ⊆ G)
    (h : s.Applies k F v) : s.Applies k G v := by
  rcases h with h | ⟨e, he, hF, hv⟩
  · exact .inl h
  · exact .inr ⟨e, he, hFG hF, hv⟩

theorem Applies.mem_declared {s : Settings} {k : Key} {F : Set String} {v : String}
    (h : s.Applies k F v) : v ∈ s.declared k := by
  rw [declared, List.mem_append, List.mem_flatMap]
  rcases h with h | ⟨e, he, -, hv⟩
  · exact .inl h
  · exact .inr ⟨e, he, hv⟩

/-- The values read under a feature set are those that apply under its names. -/
theorem mem_values {s : Settings} {k : Key} {features : FeatureSet} {v : String} :
    v ∈ s.values k features ↔ s.Applies k features.toSet v := by
  simp only [values, Applies, List.mem_append, List.mem_flatMap, List.mem_filter,
    FeatureSet.contains_iff, FeatureSet.mem_toSet, and_assoc]

theorem values_mono {s : Settings} {k : Key} {F G : FeatureSet} {v : String} (hFG : F ⊆ G)
    (h : v ∈ s.values k F) : v ∈ s.values k G :=
  mem_values.2 ((mem_values.1 h).mono hFG)

/-- The values that apply under `G` by a feature that `F` lacks. -/
def gained (s : Settings) (F G : FeatureSet) (k : Key) : List String :=
  (s.overlays.entries.filter fun e => G.contains e.1 && !F.contains e.1).flatMap (·.2.get k)

/-- What applies under the larger of two sets applies under the smaller one or was gained. -/
theorem mem_values_iff_gained {s : Settings} {k : Key} {F G : FeatureSet} (hFG : F ⊆ G)
    {v : String} : v ∈ s.values k G ↔ v ∈ s.values k F ∨ v ∈ s.gained F G k := by
  have mem_gained : v ∈ s.gained F G k ↔
      ∃ e ∈ s.overlays.entries, (e.1 ∈ G ∧ e.1 ∉ F) ∧ v ∈ e.2.get k := by
    simp [gained, ← FeatureSet.contains_iff, and_assoc]
  rw [mem_gained]
  constructor
  · intro h
    rcases mem_values.1 h with h | ⟨e, he, hG, hv⟩
    · exact .inl (mem_values.2 (.inl h))
    · by_cases hF : e.1 ∈ F
      · exact .inl (mem_values.2 (.inr ⟨e, he, hF, hv⟩))
      · exact .inr ⟨e, he, ⟨hG, hF⟩, hv⟩
  · rintro (h | ⟨e, he, ⟨hG, -⟩, hv⟩)
    · exact values_mono hFG h
    · exact mem_values.2 (.inr ⟨e, he, hG, hv⟩)

/-- The values under the smaller of two sets keep their order under the larger one. -/
theorem values_sublist {s : Settings} {k : Key} {F G : FeatureSet} (hFG : F ⊆ G) :
    List.Sublist (s.values k F) (s.values k G) := by
  refine (List.Sublist.refl _).append (List.Sublist.flatMap (List.monotone_filter_right _ ?_) _)
  intro e hF
  exact (FeatureSet.contains_iff G e.1).2 (hFG e.1 ((FeatureSet.contains_iff F e.1).1 hF))

theorem length_values {s : Settings} {k : Key} {F G : FeatureSet} (hFG : F ⊆ G) :
    (s.values k G).length = (s.values k F).length + (s.gained F G k).length := by
  simp only [values, gained, List.length_append]
  induction s.overlays.entries with
  | nil => rfl
  | cons e es ih =>
    have enabled : F.contains e.1 = true → G.contains e.1 = true := by
      simpa only [FeatureSet.contains_iff] using hFG e.1
    cases hF : F.contains e.1 <;> cases hG : G.contains e.1 <;>
      simp_all <;> omega

/-- Two sets of which one holds the other give the same values exactly if nothing was gained. -/
theorem values_eq_iff_gained {s : Settings} {k : Key} {F G : FeatureSet} (hFG : F ⊆ G) :
    s.values k F = s.values k G ↔ s.gained F G k = [] := by
  have length := length_values (s := s) (k := k) hFG
  constructor
  · intro same
    rw [same] at length
    exact List.eq_nil_of_length_eq_zero (by omega)
  · intro none
    rw [none, List.length_nil, Nat.add_zero] at length
    exact (values_sublist hFG).eq_of_length length.symm

end Settings
end PackageResolution

import PackageResolution.Proofs.Capabilities
import Mathlib.Algebra.BigOperators.Group.List.Basic
import Mathlib.Algebra.GroupWithZero.Nat
import Mathlib.Data.List.Sort
/-!
# Warnings about capabilities

A capability that several packages provide is worth a warning. What is counted are the entries of
the packages' lists, and those are kept as they were read: a base value and one that is scoped under
an enabled feature can be the same. Then the package counts as several, stands in the warning once
for each entry, and is warned about even if no other package provides the capability.

Main statements: `Providers.Distinct.repeated_eq_of_perm`, that it makes no difference in which order
capabilities are gone through, and `capabilityWarnings_exact_iff`.
-/
namespace PackageResolution

/-- A project of three packages that all provide `net`. The first enables the feature `x`, under
which it provides `net` once more. -/
def Project.repeatedCapability : Project := .holding "repeated" "repeated" [
  ⟨"a", Descriptor.localRepo, "repeated/a", none,
    ((({} : Settings).add .features ["x"]).add .caps ["net"]).addScoped "x" .caps ["net"]⟩,
  ⟨"b", Descriptor.localRepo, "repeated/b", none, ({} : Settings).add .caps ["net"]⟩,
  ⟨"c", Descriptor.localRepo, "repeated/c", none, ({} : Settings).add .caps ["net"]⟩]

namespace Providers

variable {groups groups' : Providers} {m : Member} {c : String}

/-! ## Groups -/

/-- No capability has two groups. -/
def Distinct (groups : Providers) : Prop := (groups.map (·.1)).Nodup

/-- The group of a capability, empty if there is none. -/
def group (groups : Providers) (c : String) : List Member := (groups.lookup c).getD []

theorem map_fst_push (m : Member) (c : String) (groups : Providers) : (groups.push m c).map (·.1) =
    if c ∈ groups.map (·.1) then groups.map (·.1) else groups.map (·.1) ++ [c] := by
  induction groups with
  | nil => rfl
  | cons g gs ih =>
    rw [push]
    by_cases here : g.1 = c
    · simp [here]
    · simp only [here, if_false, List.map_cons, ih, List.mem_cons, Ne.symm here, false_or]
      split <;> rfl

theorem Distinct.push (h : groups.Distinct) (m : Member) (c : String) :
    (groups.push m c).Distinct := by
  rw [Distinct, map_fst_push]
  split
  · exact h
  · next new =>
    refine List.nodup_append.2 ⟨h, List.nodup_singleton c, ?_⟩
    rintro x hx y hy rfl
    exact new (List.mem_singleton.1 hy ▸ hx)

theorem Distinct.foldl_push (h : groups.Distinct) (m : Member) (capabilities : List String) :
    Distinct (capabilities.foldl (fun groups c => groups.push m c) groups) := by
  induction capabilities generalizing groups with
  | nil => exact h
  | cons c cs ih => exact ih (h.push m c)

/-- A package is added to the group of its capability and to no other. -/
theorem group_push (m : Member) (x c : String) (groups : Providers) : (groups.push m x).group c =
    if c = x then groups.group x ++ [m] else groups.group c := by
  induction groups with
  | nil =>
    rw [Providers.push, group, List.lookup_cons]
    by_cases h : c = x
    · simp [h, group]
    · simp [h, beq_eq_false_iff_ne.2 h, group]
  | cons g gs ih =>
    obtain ⟨y, ms⟩ := g
    rw [Providers.push]
    split
    · next same =>
      obtain rfl : y = x := same
      simp only [group, List.lookup_cons]
      by_cases h : c = y
      · simp [h]
      · simp only [beq_eq_false_iff_ne.2 h, if_neg h]
    · next other =>
      simp only [group, List.lookup_cons] at ih ⊢
      by_cases h : c = y
      · subst h
        simp [other]
      · simp only [beq_eq_false_iff_ne.2 h, beq_eq_false_iff_ne.2 (Ne.symm other), ih]

theorem Distinct.group_of_mem (h : groups.Distinct) {g : String × List Member} (hg : g ∈ groups) :
    groups.group g.1 = g.2 := by
  rw [group, NameMap.lookup_of_mem h hg, Option.getD_some]

theorem mem_of_group_ne_nil (h : groups.group c ≠ []) : (c, groups.group c) ∈ groups := by
  unfold group at h ⊢
  cases found : groups.lookup c with
  | none => simp [found] at h
  | some ms =>
    obtain ⟨before, after, rfl, -⟩ := List.lookup_eq_some_iff.1 found
    simp

/-! ## Groups of more than one -/

theorem mem_repeated_iff {g : String × List Member} :
    g ∈ groups.repeated ↔ g ∈ groups ∧ 1 < g.2.length := by
  simp [repeated, List.mem_mergeSort, List.mem_filter]

theorem perm_repeated (groups : Providers) :
    groups.repeated.Perm (groups.filter (1 < ·.2.length)) :=
  List.mergeSort_perm _ _

theorem Distinct.pairwise_repeated (h : groups.Distinct) : groups.repeated.Pairwise (·.1 < ·.1) :=
  pairwise_lt_mergeSort (h.sublist (List.filter_sublist.map _))

theorem Distinct.ascending_repeated (h : groups.Distinct) :
    Ascending (groups.repeated.map (·.1)) :=
  List.pairwise_map.2 h.pairwise_repeated

/-- **`repeated_eq_of_perm`**: the order in which the groups come makes no difference. -/
theorem Distinct.repeated_eq_of_perm (h : groups.Distinct) (perm : groups.Perm groups') :
    groups'.repeated = groups.repeated := by
  have h' : groups'.Distinct := (perm.map _).nodup_iff.1 h
  have same : groups'.repeated.Perm groups.repeated :=
    (perm_repeated groups').trans ((perm.symm.filter _).trans (perm_repeated groups).symm)
  exact same.eq_of_pairwise (fun a b _ _ hab hba => absurd hba (String.lt_asymm hab))
    h'.pairwise_repeated h.pairwise_repeated

end Providers

namespace Session

variable {r : Registry} {s : Session} {c : String} {members : List Member}

/-! ## What is listed under a capability -/

/-- The packages that provide a capability, each once for each time it lists it. -/
def listed (members : List Member) (c : String) : List Member :=
  members.flatMap fun m => List.replicate (m.provides.count c) m

/-- The packages that provide a capability, each once. -/
def providing (members : List Member) (c : String) : List Member :=
  members.filter (c ∈ ·.provides)

theorem mem_listed_iff {m : Member} : m ∈ listed members c ↔ m ∈ members ∧ c ∈ m.provides := by
  simp only [listed, List.mem_flatMap, List.mem_replicate, ← Nat.pos_iff_ne_zero,
    List.count_pos_iff]
  constructor
  · rintro ⟨x, hx, hc, rfl⟩
    exact ⟨hx, hc⟩
  · rintro ⟨hm, hc⟩
    exact ⟨m, hm, hc, rfl⟩

theorem group_foldl_push (m : Member) (capabilities : List String) (groups : Providers) :
    (capabilities.foldl (fun groups c => groups.push m c) groups).group c =
      groups.group c ++ List.replicate (capabilities.count c) m := by
  induction capabilities generalizing groups with
  | nil => simp
  | cons x xs ih =>
    rw [List.foldl_cons, ih, Providers.group_push, List.count_cons]
    by_cases h : c = x
    · subst h
      simp [List.replicate_succ]
    · simp [h, Ne.symm h]

/-- The group of a capability is what is listed under it. -/
theorem group_providers (s : Session) (c : String) : s.providers.group c = listed s.packages c := by
  have each : ∀ (members : List Member) (groups : Providers),
      (members.foldl (fun groups m =>
        m.provides.foldl (fun groups c => groups.push m c) groups) groups).group c =
          groups.group c ++ listed members c := by
    intro members
    induction members with
    | nil => simp [listed]
    | cons m ms ih =>
      intro groups
      rw [List.foldl_cons, ih, group_foldl_push, List.append_assoc]
      rfl
  exact each s.packages []

theorem distinct_providers (s : Session) : s.providers.Distinct := by
  have each : ∀ (members : List Member) (groups : Providers), groups.Distinct →
      (members.foldl (fun groups m =>
        m.provides.foldl (fun groups c => groups.push m c) groups) groups).Distinct := by
    intro members
    induction members with
    | nil => exact fun _ h => h
    | cons m ms ih => exact fun groups h => ih _ (h.foldl_push m m.provides)
  exact each s.packages [] List.nodup_nil

/-- The text of a warning. -/
def capabilityWarning (c : String) (names : List String) : String :=
  "capability `" ++ c ++ "` is provided by several packages: " ++ ", ".intercalate names

/-- The capabilities that are listed more than once, in ascending order. -/
def repeatedCapabilities (s : Session) : List String := s.providers.repeated.map (·.1)

theorem capabilityWarnings_eq (s : Session) : s.capabilityWarnings =
    s.repeatedCapabilities.map fun c =>
      capabilityWarning c ((listed s.packages c).map Member.display) := by
  rw [capabilityWarnings, repeatedCapabilities, List.map_map]
  refine List.map_congr_left fun g hg => ?_
  have mem := (Providers.mem_repeated_iff.1 hg).1
  rw [Function.comp_apply, ← group_providers, s.distinct_providers.group_of_mem mem]
  rfl

theorem ascending_repeatedCapabilities (s : Session) : Ascending s.repeatedCapabilities :=
  s.distinct_providers.ascending_repeated

theorem mem_repeatedCapabilities_iff :
    c ∈ s.repeatedCapabilities ↔ 1 < (listed s.packages c).length := by
  rw [repeatedCapabilities, List.mem_map, ← group_providers]
  constructor
  · rintro ⟨g, hg, rfl⟩
    obtain ⟨mem, several⟩ := Providers.mem_repeated_iff.1 hg
    rwa [s.distinct_providers.group_of_mem mem]
  · intro several
    refine ⟨(c, s.providers.group c), Providers.mem_repeated_iff.2 ⟨?_, several⟩, rfl⟩
    exact Providers.mem_of_group_ne_nil (List.ne_nil_of_length_pos (Nat.zero_lt_of_lt several))

/-! ## Listed once and listed several times -/

theorem providing_sublist_listed (members : List Member) (c : String) :
    List.Sublist (providing members c) (listed members c) := by
  induction members with
  | nil => exact List.Sublist.refl _
  | cons m ms ih =>
    rw [providing, listed, List.flatMap_cons, List.filter_cons]
    split
    · next h =>
      have once : List.Sublist [m] (List.replicate (m.provides.count c) m) :=
        (List.replicate_sublist_replicate (m := 1) m).2
          (List.count_pos_iff.2 (of_decide_eq_true h))
      exact once.append ih
    · exact (List.nil_sublist _).append ih

/-- Each provider stands in the list once exactly if no package lists the capability twice. -/
theorem length_providing_eq_iff : (providing members c).length = (listed members c).length ↔
    ∀ m ∈ members, m.provides.count c ≤ 1 := by
  induction members with
  | nil => simp [providing, listed]
  | cons m ms ih =>
    have rest := (providing_sublist_listed ms c).length_le
    rw [List.forall_mem_cons, ← ih]
    rw [providing, listed] at rest ⊢
    simp only [List.filter_cons, List.flatMap_cons, List.length_append, List.length_replicate]
    by_cases h : c ∈ m.provides
    · have pos := List.count_pos_iff.2 h
      simp only [h, decide_true, if_true, List.length_cons]
      rw [listed, providing]
      omega
    · have none := List.count_eq_zero.2 h
      simp only [h, decide_false, Bool.false_eq_true, if_false, none]
      rw [listed, providing]
      omega

/-! ## Warnings as texts -/

theorem length_intercalate (sep : String) {names : List String} (h : names ≠ []) :
    (sep.intercalate names).length + sep.length = (names.map (·.length + sep.length)).sum := by
  induction names with
  | nil => exact absurd rfl h
  | cons x xs ih =>
    cases xs with
    | nil => simp
    | cons y ys =>
      have rest := ih (List.cons_ne_nil y ys)
      rw [String.intercalate_cons_cons, List.map_cons, List.sum_cons, ← rest]
      simp only [String.length_append]
      omega

/-- A list of names that leaves some out is written as another text. -/
theorem length_eq_of_intercalate_eq {sep : String} (hsep : 0 < sep.length) {few many : List String}
    (sub : List.Sublist few many) (ne : few ≠ []) (h : sep.intercalate few = sep.intercalate many) :
    few.length = many.length := by
  obtain ⟨rest, perm⟩ := sub.exists_perm_append
  have ne' : many ≠ [] := by
    rintro rfl
    exact ne (List.sublist_nil.1 sub)
  have texts := length_intercalate sep ne
  rw [h, length_intercalate sep ne', (perm.map _).sum_eq, List.map_append, List.sum_append] at texts
  -- what is left out would make the text longer
  cases rest with
  | nil => simpa using perm.length_eq.symm
  | cons x xs =>
    simp only [List.map_cons, List.sum_cons] at texts
    omega

/-- Warnings about the same capability that read the same have the same names' text. -/
theorem capabilityWarning_inj {names names' : List String}
    (h : capabilityWarning c names = capabilityWarning c names') :
    ", ".intercalate names = ", ".intercalate names' :=
  (String.append_right_inj _).1 h

/-- The warnings are about the capabilities that at least two packages provide, one for each in
ascending order, and name each provider once, in the order of registration. -/
def ExactWarnings (s : Session) (warnings : List String) : Prop :=
  ∃ capabilities, Ascending capabilities ∧
    (∀ c, c ∈ capabilities ↔
      ∃ m ∈ s.packages, ∃ m' ∈ s.packages, m.id ≠ m'.id ∧ c ∈ m.provides ∧ c ∈ m'.provides) ∧
    warnings = capabilities.map fun c =>
      capabilityWarning c ((providing s.packages c).map Member.display)

/-- Two packages provide a capability if it has more than one provider. -/
theorem one_lt_length_providing_iff (h : (members.map (·.id)).Nodup) :
    1 < (providing members c).length ↔
      ∃ m ∈ members, ∃ m' ∈ members, m.id ≠ m'.id ∧ c ∈ m.provides ∧ c ∈ m'.provides := by
  have mem : ∀ m, m ∈ providing members c ↔ m ∈ members ∧ c ∈ m.provides := by
    simp [providing]
  constructor
  · intro several
    have nodup : ((providing members c).map (·.id)).Nodup :=
      h.sublist (List.filter_sublist.map _)
    generalize providing members c = l at several nodup mem
    match l, several with
    | m :: m' :: rest, _ =>
      have first := (mem m).1 (by simp)
      have second := (mem m').1 (by simp)
      have differ : m.id ≠ m'.id := fun e => (List.nodup_cons.1 nodup).1 (by simp [e])
      exact ⟨m, first.1, m', second.1, differ, first.2, second.2⟩
  · rintro ⟨m, hm, m', hm', differ, hc, hc'⟩
    have two : [m, m'].Nodup := by simpa using fun e => differ (congrArg (·.id) e)
    have sub : [m, m'] ⊆ providing members c := by
      simp [mem, hm, hm', hc, hc']
    exact (two.subperm sub).length_le

theorem nodup_packages (hs : Consistent r s) : (s.packages.map (·.id)).Nodup := by
  rw [map_id_packages]
  exact hs.order_nodup.filter _

/-- No package lists a capability twice exactly if each provider is listed once. -/
theorem nodup_provides_iff : (∀ m ∈ members, m.provides.Nodup) ↔
    ∀ c, (providing members c).length = (listed members c).length := by
  simp only [List.nodup_iff_count_le_one, length_providing_eq_iff]
  exact ⟨fun h c m hm => h m hm c, fun h m hm c => h c m hm⟩

theorem length_providing_le (members : List Member) (c : String) :
    (providing members c).length ≤ (listed members c).length :=
  (providing_sublist_listed members c).length_le

theorem providing_of_listed (h : 0 < (listed members c).length) :
    0 < (providing members c).length := by
  obtain ⟨m, hm⟩ := List.exists_mem_of_length_pos h
  have provides : m ∈ providing members c := by simpa [providing] using mem_listed_iff.1 hm
  exact List.length_pos_of_mem provides

/-- Warnings that are exact are about all capabilities that are listed more than once. -/
theorem eq_repeatedCapabilities {capabilities : List String} {text : String → String}
    (ids : (s.packages.map (·.id)).Nodup) (ascending : Ascending capabilities)
    (shared : ∀ c, c ∈ capabilities ↔
      ∃ m ∈ s.packages, ∃ m' ∈ s.packages, m.id ≠ m'.id ∧ c ∈ m.provides ∧ c ∈ m'.provides)
    (same : s.capabilityWarnings = capabilities.map text) :
    capabilities = s.repeatedCapabilities := by
  have length := congrArg List.length same
  rw [capabilityWarnings_eq, List.length_map, List.length_map] at length
  have sub : capabilities ⊆ s.repeatedCapabilities := by
    intro c hc
    have two := (one_lt_length_providing_iff ids).2 ((shared c).1 hc)
    exact mem_repeatedCapabilities_iff.2 (two.trans_le (length_providing_le s.packages c))
  have perm := (ascending.nodup.subperm sub).perm_of_length_le length.le
  exact ascending_ext ascending (ascending_repeatedCapabilities s) fun x => perm.mem_iff

theorem ExactWarnings.listed_once (ids : (s.packages.map (·.id)).Nodup)
    (h : ExactWarnings s s.capabilityWarnings) (c : String) :
    (providing s.packages c).length = (listed s.packages c).length := by
  obtain ⟨capabilities, ascending, shared, same⟩ := h
  obtain rfl := eq_repeatedCapabilities ids ascending shared same
  by_cases several : 1 < (listed s.packages c).length
  · have about := mem_repeatedCapabilities_iff.2 several
    rw [capabilityWarnings_eq] at same
    have text := capabilityWarning_inj (List.map_inj_left.1 same c about)
    have two := (one_lt_length_providing_iff ids).2 ((shared c).1 about)
    have ne : (providing s.packages c).map Member.display ≠ [] :=
      List.ne_nil_of_length_pos (by rw [List.length_map]; omega)
    have lengths := length_eq_of_intercalate_eq (by decide)
      ((providing_sublist_listed s.packages c).map Member.display) ne text.symm
    rwa [List.length_map, List.length_map] at lengths
  · have le := length_providing_le s.packages c
    have pos := @providing_of_listed c s.packages
    omega

theorem exactWarnings_of_listed_once (ids : (s.packages.map (·.id)).Nodup)
    (h : ∀ c, (providing s.packages c).length = (listed s.packages c).length) :
    ExactWarnings s s.capabilityWarnings := by
  have once : ∀ c, providing s.packages c = listed s.packages c :=
    fun c => (providing_sublist_listed s.packages c).eq_of_length (h c)
  refine ⟨s.repeatedCapabilities, ascending_repeatedCapabilities s, fun c => ?_, ?_⟩
  · rw [mem_repeatedCapabilities_iff, ← h c, one_lt_length_providing_iff ids]
  · simp only [capabilityWarnings_eq, once]

/-- **`capabilityWarnings_exact_iff`**: in every session that operations can lead to, the warnings
are exact if and only if no package has recorded a capability twice. -/
theorem capabilityWarnings_exact_iff (r : Registry) (t : Target) (ops : List Operation) :
    ExactWarnings (run r t ops) (run r t ops).capabilityWarnings ↔
      ∀ m ∈ (run r t ops).packages, m.provides.Nodup := by
  have ids := nodup_packages (run_consistent r t ops)
  rw [nodup_provides_iff]
  exact ⟨fun h => h.listed_once ids, exactWarnings_of_listed_once ids⟩

/-- Where `b` and `c` are alone, the warning about `net` is as it should be. -/
theorem capabilityWarnings_exact_iff_repeatedCapability :
    (∀ m ∈ (runOn .repeatedCapability
        [.addPackage (.ofIndex 1), .addPackage (.ofIndex 2), .resolve]).packages,
      m.provides.Nodup) ∧
    ExactWarnings
      (runOn .repeatedCapability [.addPackage (.ofIndex 1), .addPackage (.ofIndex 2), .resolve])
      ["capability `net` is provided by several packages: @local/b, @local/c"] := by
  have once : ∀ m ∈ (runOn .repeatedCapability
      [.addPackage (.ofIndex 1), .addPackage (.ofIndex 2), .resolve]).packages,
        m.provides.Nodup := by
    decide
  have warnings : (runOn .repeatedCapability
      [.addPackage (.ofIndex 1), .addPackage (.ofIndex 2), .resolve]).capabilityWarnings =
        ["capability `net` is provided by several packages: @local/b, @local/c"] := by
    decide +kernel
  have exact := (capabilityWarnings_exact_iff Project.repeatedCapability.registry _ _).2 once
  exact ⟨once, warnings ▸ exact⟩

/-- Where `a` is alone, it is warned about as if it were several packages. -/
theorem not_exactWarnings_repeatedCapability :
    (runOn .repeatedCapability [.addPackage (.ofIndex 0), .resolve]).capabilityWarnings =
        ["capability `net` is provided by several packages: @local/a, @local/a"] ∧
      ¬ ExactWarnings (runOn .repeatedCapability [.addPackage (.ofIndex 0), .resolve])
        (runOn .repeatedCapability [.addPackage (.ofIndex 0), .resolve]).capabilityWarnings := by
  have warnings :
      (runOn .repeatedCapability [.addPackage (.ofIndex 0), .resolve]).capabilityWarnings =
        ["capability `net` is provided by several packages: @local/a, @local/a"] := by
    decide +kernel
  have alone : ∀ m ∈ (runOn .repeatedCapability [.addPackage (.ofIndex 0), .resolve]).packages,
      m.id = .ofIndex 0 := by
    decide
  refine ⟨warnings, ?_⟩
  rintro ⟨capabilities, -, shared, same⟩
  rw [warnings] at same
  cases capabilities with
  | nil => cases same
  | cons c rest =>
    obtain ⟨m, hm, m', hm', differ, -⟩ := (shared c).1 List.mem_cons_self
    exact differ ((alone m hm).trans (alone m' hm').symm)

end Session
end PackageResolution

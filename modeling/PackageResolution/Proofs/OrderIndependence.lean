import PackageResolution.Proofs.Reached
import PackageResolution.Proofs.Success
/-!
# When the order of additions does not matter

The packages of a target can be added in any order. If both of two orders end with a failure or a
complete session, they agree: a complete session is the least fixed point over what was given, which
says nothing about an order. A session that is not complete depends on the order in which packages
became final.

Main statement: `resolve_agree_iff`.
-/
namespace PackageResolution

namespace Session

variable {r : Registry} {F : Set String} {P : Set PackageId} {s : Session}

/-! ## Additions -/

theorem performAll_append (s : Session) (ops ops' : List Operation) :
    performAll r s (ops ++ ops') = performAll r (performAll r s ops) ops' :=
  List.foldl_append

theorem performAll_addFeature (s : Session) (names : List String) :
    performAll r s (names.map .addFeature) = { s with features := s.features.insertAll names } := by
  induction names generalizing s with
  | nil => rfl
  | cons name names ih => exact ih (s.addFeature name).2

/-- What adding packages of the registry does to a session whose packages the registry holds. -/
structure Adds (r : Registry) (s : Session) (ids : List PackageId) (s' : Session) : Prop where
  features : s'.features = s.features
  order : ∀ id, id ∈ s'.order ↔ id ∈ s.order ∨ (id ∈ ids ∧ id ∈ r.held)
  made : s.Made → s'.Made

theorem adds_addPackage (held : ∀ id ∈ s.order, id ∈ r.held) (id : PackageId) :
    Adds r s [id] (addPackage r s id).2 := by
  by_cases known : id ∈ r.held
  · have grown := s.toShared.register_order id
    have order : ∀ x, x ∈ (s.register id).order ↔ x ∈ s.order ∨ (x ∈ [id] ∧ x ∈ r.held) := by
      intro x
      constructor
      · intro hx
        rcases grown.mem_cases hx with old | ⟨-, rfl⟩
        · exact .inl old
        · exact .inr ⟨List.mem_singleton_self x, known⟩
      · rintro (old | ⟨new, -⟩)
        · exact grown.subset x old
        · exact List.mem_singleton.1 new ▸ s.toShared.mem_register id
    have made := (materialize_of_held (s := { s with toShared := s.register id })
      (held_register held known)).2
    rw [addPackage_of_held held known]
    exact ⟨by simp, order, fun _ => made⟩
  · rw [addPackage_of_not_held known]
    refine ⟨rfl, fun x => ⟨.inl, ?_⟩, fun made => made⟩
    rintro (old | ⟨new, known'⟩)
    · exact old
    · exact absurd (List.mem_singleton.1 new ▸ known') known

theorem adds_addPackages (held : ∀ id ∈ s.order, id ∈ r.held) (ids : List PackageId) :
    Adds r s ids (performAll r s (ids.map .addPackage)) := by
  induction ids generalizing s with
  | nil => exact ⟨rfl, fun x => by simp [performAll], fun made => made⟩
  | cons id ids ih =>
    have first := adds_addPackage held id
    have held' : ∀ x ∈ (addPackage r s id).2.order, x ∈ r.held := by
      intro x hx
      rcases (first.order x).1 hx with old | ⟨-, known⟩
      · exact held x old
      · exact known
    have rest := ih held'
    refine ⟨rest.features.trans first.features, fun x => ?_, rest.made ∘ first.made⟩
    rw [List.map_cons]
    refine (rest.order x).trans ?_
    rw [first.order x, List.mem_singleton, List.mem_cons]
    constructor
    · rintro ((old | new) | new)
      · exact .inl old
      · exact .inr ⟨.inl new.1, new.2⟩
      · exact .inr ⟨.inr new.1, new.2⟩
    · rintro (old | ⟨rfl | new, known⟩)
      · exact .inl (.inl old)
      · exact .inl (.inr ⟨rfl, known⟩)
      · exact .inr ⟨new, known⟩

variable {t : Target} {names : List String} {ids ids₁ ids₂ : List PackageId}

/-- Adding packages to a new session registers those that the registry holds, in some order. -/
theorem adds_seeded (r : Registry) (t : Target) (names : List String) (ids : List PackageId) :
    Adds r { start t with features := (start t).features.insertAll names } ids
      (seeded r t names ids) := by
  rw [seeded, run, performAll_append, performAll_addFeature]
  exact adds_addPackages (by simp) ids

theorem mem_order_seeded {id : PackageId} :
    id ∈ (seeded r t names ids).order ↔ id ∈ ids ∧ id ∈ r.held := by
  rw [(adds_seeded r t names ids).order id]
  exact or_iff_right List.not_mem_nil

theorem ready_seeded (h : Within F P (seeded r t names ids)) :
    Ready r F P (seeded r t names ids) where
  consistent := run_consistent r t _
  within := h
  made := (adds_seeded r t names ids).made fun _ hx => absurd hx List.not_mem_nil

/-! ## Two orders -/

/-- Two sessions have found the same. -/
structure SameFinds (s₁ s₂ : Session) : Prop where
  features : s₁.features = s₂.features
  order : ∀ id, id ∈ s₁.order ↔ id ∈ s₂.order
  deps : ∀ id d, s₁.records id d = s₂.records id d

/-- Two sessions have enabled the same features, and recorded the same dependencies for the packages
that are registered in both. -/
structure SameCommon (s₁ s₂ : Session) : Prop where
  features : s₁.features = s₂.features
  deps : ∀ id, id ∈ s₁.order → id ∈ s₂.order → ∀ d, s₁.records id d = s₂.records id d

/-- Two resolutions agree: both fail, or both succeed and have found the same. -/
inductive Agree (o₁ o₂ : Outcome Summary) : Prop
  | failed {e₁ e₂ : ResolutionError} (h₁ : o₁.1 = .error e₁) (h₂ : o₂.1 = .error e₂)
  | ok {a₁ a₂ : Summary} (h₁ : o₁.1 = .ok a₁) (h₂ : o₂.1 = .ok a₂) (same : SameFinds o₁.2 o₂.2)

/-- A resolution is right if it fails or ends with a complete session. -/
def Right (r : Registry) (o : Outcome Summary) : Prop := ∀ a, o.1 = .ok a → Complete r o.2

theorem SameFinds.symm {s₁ s₂ : Session} (h : SameFinds s₁ s₂) : SameFinds s₂ s₁ :=
  ⟨h.features.symm, fun id => (h.order id).symm, fun id d => (h.deps id d).symm⟩

theorem SameCommon.symm {s₁ s₂ : Session} (h : SameCommon s₁ s₂) : SameCommon s₂ s₁ :=
  ⟨h.features.symm, fun id h₁ h₂ d => (h.deps id h₂ h₁ d).symm⟩

/-- What is recorded in a complete session is what the registered packages declare. -/
theorem Complete.records_iff (hs : Consistent r s) (h : Complete r s) {id : PackageId}
    {d : Descriptor} :
    s.records id d = true ↔ id ∈ s.order ∧ ∃ p, r.package? id = some p ∧
      ∃ entry ∈ p.settings.values .deps s.features, ∃ dep, r.Means p.repo entry d dep := by
  constructor
  · intro hd
    have hid := hs.mem_order_of_records hd
    obtain ⟨m, hm, hd⟩ := exists_member_of_records hd
    obtain ⟨entry, he, dep, -, means⟩ := hs.found m (mem_of_member? hm) d hd
    exact ⟨hid, m.package, (hs.of_member? hm).2, entry, he, dep, means⟩
  · rintro ⟨hid, p, hp, entry, he, dep, means⟩
    obtain ⟨m, hm, met⟩ := h id hid
    obtain rfl : p = m.package := Option.some.inj (hp.symm.trans (hs.of_member? hm).2)
    obtain ⟨d', hd', dep', -, means'⟩ := met.deps entry he
    obtain rfl : d = d' := Except.ok.inj (means.1.symm.trans means'.1)
    exact (records_of_member? hm).2 hd'

/-- A session that has found what a complete one has found is complete. -/
theorem Complete.of_same {s₁ s₂ : Session} (hs₁ : Consistent r s₁) (hs₂ : Consistent r s₂)
    (made : s₁.Made) (same : SameFinds s₁ s₂) (h : Complete r s₂) : Complete r s₁ := by
  intro id hid
  obtain ⟨m₁, hm₁⟩ := made id hid
  obtain ⟨m₂, hm₂, met⟩ := h id ((same.order id).1 hid)
  have package : m₁.package = m₂.package :=
    Option.some.inj ((hs₁.of_member? hm₁).2.symm.trans (hs₂.of_member? hm₂).2)
  refine ⟨m₁, hm₁, ?_, ?_⟩
  · rw [package, same.features]
    exact met.features
  · rw [package, same.features]
    intro entry he
    obtain ⟨d, hd, dep, hdep, means⟩ := met.deps entry he
    have recorded : s₁.records id d = true := by
      rw [same.deps]
      exact (records_of_member? hm₂).2 hd
    exact ⟨d, (records_of_member? hm₁).1 recorded, dep, (same.order dep).2 hdep, means⟩

/-! ## Orders of additions -/

theorem resolveSeeded_steps (r : Registry) (t : Target) (names : List String) (ids : List PackageId)
    (F : Set String) (P : Set PackageId) :
    Steps r F P (seeded r t names ids) (resolveSeeded r t names ids).2 :=
  resolve_steps (seeded r t names ids)

theorem resolveSeeded_consistent (r : Registry) (t : Target) (names : List String)
    (ids : List PackageId) : Consistent r (resolveSeeded r t names ids).2 :=
  (resolveSeeded_steps r t names ids ∅ ∅).consistent (run_consistent r t _)

theorem resolveSeeded_grows (r : Registry) (t : Target) (names : List String)
    (ids : List PackageId) : Grows (seeded r t names ids) (resolveSeeded r t names ids).2 :=
  (resolveSeeded_steps r t names ids ∅ ∅).grows (run_consistent r t _).distinct

/-- What is added is registered if the registry holds it, and stays so. -/
theorem mem_order_resolveSeeded {id : PackageId} (hid : id ∈ ids) (held : id ∈ r.held) :
    id ∈ (resolveSeeded r t names ids).2.order :=
  (resolveSeeded_grows r t names ids).order.subset (mem_order_seeded.2 ⟨hid, held⟩)

/-- If the additions in one order lead to a complete session, then in another order resolution
succeeds and finds nothing more. -/
theorem resolveSeeded_below (h : ∀ id ∈ ids₁, id ∈ ids₂)
    (complete : Complete r (resolveSeeded r t names ids₂).2) :
    (∃ a, (resolveSeeded r t names ids₁).1 = .ok a) ∧
      Within (resolveSeeded r t names ids₂).2.features.toSet
        {id | id ∈ (resolveSeeded r t names ids₂).2.order} (resolveSeeded r t names ids₁).2 := by
  have answered := complete.answered (resolveSeeded_consistent r t names ids₂)
  have begin : Within (resolveSeeded r t names ids₂).2.features.toSet
      {id | id ∈ (resolveSeeded r t names ids₂).2.order} (seeded r t names ids₁) := by
    constructor
    · intro x hx
      rw [(adds_seeded r t names ids₁).features, ← (adds_seeded r t names ids₂).features] at hx
      exact (resolveSeeded_grows r t names ids₂).features x hx
    · intro id hid
      obtain ⟨added, held⟩ := mem_order_seeded.1 hid
      exact mem_order_resolveSeeded (h id added) held
  have ready := ready_seeded begin
  exact ⟨ready.resolve answered,
    (resolveSeeded_steps r t names ids₁ _ _).within answered.toClosedUnder ready.consistent begin⟩

/-- Where the packages that are registered in both have recorded the same, the registrations of one
order are those of the other. -/
theorem resolveSeeded_order_subset (h : ∀ id ∈ ids₁, id ∈ ids₂)
    (same : SameCommon (resolveSeeded r t names ids₁).2 (resolveSeeded r t names ids₂).2) :
    ∀ id ∈ (resolveSeeded r t names ids₁).2.order, id ∈ (resolveSeeded r t names ids₂).2.order := by
  have hs₁ := resolveSeeded_consistent r t names ids₁
  have hs₂ := resolveSeeded_consistent r t names ids₂
  have additions : Steps r Set.univ {id | id ∈ ids₁ ∧ id ∈ r.held} (start t)
      (seeded r t names ids₁) :=
    seeded_steps t (fun x _ => Set.mem_univ x) fun _ hid held => ⟨hid, held⟩
  -- the way from the additions to `id` never leaves what is registered in both
  have reached := Steps.reached (additions.trans (resolveSeeded_steps r t names ids₁ _ _))
  intro id hid
  have both : id ∈ {x | x ∈ (resolveSeeded r t names ids₁).2.order ∧
      x ∈ (resolveSeeded r t names ids₂).2.order} := by
    refine (reached id hid).mem ?_ ?_
    · rintro x ⟨hx, held⟩
      exact ⟨mem_order_resolveSeeded hx held, mem_order_resolveSeeded (h x hx) held⟩
    · rintro x ⟨hx₁, hx₂⟩ d hd y hy
      have hd' := (same.deps x hx₁ hx₂ d).symm.trans hd
      exact ⟨hs₁.mem_order_of_dep hd hy, hs₂.mem_order_of_dep hd' hy⟩
  exact both.2

/-- Two complete sessions of one set of additions have found the same. -/
theorem sameFinds_of_complete (perm : ids₁.Perm ids₂)
    (complete₁ : Complete r (resolveSeeded r t names ids₁).2)
    (complete₂ : Complete r (resolveSeeded r t names ids₂).2) :
    SameFinds (resolveSeeded r t names ids₁).2 (resolveSeeded r t names ids₂).2 := by
  have below := (resolveSeeded_below (fun _ hid => perm.mem_iff.1 hid) complete₂).2
  have above := (resolveSeeded_below (fun _ hid => perm.mem_iff.2 hid) complete₁).2
  have features := FeatureSet.subset_antisymm below.features above.features
  have order : ∀ id, id ∈ (resolveSeeded r t names ids₁).2.order ↔
      id ∈ (resolveSeeded r t names ids₂).2.order :=
    fun id => ⟨below.order id, above.order id⟩
  refine ⟨features, order, fun id d => Bool.eq_iff_iff.2 ?_⟩
  rw [complete₁.records_iff (resolveSeeded_consistent r t names ids₁),
    complete₂.records_iff (resolveSeeded_consistent r t names ids₂), features, order]

/-- Two sessions of one set of additions have found the same if they have recorded the same where
they can be compared. -/
theorem sameFinds_of_common (perm : ids₁.Perm ids₂)
    (same : SameCommon (resolveSeeded r t names ids₁).2 (resolveSeeded r t names ids₂).2) :
    SameFinds (resolveSeeded r t names ids₁).2 (resolveSeeded r t names ids₂).2 := by
  have hs₁ := resolveSeeded_consistent r t names ids₁
  have hs₂ := resolveSeeded_consistent r t names ids₂
  have below := resolveSeeded_order_subset (fun _ hid => perm.mem_iff.1 hid) same
  have above := resolveSeeded_order_subset (fun _ hid => perm.mem_iff.2 hid) same.symm
  refine ⟨same.features, fun id => ⟨below id, above id⟩, fun id d => Bool.eq_iff_iff.2 ?_⟩
  constructor
  · intro hd
    have hid := hs₁.mem_order_of_records hd
    exact (same.deps id hid (below id hid) d).symm.trans hd
  · intro hd
    have hid := hs₂.mem_order_of_records hd
    exact (same.deps id (above id hid) hid d).trans hd

/-- What resolution found is complete in one order if it is in another that found the same. -/
theorem Right.of_same {a : Summary} (ok : (resolveSeeded r t names ids₁).1 = .ok a)
    (same : SameFinds (resolveSeeded r t names ids₁).2 (resolveSeeded r t names ids₂).2)
    (h : Complete r (resolveSeeded r t names ids₂).2) : Right r (resolveSeeded r t names ids₁) := by
  have finished := finished_of_resolve (run_consistent r t _) (Prod.ext ok rfl)
  refine fun _ _ => h.of_same (resolveSeeded_consistent r t names ids₁)
    (resolveSeeded_consistent r t names ids₂) (fun id hid => ?_) same
  obtain ⟨m, hm, -⟩ := finished id hid
  exact ⟨m, hm⟩

/-- **`resolve_agree_iff`**: resolution agrees on two orders of additions exactly if it is right for
both, or for neither and the two sessions agree on the features and on what the packages that are
registered in both have recorded. -/
theorem resolve_agree_iff (r : Registry) (t : Target) (names : List String)
    {ids₁ ids₂ : List PackageId} (perm : ids₁.Perm ids₂) :
    Agree (resolveSeeded r t names ids₁) (resolveSeeded r t names ids₂) ↔
      (Right r (resolveSeeded r t names ids₁) ∧ Right r (resolveSeeded r t names ids₂)) ∨
        (¬ Right r (resolveSeeded r t names ids₁) ∧ ¬ Right r (resolveSeeded r t names ids₂) ∧
          SameCommon (resolveSeeded r t names ids₁).2 (resolveSeeded r t names ids₂).2) := by
  constructor
  · rintro (⟨h₁, h₂⟩ | ⟨h₁, h₂, same⟩)
    · refine .inl ⟨fun a h => ?_, fun a h => ?_⟩
      · rw [h₁] at h; cases h
      · rw [h₂] at h; cases h
    · by_cases right : Right r (resolveSeeded r t names ids₂)
      · exact .inl ⟨.of_same h₁ same (right _ h₂), right⟩
      · refine .inr ⟨fun right₁ => right ?_, right, same.features, fun id _ _ d => same.deps id d⟩
        exact .of_same h₂ same.symm (right₁ _ h₁)
  · rintro (⟨right₁, right₂⟩ | ⟨wrong₁, wrong₂, same⟩)
    · cases h₁ : (resolveSeeded r t names ids₁).1 with
      | error e₁ =>
        cases h₂ : (resolveSeeded r t names ids₂).1 with
        | error e₂ => exact .failed h₁ h₂
        | ok a₂ =>
          obtain ⟨a, ok⟩ :=
            (resolveSeeded_below (fun _ hid => perm.mem_iff.1 hid) (right₂ a₂ h₂)).1
          rw [h₁] at ok
          cases ok
      | ok a₁ =>
        obtain ⟨a₂, h₂⟩ :=
          (resolveSeeded_below (fun _ hid => perm.mem_iff.2 hid) (right₁ a₁ h₁)).1
        exact .ok h₁ h₂ (sameFinds_of_complete perm (right₁ a₁ h₁) (right₂ a₂ h₂))
    · simp only [Right, not_forall] at wrong₁ wrong₂
      obtain ⟨a₁, h₁, -⟩ := wrong₁
      obtain ⟨a₂, h₂, -⟩ := wrong₂
      exact .ok h₁ h₂ (sameFinds_of_common perm same)

/-- With `b` first, it does not matter in which order `a` and `c` follow. -/
theorem resolve_agree_iff_lateFeature :
    List.Perm [PackageId.ofIndex 1, .ofIndex 0, .ofIndex 2] [.ofIndex 1, .ofIndex 2, .ofIndex 0] ∧
      Agree (lateOutcome [.ofIndex 1, .ofIndex 0, .ofIndex 2])
        (lateOutcome [.ofIndex 1, .ofIndex 2, .ofIndex 0]) := by
  have perm : List.Perm [PackageId.ofIndex 1, .ofIndex 0, .ofIndex 2]
    [.ofIndex 1, .ofIndex 2, .ofIndex 0] := .cons _ (.swap _ _ _)
  have right₁ : Complete Project.lateFeature.registry
      (lateOutcome [.ofIndex 1, .ofIndex 0, .ofIndex 2]).2 := by decide
  have right₂ : Complete Project.lateFeature.registry
      (lateOutcome [.ofIndex 1, .ofIndex 2, .ofIndex 0]).2 := by decide
  exact ⟨perm, (resolve_agree_iff _ _ _ perm).2 (.inl ⟨fun _ _ => right₁, fun _ _ => right₂⟩)⟩

/-- `c` is registered only if `b` comes before `a`. -/
theorem resolve_not_agree :
    List.Perm [PackageId.ofIndex 0, .ofIndex 1] [.ofIndex 1, .ofIndex 0] ∧
      ¬ Agree (lateOutcome [.ofIndex 0, .ofIndex 1]) (lateOutcome [.ofIndex 1, .ofIndex 0]) := by
  refine ⟨.swap _ _ _, ?_⟩
  rintro (⟨h₁, h₂⟩ | ⟨h₁, h₂, same⟩)
  · cases h₁
  · have found : PackageId.ofIndex 2 ∈ (lateOutcome [.ofIndex 1, .ofIndex 0]).2.order := by decide
    have missed : PackageId.ofIndex 2 ∉ (lateOutcome [.ofIndex 0, .ofIndex 1]).2.order := by decide
    exact missed ((same.order _).2 found)

end Session
end PackageResolution

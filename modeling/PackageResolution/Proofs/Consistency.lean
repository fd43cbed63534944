import PackageResolution.Proofs.Steps
/-!
# Consistent sessions

What holds of every session that operations lead to. Members and registrations fit each other and
the registry, and every recorded dependency is something that its package declares under the
features enabled by now and leads to a registered identity. And a session only grows: features,
registrations and dependencies are never taken back, and a package that is final is left as it is.
Its target stays the same.

Main statements: `run_consistent` and `Steps.grows`.
-/
namespace PackageResolution

/-! ## Registering -/

namespace Shared

@[simp] theorem register_features (s : Shared) (id : PackageId) :
    (s.register id).features = s.features := by
  unfold register
  split <;> rfl

theorem register_order (s : Shared) (id : PackageId) :
    Appended (· = id) s.order (s.register id).order := by
  unfold register
  split
  · exact Appended.refl _ _
  · next h => exact ⟨[id], rfl, by simp, by simpa using h⟩

theorem mem_register (s : Shared) (id : PackageId) : id ∈ (s.register id).order := by
  unfold register
  split <;> simp_all

end Shared

/-- `m'` is the member `m` at a later time. -/
structure Member.GrowsTo (m m' : Member) : Prop where
  package : m'.package = m.package
  deps : m.deps <+: m'.deps
  loaded : m.isLoaded = true → m'.isLoaded = true ∧ m'.deps = m.deps ∧ m'.provides = m.provides ∧
    m'.requires = m.requires

namespace Member.GrowsTo

theorem refl (m : Member) : m.GrowsTo m := ⟨rfl, List.prefix_rfl, fun h => ⟨h, rfl, rfl, rfl⟩⟩

theorem trans {m m' m'' : Member} (h : m.GrowsTo m') (h' : m'.GrowsTo m'') : m.GrowsTo m'' where
  package := h'.package.trans h.package
  deps := h.deps.trans h'.deps
  loaded hl := by
    obtain ⟨l₁, d₁, p₁, q₁⟩ := h.loaded hl
    obtain ⟨l₂, d₂, p₂, q₂⟩ := h'.loaded l₁
    exact ⟨l₂, d₂.trans d₁, p₂.trans p₁, q₂.trans q₁⟩

end Member.GrowsTo

namespace Session

variable {r : Registry} {F : Set String} {P : Set PackageId} {s s' s'' : Session}

/-! ## Growth -/

/-- `s'` is the session `s` at a later time. -/
structure Grows (s s' : Session) : Prop where
  features : s.features ⊆ s'.features
  order : s.order <+: s'.order
  members : ∀ {id m}, s.member? id = some m → ∃ m', s'.member? id = some m' ∧ m.GrowsTo m'

namespace Grows

theorem refl (s : Session) : Grows s s :=
  ⟨FeatureSet.subset_refl _, List.prefix_rfl, fun {_ m} h => ⟨m, h, .refl m⟩⟩

theorem trans (h : Grows s s') (h' : Grows s' s'') : Grows s s'' where
  features := FeatureSet.subset_trans h.features h'.features
  order := h.order.trans h'.order
  members hm := by
    obtain ⟨m₁, hm₁, g₁⟩ := h.members hm
    obtain ⟨m₂, hm₂, g₂⟩ := h'.members hm₁
    exact ⟨m₂, hm₂, g₁.trans g₂⟩

/-- Replacing one member by a later state of it. -/
theorem setMember {m m' : Member} (hm : s.member? m.id = some m) (hid : m'.id = m.id)
    (hg : m.GrowsTo m') : Grows s (s.setMember m') where
  features := FeatureSet.subset_refl _
  order := List.prefix_rfl
  members {id x} hx := by
    by_cases e : id = m.id
    · subst e
      obtain rfl : m = x := Option.some.inj (hm.symm.trans hx)
      exact ⟨m', hid ▸ member?_setMember_self (hid ▸ hm), hg⟩
    · exact ⟨x, (member?_setMember_of_ne (hid ▸ e)).trans hx, .refl x⟩

end Grows

theorem grows_feature (s : Session) (name : String) : Grows s (s.addFeature name).2 where
  features := FeatureSet.subset_insert _ _
  order := List.prefix_rfl
  members {_ m} hm := ⟨m, hm, .refl m⟩

theorem grows_register (s : Session) (id : PackageId) :
    Grows s { s with toShared := s.register id } where
  features := by simp
  order := (s.toShared.register_order id).isPrefix
  members {_ m} hm := ⟨m, hm, .refl m⟩

theorem grows_make (r : Registry) (s : Session) : Grows s (materialize r s).2 where
  features := FeatureSet.subset_refl _
  order := List.prefix_rfl
  members {_ m} hm := ⟨m, member?_materialize_of_some hm, .refl m⟩

theorem grows_attempt {m m' : Member} {shared : Shared} {result : Except ResolutionError LoadState}
    (hm : s.member? m.id = some m) (hp : m.phase = .pending)
    (a : Attempt r m s.toShared (result, shared, m')) : Grows s (s.tried shared m') := by
  have shared_grows : Grows s { s with toShared := shared } :=
    ⟨a.subset_features, a.continues.order.isPrefix, fun {_ x} hx => ⟨x, hx, .refl x⟩⟩
  have member_grows : m.GrowsTo m' :=
    ⟨a.package_eq, a.continues.deps.isPrefix, fun hl => by simp [Member.isLoaded, hp] at hl⟩
  exact shared_grows.trans (.setMember hm a.id_eq member_grows)

theorem grows_flags {m : Member} {provides requires : List String} {includes : List Path}
    (hm : s.member? m.id = some m) (hp : m.phase = .loaded provides requires none) :
    Grows s (s.keepFlags m includes) := by
  have shared_grows : Grows s { s with toShared := (m.assemble includes s.toShared).2 } :=
    ⟨FeatureSet.subset_refl _, List.prefix_rfl, fun {_ x} hx => ⟨x, hx, .refl x⟩⟩
  have member_grows : m.GrowsTo (m.keep (m.assemble includes s.toShared).1) := by
    rw [Member.keep_of_blank hp]
    refine ⟨rfl, List.prefix_rfl, fun _ => ⟨rfl, rfl, ?_, ?_⟩⟩
    · simp [Member.provides, hp]
    · simp [Member.requires, hp]
  exact shared_grows.trans (.setMember hm (m.id_keep _) member_grows)

/-- Every later session has grown from the earlier one. -/
theorem grows_kept (r : Registry) (F : Set String) (P : Set PackageId) (s₀ : Session) :
    Kept r F P fun s => s.Distinct ∧ Grows s₀ s where
  distinct h := h.1
  feature {s name} _ h := ⟨h.1, h.2.trans (grows_feature s name)⟩
  register {s id} _ _ h := ⟨h.1, h.2.trans (grows_register s id)⟩
  make {s} h := ⟨materialize_distinct r h.1, h.2.trans (grows_make r s)⟩
  attempt {s _ m' shared _} hm hp a h := by
    refine ⟨?_, h.2.trans (grows_attempt hm hp a)⟩
    show ((({ s with toShared := shared } : Session).setMember m').members.map (·.id)).Nodup
    rw [map_id_setMember]
    exact h.1
  flags {s m provides requires _} hm hp _ h := by
    refine ⟨?_, h.2.trans (grows_flags hm hp)⟩
    unfold Distinct keepFlags
    rw [map_id_setMember]
    exact h.1

theorem Steps.grows (hd : s.Distinct) (h : Steps r F P s s') : Grows s s' :=
  ((grows_kept r F P s).steps h ⟨hd, .refl s⟩).2

/-! ## Consistency -/

/-- Members, registrations and registry fit each other. -/
structure Consistent (r : Registry) (s : Session) : Prop where
  distinct : s.Distinct
  order_nodup : s.order.Nodup
  registered : ∀ m ∈ s.members, m.id ∈ s.order
  package : ∀ m ∈ s.members, r.package? m.id = some m.package
  deps_nodup : ∀ m ∈ s.members, m.deps.Nodup
  /-- Each recorded dependency is declared by now and leads to a registered identity. -/
  found : ∀ m ∈ s.members, ∀ d ∈ m.deps, ∃ entry ∈ m.package.settings.values .deps s.features,
    ∃ id ∈ s.order, r.Means m.package.repo entry d id

namespace Consistent

/-- A member is registered, and its package is the registry's. -/
theorem of_member? (h : Consistent r s) {id : PackageId} {m : Member} (hm : s.member? id = some m) :
    id ∈ s.order ∧ r.package? id = some m.package := by
  obtain rfl := id_of_member? hm
  exact ⟨h.registered m (mem_of_member? hm), h.package m (mem_of_member? hm)⟩

theorem start (r : Registry) (t : Target) : Consistent r (start t) where
  distinct := List.nodup_nil
  order_nodup := List.nodup_nil
  registered := by simp
  package := by simp
  deps_nodup := by simp
  found := by simp

/-- Growth of what is shared keeps a session consistent. -/
theorem share (h : Consistent r s) {shared : Shared} (hF : s.features ⊆ shared.features)
    (hO : ∀ id ∈ s.order, id ∈ shared.order) (hN : shared.order.Nodup) :
    Consistent r { s with toShared := shared } where
  distinct := h.distinct
  order_nodup := hN
  registered m hm := hO _ (h.registered m hm)
  package := h.package
  deps_nodup := h.deps_nodup
  found m hm d hd := by
    obtain ⟨entry, he, id, hid, means⟩ := h.found m hm d hd
    exact ⟨entry, Settings.values_mono hF he, id, hO id hid, means⟩

/-- Replacing a member by a state of it whose dependencies are found keeps a session consistent. -/
theorem setMember (h : Consistent r s) {m m' : Member} (hm : m ∈ s.members) (hid : m'.id = m.id)
    (hp : m'.package = m.package) (hn : m'.deps.Nodup)
    (hf : ∀ d ∈ m'.deps, ∃ entry ∈ m.package.settings.values .deps s.features,
      ∃ id ∈ s.order, r.Means m.package.repo entry d id) : Consistent r (s.setMember m') where
  distinct := by
    unfold Distinct
    rw [map_id_setMember]
    exact h.distinct
  order_nodup := h.order_nodup
  registered x hx := by
    rcases mem_setMember hx with rfl | ⟨hx, -⟩
    · rw [hid]; exact h.registered m hm
    · exact h.registered x hx
  package x hx := by
    rcases mem_setMember hx with rfl | ⟨hx, -⟩
    · rw [hid, hp]; exact h.package m hm
    · exact h.package x hx
  deps_nodup x hx := by
    rcases mem_setMember hx with rfl | ⟨hx, -⟩
    · exact hn
    · exact h.deps_nodup x hx
  found x hx := by
    rcases mem_setMember hx with rfl | ⟨hx, -⟩
    · rw [hp]; exact hf
    · exact h.found x hx

theorem make (h : Consistent r s) : Consistent r (materialize r s).2 := by
  have cases : ∀ m ∈ (materialize r s).2.members, m ∈ s.members ∨ (m.id ∈ s.order ∧ Fresh r m) := by
    obtain ⟨new, e, -, hn⟩ := materializeEach_members r s.order s.members
    intro m hm
    rcases List.mem_append.1 (e ▸ hm : m ∈ s.members ++ new) with hm | hm
    · exact .inl hm
    · exact .inr (hn m hm).2
  refine ⟨materialize_distinct r h.distinct, h.order_nodup, ?_, ?_, ?_, ?_⟩
  · intro m hm
    rcases cases m hm with hm | ⟨ho, -⟩
    · exact h.registered m hm
    · exact ho
  · intro m hm
    rcases cases m hm with hm | ⟨-, fresh⟩
    · exact h.package m hm
    · exact fresh.package
  · intro m hm
    rcases cases m hm with hm | ⟨-, fresh⟩
    · exact h.deps_nodup m hm
    · rw [fresh.deps]; exact List.nodup_nil
  · intro m hm d hd
    rcases cases m hm with hm | ⟨-, fresh⟩
    · exact h.found m hm d hd
    · rw [fresh.deps] at hd; cases hd

theorem attempt (h : Consistent r s) {m m' : Member} {shared : Shared}
    {result : Except ResolutionError LoadState} (hm : s.member? m.id = some m)
    (a : Attempt r m s.toShared (result, shared, m')) : Consistent r (s.tried shared m') := by
  have hmem := mem_of_member? hm
  have found := a.continues
  have base : Consistent r { s with toShared := shared } :=
    h.share a.subset_features found.order.subset (found.order.nodup h.order_nodup)
  have nodup := found.deps.nodup (h.deps_nodup m hmem)
  refine base.setMember (m := m) hmem a.id_eq a.package_eq nodup ?_
  intro d hd
  rcases found.deps.mem_cases hd with old | ⟨-, new⟩
  · exact base.found m hmem d old
  · exact new

theorem flags (h : Consistent r s) {m : Member} {includes : List Path}
    (hm : s.member? m.id = some m) : Consistent r (s.keepFlags m includes) := by
  have hmem := mem_of_member? hm
  have base : Consistent r { s with toShared := (m.assemble includes s.toShared).2 } :=
    h.share (FeatureSet.subset_refl _) (fun _ hid => hid) h.order_nodup
  refine base.setMember (m := m) hmem (m.id_keep _) (m.package_keep _) ?_ ?_
  · rw [m.deps_keep]
    exact h.deps_nodup m hmem
  · rw [m.deps_keep]
    exact base.found m hmem

end Consistent

theorem consistent_kept (r : Registry) (F : Set String) (P : Set PackageId) :
    Kept r F P (Consistent r) where
  distinct h := h.distinct
  feature _ h := h.share (FeatureSet.subset_insert _ _) (fun _ hid => hid) h.order_nodup
  register {s id} _ _ h := by
    have grown := s.toShared.register_order id
    exact h.share (by simp) grown.subset (grown.nodup h.order_nodup)
  make h := h.make
  attempt hm _ a h := h.attempt hm a
  flags hm _ _ h := h.flags hm

theorem Steps.consistent (h : Steps r F P s s') (hs : Consistent r s) : Consistent r s' :=
  (consistent_kept r F P).steps h hs

theorem run_consistent (r : Registry) (t : Target) (ops : List Operation) :
    Consistent r (run r t ops) :=
  (steps_run r t ops).consistent (.start r t)

/-! ## The target -/

theorem target_kept (r : Registry) (F : Set String) (P : Set PackageId) (t : Target) :
    Kept r F P fun s => Consistent r s ∧ s.target = t where
  distinct h := h.1.distinct
  feature hn h := ⟨(consistent_kept r F P).feature hn h.1, h.2⟩
  register hid hp h := ⟨(consistent_kept r F P).register hid hp h.1, h.2⟩
  make h := ⟨h.1.make, h.2⟩
  attempt hm _ a h := ⟨h.1.attempt hm a, h.2⟩
  flags hm _ _ h := ⟨h.1.flags hm, h.2⟩

theorem Steps.target_eq (h : Steps r F P s s') (hs : Consistent r s) : s'.target = s.target :=
  ((target_kept r F P s.target).steps h ⟨hs, rfl⟩).2

theorem run_target (r : Registry) (t : Target) (ops : List Operation) : (run r t ops).target = t :=
  (steps_run r t ops).target_eq (.start r t)

end Session
end PackageResolution

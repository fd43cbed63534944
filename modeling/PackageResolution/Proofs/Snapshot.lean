import PackageResolution.Proofs.Containment
/-!
# What a final package holds

A package becomes final in the first load attempt that finds nothing new, and is not read again. So
what it holds is what it declares under the features that were enabled then. Features that are
enabled later change nothing about it.

Main statements: `Steps.exists_finalUnder` and `run_snapshot`.
-/
namespace PackageResolution

/-- A text that applies under the features in `G` names the dependency `d`. -/
def Package.Declares (p : Package) (G : FeatureSet) (d : Descriptor) : Prop :=
  ∃ entry ∈ p.settings.values .deps G, Descriptor.parse entry p.repo = .ok d

namespace Session

variable {r : Registry} {F : Set String} {P : Set PackageId} {s s' s'' : Session} {G : FeatureSet}

/-- A member holds what its package declares under the features in `G`, all of them enabled. -/
structure Snapshot (r : Registry) (s : Session) (m : Member) (G : FeatureSet) : Prop where
  enabled : G ⊆ s.features
  settled : ∀ x ∈ m.package.settings.values .features G, x ∈ G
  read : ∀ entry ∈ m.package.settings.values .deps G,
    ∃ d ∈ m.deps, ∃ id ∈ s.order, r.Means m.package.repo entry d id
  declared : ∀ d ∈ m.deps, ∃ entry ∈ m.package.settings.values .deps G,
    ∃ id ∈ s.order, r.Means m.package.repo entry d id
  provides : m.provides = m.package.settings.values .caps G
  requires : m.requires = m.package.settings.values .reqCaps G

/-- Later states of the session and of a loaded member hold the same. -/
theorem Snapshot.grow {m m' : Member} (h : Snapshot r s m G) (hg : Grows s s') (hm : m.GrowsTo m')
    (hl : m.isLoaded = true) : Snapshot r s' m' G := by
  obtain ⟨-, deps, provides, requires⟩ := hm.loaded hl
  constructor
  · exact FeatureSet.subset_trans h.enabled hg.features
  · rw [hm.package]
    exact h.settled
  · intro entry he
    rw [hm.package] at he ⊢
    obtain ⟨d, hd, id, hid, means⟩ := h.read entry he
    exact ⟨d, deps ▸ hd, id, hg.order.subset hid, means⟩
  · intro d hd
    rw [hm.package]
    obtain ⟨entry, he, id, hid, means⟩ := h.declared d (deps ▸ hd)
    exact ⟨entry, he, id, hg.order.subset hid, means⟩
  · rw [hm.package, provides, h.provides]
  · rw [hm.package, requires, h.requires]

/-- The recorded dependencies are no more and no less than those declared under `G`. -/
theorem Snapshot.mem_deps_iff {m : Member} (h : Snapshot r s m G) (d : Descriptor) :
    d ∈ m.deps ↔ m.package.Declares G d := by
  constructor
  · intro hd
    obtain ⟨entry, he, id, -, means⟩ := h.declared d hd
    exact ⟨entry, he, means.1⟩
  · rintro ⟨entry, he, parsed⟩
    obtain ⟨d', hd', id, -, means⟩ := h.read entry he
    obtain rfl : d = d' := Except.ok.inj (parsed.symm.trans means.1)
    exact hd'

/-- The attempt that makes a member final leaves it with what its package declares under the
features of that time. -/
theorem snapshot_of_attempt (hs : Consistent r s) {m m' : Member} {shared : Shared}
    {result : Except ResolutionError LoadState} (hm : s.member? m.id = some m)
    (a : Attempt r m s.toShared (result, shared, m')) (hp : m.phase = .pending)
    (hl : m'.isLoaded = true) : Snapshot r (s.tried shared m') m' s.features := by
  cases a with
  | failed e t found bad =>
    have : (m.extend t).phase = .pending := hp
    simp [Member.isLoaded, this] at hl
  | pending t found all new =>
    have : (m.extend t).phase = .pending := hp
    simp [Member.isLoaded, this] at hl
  | loaded features all =>
    constructor
    · exact m.subset_enabled s.toShared
    · exact FeatureSet.insertAll_eq_self_iff.1 features
    · exact all
    · exact hs.found m (mem_of_member? hm)
    · rfl
    · rfl

/-! ## Becoming final -/

/-- A load attempt for `id` makes its package final. -/
def Finalizes (r : Registry) (s : Session) (id : PackageId) : Prop :=
  (∃ m, s.member? id = some m ∧ m.phase = .pending) ∧
    ∃ m, (loadPackage r s id).2.member? id = some m ∧ m.isLoaded = true

/-- On a way from `s` to `s'` the package of `id` became final while the features in `G` were
enabled. -/
def FinalUnder (r : Registry) (s s' : Session) (id : PackageId) (G : FeatureSet) : Prop :=
  ∃ u, Steps r Set.univ r.held s u ∧ Finalizes r u id ∧ u.features = G ∧
    Steps r Set.univ r.held (loadPackage r u id).2 s'

theorem FinalUnder.trans {id : PackageId} (h : FinalUnder r s s' id G)
    (h' : Steps r Set.univ r.held s' s'') : FinalUnder r s s'' id G := by
  obtain ⟨u, before, final, hG, after⟩ := h
  exact ⟨u, before, final, hG, after.trans h'⟩

/-- Members are made pending, so a loaded one was there before. -/
theorem member?_of_loaded_materialize {id : PackageId} {m : Member}
    (hm : (materialize r s).2.member? id = some m) (hl : m.isLoaded = true) :
    s.member? id = some m := by
  rcases member?_materialize hm with old | ⟨-, -, fresh⟩
  · exact old
  · simp [Member.isLoaded, fresh.phase] at hl

/-- An attempt makes no package final but its own. -/
theorem loaded_of_attempt (hs : Consistent r s) {m m' x : Member} {shared : Shared}
    {result : Except ResolutionError LoadState} (hm : s.member? m.id = some m)
    (hp : m.phase = .pending) (a : Attempt r m s.toShared (result, shared, m')) {id : PackageId}
    (hx : (s.tried shared m').member? id = some x) (hl : x.isLoaded = true) :
    s.member? id = some x ∨ (id = m.id ∧ Snapshot r (s.tried shared m') x s.features) := by
  by_cases e : id = m.id
  · subst e
    obtain rfl : m' = x := Option.some.inj ((member?_tried hm a.id_eq).symm.trans hx)
    exact .inr ⟨rfl, snapshot_of_attempt hs hm a hp hl⟩
  · have ne : id ≠ m'.id := a.id_eq ▸ e
    exact .inl ((member?_tried_of_ne ne).symm.trans hx)

/-- What a step makes final is the package of its load attempt. -/
theorem loaded_of_step (st : Step r F P s s') (hs : Consistent r s) {id : PackageId} {m : Member}
    (hm : s'.member? id = some m) (hl : m.isLoaded = true) :
    (∃ m₀, s.member? id = some m₀ ∧ m₀.isLoaded = true) ∨
      (s' = (loadPackage r s id).2 ∧ (∃ m₀, s.member? id = some m₀ ∧ m₀.phase = .pending) ∧
        Snapshot r s' m s.features) := by
  cases st with
  | feature _ => exact .inl ⟨m, hm, hl⟩
  | @package id' _ hp =>
    obtain ⟨p, hp⟩ := Option.isSome_iff_exists.1 hp
    simp only [addPackage, hp] at hm
    have old := member?_of_loaded_materialize hm hl
    exact .inl ⟨m, old, hl⟩
  | load id' =>
    have cases := loads_loadPackage r hs.distinct id'
    revert cases hm
    generalize hout : loadPackage r s id' = out
    intro hm cases
    cases cases with
    | absent _ => exact .inl ⟨m, hm, hl⟩
    | done _ _ => exact .inl ⟨m, member?_of_loaded_materialize hm hl, hl⟩
    | failed h hp a =>
      rcases loaded_of_attempt hs (id_of_member? h ▸ h) hp a hm hl with old | ⟨own, snapshot⟩
      · exact .inl ⟨m, old, hl⟩
      · rw [id_of_member? h] at own
        subst own
        exact .inr ⟨by rw [hout], ⟨_, h, hp⟩, snapshot⟩
    | @tried m₀ m' shared state h hp a =>
      have hm' := member?_of_loaded_materialize hm hl
      rcases loaded_of_attempt hs (id_of_member? h ▸ h) hp a hm' hl with old | ⟨own, snapshot⟩
      · exact .inl ⟨m, old, hl⟩
      · rw [id_of_member? h] at own
        subst own
        exact .inr ⟨by rw [hout], ⟨_, h, hp⟩, snapshot.grow (grows_make r _) (.refl m) hl⟩
  | flags id' =>
    refine .inl ?_
    rcases compilerInfo_cases r s id' with same | ⟨x, provides, requires, includes, hx, hp, -, e⟩
    · exact ⟨m, same ▸ hm, hl⟩
    · by_cases own : id = x.id
      · exact ⟨x, own ▸ hx, by simp [Member.isLoaded, hp]⟩
      · rw [e, member?_keepFlags_of_ne own] at hm
        exact ⟨m, hm, hl⟩

/-- **`Steps.exists_finalUnder`**: every loaded member became final on the way, and holds what its
package declares under the features that were enabled then. -/
theorem Steps.exists_finalUnder (h : Steps r Set.univ r.held s s') (hs : Consistent r s)
    (begin : ∀ m ∈ s.members, m.isLoaded = false) {id : PackageId} {m : Member}
    (hm : s'.member? id = some m) (hl : m.isLoaded = true) :
    ∃ G, FinalUnder r s s' id G ∧ Snapshot r s' m G := by
  induction h generalizing m with
  | refl =>
    rw [begin m (mem_of_member? hm)] at hl
    cases hl
  | @tail u s' before last ih =>
    -- either the member was final before this step and kept what it held, or this step read it
    have hu : Consistent r u := Steps.consistent before hs
    have step : Steps r Set.univ r.held u s' := .single last
    rcases loaded_of_step last hu hm hl with ⟨m₀, hm₀, hl₀⟩ | ⟨rfl, hp, snapshot⟩
    · obtain ⟨G, final, snapshot⟩ := ih hm₀ hl₀
      have grows := step.grows hu.distinct
      obtain ⟨m', hm', grown⟩ := grows.members hm₀
      obtain rfl : m' = m := Option.some.inj (hm'.symm.trans hm)
      exact ⟨G, final.trans step, snapshot.grow grows grown hl₀⟩
    · exact ⟨u.features, ⟨u, before, ⟨hp, m, hm, hl⟩, rfl, .refl⟩, snapshot⟩

/-- A package that became final on the way is registered in the end, and holds what it declared
then. -/
theorem FinalUnder.snapshot (hs : Consistent r s) {id : PackageId} (h : FinalUnder r s s' id G) :
    ∃ m, s'.member? id = some m ∧ Snapshot r s' m G := by
  obtain ⟨u, before, ⟨⟨m₀, hm₀, hp₀⟩, m, hm, hl⟩, rfl, after⟩ := h
  have hu := before.consistent hs
  have load : Step r Set.univ r.held u (loadPackage r u id).2 := .load u id
  rcases loaded_of_step load hu hm hl with ⟨x, hx, hlx⟩ | ⟨-, -, snapshot⟩
  · obtain rfl := Option.some.inj (hm₀.symm.trans hx)
    simp [Member.isLoaded, hp₀] at hlx
  · have next : Consistent r (loadPackage r u id).2 := Steps.consistent (.single load) hu
    have grows := after.grows next.distinct
    obtain ⟨m', hm', grown⟩ := grows.members hm
    exact ⟨m', hm', snapshot.grow grows grown hl⟩

/-- **`run_snapshot`**: whatever operations were done and whichever of them failed, a loaded package
has recorded exactly what it declares under some set of features that are enabled. What a pending
package has recorded it declares under the features enabled now. -/
theorem run_snapshot (r : Registry) (t : Target) (ops : List Operation) {id : PackageId}
    {m : Member} (hm : (run r t ops).member? id = some m) :
    r.package? id = some m.package ∧
      (m.isLoaded = true → ∃ G, Snapshot r (run r t ops) m G ∧
        ∀ d, d ∈ m.deps ↔ m.package.Declares G d) ∧
      (m.isLoaded = false → ∀ d ∈ m.deps, m.package.Declares (run r t ops).features d) := by
  have hs := run_consistent r t ops
  refine ⟨(hs.of_member? hm).2, fun hl => ?_, fun _ d hd => ?_⟩
  · have begin : ∀ m ∈ (start t).members, m.isLoaded = false := by simp
    obtain ⟨G, -, snapshot⟩ := (steps_run r t ops).exists_finalUnder (.start r t) begin hm hl
    exact ⟨G, snapshot, snapshot.mem_deps_iff⟩
  · obtain ⟨entry, he, dep, -, means⟩ := hs.found m (mem_of_member? hm) d hd
    exact ⟨entry, he, means.1⟩

/-- If `b` is added before `a`, then `a` is loaded with the dependency that `x` gives it. -/
theorem run_snapshot_lateFeature :
    ∃ m, (runOn .lateFeature [.addPackage (.ofIndex 1), .addPackage (.ofIndex 0), .resolve]).member?
        (.ofIndex 0) = some m ∧ m.isLoaded = true ∧ m.deps = [⟨"local", "c"⟩] ∧
      ∃ G, Snapshot Project.lateFeature.registry
        (runOn .lateFeature [.addPackage (.ofIndex 1), .addPackage (.ofIndex 0), .resolve]) m G ∧
        ∀ d, d ∈ m.deps ↔ m.package.Declares G d := by
  have found : (runOn .lateFeature
      [.addPackage (.ofIndex 1), .addPackage (.ofIndex 0), .resolve]).member? (.ofIndex 0) =
        some ⟨.ofIndex 0, Project.lateFeature.packages[0], [⟨"local", "c"⟩],
          .loaded [] [] none⟩ := by
    decide
  exact ⟨_, found, rfl, rfl, (run_snapshot _ _ _ found).2.1 rfl⟩

end Session
end PackageResolution

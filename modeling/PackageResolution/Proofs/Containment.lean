import PackageResolution.Proofs.Additions
import PackageResolution.Proofs.Consistency
/-!
# Resolution finds nothing that was not asked for

A set of features and a set of packages are closed if the packages declare nothing under those
features that leads out of them. What is given from outside lies in some such pair; then so does
everything that any sequence of operations comes to. The smallest such pair is the least fixed point
of what the packages declare, so no session ever exceeds that.

Main statement: `run_within`.
-/
namespace PackageResolution

/-- What the packages in `P` declare under the features in `F` stays in `F` and `P`. Dependency
texts that mean nothing lead nowhere. -/
structure Registry.ClosedUnder (r : Registry) (F : Set String) (P : Set PackageId) : Prop where
  features : ∀ id ∈ P, ∀ p, r.package? id = some p →
    ∀ x, p.settings.Applies .features F x → x ∈ F
  deps : ∀ id ∈ P, ∀ p, r.package? id = some p →
    ∀ entry, p.settings.Applies .deps F entry → ∀ d dep, r.Means p.repo entry d dep → dep ∈ P

/-- In a closed registry, all features and the packages that are held are closed. -/
theorem Registry.Closed.closedUnder {r : Registry} (h : r.Closed) :
    r.ClosedUnder Set.univ r.held where
  features _ _ _ _ x _ := Set.mem_univ x
  deps _ _ _ _ _ _ d dep means := h d dep means.2

/-- A project of three packages: `a` depends on `c` while the feature `x` is enabled, and `b`
enables it. -/
def Project.lateFeature : Project := .holding "late" "late" [
  ⟨"a", Descriptor.localRepo, "late/a", none, ({} : Settings).addScoped "x" .deps ["c"]⟩,
  ⟨"b", Descriptor.localRepo, "late/b", none, ({} : Settings).add .features ["x"]⟩,
  ⟨"c", Descriptor.localRepo, "late/c", none, {}⟩]

namespace Session

/-- What operations on the packages of a project come to, for a target that asks for nothing. -/
def runOn (p : Project) (ops : List Operation) : Session := run p.registry ⟨"t", "arm", [], []⟩ ops

variable {r : Registry} {F : Set String} {P : Set PackageId} {s : Session}

/-- The session has enabled only features in `F` and registered only identities in `P`. -/
structure Within (F : Set String) (P : Set PackageId) (s : Session) : Prop where
  features : ∀ x ∈ s.features, x ∈ F
  order : ∀ id ∈ s.order, id ∈ P

/-- An attempt enables and registers nothing but what the package declares under `F`. -/
theorem Within.attempt (h : Within F P s) (hc : r.ClosedUnder F P) (hs : Consistent r s)
    {m m' : Member} {shared : Shared} {result : Except ResolutionError LoadState}
    (hm : s.member? m.id = some m) (a : Attempt r m s.toShared (result, shared, m')) :
    Within F P (s.tried shared m') := by
  have hmem := mem_of_member? hm
  have held := hs.package m hmem
  have inside := h.order m.id (hs.registered m hmem)
  have features : ∀ x ∈ shared.features, x ∈ F := by
    intro x hx
    rw [a.features_eq, Member.enabled, FeatureSet.mem_insertAll] at hx
    rcases hx with declared | enabled
    · have applies := (Settings.mem_values.1 declared).mono h.features
      exact hc.features m.id inside m.package held x applies
    · exact h.features x enabled
  refine ⟨features, fun id hid => ?_⟩
  rcases a.continues.order.mem_cases hid with old | ⟨-, entry, declared, d, -, means⟩
  · exact h.order id old
  · exact hc.deps m.id inside m.package held entry
      ((Settings.mem_values.1 declared).mono features) d id means

theorem within_kept (hc : r.ClosedUnder F P) :
    Kept r F P fun s => Consistent r s ∧ Within F P s where
  distinct h := h.1.distinct
  feature {s name} hn h := by
    refine ⟨(consistent_kept r F P).feature hn h.1, fun x hx => ?_, h.2.order⟩
    rcases (FeatureSet.mem_insert s.features name x).1 hx with rfl | hx
    · exact hn
    · exact h.2.features x hx
  register {s id} hid hp h := by
    refine ⟨(consistent_kept r F P).register hid hp h.1, ?_, fun x hx => ?_⟩
    · simpa using h.2.features
    · rcases (s.toShared.register_order id).mem_cases hx with old | ⟨-, rfl⟩
      · exact h.2.order x old
      · exact hid
  make h := ⟨h.1.make, h.2.features, h.2.order⟩
  attempt hm _ a h := ⟨h.1.attempt hm a, h.2.attempt hc h.1 hm a⟩
  flags hm _ _ h := ⟨h.1.flags hm, h.2.features, h.2.order⟩

theorem Steps.within {s' : Session} (h : Steps r F P s s') (hc : r.ClosedUnder F P)
    (hs : Consistent r s) (hw : Within F P s) : Within F P s' :=
  ((within_kept hc).steps h ⟨hs, hw⟩).2

/-- With a closed registry, every registered identity is that of a package. -/
theorem held_of_steps (hr : r.Closed) (h : Steps r Set.univ r.held s s') (hs : Consistent r s)
    (held : ∀ id ∈ s.order, id ∈ r.held) : ∀ id ∈ s'.order, id ∈ r.held :=
  (h.within hr.closedUnder hs ⟨fun x _ => Set.mem_univ x, held⟩).order

/-! ## What is given from outside -/

/-- The identities that texts add as roots, up to the first text that fails. -/
def addedRoots (r : Registry) (s : Session) : List String → List PackageId
  | [] => []
  | entry :: entries =>
    match addRoot r s entry with
    | (.error _, _) => []
    | (.ok id, s') => id :: addedRoots r s' entries

/-- The identities that an operation adds by name, if it succeeds. -/
def added (r : Registry) (s : Session) : Operation → List PackageId
  | .addPackage id =>
    match (addPackage r s id).1 with
    | .error _ => []
    | .ok _ => [id]
  | .addRoot entry => addedRoots r s [entry]
  | .seedTarget => addedRoots r s s.target.packages
  | _ => []

/-- The identities that some operations add by name, each in the session that it finds. -/
def addedAll (r : Registry) (s : Session) : List Operation → List PackageId
  | [] => []
  | op :: ops => added r s op ++ addedAll r (perform r s op) ops

theorem addPackage_of_not_held {id : PackageId} (h : id ∉ r.held) :
    addPackage r s id = (.error (.notRegistered id.display), s) := by
  have none : r.package? id = none := by simpa [Registry.held] using h
  rw [addPackage, none]

theorem held_register (held : ∀ id ∈ s.order, id ∈ r.held) {id : PackageId} (h : id ∈ r.held) :
    ∀ x ∈ (s.register id).order, x ∈ r.held := by
  intro x hx
  rcases (s.toShared.register_order id).mem_cases hx with old | ⟨-, rfl⟩
  · exact held x old
  · exact h

theorem addPackage_of_held (held : ∀ id ∈ s.order, id ∈ r.held) {id : PackageId}
    (h : id ∈ r.held) :
    addPackage r s id = (.ok (decide (id ∉ s.order)),
      (materialize r { s with toShared := s.register id }).2) := by
  obtain ⟨p, hp⟩ := Option.isSome_iff_exists.1 h
  have all := held_register held h
  have made := (materialize_of_held (s := { s with toShared := s.register id }) all).1
  rw [addPackage, hp]
  simp only [made, Except.map]

theorem addPackage_steps_of_added (held : ∀ id ∈ s.order, id ∈ r.held) {id : PackageId}
    (h : ∀ new, (addPackage r s id).1 = .ok new → id ∈ P) :
    Steps r F P s (addPackage r s id).2 := by
  refine addPackage_steps s fun known => ?_
  exact h _ (by rw [addPackage_of_held held known])

theorem addRoots_steps_of_added (hr : r.Closed) (entries : List String) (hs : Consistent r s)
    (held : ∀ id ∈ s.order, id ∈ r.held) (h : ∀ id ∈ addedRoots r s entries, id ∈ P) :
    Steps r F P s (addRoots r s entries).2 := by
  induction entries generalizing s with
  | nil => exact .refl
  | cons entry entries ih =>
    have root : Steps r F P s (addRoot r s entry).2 := by
      rw [addedRoots] at h
      rw [addRoot] at h ⊢
      split
      · exact .refl
      · next d id he =>
        refine addPackage_steps_of_added held fun new ok => ?_
        simp only [he, ok, Except.map] at h
        exact h id List.mem_cons_self
    have some_steps : Steps r Set.univ r.held s (addRoot r s entry).2 :=
      steps_perform r s (.addRoot entry)
    rw [addedRoots] at h
    rw [addRoots]
    split
    · next e s₁ he => exact root.of_eq he
    · next id s₁ he =>
      rw [he] at h
      exact (root.of_eq he).trans (ih ((root.of_eq he).consistent hs)
        (held_of_steps hr (some_steps.of_eq he) hs held)
        fun x hx => h x (List.mem_cons_of_mem id hx))

/-- An operation takes from outside only the features it is given and the identities it adds. -/
theorem perform_steps_of_added (hr : r.Closed) (op : Operation) (hs : Consistent r s)
    (held : ∀ id ∈ s.order, id ∈ r.held) (hf : ∀ x, op = .addFeature x → x ∈ F)
    (hp : ∀ id ∈ added r s op, id ∈ P) : Steps r F P s (perform r s op) := by
  cases op with
  | addFeature name => exact .single (.feature s (hf name rfl))
  | addPackage id =>
    refine addPackage_steps_of_added held fun new ok => ?_
    simp only [added, ok] at hp
    exact hp id List.mem_cons_self
  | addRoot entry =>
    have one := addRoots_steps_of_added (F := F) hr [entry] hs held hp
    rw [addRoots_singleton] at one
    exact one
  | seedTarget => exact addRoots_steps_of_added hr s.target.packages hs held hp
  | loadPackage id => exact .single (.load s id)
  | resolvePass => exact resolvePass_steps s
  | resolve => exact resolve_steps s
  | compilerInfo id => exact .single (.flags s id)

theorem performAll_steps_of_added (hr : r.Closed) (ops : List Operation) (hs : Consistent r s)
    (held : ∀ id ∈ s.order, id ∈ r.held) (hf : ∀ x, .addFeature x ∈ ops → x ∈ F)
    (hp : ∀ id ∈ addedAll r s ops, id ∈ P) : Steps r F P s (performAll r s ops) := by
  induction ops generalizing s with
  | nil => exact .refl
  | cons op ops ih =>
    have first : Steps r F P s (perform r s op) :=
      perform_steps_of_added hr op hs held (fun x e => hf x (by simp [e]))
        fun id hid => hp id (List.mem_append_left _ hid)
    exact first.trans (ih (first.consistent hs)
      (held_of_steps hr (steps_perform r s op) hs held)
      (fun x hx => hf x (List.mem_cons_of_mem op hx))
      fun id hid => hp id (List.mem_append_right _ hid))

/-- **`run_within`**: let `F` and `P` be closed under what the packages of `P` declare under `F`,
and hold the target's features, the features that were given and the identities that were added.
Then they hold every feature that is ever enabled and every identity that is ever registered,
whichever operations succeed. -/
theorem run_within (r : Registry) (hr : r.Closed) (t : Target) (ops : List Operation)
    (F : Set String) (P : Set PackageId) (hc : r.ClosedUnder F P) (ht : ∀ x ∈ t.features, x ∈ F)
    (hf : ∀ x, .addFeature x ∈ ops → x ∈ F) (hp : ∀ id ∈ addedAll r (start t) ops, id ∈ P) :
    (∀ x ∈ (run r t ops).features, x ∈ F) ∧ ∀ id ∈ (run r t ops).order, id ∈ P := by
  have steps : Steps r F P (start t) (run r t ops) :=
    performAll_steps_of_added hr ops (.start r t) (fun _ h => absurd h List.not_mem_nil) hf hp
  have begin : Within F P (start t) := by
    refine ⟨fun x hx => ht x ?_, fun _ h => absurd h List.not_mem_nil⟩
    rcases (FeatureSet.mem_insertAll _ _ x).1 hx with hx | hx
    · exact hx
    · exact absurd hx List.not_mem_nil
  have := steps.within hc (.start r t) begin
  exact ⟨this.features, this.order⟩

/-- With `x` enabled from the start, `a` brings in `c`. Nothing brings in `b`, which nobody added:
loading it by its identity fails, and so do two texts. -/
theorem run_within_lateFeature :
    (∀ y ∈ (run Project.lateFeature.registry ⟨"t", "arm", [], ["x"]⟩
      [.addRoot "a", .addRoot "no where", .addRoot "nowhere", .loadPackage (.ofIndex 1),
        .resolve]).features, y ∈ ({"x"} : Set String)) ∧
    ∀ id ∈ (run Project.lateFeature.registry ⟨"t", "arm", [], ["x"]⟩
      [.addRoot "a", .addRoot "no where", .addRoot "nowhere", .loadPackage (.ofIndex 1),
        .resolve]).order, id ∈ ({.ofIndex 0, .ofIndex 2} : Set PackageId) := by
  have closed : Project.lateFeature.registry.Closed := Project.registry_closed_holding _ _ _
  refine run_within Project.lateFeature.registry closed _ _ {"x"} _ ⟨?_, ?_⟩ ?_ ?_ ?_
  · rintro id (rfl | rfl) p hp v hv <;> cases hp
    · exact absurd hv.mem_declared List.not_mem_nil
    · exact absurd hv.mem_declared List.not_mem_nil
  · rintro id (rfl | rfl) p hp v hv d dep means <;> cases hp
    · obtain rfl := List.mem_singleton.1 hv.mem_declared
      obtain ⟨parsed, found⟩ := means
      obtain rfl := Except.ok.inj parsed
      exact .inr (Option.some.inj found).symm
    · exact absurd hv.mem_declared List.not_mem_nil
  · rintro v hv
    exact List.mem_singleton.1 hv
  · simp
  · intro id hid
    have : addedAll Project.lateFeature.registry (start ⟨"t", "arm", [], ["x"]⟩)
      [.addRoot "a", .addRoot "no where", .addRoot "nowhere", .loadPackage (.ofIndex 1), .resolve] =
        [.ofIndex 0] := by decide
    rw [this] at hid
    exact .inl (List.mem_singleton.1 hid)

end Session
end PackageResolution

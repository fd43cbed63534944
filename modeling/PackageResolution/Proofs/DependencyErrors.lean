import PackageResolution.Proofs.Computations
import PackageResolution.Proofs.Quiescence
import PackageResolution.Proofs.Registration
/-!
# Errors of resolution

A load attempt of a package fails over a dependency text that means nothing. Features are never
disabled, so from then on the package declares that text under all features that will be enabled,
and each further attempt fails again, at that text or at another one before it.

With a closed registry that is all that a pass can fail over. Registered identities may have lost
the members that a failed attempt owes them, but the first identity of the order was added by name
and has its member. A pass starts with it, and the first attempt that succeeds makes the rest.

Main statements: `dependency_errors_stick` and `passes_fail_over_dependencies`.
-/
namespace PackageResolution

/-- The error is about a dependency: a text that cannot be read, or that the registry has no answer
for. -/
inductive ResolutionError.OfDependency : ResolutionError → Prop
  | malformed (package entry : String) (cause : Descriptor.ParseError) :
    OfDependency (.malformedDependency package entry cause)
  | unresolved (package dependency : String) :
    OfDependency (.unresolvedDependency package dependency)

/-! ## Where errors come from -/

theorem resolveEntry_error {r : Registry} {owner repo entry : String} {e : ResolutionError}
    (h : Session.resolveEntry r owner repo entry = .error e) :
    e.OfDependency ∧ e.package = owner := by
  cases resolveEntry_eq_error.1 h with
  | malformed _ => exact ⟨.malformed _ _ _, rfl⟩
  | unresolved _ _ => exact ⟨.unresolved _ _, rfl⟩

theorem Trail.follow_error_package {r : Registry} {owner : Package} {entries : List String}
    {t : Trail} {e : ResolutionError} (h : (follow r owner entries t).1 = .error e) :
    e.OfDependency ∧ e.package = owner.display := by
  induction entries generalizing t with
  | nil => cases h
  | cons entry entries ih =>
    rw [follow] at h
    split at h
    · next he =>
      cases h
      exact resolveEntry_error he
    · exact ih h

/-- An attempt fails over a dependency of its own package. -/
theorem Member.load_error {r : Registry} {m : Member} {s : Shared} {e : ResolutionError}
    (h : (m.load r s).1 = .error e) : e.OfDependency ∧ e.package = m.display := by
  cases hp : m.phase with
  | loaded provides requires flags =>
    rw [m.load_eq_of_loaded r s (by simp [isLoaded, hp])] at h
    cases h
  | pending =>
    have follows := @Trail.follow_error_package r m.package (m.entries s) ⟨s.order, m.deps⟩ e
    rw [m.load_eq_of_pending r s hp] at h
    generalize Trail.follow r m.package (m.entries s) ⟨s.order, m.deps⟩ = out at follows h
    obtain ⟨result, t⟩ := out
    cases result with
    | error e' =>
      cases h
      exact follows rfl
    | ok u =>
      dsimp only at h
      split at h <;> cases h

namespace Session

variable {r : Registry} {F : Set String} {P : Set PackageId} {s s' : Session} {id : PackageId}

theorem materialize_error {e : ResolutionError} (h : (materialize r s).1 = .error e) :
    ∃ name, e = .notRegistered name := by
  have general : ∀ (ids : List PackageId) (members : List Member),
      (materializeEach r ids members).1 = .error e → ∃ name, e = .notRegistered name := by
    intro ids
    induction ids with
    | nil => exact nofun
    | cons id ids ih =>
      intro members h
      rw [materializeEach] at h
      split at h
      · exact ih members h
      · split at h
        · exact ⟨id.display, (Except.error.inj h).symm⟩
        · exact ih _ h
  exact general s.order s.members h

/-- Where there is a member to load, what fails is the attempt, or making members after it. -/
theorem loadPackage_error {m : Member} {e : ResolutionError} (hm : s.member? id = some m)
    (h : (loadPackage r s id).1 = .error e) :
    (e.OfDependency ∧ e.package = m.display) ∨
      ∃ u, (materialize r u).1 = .error e ∧ (loadPackage r s id).2 = (materialize r u).2 := by
  rw [loadPackage, hm] at h ⊢
  have attempt := @Member.load_error r m s.toShared e
  dsimp only at h ⊢
  generalize m.load r s.toShared = out at attempt h ⊢
  obtain ⟨result, shared, m'⟩ := out
  cases result with
  | error e' =>
    cases h
    exact .inl (attempt rfl)
  | ok state => exact .inr ⟨s.tried shared m', map_eq_error.1 h, rfl⟩

/-- The loop of a pass fails at its first identity or at a later one. -/
theorem loadEach_cons_eq_error {ids : List PackageId} {e : ResolutionError}
    (h : loadEach r s (id :: ids) = (.error e, s')) : loadPackage r s id = (.error e, s') ∨
      ∃ state s₁, loadPackage r s id = (.ok state, s₁) ∧ loadEach r s₁ ids = (.error e, s') := by
  rw [loadEach] at h
  split at h
  · next he =>
    cases h
    exact .inl he
  · next state s₁ he =>
    refine .inr ⟨state, s₁, he, ?_⟩
    generalize loadEach r s₁ ids = out at h
    obtain ⟨result, s₂⟩ := out
    cases result <;> cases h
    rfl

/-- A pass that fails ends with the load attempt that failed. -/
theorem loadEach_eq_error {ids : List PackageId} {e : ResolutionError}
    (h : loadEach r s ids = (.error e, s')) :
    ∃ u id, Steps r F P s u ∧ loadPackage r u id = (.error e, s') := by
  induction ids generalizing s with
  | nil => cases h
  | cons id ids ih =>
    rcases loadEach_cons_eq_error h with failed | ⟨state, s₁, first, rest⟩
    · exact ⟨s, id, .refl, failed⟩
    · obtain ⟨u, x, steps, failed⟩ := ih rest
      exact ⟨u, x, ((loadPackage_steps s id).of_eq first).trans steps, failed⟩

theorem loadEach_of_resolvePass_error {e : ResolutionError}
    (h : resolvePass r s = (.error e, s')) : loadEach r s s.order = (.error e, s') := by
  rw [resolvePass] at h
  generalize loadEach r s s.order = out at h
  obtain ⟨result, s₁⟩ := out
  cases result <;> cases h
  rfl

theorem Rounds.exists_failed {n : Nat} {e : ResolutionError} (h : Rounds r s n (.error e) s') :
    ∃ u, Steps r F P s u ∧ resolvePass r u = (.error e, s') := by
  generalize hresult : (Except.error e : Except ResolutionError Unit) = result at h
  induction h with
  | quiet _ => cases hresult
  | failed hpass =>
    cases hresult
    exact ⟨_, .refl, hpass⟩
  | again hpass _ ih =>
    obtain ⟨u, steps, failed⟩ := ih hresult
    exact ⟨u, ((resolvePass_steps _).of_eq hpass).trans steps, failed⟩

/-- Resolution that fails ends with the pass that failed. -/
theorem resolve_eq_error (hs : Consistent r s) {e : ResolutionError}
    (h : resolve r s = (.error e, s')) :
    ∃ u, Steps r F P s u ∧ resolvePass r u = (.error e, s') := by
  obtain ⟨n, result, s₁, rounds, -, answer⟩ := resolve_rounds hs
  rw [h] at answer
  obtain ⟨hresult, rfl⟩ := Prod.mk.inj answer
  cases result with
  | ok u => cases hresult
  | error e' =>
    cases hresult
    exact rounds.exists_failed

/-! ## Errors that stick -/

/-- The package of `id` is pending and declares a text under the enabled features that means
nothing. -/
def Blocked (r : Registry) (s : Session) (id : PackageId) : Prop :=
  ∃ m, s.member? id = some m ∧ m.phase = .pending ∧
    ∃ entry ∈ m.package.settings.values .deps s.features,
      ∀ d dep, ¬ r.Means m.package.repo entry d dep

/-- A failed attempt leaves its package blocked. -/
theorem blocked_of_error (hd : s.Distinct) {e : ResolutionError}
    (h : loadPackage r s id = (.error e, s')) (he : e.OfDependency) : Blocked r s' id := by
  have not_making : ∀ {α : Type} {u : Session} {f : Unit → α},
      (materialize r u).1.map f ≠ .error e := by
    intro α u f failed
    obtain ⟨name, rfl⟩ := materialize_error (map_eq_error.1 failed)
    cases he
  have cases := loads_loadPackage r hd id
  rw [h] at cases
  generalize hout : ((Except.error e, s') : Outcome LoadState) = out at cases
  cases cases with
  | absent _ =>
    cases hout
    cases he
  | done _ _ => exact absurd (Prod.mk.inj hout).1.symm not_making
  | tried _ _ _ => exact absurd (Prod.mk.inj hout).1.symm not_making
  | @failed m m' shared e' hm hp a =>
    cases hout
    obtain rfl := id_of_member? hm
    refine ⟨m', member?_tried hm a.id_eq, ?_⟩
    cases a with
    | failed e t found bad => exact ⟨hp, bad⟩

theorem blocked_kept (r : Registry) (F : Set String) (P : Set PackageId) (id : PackageId) :
    Kept r F P fun s => Consistent r s ∧ Blocked r s id where
  distinct h := h.1.distinct
  feature {s name} hn h := by
    obtain ⟨m, hm, hp, entry, he, bad⟩ := h.2
    have more := Settings.values_mono (s.features.subset_insert name) he
    exact ⟨(consistent_kept r F P).feature hn h.1, m, hm, hp, entry, more, bad⟩
  register {s dep} hid hp h := by
    obtain ⟨m, hm, pending, entry, he, bad⟩ := h.2
    rw [← s.toShared.register_features dep] at he
    exact ⟨(consistent_kept r F P).register hid hp h.1, m, hm, pending, entry, he, bad⟩
  make h := by
    obtain ⟨m, hm, blocked⟩ := h.2
    exact ⟨h.1.make, m, member?_materialize_of_some hm, blocked⟩
  attempt {s m m' shared result} hm hp a h := by
    refine ⟨h.1.attempt hm a, ?_⟩
    obtain ⟨x, hx, hpx, entry, he, bad⟩ := h.2
    have more := Settings.values_mono a.subset_features he
    by_cases own : id = m.id
    · subst own
      obtain rfl : m = x := Option.some.inj (hm.symm.trans hx)
      refine ⟨m', member?_tried hm a.id_eq, ?_⟩
      cases a with
      | failed e t found _ => exact ⟨hp, entry, more, bad⟩
      | pending t found all new => exact ⟨hp, entry, more, bad⟩
      | loaded features all =>
        -- an attempt that makes the package final has followed the text that means nothing
        obtain ⟨d, -, dep, -, means⟩ := all entry he
        exact absurd means (bad d dep)
    · exact ⟨x, (member?_tried_of_ne (a.id_eq ▸ own)).trans hx, hpx, entry, more, bad⟩
  flags {s m provides requires includes} hm hp _ h := by
    refine ⟨h.1.flags hm, ?_⟩
    obtain ⟨x, hx, hpx, blocked⟩ := h.2
    have other : id ≠ m.id := by
      rintro rfl
      obtain rfl : m = x := Option.some.inj (hm.symm.trans hx)
      rw [hp] at hpx
      cases hpx
    exact ⟨x, (member?_keepFlags_of_ne other _).trans hx, hpx, blocked⟩

theorem Steps.blocked (h : Steps r F P s s') (hs : Consistent r s) (hb : Blocked r s id) :
    Blocked r s' id :=
  ((blocked_kept r F P id).steps h ⟨hs, hb⟩).2

/-- Loading a blocked package fails over one of its dependencies. -/
theorem Blocked.loadPackage (h : Blocked r s id) : ∃ m e, s.member? id = some m ∧
    (loadPackage r s id).1 = .error e ∧ e.OfDependency ∧ e.package = m.display := by
  obtain ⟨m, hm, hp, entry, he, bad⟩ := h
  have a := attempt_of_pending r s.toShared hp
  have kind := fun e => @Member.load_error r m s.toShared e
  rw [Session.loadPackage, hm]
  dsimp only
  generalize m.load r s.toShared = out at a kind ⊢
  cases a with
  | failed e t found _ => exact ⟨m, e, rfl, rfl, kind e rfl⟩
  | pending t found all new =>
    obtain ⟨d, -, dep, -, means⟩ :=
      all entry (Settings.values_mono (m.subset_enabled s.toShared) he)
    exact absurd means (bad d dep)
  | loaded features all =>
    obtain ⟨d, -, dep, -, means⟩ := all entry he
    exact absurd means (bad d dep)

/-- A loop over a blocked package does not get past it. -/
theorem Blocked.not_loadEach {ids : List PackageId} {noisy : Bool} (hs : Consistent r s)
    (h : Blocked r s id) (hid : id ∈ ids) : loadEach r s ids ≠ (.ok noisy, s') := by
  intro ok
  induction ids generalizing s noisy with
  | nil => cases hid
  | cons x ids ih =>
    obtain ⟨state, s₁, later, first, rest, -⟩ := loadEach_cons_eq_ok ok
    have step : Steps r ∅ ∅ s s₁ := (loadPackage_steps s x).of_eq first
    rcases List.mem_cons.1 hid with rfl | hid
    · obtain ⟨m, e, -, failed, -⟩ := h.loadPackage
      rw [first] at failed
      cases failed
    · exact ih (step.consistent hs) (step.blocked hs h) hid rest

/-- Resolution that succeeds leaves every registered package final, and this one stays pending. -/
theorem Blocked.not_resolve {a : Summary} (hs : Consistent r s) (h : Blocked r s id)
    (hid : id ∈ s.order) : resolve r s ≠ (.ok a, s') := by
  intro ok
  have steps : Steps r ∅ ∅ s s' := (resolve_steps s).of_eq ok
  obtain ⟨m, hm, hp, -⟩ := steps.blocked hs h
  have later := (steps.grows hs.distinct).order.subset hid
  obtain ⟨x, hx, hl⟩ := finished_of_resolve hs ok id later
  obtain rfl : m = x := Option.some.inj (hm.symm.trans hx)
  rw [Member.isLoaded_eq_false_iff.2 hp] at hl
  cases hl

theorem exists_error {α : Type} {o : Outcome α} (h : ∀ a s', o ≠ (.ok a, s')) :
    ∃ e, o.1 = .error e := by
  obtain ⟨result, s'⟩ := o
  cases result with
  | error e => exact ⟨e, rfl⟩
  | ok a => exact absurd rfl (h a s')

/-- Loading `id` fails over a dependency, its package is not loaded, and neither a pass nor
resolution succeeds. -/
structure Stuck (r : Registry) (s : Session) (id : PackageId) : Prop where
  load : ∃ e, (loadPackage r s id).1 = .error e ∧ e.OfDependency ∧ e.package = r.describe id
  pending : ∃ m, s.member? id = some m ∧ m.isLoaded = false
  pass : ∃ e, (resolvePass r s).1 = .error e
  resolve : ∃ e, (resolve r s).1 = .error e

theorem Blocked.stuck (hs : Consistent r s) (h : Blocked r s id) : Stuck r s id := by
  obtain ⟨m, e, hm, failed, kind, name⟩ := h.loadPackage
  have ⟨x, hx, hp, _⟩ := h
  obtain ⟨registered, package⟩ := hs.of_member? hm
  constructor
  · refine ⟨e, failed, kind, ?_⟩
    rw [Registry.describe, package]
    exact name
  · exact ⟨x, hx, Member.isLoaded_eq_false_iff.2 hp⟩
  · refine exists_error fun noisy s' ok => ?_
    obtain ⟨pending, each, -⟩ := resolvePass_eq_ok ok
    exact h.not_loadEach hs registered each
  · exact exists_error fun a s' ok => h.not_resolve hs registered ok

/-- A load attempt for `id` on the way from `s` fails with `e` and leaves `s'`. The attempt may be
one that a pass makes; it is the last thing that the pass does. -/
def FailedLoad (r : Registry) (s s' : Session) (id : PackageId) (e : ResolutionError) : Prop :=
  ∃ u, Steps r Set.univ r.held s u ∧ loadPackage r u id = (.error e, s')

theorem failedLoad_of_resolvePass {u : Session} {e : ResolutionError}
    (before : Steps r Set.univ r.held s u) (h : resolvePass r u = (.error e, s')) :
    ∃ id, FailedLoad r s s' id e := by
  obtain ⟨v, id, steps, failed⟩ := loadEach_eq_error (loadEach_of_resolvePass_error h)
  exact ⟨id, v, before.trans steps, failed⟩

/-- **`dependency_errors_stick`**: once a load attempt for a package has failed over a dependency,
alone or within a pass, then after all further operations loading the package fails over one of its
dependencies, the package is not loaded, and neither a pass nor resolution succeeds. Passes and
resolution fail in such attempts only. -/
theorem dependency_errors_stick (r : Registry) (t : Target) :
    (∀ id e s', FailedLoad r (start t) s' id e → e.OfDependency →
      ∀ ops, Stuck r (performAll r s' ops) id) ∧
    (∀ ops id e s', loadPackage r (run r t ops) id = (.error e, s') →
      FailedLoad r (start t) s' id e) ∧
    ∀ ops e s', (resolvePass r (run r t ops) = (.error e, s') ∨
      resolve r (run r t ops) = (.error e, s')) → ∃ id, FailedLoad r (start t) s' id e := by
  refine ⟨?_, fun ops id e s' failed => ⟨_, steps_run r t ops, failed⟩, ?_⟩
  · rintro id e s' ⟨u, before, failed⟩ kind ops
    have hu := before.consistent (.start r t)
    have hs' := ((loadPackage_steps (F := ∅) (P := ∅) u id).of_eq failed).consistent hu
    have after : Steps r Set.univ r.held s' (performAll r s' ops) :=
      performAll_steps s' ops fun op _ s => steps_perform r s op
    have blocked := after.blocked hs' (blocked_of_error hu.distinct failed kind)
    exact blocked.stuck (after.consistent hs')
  · rintro ops e s' (pass | whole)
    · exact failedLoad_of_resolvePass (steps_run r t ops) pass
    · obtain ⟨u, steps, pass⟩ := resolve_eq_error (run_consistent r t ops) whole
      exact failedLoad_of_resolvePass ((steps_run r t ops).trans steps) pass

/-- Loading `a` fails at its second dependency. Enabling a feature, and adding and loading the first
one, does not help. -/
theorem dependency_errors_stick_missingDep :
    (loadPackage Project.missingDep.registry (runOn .missingDep [.addPackage (.ofIndex 0)])
        (.ofIndex 0)).1 = .error (.unresolvedDependency "@local/a" "@local/nowhere") ∧
      Stuck Project.missingDep.registry
        (performAll Project.missingDep.registry
          (loadPackage Project.missingDep.registry (runOn .missingDep [.addPackage (.ofIndex 0)])
            (.ofIndex 0)).2
          [.addFeature "x", .addPackage (.ofIndex 1), .loadPackage (.ofIndex 1), .resolve])
        (.ofIndex 0) := by
  have failed : (loadPackage Project.missingDep.registry
      (runOn .missingDep [.addPackage (.ofIndex 0)]) (.ofIndex 0)).1 =
        .error (.unresolvedDependency "@local/a" "@local/nowhere") := by
    decide
  have sticks := dependency_errors_stick Project.missingDep.registry ⟨"t", "arm", [], []⟩
  have load := sticks.2.1 [.addPackage (.ofIndex 0)] (.ofIndex 0) _ _ (Prod.ext failed rfl)
  exact ⟨failed, sticks.1 _ _ _ load (.unresolved _ _) _⟩

/-! ## Errors of passes -/

/-- If there is a first registered identity, it has a member. -/
def Headed (s : Session) : Prop := ∀ id, s.order.head? = some id → ∃ m, s.member? id = some m

/-- The first identity was added by name, and members are made when an addition is over. -/
theorem Steps.headed (hr : r.Closed) {t : Target} (h : Steps r Set.univ r.held (start t) s) :
    s.Headed := by
  induction h with
  | refl => exact nofun
  | @tail u s before last ih =>
    have hu := (Supplied.start r t).steps hr before
    rcases hu.made_or_idle hr last with made | idle
    · exact fun id first => made id (List.mem_of_head? first)
    · have same : s.order.head? = u.order.head? := by
        rcases idle.order_cases with same | ⟨x, e, failed, rfl⟩
        · rw [same]
        · rcases hu.loadPackage_eq_error hr failed with same | ⟨m, m', shared, hm, -, -⟩
          · rw [same]
          · -- the attempt was for a registered package, so an identity was the first already
            have grows := idle.steps.grows hu.consistent.distinct
            have ne := List.ne_nil_of_mem (hu.consistent.of_member? hm).1
            obtain ⟨more, more_eq⟩ := grows.order
            rw [← more_eq, List.head?_append_of_ne_nil _ ne]
      exact fun id first => (idle.exists_member hr hu).2 (ih id (same ▸ first))

/-- With a closed registry, loading a member fails over its dependencies only. -/
theorem Supplied.ofDependency_of_loadPackage (hr : r.Closed) (hs : Supplied r s) {m : Member}
    {e : ResolutionError} (hm : s.member? id = some m) (h : (loadPackage r s id).1 = .error e) :
    e.OfDependency := by
  have held' := (hs.steps hr (loadPackage_steps s id)).held
  rcases loadPackage_error hm h with ⟨kind, -⟩ | ⟨u, failed, after⟩
  · exact kind
  · rw [after] at held'
    rw [(materialize_of_held (s := u) held').1] at failed
    cases failed

/-- A loop that starts with a member fails over dependencies only: what comes after the first
attempt has members, as that attempt has succeeded. -/
theorem Supplied.ofDependency_of_loadEach (hr : r.Closed) (hs : Supplied r s)
    {ids : List PackageId} (hids : ∀ id ∈ ids, id ∈ s.order)
    (first : ∀ id, ids.head? = some id → ∃ m, s.member? id = some m) {e : ResolutionError}
    (h : loadEach r s ids = (.error e, s')) : e.OfDependency := by
  induction ids generalizing s with
  | nil => cases h
  | cons id ids ih =>
    obtain ⟨m, hm⟩ := first id rfl
    rcases loadEach_cons_eq_error h with failed | ⟨state, s₁, he, rest⟩
    · exact hs.ofDependency_of_loadPackage hr hm (congrArg Prod.fst failed)
    · have step : Steps r Set.univ r.held s s₁ := (loadPackage_steps s id).of_eq he
      have grows := step.grows hs.consistent.distinct
      have registered : ∀ x ∈ ids, x ∈ s₁.order :=
        fun x hx => grows.order.subset (hids x (List.mem_cons_of_mem id hx))
      have made := hs.made_of_loadPackage hr he
      exact ih (hs.steps hr step) registered
        (fun x hx => made x (registered x (List.mem_of_head? hx))) rest

theorem ofDependency_of_resolvePass (hr : r.Closed) {t : Target}
    (steps : Steps r Set.univ r.held (start t) s) {e : ResolutionError}
    (h : resolvePass r s = (.error e, s')) : e.OfDependency :=
  ((Supplied.start r t).steps hr steps).ofDependency_of_loadEach hr (fun _ hid => hid)
    (steps.headed hr) (loadEach_of_resolvePass_error h)

theorem ok_or_error {α : Type} {o : Outcome α}
    (h : ∀ e s', o = (.error e, s') → e.OfDependency) :
    (∃ a, o.1 = .ok a) ∨ ∃ e, o.1 = .error e ∧ e.OfDependency := by
  obtain ⟨result, s'⟩ := o
  cases result with
  | ok a => exact .inl ⟨a, rfl⟩
  | error e => exact .inr ⟨e, rfl, h e s' rfl⟩

/-- **`passes_fail_over_dependencies`**: with a closed registry, in every session that operations
can lead to, also failing ones, a pass and resolution succeed or fail over a dependency. -/
theorem passes_fail_over_dependencies (r : Registry) (hr : r.Closed) (t : Target)
    (ops : List Operation) :
    ((∃ noisy, (resolvePass r (run r t ops)).1 = .ok noisy) ∨
      ∃ e, (resolvePass r (run r t ops)).1 = .error e ∧ e.OfDependency) ∧
    ((∃ a, (resolve r (run r t ops)).1 = .ok a) ∨
      ∃ e, (resolve r (run r t ops)).1 = .error e ∧ e.OfDependency) := by
  have steps := steps_run r t ops
  refine ⟨ok_or_error fun e s' h => ofDependency_of_resolvePass hr steps h,
    ok_or_error fun e s' h => ?_⟩
  obtain ⟨u, before, failed⟩ := resolve_eq_error (run_consistent r t ops) h
  exact ofDependency_of_resolvePass hr (steps.trans before) failed

/-- After the failed attempt for `a` its dependency `b` is registered without a member. The pass
does not get to it. -/
theorem passes_fail_over_dependencies_missingDep :
    Project.missingDep.registry.Closed ∧
      (runOn .missingDep [.addPackage (.ofIndex 0), .loadPackage (.ofIndex 0)]).order =
        [.ofIndex 0, .ofIndex 1] ∧
      (runOn .missingDep [.addPackage (.ofIndex 0), .loadPackage (.ofIndex 0)]).isRegistered
        (.ofIndex 1) = false ∧
      ∃ e, (resolvePass Project.missingDep.registry (runOn .missingDep
        [.addPackage (.ofIndex 0), .loadPackage (.ofIndex 0)])).1 = .error e ∧ e.OfDependency := by
  have closed := Project.closed_missingDep
  have fails : (resolvePass Project.missingDep.registry (runOn .missingDep
      [.addPackage (.ofIndex 0), .loadPackage (.ofIndex 0)])).1 =
        .error (.unresolvedDependency "@local/a" "@local/nowhere") := by
    decide
  refine ⟨closed, by decide, by decide, ?_⟩
  have kinds := passes_fail_over_dependencies _ closed ⟨"t", "arm", [], []⟩
    [.addPackage (.ofIndex 0), .loadPackage (.ofIndex 0)]
  refine kinds.1.resolve_left ?_
  rintro ⟨noisy, ok⟩
  exact absurd (fails.symm.trans ok) (by simp)

end Session
end PackageResolution

import PackageResolution.Proofs.Containment
/-!
# Registered packages and their members

What is registered is on record twice: an identity stands in the order of registrations, and a
member is made for it. The order comes first. Members are made at the end of an addition and of a
load attempt that succeeds; an attempt that fails returns before that, and leaves what it registered
without members until something else succeeds. Meanwhile the two records disagree, and no other way
leads there.

Main statement: `synced_iff_not_stranded`.
-/
namespace PackageResolution

/-- A project of two packages: `a` depends on `b`, then on a package that is not there. -/
def Project.missingDep : Project := .holding "missing" "missing" [
  ⟨"a", Descriptor.localRepo, "missing/a", none,
    ({} : Settings).add .deps ["b", "nowhere"]⟩,
  ⟨"b", Descriptor.localRepo, "missing/b", none, {}⟩]

theorem Project.closed_missingDep : Project.missingDep.registry.Closed :=
  Project.registry_closed_holding _ _ _

namespace Session

variable {r : Registry} {s s' : Session} {id : PackageId}

/-- The order of registrations and the members agree: they know the same identities, each identity
of the order is listed once and in its place, and an addition is new exactly where nothing was
registered. -/
structure Synced (r : Registry) (s : Session) : Prop where
  registered : ∀ id, s.isRegistered id = true ↔ id ∈ s.order
  listed : s.packages.map (·.id) = s.order
  once : s.order.Nodup
  added : ∀ id ∈ r.held, (addPackage r s id).1 = .ok true ↔ s.isRegistered id = false

/-- Members are made for registered identities only. -/
theorem Consistent.mem_order_of_isRegistered (hs : Consistent r s)
    (h : s.isRegistered id = true) : id ∈ s.order := by
  obtain ⟨m, hm⟩ := Option.isSome_iff_exists.1 h
  exact (hs.of_member? hm).1

/-- A consistent session whose registered packages are all held, so that making members cannot
fail. -/
structure Supplied (r : Registry) (s : Session) : Prop where
  consistent : Consistent r s
  held : ∀ id ∈ s.order, id ∈ r.held

theorem Supplied.start (r : Registry) (t : Target) : Supplied r (start t) := ⟨.start r t, by simp⟩

theorem Supplied.steps (hr : r.Closed) (h : Supplied r s) (steps : Steps r Set.univ r.held s s') :
    Supplied r s' :=
  ⟨steps.consistent h.consistent, held_of_steps hr steps h.consistent h.held⟩

/-- The two records agree exactly if no registered identity lacks its member. -/
theorem Supplied.synced_iff_made (h : Supplied r s) : Synced r s ↔ s.Made := by
  constructor
  · intro synced id hid
    exact Option.isSome_iff_exists.1 ((synced.registered id).2 hid)
  · intro made
    have registered : ∀ id, s.isRegistered id = true ↔ id ∈ s.order := fun id =>
      ⟨h.consistent.mem_order_of_isRegistered,
        fun hid => Option.isSome_iff_exists.2 (made id hid)⟩
    refine ⟨registered, map_id_packages_of_made made, h.consistent.order_nodup, fun id hid => ?_⟩
    rw [addPackage_of_held h.held hid, ← Bool.not_eq_true, registered id]
    simp

/-! ## Steps that make no members -/

/-- A step after which no members are made: a feature is enabled, flags are put together, or a load
attempt fails. -/
inductive IdleStep (r : Registry) : Session → Session → Prop
  | feature (s : Session) (name : String) : IdleStep r s (s.addFeature name).2
  | failed {s : Session} {id : PackageId} {e : ResolutionError}
      (h : (loadPackage r s id).1 = .error e) : IdleStep r s (loadPackage r s id).2
  | flags (s : Session) (id : PackageId) : IdleStep r s (compilerInfo r s id).2

/-- On the way from `s` to `s'` a load attempt failed that had registered something, and no addition
and no load attempt has succeeded since. -/
def Stranded (r : Registry) (s s' : Session) : Prop :=
  ∃ u id e, Steps r Set.univ r.held s u ∧ (loadPackage r u id).1 = .error e ∧
    (loadPackage r u id).2.order ≠ u.order ∧
    Relation.ReflTransGen (IdleStep r) (loadPackage r u id).2 s'

theorem IdleStep.steps (h : IdleStep r s s') : Steps r Set.univ r.held s s' := by
  cases h with
  | feature name => exact .single (.feature s (Set.mem_univ name))
  | failed _ => exact loadPackage_steps s _
  | flags id => exact .single (.flags s id)

theorem mem_ids_iff : id ∈ s.members.map (·.id) ↔ ∃ m, s.member? id = some m := by
  rw [← Option.isSome_iff_exists, member?_isSome_iff, List.mem_map]

theorem compilerInfo_frame (r : Registry) (s : Session) (id : PackageId) :
    (compilerInfo r s id).2.order = s.order ∧
      (compilerInfo r s id).2.members.map (·.id) = s.members.map (·.id) := by
  rcases compilerInfo_cases r s id with same | ⟨m, provides, requires, includes, -, -, -, e⟩
  · rw [same]
    exact ⟨rfl, rfl⟩
  · rw [e]
    exact ⟨rfl, map_id_setMember _ _⟩

/-- A load attempt fails before members are made. -/
theorem Supplied.loadPackage_eq_error (hr : r.Closed) (hs : Supplied r s) {e : ResolutionError}
    (h : (loadPackage r s id).1 = .error e) :
    (loadPackage r s id).2 = s ∨ ∃ m m' shared, s.member? m.id = some m ∧
      Attempt r m s.toShared (.error e, shared, m') ∧
      (loadPackage r s id).2 = s.tried shared m' := by
  have held' := (hs.steps hr (loadPackage_steps s id)).held
  have cases := loads_loadPackage r hs.consistent.distinct id
  revert h held' cases
  generalize loadPackage r s id = out
  intro h held' cases
  cases cases with
  | absent _ => exact .inl rfl
  | done _ _ =>
    rw [(materialize_of_held hs.held).1] at h
    cases h
  | @failed m m' shared _ hm _ a =>
    obtain rfl := Except.error.inj h
    exact .inr ⟨m, m', shared, id_of_member? hm ▸ hm, a, rfl⟩
  | @tried m m' shared _ _ _ _ =>
    rw [(materialize_of_held (s := s.tried shared m') held').1] at h
    cases h

theorem IdleStep.ids (hr : r.Closed) (hs : Supplied r s) (h : IdleStep r s s') :
    s'.members.map (·.id) = s.members.map (·.id) := by
  cases h with
  | feature name => rfl
  | failed h =>
    rcases hs.loadPackage_eq_error hr h with same | ⟨m, m', shared, -, -, e⟩
    · rw [same]
    · rw [e]
      exact map_id_setMember { s with toShared := shared } m'
  | flags id => exact (compilerInfo_frame r s id).2

/-- What has no member gets none by an idle step. -/
theorem IdleStep.exists_member (hr : r.Closed) (hs : Supplied r s) (h : IdleStep r s s') :
    (∃ m, s'.member? id = some m) ↔ ∃ m, s.member? id = some m := by
  rw [← mem_ids_iff, h.ids hr hs, mem_ids_iff]

theorem idle_not_made (hr : r.Closed) (hs : Supplied r s)
    (h : Relation.ReflTransGen (IdleStep r) s s') (lacks : ¬ s.Made) : ¬ s'.Made := by
  induction h using Relation.ReflTransGen.head_induction_on with
  | refl => exact lacks
  | @head s u first _ ih =>
    have grows := first.steps.grows hs.consistent.distinct
    refine ih (hs.steps hr first.steps) fun made => lacks fun id hid => ?_
    exact (first.exists_member hr hs).1 (made id (grows.order.subset hid))

theorem Stranded.not_made (hr : r.Closed) (hs : Supplied r s) (h : Stranded r s s') :
    ¬ s'.Made := by
  obtain ⟨u, id, e, before, failed, more, after⟩ := h
  have hu := hs.steps hr before
  have last : IdleStep r u (loadPackage r u id).2 := .failed failed
  refine idle_not_made hr (hu.steps hr last.steps) after fun made => ?_
  rcases hu.loadPackage_eq_error hr failed with same | ⟨m, m', shared, -, a, tried⟩
  · exact more (congrArg (·.order) same)
  · -- what the attempt registered was not in the order, so it had no member, and got none
    rw [tried] at more
    obtain ⟨x, hx, new, -⟩ := a.continues.order.exists_new more
    have hx' : x ∈ (loadPackage r u id).2.order := by
      rw [tried]
      exact hx
    obtain ⟨y, hy⟩ := (last.exists_member hr hu).1 (made x hx')
    exact new (hu.consistent.of_member? hy).1

/-! ## Steps that make members -/

/-- A load attempt that succeeds makes all members that are missing. -/
theorem Supplied.made_of_loadPackage (hr : r.Closed) (hs : Supplied r s) {state : LoadState}
    (h : loadPackage r s id = (.ok state, s')) : s'.Made := by
  have held' := (hs.steps hr ((loadPackage_steps s id).of_eq h)).held
  obtain ⟨m, -, ⟨-, -, rfl⟩ | ⟨shared, m', -, -, rfl⟩⟩ := loadPackage_eq_ok hs.consistent.distinct h
  · exact (materialize_of_held hs.held).2
  · exact (materialize_of_held (s := s.tried shared m') held').2

/-- A step makes all members that are missing, or it is idle. -/
theorem Supplied.made_or_idle (hr : r.Closed) (hs : Supplied r s)
    (st : Step r Set.univ r.held s s') : s'.Made ∨ IdleStep r s s' := by
  cases st with
  | feature _ => exact .inr (.feature s _)
  | @package id hid _ =>
    rw [addPackage_of_held hs.held hid]
    exact .inl (materialize_of_held (s := { s with toShared := s.register id })
      (held_register hs.held hid)).2
  | load id =>
    cases hresult : (loadPackage r s id).1 with
    | error e => exact .inr (.failed hresult)
    | ok state => exact .inl (hs.made_of_loadPackage hr (Prod.ext hresult rfl))
  | flags id => exact .inr (.flags s id)

/-- An idle step that registers something is a load attempt that fails. -/
theorem IdleStep.order_cases (h : IdleStep r s s') : s'.order = s.order ∨
    ∃ id e, (loadPackage r s id).1 = .error e ∧ s' = (loadPackage r s id).2 := by
  cases h with
  | feature name => exact .inl rfl
  | @failed id e h => exact .inr ⟨id, e, h, rfl⟩
  | flags id => exact .inl (compilerInfo_frame r s id).1

theorem Steps.made_or_stranded (hr : r.Closed) (hs : Supplied r s) (begin : s.Made)
    (h : Steps r Set.univ r.held s s') : s'.Made ∨ Stranded r s s' := by
  induction h with
  | refl => exact .inl begin
  | @tail u s' before last ih =>
    have hu := hs.steps hr before
    rcases hu.made_or_idle hr last with made | idle
    · exact .inl made
    · -- nothing is made, so the records agree only if they did before and nothing was registered
      rcases ih with made | ⟨w, id, e, start, failed, more, after⟩
      · by_cases same : s'.order = u.order
        · exact .inl fun id hid => (idle.exists_member hr hu).2 (made id (same ▸ hid))
        · obtain ⟨id, e, failed, rfl⟩ := idle.order_cases.resolve_left same
          exact .inr ⟨u, id, e, before, failed, same, .refl⟩
      · exact .inr ⟨w, id, e, start, failed, more, after.tail idle⟩

/-- **`synced_iff_not_stranded`**: with a closed registry, the two records of what is registered
agree after some operations exactly if no load attempt has failed after registering something, with
no addition and no load attempt that succeeded since. -/
theorem synced_iff_not_stranded (r : Registry) (hr : r.Closed) (t : Target)
    (ops : List Operation) : Synced r (run r t ops) ↔ ¬ Stranded r (start t) (run r t ops) := by
  have begin := Supplied.start r t
  have made : (start t).Made := by simp [Made]
  have hs := begin.steps hr (steps_run r t ops)
  rw [hs.synced_iff_made]
  constructor
  · exact fun made stranded => stranded.not_made hr begin made
  · intro h
    exact ((steps_run r t ops).made_or_stranded hr begin made).resolve_right h

/-- Adding `a` once more makes the member of `b`, and the records agree again. -/
theorem synced_iff_not_stranded_missingDep :
    Project.missingDep.registry.Closed ∧
      Synced Project.missingDep.registry (runOn .missingDep
        [.addPackage (.ofIndex 0), .loadPackage (.ofIndex 0), .addPackage (.ofIndex 0)]) ∧
      ¬ Stranded Project.missingDep.registry (start ⟨"t", "arm", [], []⟩) (runOn .missingDep
        [.addPackage (.ofIndex 0), .loadPackage (.ofIndex 0), .addPackage (.ofIndex 0)]) := by
  have closed := Project.closed_missingDep
  have members : ∀ id ∈ (runOn .missingDep [.addPackage (.ofIndex 0), .loadPackage (.ofIndex 0),
      .addPackage (.ofIndex 0)]).order, ((runOn .missingDep [.addPackage (.ofIndex 0),
        .loadPackage (.ofIndex 0), .addPackage (.ofIndex 0)]).member? id).isSome := by
    decide
  have supplied := (Supplied.start Project.missingDep.registry ⟨"t", "arm", [], []⟩).steps closed
    (steps_run _ _
      [.addPackage (.ofIndex 0), .loadPackage (.ofIndex 0), .addPackage (.ofIndex 0)])
  have synced := supplied.synced_iff_made.2 fun id hid =>
    Option.isSome_iff_exists.1 (members id hid)
  exact ⟨closed, synced, (synced_iff_not_stranded _ closed _ _).1 synced⟩

/-- After the failed attempt `b` is in the order without a member, and adding it is not new. -/
theorem not_synced_missingDep :
    Project.missingDep.registry.Closed ∧ ¬ Synced Project.missingDep.registry
      (runOn .missingDep [.addPackage (.ofIndex 0), .loadPackage (.ofIndex 0)]) := by
  refine ⟨Project.closed_missingDep, fun h => ?_⟩
  have absent : (runOn .missingDep
      [.addPackage (.ofIndex 0), .loadPackage (.ofIndex 0)]).isRegistered (.ofIndex 1) = false := by
    decide
  have held : (Project.missingDep.registry.package? (.ofIndex 1)).isSome := by decide
  have new := (h.added (.ofIndex 1) held).2 absent
  have old : (addPackage Project.missingDep.registry
      (runOn .missingDep [.addPackage (.ofIndex 0), .loadPackage (.ofIndex 0)]) (.ofIndex 1)).1 =
        .ok false := by
    decide
  rw [old] at new
  cases new

end Session
end PackageResolution

import PackageResolution.Proofs.Reached
import PackageResolution.Proofs.Registration
/-!
# The order of registrations

An identity is registered because it was added by name or because a recorded dependency leads to it,
and in the second case the package that recorded the dependency was there first. Nothing else is
registered, and nothing that was added or that a recorded dependency leads to is missing. This holds
in every state of a session, also after an attempt that failed midway: an attempt registers an
identity and records the dependency in one go.

Main statement: `order_reached_and_introduced`.
-/
namespace PackageResolution

namespace Session

variable {r : Registry} {F : Set String} {P : Set PackageId} {s s' : Session} {id : PackageId}

/-! ## What is added is registered -/

theorem mem_order_addPackage {new : Bool} (h : (addPackage r s id).1 = .ok new) :
    id ∈ (addPackage r s id).2.order := by
  rw [addPackage] at h ⊢
  split
  · next hp => rw [hp] at h; cases h
  · exact s.toShared.mem_register id

theorem mem_order_addRoot {entry : String} (h : (addRoot r s entry).1 = .ok id) :
    id ∈ (addRoot r s entry).2.order := by
  rw [addRoot] at h ⊢
  split
  · next he => rw [he] at h; cases h
  · next d dep he =>
    rw [he] at h
    dsimp only at h ⊢
    cases hadd : (addPackage r s dep).1 with
    | error e => rw [hadd] at h; cases h
    | ok new =>
      rw [hadd] at h
      obtain rfl : dep = id := Except.ok.inj h
      exact mem_order_addPackage hadd

theorem mem_order_addRoots {entries : List String} (hs : Consistent r s)
    (h : id ∈ addedRoots r s entries) : id ∈ (addRoots r s entries).2.order := by
  induction entries generalizing s with
  | nil => cases h
  | cons entry entries ih =>
    rw [addedRoots] at h
    split at h
    · cases h
    · next dep s₁ he =>
      have first : Steps r Set.univ r.held s s₁ :=
        (addRoot_steps s entry fun _ _ _ held => held).of_eq he
      have hs₁ := first.consistent hs
      rw [addRoots, he]
      rcases List.mem_cons.1 h with rfl | later
      · have here : id ∈ (addRoot r s entry).2.order := mem_order_addRoot (by rw [he])
        rw [he] at here
        exact ((addRoots_steps s₁ entries).grows hs₁.distinct).order.subset here
      · exact ih hs₁ later

theorem mem_order_added {op : Operation} (hs : Consistent r s) (h : id ∈ added r s op) :
    id ∈ (perform r s op).order := by
  cases op with
  | addPackage dep =>
    rw [added] at h
    split at h
    · cases h
    · next new hadd =>
      obtain rfl := List.mem_singleton.1 h
      exact mem_order_addPackage hadd
  | addRoot entry =>
    have listed := mem_order_addRoots hs h
    rw [addRoots_singleton] at listed
    exact listed
  | seedTarget => exact mem_order_addRoots hs h
  | addFeature _ | loadPackage _ | resolvePass | resolve | compilerInfo _ => cases h

/-- What was added by name is registered, whichever operations followed. -/
theorem mem_order_addedAll {ops : List Operation} (hs : Consistent r s)
    (h : id ∈ addedAll r s ops) : id ∈ (performAll r s ops).order := by
  induction ops generalizing s with
  | nil => cases h
  | cons op ops ih =>
    have hs₁ := (steps_perform r s op).consistent hs
    rcases List.mem_append.1 h with here | later
    · have steps : Steps r Set.univ r.held (perform r s op) (performAll r (perform r s op) ops) :=
        performAll_steps _ ops fun op _ s => steps_perform r s op
      exact (steps.grows hs₁.distinct).order.subset (mem_order_added hs here)
    · exact ih hs₁ later

/-! ## What is registered without being added -/

/-- In the order of registrations a package stands before `id` that has recorded a dependency which
leads to it. -/
def Introduced (r : Registry) (s : Session) (id : PackageId) : Prop :=
  ∃ before after p d, s.order = before ++ id :: after ∧ p ∈ before ∧ s.records p d = true ∧
    r.resolve d = some id

theorem Introduced.grow (hg : Grows s s') (h : Introduced r s id) : Introduced r s' id := by
  obtain ⟨before, after, p, d, e, hp, hd, hr⟩ := h
  obtain ⟨more, more_eq⟩ := hg.order
  refine ⟨before, after ++ more, p, d, ?_, hp, hg.records hd, hr⟩
  rw [← more_eq, e, List.append_assoc, List.cons_append]

/-- What an attempt registers stands behind the package that it was made for. -/
theorem introduced_of_attempt (hs : Consistent r s) {m m' : Member} {shared : Shared}
    {result : Except ResolutionError LoadState} (hm : s.member? m.id = some m)
    (a : Attempt r m s.toShared (result, shared, m')) (hid : id ∈ shared.order)
    (hnew : id ∉ s.order) : Introduced r (s.tried shared m') id := by
  have grown := a.continues.order
  obtain ⟨before, after, e, first⟩ := grown.split_of_new hid hnew
  obtain ⟨-, entry, -, d, hd, means⟩ := (grown.mem_cases hid).resolve_left hnew
  have own : m.id ∈ before := first m.id (hs.registered m (mem_of_member? hm))
  exact ⟨before, after, m.id, d, e, own,
    (records_of_member? (member?_tried hm a.id_eq)).2 hd, means.2⟩

theorem introduced_kept (r : Registry) (F : Set String) (P : Set PackageId) :
    Kept r F P fun s => Consistent r s ∧ ∀ id ∈ s.order, id ∉ P → Introduced r s id where
  distinct h := h.1.distinct
  feature {s name} hn h :=
    ⟨(consistent_kept r F P).feature hn h.1,
      fun x hx out => (h.2 x hx out).grow (grows_feature s name)⟩
  register {s id} hid hp h := by
    refine ⟨(consistent_kept r F P).register hid hp h.1, fun x hx out => ?_⟩
    rcases (s.toShared.register_order id).mem_cases hx with old | ⟨-, rfl⟩
    · exact (h.2 x old out).grow (grows_register s id)
    · exact absurd hid out
  make h := ⟨h.1.make, fun x hx out => (h.2 x hx out).grow (grows_make r _)⟩
  attempt {s m m' shared result} hm hp a h := by
    refine ⟨h.1.attempt hm a, fun x hx out => ?_⟩
    by_cases old : x ∈ s.order
    · exact (h.2 x old out).grow (grows_attempt hm hp a)
    · exact introduced_of_attempt h.1 hm a hx old
  flags hm hp _ h := ⟨h.1.flags hm, fun x hx out => (h.2 x hx out).grow (grows_flags hm hp)⟩

/-- **`order_reached_and_introduced`**: in every session that operations can lead to, also failing
ones, each identity is registered once, the registered ones are those that recorded dependencies
lead to from what was added by name, and each that was not added itself stands behind a package that
has recorded a dependency leading to it. -/
theorem order_reached_and_introduced (r : Registry) (hr : r.Closed) (t : Target)
    (ops : List Operation) :
    (run r t ops).order.Nodup ∧
      (∀ id, id ∈ (run r t ops).order ↔
        Reached r (run r t ops) {x | x ∈ addedAll r (start t) ops} id) ∧
      ∀ id ∈ (run r t ops).order, id ∉ addedAll r (start t) ops →
        Introduced r (run r t ops) id := by
  have hs := run_consistent r t ops
  have steps : Steps r Set.univ {x | x ∈ addedAll r (start t) ops} (start t) (run r t ops) :=
    performAll_steps_of_added hr ops (.start r t) (by simp) (fun x _ => Set.mem_univ x) fun _ h => h
  refine ⟨hs.order_nodup, fun id => ⟨steps.reached id, fun reached => ?_⟩, ?_⟩
  · refine reached.mem (Q := {x | x ∈ (run r t ops).order}) ?_ ?_
    · exact fun x hx => mem_order_addedAll (.start r t) hx
    · exact fun x _ d hd y hy => hs.mem_order_of_dep hd hy
  · exact ((introduced_kept r _ _).steps steps ⟨.start r t, by simp⟩).2

/-- The attempt for `a` fails, but has registered `b` and recorded the dependency before. -/
theorem order_reached_and_introduced_missingDep :
    Project.missingDep.registry.Closed ∧
      (runOn .missingDep [.addRoot "a", .loadPackage (.ofIndex 0)]).order =
        [.ofIndex 0, .ofIndex 1] ∧
      addedAll Project.missingDep.registry (start ⟨"t", "arm", [], []⟩)
        [.addRoot "a", .loadPackage (.ofIndex 0)] = [.ofIndex 0] ∧
      Introduced Project.missingDep.registry
        (runOn .missingDep [.addRoot "a", .loadPackage (.ofIndex 0)]) (.ofIndex 1) := by
  have closed := Project.closed_missingDep
  have order : (runOn .missingDep [.addRoot "a", .loadPackage (.ofIndex 0)]).order =
      [.ofIndex 0, .ofIndex 1] := by
    decide
  have roots : addedAll Project.missingDep.registry (start ⟨"t", "arm", [], []⟩)
      [.addRoot "a", .loadPackage (.ofIndex 0)] = [.ofIndex 0] := by
    decide
  have introduced := (order_reached_and_introduced _ closed ⟨"t", "arm", [], []⟩
    [.addRoot "a", .loadPackage (.ofIndex 0)]).2.2 (.ofIndex 1)
  refine ⟨closed, order, roots, introduced ?_ ?_⟩
  · show PackageId.ofIndex 1 ∈ (runOn .missingDep _).order
    rw [order]
    decide
  · rw [roots]
    decide

end Session
end PackageResolution

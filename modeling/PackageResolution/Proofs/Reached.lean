import PackageResolution.Proofs.Termination
/-!
# Where registrations come from

Following recorded dependencies from the identities that are given from outside leads to every
registered identity.

Main statement: `Steps.reached`.
-/
namespace PackageResolution

namespace Session

variable {r : Registry} {F : Set String} {P : Set PackageId} {s s' : Session} {id : PackageId}

/-- Recorded dependencies lead from an identity in `P` to this one. -/
inductive Reached (r : Registry) (s : Session) (P : Set PackageId) : PackageId → Prop
  | root {id : PackageId} (h : id ∈ P) : Reached r s P id
  | dep {id id' : PackageId} {d : Descriptor} (h : Reached r s P id) (hd : s.records id d = true)
      (hr : r.resolve d = some id') : Reached r s P id'

theorem Reached.grow (hg : Grows s s') (h : Reached r s P id) : Reached r s' P id := by
  induction h with
  | root h => exact .root h
  | dep _ hd hr ih => exact .dep ih (hg.records hd) hr

theorem reached_kept (r : Registry) (F : Set String) (P : Set PackageId) :
    Kept r F P fun s => Consistent r s ∧ ∀ id ∈ s.order, Reached r s P id where
  distinct h := h.1.distinct
  feature {s name} hn h :=
    ⟨(consistent_kept r F P).feature hn h.1, fun x hx => (h.2 x hx).grow (grows_feature s name)⟩
  register {s id} hid hp h := by
    refine ⟨(consistent_kept r F P).register hid hp h.1, fun x hx => ?_⟩
    rcases (s.toShared.register_order id).mem_cases hx with old | ⟨-, rfl⟩
    · exact (h.2 x old).grow (grows_register s id)
    · exact .root hid
  make h := ⟨h.1.make, fun x hx => (h.2 x hx).grow (grows_make r _)⟩
  attempt {s m m' shared result} hm hp a h := by
    refine ⟨h.1.attempt hm a, fun x hx => ?_⟩
    have grows := grows_attempt hm hp a
    rcases a.continues.order.mem_cases hx with old | ⟨-, entry, -, d, hd, means⟩
    · exact (h.2 x old).grow grows
    · have own := h.2 m.id (h.1.registered m (mem_of_member? hm))
      exact .dep (own.grow grows) ((records_of_member? (member?_tried hm a.id_eq)).2 hd) means.2
  flags hm hp _ h := ⟨h.1.flags hm, fun x hx => (h.2 x hx).grow (grows_flags hm hp)⟩

/-- **`Steps.reached`**: recorded dependencies lead to every registered identity. -/
theorem Steps.reached {t : Target} (h : Steps r F P (start t) s') :
    ∀ id ∈ s'.order, Reached r s' P id :=
  ((reached_kept r F P).steps h ⟨.start r t, by simp⟩).2

theorem Consistent.mem_order_of_records (hs : Consistent r s) {d : Descriptor}
    (hd : s.records id d = true) : id ∈ s.order := by
  obtain ⟨m, hm, -⟩ := exists_member_of_records hd
  exact (hs.of_member? hm).1

/-- A recorded dependency leads to a registered identity. -/
theorem Consistent.mem_order_of_dep (hs : Consistent r s) {d : Descriptor} {dep : PackageId}
    (hd : s.records id d = true) (hr : r.resolve d = some dep) : dep ∈ s.order := by
  obtain ⟨m, hm, hd⟩ := exists_member_of_records hd
  obtain ⟨entry, -, dep', hdep, -, hr'⟩ := hs.found m (mem_of_member? hm) d hd
  obtain rfl : dep = dep' := Option.some.inj (hr.symm.trans hr')
  exact hdep

/-- A set that holds what is given and is closed under recorded dependencies holds every registered
identity that they lead to. -/
theorem Reached.mem {Q : Set PackageId} (h : Reached r s P id) (roots : P ⊆ Q)
    (closed : ∀ x ∈ Q, ∀ d, s.records x d = true → ∀ y, r.resolve d = some y → y ∈ Q) : id ∈ Q := by
  induction h with
  | root h => exact roots h
  | dep _ hd hr ih => exact closed _ ih _ hd _ hr

end Session
end PackageResolution

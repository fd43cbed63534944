import PackageResolution.Proofs.Consistency
/-!
# Sessions are append-only

Nothing that a session has found is ever taken back, by no operation and by no failure. What a
loaded package has recorded is settled, and flags that were put together are kept as they are.
Questions leave no session behind, so the operations are all that could change one.

Main statement: `perform_appends`.
-/
namespace PackageResolution

namespace Member

/-- `m'` is `m` with things added at the end: a pending member may have gained dependencies or have
become loaded, a loaded one may have gained flags, if it had none. -/
structure AppendsTo (m m' : Member) : Prop extends m.GrowsTo m' where
  flags : ∀ ci, m.flags = some ci → m'.flags = some ci

/-- A member holds each dependency once, and nothing else until it is loaded. -/
structure Proper (m : Member) : Prop where
  deps : m.deps.Nodup
  provides : m.isLoaded = false → m.provides = []
  requires : m.isLoaded = false → m.requires = []
  flags : m.isLoaded = false → m.flags = none

theorem Proper.of_nodup {m : Member} (h : m.deps.Nodup) : m.Proper where
  deps := h
  provides hl := by simp only [Member.provides, isLoaded_eq_false_iff.1 hl]
  requires hl := by simp only [Member.requires, isLoaded_eq_false_iff.1 hl]
  flags hl := flags_of_pending (isLoaded_eq_false_iff.1 hl)

end Member

namespace Session

variable {r : Registry} {F : Set String} {P : Set PackageId} {s s' : Session} {id : PackageId}

/-! ## Flags are kept -/

/-- The member of an identity keeps certain flags. -/
def Flagged (s : Session) (id : PackageId) (ci : CompilerInfo) : Prop :=
  ∃ m, s.member? id = some m ∧ m.flags = some ci

theorem not_flagged_of_none {m : Member} (hm : s.member? id = some m) (none : m.flags = none)
    (ci : CompilerInfo) : ¬ s.Flagged id ci := by
  rintro ⟨x, hx, hf⟩
  obtain rfl := Option.some.inj (hm.symm.trans hx)
  rw [none] at hf
  cases hf

theorem Flagged.ne {ci : CompilerInfo} (h : s.Flagged id ci) {m : Member}
    (hm : s.member? m.id = some m) (none : m.flags = none) : id ≠ m.id := by
  rintro rfl
  exact not_flagged_of_none hm none ci h

theorem flagged_kept (r : Registry) (F : Set String) (P : Set PackageId) (id : PackageId)
    (ci : CompilerInfo) : Kept r F P fun s => Consistent r s ∧ s.Flagged id ci where
  distinct h := h.1.distinct
  feature hn h := ⟨(consistent_kept r F P).feature hn h.1, h.2⟩
  register hid hp h := ⟨(consistent_kept r F P).register hid hp h.1, h.2⟩
  make h := by
    obtain ⟨m, hm, hf⟩ := h.2
    exact ⟨h.1.make, m, member?_materialize_of_some hm, hf⟩
  attempt {s m m' shared result} hm hp a h := by
    -- the attempt is for a pending member, which has no flags
    have other := h.2.ne hm (by simp only [Member.flags, hp])
    obtain ⟨x, hx, hf⟩ := h.2
    exact ⟨h.1.attempt hm a, x, (member?_tried_of_ne (a.id_eq ▸ other)).trans hx, hf⟩
  flags {s m provides requires includes} hm hp _ h := by
    have other := h.2.ne hm (by simp only [Member.flags, hp])
    obtain ⟨x, hx, hf⟩ := h.2
    exact ⟨h.1.flags hm, x, (member?_keepFlags_of_ne other _).trans hx, hf⟩

theorem Steps.flagged (h : Steps r F P s s') (hs : Consistent r s) {ci : CompilerInfo}
    (hf : s.Flagged id ci) : s'.Flagged id ci :=
  ((flagged_kept r F P id ci).steps h ⟨hs, hf⟩).2

/-! ## Appending -/

/-- `s'` is `s` with features enabled, identities registered behind the others, and things added to
members. -/
structure AppendsTo (s s' : Session) : Prop where
  features : s.features ⊆ s'.features
  order : s.order <+: s'.order
  members : ∀ {id m}, s.member? id = some m → ∃ m', s'.member? id = some m' ∧ m.AppendsTo m'

theorem Steps.appends (h : Steps r F P s s') (hs : Consistent r s) : AppendsTo s s' := by
  have grows := h.grows hs.distinct
  refine ⟨grows.features, grows.order, fun {id m} hm => ?_⟩
  obtain ⟨m', hm', grown⟩ := grows.members hm
  refine ⟨m', hm', grown, fun ci hf => ?_⟩
  obtain ⟨x, hx, hf'⟩ := h.flagged hs ⟨m, hm, hf⟩
  obtain rfl : m' = x := Option.some.inj (hm'.symm.trans hx)
  exact hf'

/-- **`perform_appends`**: in every session that operations can lead to, a further operation only
appends, whether it succeeds or fails, and leaves each member with dependencies that differ and with
nothing but them until it is loaded. -/
theorem perform_appends (r : Registry) (t : Target) (ops : List Operation) (op : Operation) :
    AppendsTo (run r t ops) (perform r (run r t ops) op) ∧
      ∀ m ∈ (perform r (run r t ops) op).members, m.Proper := by
  have hs := run_consistent r t ops
  have steps := steps_perform r (run r t ops) op
  exact ⟨steps.appends hs, fun m hm => .of_nodup ((steps.consistent hs).deps_nodup m hm)⟩

end Session
end PackageResolution

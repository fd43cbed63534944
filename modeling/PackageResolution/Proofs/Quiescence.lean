import PackageResolution.Proofs.Containment
import PackageResolution.Proofs.Termination
/-!
# What a pass reports

A pass answers whether it found anything new. It did exactly if the session has a feature, a
registration or a recorded dependency more than before. After a quiet pass every registered package
is final, and from then on nothing that resolution does changes the session in any way: neither
what was found nor which settings were read.

Main statement: `resolution_settles`.
-/
namespace PackageResolution

namespace Session

variable {r : Registry} {s s₁ s' : Session}

/-! ## More, and nothing more -/

/-- `s'` has found all that `s` has found, and something more. -/
structure Enlarged (s s' : Session) : Prop where
  grows : Grows s s'
  more : (∃ x ∈ s'.features, x ∉ s.features) ∨ (∃ id ∈ s'.order, id ∉ s.order) ∨
    ∃ id d, s'.records id d = true ∧ s.records id d = false

/-- `s'` has found what `s` has found. Packages may have become final and members been made. -/
structure Still (s s' : Session) : Prop where
  features : s'.features = s.features
  order : s'.order = s.order
  deps : ∀ id d, s'.records id d = s.records id d

theorem Still.refl (s : Session) : Still s s := ⟨rfl, rfl, fun _ _ => rfl⟩

theorem Still.trans (h : Still s s₁) (h' : Still s₁ s') : Still s s' where
  features := h'.features.trans h.features
  order := h'.order.trans h.order
  deps id d := (h'.deps id d).trans (h.deps id d)

theorem Still.not_enlarged (h : Still s s') : ¬ Enlarged s s' := by
  rintro ⟨-, ⟨x, hx, new⟩ | ⟨id, hid, new⟩ | ⟨id, d, hd, new⟩⟩
  · exact new (h.features ▸ hx)
  · exact new (h.order ▸ hid)
  · rw [h.deps, new] at hd
    cases hd

theorem Enlarged.then_grows (h : Enlarged s s₁) (hg : Grows s₁ s') : Enlarged s s' := by
  refine ⟨h.grows.trans hg, ?_⟩
  rcases h.more with ⟨x, hx, new⟩ | ⟨id, hid, new⟩ | ⟨id, d, hd, new⟩
  · exact .inl ⟨x, hg.features x hx, new⟩
  · exact .inr (.inl ⟨id, hg.order.subset hid, new⟩)
  · exact .inr (.inr ⟨id, d, hg.records hd, new⟩)

/-- What is new for a later session is new for an earlier one. -/
theorem Enlarged.of_grows (hg : Grows s s₁) (h : Enlarged s₁ s') : Enlarged s s' := by
  refine ⟨hg.trans h.grows, ?_⟩
  rcases h.more with ⟨x, hx, new⟩ | ⟨id, hid, new⟩ | ⟨id, d, hd, new⟩
  · exact .inl ⟨x, hx, fun old => new (hg.features x old)⟩
  · exact .inr (.inl ⟨id, hid, fun old => new (hg.order.subset old)⟩)
  · refine .inr (.inr ⟨id, d, hd, Bool.eq_false_iff.2 fun old => ?_⟩)
    rw [hg.records old] at new
    cases new

/-! ## Load attempts -/

/-- Members are made without dependencies. -/
theorem still_make (r : Registry) (s : Session) : Still s (materialize r s).2 where
  features := rfl
  order := rfl
  deps id d := by
    rw [Bool.eq_iff_iff]
    refine ⟨fun hd => ?_, (grows_make r s).records⟩
    obtain ⟨m, hm, hd⟩ := exists_member_of_records hd
    rcases member?_materialize hm with old | ⟨-, -, fresh⟩
    · exact (records_of_member? old).2 hd
    · rw [fresh.deps] at hd
      cases hd

theorem enlarged_of_pending {m m' : Member} {shared : Shared} (hm : s.member? m.id = some m)
    (hp : m.phase = .pending) (a : Attempt r m s.toShared (.ok .pending, shared, m')) :
    Enlarged s (s.tried shared m') := by
  refine ⟨grows_attempt hm hp a, ?_⟩
  rcases a.news with ⟨x, hx, fresh⟩ | ⟨d, hd, fresh⟩ | ⟨-, id, hid, fresh⟩
  · exact .inl ⟨x, a.features_eq ▸ m.mem_enabled s.toShared hx, fresh⟩
  · refine .inr (.inr ⟨m.id, d, (records_of_member? (member?_tried hm a.id_eq)).2 hd, ?_⟩)
    exact Bool.eq_false_iff.2 fun old => fresh ((records_of_member? hm).1 old)
  · exact .inr (.inl ⟨id, hid, fresh⟩)

theorem still_of_loaded {m m' : Member} {shared : Shared} (hm : s.member? m.id = some m)
    (a : Attempt r m s.toShared (.ok .loaded, shared, m')) : Still s (s.tried shared m') := by
  have recorded : (s.tried shared m').member? m.id = some m' := member?_tried hm a.id_eq
  have elsewhere : ∀ {id}, id ≠ m.id → (s.tried shared m').member? id = s.member? id :=
    fun h => member?_tried_of_ne (a.id_eq ▸ h)
  cases a with
  | loaded features _ =>
    refine ⟨features, rfl, fun id d => ?_⟩
    by_cases own : id = m.id
    · subst own
      rw [Bool.eq_iff_iff, records_of_member? recorded, records_of_member? hm]
      rfl
    · simp only [records, elsewhere own]

/-- What a load attempt answers is whether it found something; if not, its package is final. -/
theorem loadPackage_reports (hs : Consistent r s) {id : PackageId} {state : LoadState}
    (h : loadPackage r s id = (.ok state, s')) :
    (state = .pending → Enlarged s s') ∧
      (state = .loaded → Still s s' ∧ ∃ m, s'.member? id = some m ∧ m.isLoaded = true) := by
  obtain ⟨m, hm, ⟨hl, rfl, rfl⟩ | ⟨shared, m', hp, a, rfl⟩⟩ := loadPackage_eq_ok hs.distinct h
  · exact ⟨nofun, fun _ => ⟨still_make r s, m, member?_materialize_of_some hm, hl⟩⟩
  · obtain rfl := id_of_member? hm
    refine ⟨fun hst => ?_, fun hst => ?_⟩
    · subst hst
      exact (enlarged_of_pending hm hp a).then_grows (grows_make r _)
    · subst hst
      have kept : (s.tried shared m').member? m.id = some m' := member?_tried hm a.id_eq
      have found := member?_materialize_of_some (r := r) kept
      refine ⟨(still_of_loaded hm a).trans (still_make r _), m', found, ?_⟩
      cases a
      rfl

/-! ## Passes -/

theorem loadEach_reports {ids : List PackageId} {noisy : Bool} (hs : Consistent r s)
    (h : loadEach r s ids = (.ok noisy, s')) :
    (noisy = true → Enlarged s s') ∧
      (noisy = false →
        Still s s' ∧ ∀ id ∈ ids, ∃ m, s'.member? id = some m ∧ m.isLoaded = true) := by
  induction ids generalizing s noisy with
  | nil =>
    cases h
    exact ⟨nofun, fun _ => ⟨.refl _, by simp⟩⟩
  | cons id ids ih =>
    obtain ⟨state, s₁, later, first, rest, rfl⟩ := loadEach_cons_eq_ok h
    have first_steps : Steps r ∅ ∅ s s₁ := (loadPackage_steps s id).of_eq first
    have rest_steps : Steps r ∅ ∅ s₁ s' := (loadEach_steps s₁ ids).of_eq rest
    have hs₁ := first_steps.consistent hs
    have rest_grows := rest_steps.grows hs₁.distinct
    obtain ⟨first_more, first_still⟩ := loadPackage_reports hs first
    obtain ⟨rest_more, rest_still⟩ := ih hs₁ rest
    cases state with
    | pending => exact ⟨fun _ => (first_more rfl).then_grows rest_grows, nofun⟩
    | loaded =>
      refine ⟨fun hn => .of_grows (first_steps.grows hs.distinct) (rest_more hn), fun hn => ?_⟩
      obtain ⟨still, m, hm, hl⟩ := first_still rfl
      obtain ⟨still', finals⟩ := rest_still hn
      -- a package that is final stays so while the others are loaded
      obtain ⟨m', hm', grown⟩ := rest_grows.members hm
      exact ⟨still.trans still', List.forall_mem_cons.2 ⟨⟨m', hm', (grown.loaded hl).1⟩, finals⟩⟩

/-- Every registered identity has a member whose package is final. -/
def Finished (s : Session) : Prop :=
  ∀ id ∈ s.order, ∃ m, s.member? id = some m ∧ m.isLoaded = true

/-- What a pass that succeeds answers, in terms of the session before and after it. -/
structure Reports (s : Session) (noisy : Bool) (s' : Session) : Prop where
  noisy_iff : noisy = true ↔ Enlarged s s'
  finished : noisy = false → s'.Finished

theorem resolvePass_reports {noisy : Bool} (hs : Consistent r s)
    (h : resolvePass r s = (.ok noisy, s')) : Reports s noisy s' := by
  obtain ⟨pending, each, hnoisy⟩ := resolvePass_eq_ok h
  obtain ⟨more, still⟩ := loadEach_reports hs each
  cases pending with
  | true =>
    obtain rfl : noisy = true := by simpa using hnoisy
    exact ⟨⟨fun _ => more rfl, fun _ => rfl⟩, nofun⟩
  | false =>
    obtain ⟨still, finals⟩ := still rfl
    obtain rfl : noisy = false := by simpa [still.order] using hnoisy
    refine ⟨⟨nofun, fun more => absurd more still.not_enlarged⟩, fun _ => ?_⟩
    -- nothing was registered on the way, so the pass went over all that is registered
    rw [Finished, still.order]
    exact finals

/-! ## Resolution -/

theorem finished_of_rounds {n : Nat} (hs : Consistent r s) (h : Rounds r s n (.ok ()) s') :
    s'.Finished := by
  generalize hresult : (Except.ok () : Except ResolutionError Unit) = result at h
  induction h with
  | quiet hpass => exact (resolvePass_reports hs hpass).finished rfl
  | failed _ => cases hresult
  | @again s s₁ s' n result hpass _ ih =>
    have step : Steps r ∅ ∅ s s₁ := (resolvePass_steps s).of_eq hpass
    exact ih (step.consistent hs) hresult

theorem resolve_eq_ok (hs : Consistent r s) {a : Summary} (h : resolve r s = (.ok a, s')) :
    ∃ n, Rounds r s n (.ok ()) s' ∧ a = s'.summary n := by
  obtain ⟨n, result, s₁, rounds, -, answer⟩ := resolve_rounds hs
  rw [h] at answer
  obtain ⟨hresult, rfl⟩ := Prod.mk.inj answer
  cases result with
  | error e => cases hresult
  | ok u => exact ⟨n, rounds, Except.ok.inj hresult⟩

/-- Resolution that succeeds ends with a final package for every registered identity. -/
theorem finished_of_resolve (hs : Consistent r s) {a : Summary} (h : resolve r s = (.ok a, s')) :
    s'.Finished := by
  obtain ⟨n, rounds, -⟩ := resolve_eq_ok hs h
  exact finished_of_rounds hs rounds

/-! ## Finished sessions -/

theorem Finished.made (h : s.Finished) : s.Made := fun id hid =>
  let ⟨m, hm, _⟩ := h id hid
  ⟨m, hm⟩

/-- A load attempt for a registered package of a finished session changes nothing. -/
theorem Finished.loadPackage_eq (r : Registry) (hd : s.Distinct) (h : s.Finished) {id : PackageId}
    (hid : id ∈ s.order) : loadPackage r s id = (.ok .loaded, s) := by
  obtain ⟨m, hm, hl⟩ := h id hid
  have same : s.setMember m = s := setMember_self hd hm
  rw [loadPackage, hm]
  simp only [Member.load_eq_of_loaded r s.toShared hl, same, materialize_of_made r h.made]
  rfl

theorem Finished.loadEach_eq (r : Registry) (hd : s.Distinct) (h : s.Finished)
    {ids : List PackageId} (hids : ∀ id ∈ ids, id ∈ s.order) :
    loadEach r s ids = (.ok false, s) := by
  induction ids with
  | nil => rfl
  | cons id ids ih =>
    obtain ⟨hid, hids⟩ := List.forall_mem_cons.1 hids
    rw [loadEach, h.loadPackage_eq r hd hid]
    dsimp only
    rw [ih hids]
    rfl

theorem Finished.resolvePass_eq (r : Registry) (hd : s.Distinct) (h : s.Finished) :
    resolvePass r s = (.ok false, s) := by
  rw [resolvePass, h.loadEach_eq r hd fun _ hid => hid]
  simp [Except.map]

theorem Finished.resolve_eq (r : Registry) (hd : s.Distinct) (h : s.Finished) :
    resolve r s = (.ok (s.summary 1), s) := by
  have once : Rounds r s 1 (.ok ()) s := .quiet (h.resolvePass_eq r hd)
  have room : 1 ≤ passBound r := Nat.le_add_right 1 _
  rw [resolve, resolveWithin_of_rounds once 0 room]
  rfl

/-- The summary tells the sizes of the session, and whatever resolution does from here on changes
nothing. -/
structure Quiescent (r : Registry) (a : Summary) (s : Session) : Prop where
  finished : s.Finished
  registered : a.packages = s.order.length
  listed : a.packages = s.packages.length
  features : a.features = s.features.size
  load : ∀ id ∈ s.order, loadPackage r s id = (.ok .loaded, s)
  pass : resolvePass r s = (.ok false, s)
  resolve : resolve r s = (.ok { a with passes := 1 }, s)

theorem Finished.quiescent (r : Registry) (hd : s.Distinct) (h : s.Finished) (passes : Nat) :
    Quiescent r (s.summary passes) s where
  finished := h
  registered := rfl
  listed := by
    have listed := congrArg List.length (map_id_packages_of_made h.made)
    rw [List.length_map] at listed
    exact listed.symm
  features := rfl
  load _ hid := h.loadPackage_eq r hd hid
  pass := h.resolvePass_eq r hd
  resolve := h.resolve_eq r hd

/-- **`resolution_settles`**: in every session that operations can lead to, a pass that succeeds is
noisy exactly if it found something, and leaves only final packages if it is quiet. Resolution that
succeeds ends with a session that loading, passes and resolution leave as it is. -/
theorem resolution_settles (r : Registry) (t : Target) (ops : List Operation) :
    (∀ noisy s', resolvePass r (run r t ops) = (.ok noisy, s') →
      Reports (run r t ops) noisy s') ∧
    ∀ a s', resolve r (run r t ops) = (.ok a, s') → Quiescent r a s' := by
  have hs := run_consistent r t ops
  refine ⟨fun noisy s' h => resolvePass_reports hs h, fun a s' h => ?_⟩
  have steps : Steps r ∅ ∅ (run r t ops) s' := (resolve_steps (run r t ops)).of_eq h
  obtain ⟨n, rounds, rfl⟩ := resolve_eq_ok hs h
  exact (finished_of_rounds hs rounds).quiescent r (steps.consistent hs).distinct n

/-- The first pass over `a` and `b` enables `x`, the second one is quiet. -/
theorem resolution_settles_lateFeature :
    (resolvePass Project.lateFeature.registry
        (runOn .lateFeature [.addPackage (.ofIndex 0), .addPackage (.ofIndex 1)])).1 = .ok true ∧
      Enlarged (runOn .lateFeature [.addPackage (.ofIndex 0), .addPackage (.ofIndex 1)])
        (resolvePass Project.lateFeature.registry
          (runOn .lateFeature [.addPackage (.ofIndex 0), .addPackage (.ofIndex 1)])).2 ∧
      (resolve Project.lateFeature.registry
        (runOn .lateFeature [.addPackage (.ofIndex 0), .addPackage (.ofIndex 1)])).1 =
          .ok ⟨2, 2, 1⟩ ∧
      Quiescent Project.lateFeature.registry ⟨2, 2, 1⟩
        (resolve Project.lateFeature.registry
          (runOn .lateFeature [.addPackage (.ofIndex 0), .addPackage (.ofIndex 1)])).2 := by
  have settles := resolution_settles Project.lateFeature.registry ⟨"t", "arm", [], []⟩
    [.addPackage (.ofIndex 0), .addPackage (.ofIndex 1)]
  have noisy : (resolvePass Project.lateFeature.registry
      (runOn .lateFeature [.addPackage (.ofIndex 0), .addPackage (.ofIndex 1)])).1 = .ok true := by
    decide
  have ok : (resolve Project.lateFeature.registry
      (runOn .lateFeature [.addPackage (.ofIndex 0), .addPackage (.ofIndex 1)])).1 =
        .ok ⟨2, 2, 1⟩ := by
    decide
  exact ⟨noisy, (settles.1 true _ (Prod.ext noisy rfl)).noisy_iff.1 rfl, ok,
    settles.2 _ _ (Prod.ext ok rfl)⟩

end Session
end PackageResolution

import PackageResolution.Proofs.Consistency
import Mathlib.Data.Finset.Card
/-!
# Resolution ends

`Rounds` is the loop of resolution without a limit: passes, until one is quiet or fails. Each pass
before the last takes something from a finite stock. It enables a feature that some package
declares, or records a dependency that a package declares and had not recorded. Registering a
package needs no stock of its own, because it never happens without a newly recorded dependency.

Main statement: `resolve_terminates`, the bound on the number of passes; so the limit that `resolve`
computes with is never reached.
-/
namespace PackageResolution

/-- The dependencies that a package declares, whatever the features. -/
def Package.declaredDeps (p : Package) : List Descriptor :=
  (p.settings.declared .deps).filterMap fun entry => (Descriptor.parse entry p.repo).toOption

namespace Registry

/-- The features that the packages declare, whatever the features. -/
def declaredFeatures (r : Registry) : List String :=
  r.packages.flatMap (·.settings.declared .features)

/-- The dependencies that the packages declare, whatever the features, each with the identity of
its package. -/
def declaredDeps (r : Registry) : List (PackageId × Descriptor) :=
  r.packages.zipIdx.flatMap fun x => x.1.declaredDeps.map (PackageId.ofIndex x.2, ·)

theorem mem_declaredFeatures {r : Registry} {id : PackageId} {p : Package} {x : String}
    (hp : r.package? id = some p) (hx : x ∈ p.settings.declared .features) :
    x ∈ r.declaredFeatures :=
  List.mem_flatMap.2 ⟨p, List.mem_of_getElem? hp, hx⟩

theorem mem_declaredDeps {r : Registry} {id : PackageId} {p : Package} {entry : String}
    {d : Descriptor} (hp : r.package? id = some p) (he : entry ∈ p.settings.declared .deps)
    (hd : Descriptor.parse entry p.repo = .ok d) : (id, d) ∈ r.declaredDeps := by
  refine List.mem_flatMap.2 ⟨(p, id.index), List.mem_zipIdx_iff_getElem?.2 hp, ?_⟩
  rw [PackageId.ofIndex_index]
  exact List.mem_map_of_mem (List.mem_filterMap.2 ⟨entry, he, by rw [hd]; rfl⟩)

end Registry

namespace Session

variable {r : Registry} {s s' : Session}

/-! ## What is left to find -/

/-- Whether a package has recorded a dependency. -/
def records (s : Session) (id : PackageId) (d : Descriptor) : Bool :=
  (s.member? id).any (·.hasDep d)

/-- The features that some package declares and that are not enabled. -/
def openFeatures (r : Registry) (s : Session) : Finset String :=
  r.declaredFeatures.toFinset.filter (· ∉ s.features)

/-- The dependencies that a package declares and has not recorded. -/
def openDeps (r : Registry) (s : Session) : Finset (PackageId × Descriptor) :=
  r.declaredDeps.toFinset.filter fun x => s.records x.1 x.2 = false

theorem mem_openFeatures {x : String} :
    x ∈ openFeatures r s ↔ x ∈ r.declaredFeatures ∧ x ∉ s.features := by
  simp [openFeatures]

theorem mem_openDeps {x : PackageId × Descriptor} :
    x ∈ openDeps r s ↔ x ∈ r.declaredDeps ∧ s.records x.1 x.2 = false := by
  simp [openDeps]

theorem records_of_member? {id : PackageId} {m : Member} {d : Descriptor}
    (hm : s.member? id = some m) : s.records id d = true ↔ d ∈ m.deps := by
  simp [records, hm, Member.hasDep]

theorem exists_member_of_records {id : PackageId} {d : Descriptor}
    (hd : s.records id d = true) : ∃ m, s.member? id = some m ∧ d ∈ m.deps := by
  cases hm : s.member? id with
  | none => simp [records, hm] at hd
  | some m => exact ⟨m, rfl, (records_of_member? hm).1 hd⟩

theorem Grows.records (h : Grows s s') {id : PackageId} {d : Descriptor}
    (hd : s.records id d = true) : s'.records id d = true := by
  obtain ⟨m, hm, hd⟩ := exists_member_of_records hd
  obtain ⟨m', hm', grown⟩ := h.members hm
  exact (records_of_member? hm').2 (grown.deps.subset hd)

theorem Grows.openFeatures_subset (h : Grows s s') : openFeatures r s' ⊆ openFeatures r s := by
  intro x hx
  obtain ⟨hd, hn⟩ := mem_openFeatures.1 hx
  exact mem_openFeatures.2 ⟨hd, fun hs => hn (h.features x hs)⟩

theorem Grows.openDeps_subset (h : Grows s s') : openDeps r s' ⊆ openDeps r s := by
  intro x hx
  obtain ⟨hd, hn⟩ := mem_openDeps.1 hx
  refine mem_openDeps.2 ⟨hd, Bool.eq_false_iff.2 fun hs => ?_⟩
  rw [h.records hs] at hn
  cases hn

/-- How much is left to find. -/
def openCount (r : Registry) (s : Session) : Nat := (openFeatures r s).card + (openDeps r s).card

theorem Grows.openCount_le (h : Grows s s') : openCount r s' ≤ openCount r s :=
  Nat.add_le_add (Finset.card_le_card h.openFeatures_subset) (Finset.card_le_card h.openDeps_subset)

/-- Less is left once a feature was enabled. -/
theorem Grows.openCount_lt_of_feature (h : Grows s s') {x : String} (hx : x ∈ openFeatures r s)
    (hx' : x ∈ s'.features) : openCount r s' < openCount r s := by
  have fewer : openFeatures r s' ⊂ openFeatures r s :=
    (Finset.ssubset_iff_of_subset h.openFeatures_subset).2
      ⟨x, hx, fun hm => (mem_openFeatures.1 hm).2 hx'⟩
  have rest := Finset.card_le_card (h.openDeps_subset (r := r))
  exact Nat.add_lt_add_of_lt_of_le (Finset.card_lt_card fewer) rest

/-- Less is left once a dependency was recorded. -/
theorem Grows.openCount_lt_of_dep (h : Grows s s') {x : PackageId × Descriptor}
    (hx : x ∈ openDeps r s) (hx' : s'.records x.1 x.2 = true) : openCount r s' < openCount r s := by
  have fewer : openDeps r s' ⊂ openDeps r s := by
    refine (Finset.ssubset_iff_of_subset h.openDeps_subset).2 ⟨x, hx, fun hm => ?_⟩
    have := (mem_openDeps.1 hm).2
    rw [hx'] at this
    cases this
  have rest := Finset.card_le_card (h.openFeatures_subset (r := r))
  exact Nat.add_lt_add_of_le_of_lt rest (Finset.card_lt_card fewer)

/-! ## Progress -/

/-- An attempt that leaves its package pending has found something that was open. -/
theorem openCount_lt_of_pending (hs : Consistent r s) {m m' : Member} {shared : Shared}
    (hm : s.member? m.id = some m) (hp : m.phase = .pending)
    (a : Attempt r m s.toShared (.ok .pending, shared, m')) :
    openCount r (s.tried shared m') < openCount r s := by
  have grows := grows_attempt hm hp a
  have hmem := mem_of_member? hm
  have held := hs.package m hmem
  have found := a.continues
  rcases a.news with ⟨x, hx, fresh⟩ | ⟨d, hd, fresh⟩ | ⟨hD, id, hid, fresh⟩
  · refine grows.openCount_lt_of_feature (x := x) (mem_openFeatures.2 ⟨?_, fresh⟩) ?_
    · exact Registry.mem_declaredFeatures held (Settings.mem_declared_of_mem_values hx)
    · exact a.features_eq ▸ m.mem_enabled s.toShared hx
  · obtain ⟨-, entry, he, id, -, means⟩ := (found.deps.mem_cases hd).resolve_left fresh
    refine grows.openCount_lt_of_dep (x := (m.id, d)) (mem_openDeps.2 ⟨?_, ?_⟩)
      ((records_of_member? (member?_tried hm a.id_eq)).2 hd)
    · exact Registry.mem_declaredDeps held (Settings.mem_declared_of_mem_values he) means.1
    · exact Bool.eq_false_iff.2 fun h => fresh ((records_of_member? hm).1 h)
  · -- only the registrations grew, but their dependency is recorded and so was registered
    obtain ⟨-, entry, -, d, hd, means⟩ := (found.order.mem_cases hid).resolve_left fresh
    obtain ⟨entry', -, id', hid', means'⟩ := hs.found m hmem d (hD ▸ hd)
    have : id = id' := Option.some.inj (means.2.symm.trans means'.2)
    exact absurd (this ▸ hid') fresh

/-- What is left after a load attempt that did not fail: less if the package is pending, and no more
registrations if it is not. -/
theorem loadPackage_progress (hs : Consistent r s) {id : PackageId} {state : LoadState}
    (h : loadPackage r s id = (.ok state, s')) :
    (state = .pending → openCount r s' < openCount r s) ∧
      (state = .loaded → s'.order = s.order) := by
  obtain ⟨m, hm, ⟨-, rfl, rfl⟩ | ⟨shared, m', hp, a, rfl⟩⟩ := loadPackage_eq_ok hs.distinct h
  · exact ⟨nofun, fun _ => rfl⟩
  · refine ⟨fun hst => ?_, fun hst => ?_⟩
    · subst hst
      have less := openCount_lt_of_pending hs (id_of_member? hm ▸ hm) hp a
      exact Nat.lt_of_le_of_lt (grows_make r _).openCount_le less
    · subst hst
      cases a
      rfl

/-- A pass that is not quiet leaves less to find. -/
theorem loadEach_progress {ids : List PackageId} {noisy : Bool} (hs : Consistent r s)
    (h : loadEach r s ids = (.ok noisy, s')) :
    (noisy = true → openCount r s' < openCount r s) ∧ (noisy = false → s'.order = s.order) := by
  induction ids generalizing s noisy with
  | nil => cases h; simp
  | cons id ids ih =>
    obtain ⟨state, s₁, later, first, rest, rfl⟩ := loadEach_cons_eq_ok h
    have first_steps : Steps r ∅ ∅ s s₁ := (loadPackage_steps s id).of_eq first
    have rest_steps : Steps r ∅ ∅ s₁ s' := (loadEach_steps s₁ ids).of_eq rest
    have hs₁ := first_steps.consistent hs
    have first_le : openCount r s₁ ≤ openCount r s := (first_steps.grows hs.distinct).openCount_le
    have rest_le : openCount r s' ≤ openCount r s₁ := (rest_steps.grows hs₁.distinct).openCount_le
    obtain ⟨first_less, first_order⟩ := loadPackage_progress hs first
    obtain ⟨rest_less, rest_order⟩ := ih hs₁ rest
    cases state with
    | pending =>
      refine ⟨fun _ => Nat.lt_of_le_of_lt rest_le (first_less rfl), fun hn => ?_⟩
      simp at hn
    | loaded =>
      refine ⟨fun hn => ?_, fun hn => ?_⟩
      · exact Nat.lt_of_lt_of_le (rest_less (by simpa using hn)) first_le
      · exact (rest_order (by simpa using hn)).trans (first_order rfl)

theorem resolvePass_progress (hs : Consistent r s) (h : resolvePass r s = (.ok true, s')) :
    openCount r s' < openCount r s := by
  obtain ⟨pending, each, hnoisy⟩ := resolvePass_eq_ok h
  obtain ⟨less, order⟩ := loadEach_progress hs each
  cases pending with
  | true => exact less rfl
  | false => simp [order rfl] at hnoisy

/-! ## The loop -/

/-- The loop of resolution: after `n` passes it stops with a result and a session, because the last
pass was quiet or failed. -/
inductive Rounds (r : Registry) : Session → Nat → Except ResolutionError Unit → Session → Prop
  | quiet {s s' : Session} (h : resolvePass r s = (.ok false, s')) : Rounds r s 1 (.ok ()) s'
  | failed {s s' : Session} {e : ResolutionError} (h : resolvePass r s = (.error e, s')) :
      Rounds r s 1 (.error e) s'
  | again {s s₁ s' : Session} {n : Nat} {result : Except ResolutionError Unit}
      (h : resolvePass r s = (.ok true, s₁)) (rest : Rounds r s₁ n result s') :
      Rounds r s (n + 1) result s'

theorem exists_rounds (hs : Consistent r s) :
    ∃ n result s', Rounds r s n result s' ∧ n ≤ 1 + openCount r s := by
  -- on what is left to find, as a pass may find several things at once
  induction hk : openCount r s using Nat.strong_induction_on generalizing s with
  | _ k ih =>
    generalize hpass : resolvePass r s = out
    obtain ⟨result, s₁⟩ := out
    cases result with
    | error e => exact ⟨1, _, s₁, .failed hpass, by omega⟩
    | ok noisy =>
      cases noisy with
      | false => exact ⟨1, _, s₁, .quiet hpass, by omega⟩
      | true =>
        have less := resolvePass_progress hs hpass
        have step : Steps r ∅ ∅ s s₁ := (resolvePass_steps s).of_eq hpass
        have hs₁ := step.consistent hs
        obtain ⟨n, result, s', rest, hn⟩ := ih _ (hk ▸ less) hs₁ rfl
        exact ⟨n + 1, result, s', .again hpass rest, by omega⟩

theorem resolveWithin_of_rounds {n fuel : Nat} {result : Except ResolutionError Unit}
    (h : Rounds r s n result s') (passes : Nat) (hn : n ≤ fuel) :
    resolveWithin r s passes fuel = (result.map fun _ => s'.summary (passes + n), s') := by
  induction h generalizing passes fuel with
  | quiet h =>
    obtain ⟨fuel, rfl⟩ := Nat.exists_eq_add_of_le' hn
    rw [resolveWithin, h]
    rfl
  | failed h =>
    obtain ⟨fuel, rfl⟩ := Nat.exists_eq_add_of_le' hn
    rw [resolveWithin, h]
    rfl
  | @again s s₁ s' n result h _ ih =>
    obtain ⟨fuel, rfl⟩ := Nat.exists_eq_add_of_le' (Nat.le_trans (Nat.le_add_left 1 n) hn)
    rw [resolveWithin, h]
    dsimp only
    rw [ih (passes + 1) (by omega), Nat.add_assoc, Nat.add_comm 1 n]

theorem length_declaredDeps_le (r : Registry) :
    r.declaredDeps.length ≤ (r.packages.flatMap (·.settings.declared .deps)).length := by
  have general : ∀ (packages : List Package) (k : Nat),
      ((packages.zipIdx k).flatMap
          fun x => x.1.declaredDeps.map (PackageId.ofIndex x.2, ·)).length ≤
        (packages.flatMap (·.settings.declared .deps)).length := by
    intro packages
    induction packages with
    | nil => simp
    | cons p packages ih =>
      intro k
      have here : p.declaredDeps.length ≤ (p.settings.declared .deps).length :=
        List.length_filterMap_le _ _
      have later := ih (k + 1)
      simp only [List.zipIdx_cons, List.flatMap_cons, List.length_append, List.length_map]
      omega
  exact general r.packages 0

/-- The limit on the number of passes leaves room for all that can be found. -/
theorem openCount_lt_passBound (r : Registry) (s : Session) : openCount r s < passBound r := by
  have features : (openFeatures r s).card ≤ r.declaredFeatures.length :=
    (Finset.card_filter_le _ _).trans (List.toFinset_card_le _)
  have deps : (openDeps r s).card ≤ r.declaredDeps.length :=
    (Finset.card_filter_le _ _).trans (List.toFinset_card_le _)
  have sum : ∀ packages : List Package,
      (packages.flatMap fun p => p.settings.declared .features ++ p.settings.declared .deps ++
        p.settings.declared .deps).length =
      (packages.flatMap (·.settings.declared .features)).length +
        2 * (packages.flatMap (·.settings.declared .deps)).length := by
    intro packages
    induction packages with
    | nil => rfl
    | cons p packages ih =>
      simp only [List.flatMap_cons, List.length_append, ih]
      omega
  have := length_declaredDeps_le r
  rw [openCount, passBound, sum]
  rw [Registry.declaredFeatures] at features
  omega

/-- What `resolve` answers is what the loop comes to, within as many passes as there is left to find
and one more. -/
theorem resolve_rounds (hs : Consistent r s) :
    ∃ n result s', Rounds r s n result s' ∧ n ≤ 1 + openCount r s ∧
      resolve r s = (result.map fun _ => s'.summary n, s') := by
  obtain ⟨n, result, s', rounds, hn⟩ := exists_rounds hs
  have room := openCount_lt_passBound r s
  refine ⟨n, result, s', rounds, hn, ?_⟩
  rw [resolve, resolveWithin_of_rounds rounds 0 (by omega), Nat.zero_add]

/-- **`resolve_terminates`**: in every session that operations can lead to, also failing ones, the
loop of resolution stops after at most one pass more than there are declared features to enable and
declared dependencies to record. What `resolve` answers is what the loop comes to. -/
theorem resolve_terminates (r : Registry) (t : Target) (ops : List Operation) :
    ∃ n result s', Rounds r (run r t ops) n result s' ∧
      n ≤ 1 + (openFeatures r (run r t ops)).card + (openDeps r (run r t ops)).card ∧
      resolve r (run r t ops) = (result.map fun _ => s'.summary n, s') := by
  obtain ⟨n, result, s', rounds, hn, answer⟩ := resolve_rounds (run_consistent r t ops)
  rw [openCount, ← Nat.add_assoc] at hn
  exact ⟨n, result, s', rounds, hn, answer⟩

end Session
end PackageResolution

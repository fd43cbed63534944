import PackageResolution.Proofs.Containment
/-!
# How often settings are read

Reading a list of settings is what costs, so each is read no more often than it is needed. A load
attempt of a pending package reads its features and its dependencies, and a load attempt of a final
one reads nothing. Capabilities are read by the attempt that makes the package final, and flags when
they are put together, which is once.

Main statement: `readCount_run`.
-/
namespace PackageResolution

namespace Shared

@[simp] theorem readCount_note (s : Shared) (id x : PackageId) (key k : Settings.Key) :
    (s.note id key).readCount x k = s.readCount x k + if x = id ∧ k = key then 1 else 0 := by
  simp only [readCount, note, List.count_cons, beq_iff_eq, Reading.mk.injEq]
  simp only [eq_comm]

@[simp] theorem readings_register (s : Shared) (id : PackageId) :
    (s.register id).readings = s.readings := by
  unfold register
  split <;> rfl

theorem readCount_register (s : Shared) (id x : PackageId) (k : Settings.Key) :
    (s.register id).readCount x k = s.readCount x k := by
  simp [readCount]

end Shared

/-- How often a load attempt of a pending package reads a list; `final` is whether it makes the
package final. -/
def attemptReads (final : Bool) : Settings.Key → Nat
  | .features | .deps => 1
  | .caps | .reqCaps => if final then 1 else 0
  | .cflags | .lflags | .aflags => 0

theorem Attempt.readCount {r : Registry} {m m' : Member} {s shared : Shared}
    {result : Except ResolutionError LoadState} (a : Attempt r m s (result, shared, m'))
    (hp : m.phase = .pending) (id : PackageId) (key : Settings.Key) :
    shared.readCount id key =
      s.readCount id key + if id = m.id then attemptReads m'.isLoaded key else 0 := by
  have shared_reads : ∀ t, (m.share s t).readCount id key =
      s.readCount id key + if id = m.id then attemptReads false key else 0 := by
    intro t
    have : (m.share s t).readCount id key =
        ((s.note m.id .features).note m.id .deps).readCount id key := rfl
    rw [this]
    by_cases own : id = m.id <;> cases key <;> simp [own, attemptReads]
  have still : ∀ t, (m.extend t).isLoaded = false :=
    fun _ => Member.isLoaded_eq_false_iff.2 hp
  cases a with
  | failed e t found bad => rw [shared_reads, still]
  | pending t found all new => rw [shared_reads, still]
  | loaded features all =>
    have final : (m.finish s.features).isLoaded = true := rfl
    simp only [Shared.readCount_note, shared_reads, final]
    by_cases own : id = m.id <;> cases key <;> simp [own, attemptReads]

namespace Session

variable {r : Registry} {F : Set String} {P : Set PackageId} {s s' : Session} {id : PackageId}

/-- The package of an identity has a member that is final. -/
def isFinal (s : Session) (id : PackageId) : Bool := (s.member? id).any (·.isLoaded)

/-- The package of an identity has a member that is not final. -/
def isPending (s : Session) (id : PackageId) : Bool := (s.member? id).any (!·.isLoaded)

/-- The flags of an identity's package were put together. -/
def isFlagged (s : Session) (id : PackageId) : Bool := (s.member? id).any (·.flags.isSome)

/-- How often a list of a package is to be read if `attempts` load attempts found it pending. -/
def dueReads (s : Session) (id : PackageId) (attempts : Nat) : Settings.Key → Nat
  | .features | .deps => attempts
  | .caps | .reqCaps => if s.isFinal id then 1 else 0
  | .cflags | .lflags | .aflags => if s.isFlagged id then 1 else 0

theorem isFinal_of_member? {m : Member} (hm : s.member? id = some m) :
    s.isFinal id = m.isLoaded := by
  simp [isFinal, hm]

theorem isPending_of_member? {m : Member} (hm : s.member? id = some m) :
    s.isPending id = !m.isLoaded := by
  simp [isPending, hm]

theorem isFlagged_of_member? {m : Member} (hm : s.member? id = some m) :
    s.isFlagged id = m.flags.isSome := by
  simp [isFlagged, hm]

theorem isFinal_eq_true_iff :
    s.isFinal id = true ↔ ∃ m, s.member? id = some m ∧ m.isLoaded = true := by
  simp [isFinal, Option.any_eq_true]

/-- What no pending member has is not changed by making members. -/
theorem any_member?_materialize (r : Registry) (s : Session) (id : PackageId) {p : Member → Bool}
    (hp : ∀ m, m.phase = .pending → p m = false) :
    ((materialize r s).2.member? id).any p = (s.member? id).any p := by
  cases hm : s.member? id with
  | some m => rw [member?_materialize_of_some hm]
  | none =>
    cases hm' : (materialize r s).2.member? id with
    | none => rfl
    | some m =>
      rcases member?_materialize hm' with old | ⟨-, -, fresh⟩
      · rw [hm] at old
        cases old
      · exact hp m fresh.phase

theorem isFinal_materialize (r : Registry) (s : Session) (id : PackageId) :
    (materialize r s).2.isFinal id = s.isFinal id :=
  any_member?_materialize r s id fun _ hp => Member.isLoaded_eq_false_iff.2 hp

theorem isFlagged_materialize (r : Registry) (s : Session) (id : PackageId) :
    (materialize r s).2.isFlagged id = s.isFlagged id :=
  any_member?_materialize r s id fun m hp => by rw [Member.flags_of_pending hp]; rfl

/-! ## What has been read -/

/-- Apart from features, each list was read as often as it is to be read. -/
def Tallied (s : Session) : Prop :=
  ∀ id key, s.readCount id key = s.dueReads id (s.readCount id .features) key

theorem tallied_start (t : Target) : (start t).Tallied := by
  intro id key
  cases key <;> rfl

/-- Counts and packages of which nothing changed are still tallied. -/
theorem dueReads_congr {n : Nat} (hl : s'.isFinal id = s.isFinal id)
    (hf : s'.isFlagged id = s.isFlagged id) (key : Settings.Key) :
    s'.dueReads id n key = s.dueReads id n key := by
  cases key <;> simp [dueReads, hl, hf]

theorem dueReads_of_same_member {n : Nat} (same : s'.member? id = s.member? id)
    (key : Settings.Key) : s'.dueReads id n key = s.dueReads id n key :=
  dueReads_congr (by rw [isFinal, isFinal, same]) (by rw [isFlagged, isFlagged, same]) key

theorem tallied_attempt {m m' : Member} {shared : Shared}
    {result : Except ResolutionError LoadState} (hm : s.member? m.id = some m)
    (hp : m.phase = .pending) (a : Attempt r m s.toShared (result, shared, m')) (h : s.Tallied) :
    (s.tried shared m').Tallied := by
  intro id key
  have count : ∀ k, (s.tried shared m').readCount id k =
      s.readCount id k + if id = m.id then attemptReads m'.isLoaded k else 0 := a.readCount hp id
  rw [count, count, h id key]
  by_cases own : id = m.id
  · subst own
    have after : (s.tried shared m').member? m.id = some m' := member?_tried hm a.id_eq
    have pending := Member.isLoaded_eq_false_iff.2 hp
    have blank := Member.flags_of_pending hp
    have blank' : m'.flags = none := by
      cases a with
      | failed | pending => exact Member.flags_of_pending hp
      | loaded => rfl
    cases key <;> simp [dueReads, attemptReads, isFinal_of_member? hm, isFlagged_of_member? hm,
      isFinal_of_member? after, isFlagged_of_member? after, pending, blank, blank']
  · have same : (s.tried shared m').member? id = s.member? id :=
      member?_tried_of_ne (a.id_eq ▸ own)
    simp only [own, if_false, Nat.add_zero]
    exact (dueReads_of_same_member same key).symm

/-- Putting flags together reads the three lists of them. -/
theorem readCount_keepFlags (s : Session) (m : Member) (includes : List Path) (id : PackageId)
    (key : Settings.Key) : (s.keepFlags m includes).readCount id key =
      (((s.note m.id .cflags).note m.id .lflags).note m.id .aflags).readCount id key := rfl

theorem tallied_flags {m : Member} {provides requires : List String} {includes : List Path}
    (hm : s.member? m.id = some m) (hp : m.phase = .loaded provides requires none) (h : s.Tallied) :
    (s.keepFlags m includes).Tallied := by
  intro id key
  simp only [readCount_keepFlags, Shared.readCount_note, h id key, reduceCtorEq, and_false,
    if_false, Nat.add_zero]
  by_cases own : id = m.id
  · subst own
    have after := member?_keepFlags_self hm includes
    rw [Member.keep_of_blank hp] at after
    cases key <;> simp [dueReads, isFinal_of_member? hm, isFlagged_of_member? hm,
      isFinal_of_member? after, isFlagged_of_member? after, Member.isLoaded, Member.flags, hp]
  · have same := member?_keepFlags_of_ne own includes (s := s)
    simp only [own, false_and, if_false, Nat.add_zero]
    exact (dueReads_of_same_member same key).symm

theorem tallied_kept (r : Registry) (F : Set String) (P : Set PackageId) :
    Kept r F P fun s => Consistent r s ∧ s.Tallied where
  distinct h := h.1.distinct
  feature hn h := ⟨(consistent_kept r F P).feature hn h.1, h.2⟩
  register {s dep} hid hp h := by
    refine ⟨(consistent_kept r F P).register hid hp h.1, fun id key => ?_⟩
    rw [Shared.readCount_register, Shared.readCount_register, h.2 id key]
    rfl
  make {s} h := by
    refine ⟨h.1.make, fun id key => (h.2 id key).trans ?_⟩
    exact (dueReads_congr (isFinal_materialize r s id) (isFlagged_materialize r s id) key).symm
  attempt hm hp a h := ⟨h.1.attempt hm a, tallied_attempt hm hp a h.2⟩
  flags hm hp _ h := ⟨h.1.flags hm, tallied_flags hm hp h.2⟩

/-! ## Load attempts -/

/-- The load attempts of the loop of a pass, each with the session that it finds. -/
def attemptsEach (r : Registry) (s : Session) : List PackageId → List (Session × PackageId)
  | [] => []
  | id :: ids => (s, id) ::
    match loadPackage r s id with
    | (.error _, _) => []
    | (.ok _, s') => attemptsEach r s' ids

/-- The load attempts of resolution within a number of passes. -/
def attemptsWithin (r : Registry) (s : Session) : Nat → List (Session × PackageId)
  | 0 => []
  | fuel + 1 => attemptsEach r s s.order ++
    match resolvePass r s with
    | (.ok true, s') => attemptsWithin r s' fuel
    | (_, _) => []

/-- The load attempts that an operation makes. -/
def attempts (r : Registry) (s : Session) : Operation → List (Session × PackageId)
  | .loadPackage id => [(s, id)]
  | .resolvePass => attemptsEach r s s.order
  | .resolve => attemptsWithin r s (passBound r)
  | _ => []

/-- The load attempts that some operations make. -/
def attemptsAll (r : Registry) (s : Session) : List Operation → List (Session × PackageId)
  | [] => []
  | op :: ops => attempts r s op ++ attemptsAll r (perform r s op) ops

/-- How many of some load attempts are for `id` and find its package pending. -/
def pendingCount (id : PackageId) (attempts : List (Session × PackageId)) : Nat :=
  attempts.countP fun a => decide (a.2 = id) && a.1.isPending id

/-- `s'` has read the features of `id` once more for each of some load attempts that found the
package pending. -/
def Spent (s s' : Session) (attempts : List (Session × PackageId)) : Prop :=
  ∀ id, s'.readCount id .features = s.readCount id .features + pendingCount id attempts

theorem Spent.trans {s₁ : Session} {l l' : List (Session × PackageId)} (h : Spent s s₁ l)
    (h' : Spent s₁ s' l') : Spent s s' (l ++ l') := by
  intro id
  rw [h' id, h id, pendingCount, pendingCount, pendingCount, List.countP_append, Nat.add_assoc]

theorem Spent.of_readings (h : s'.readings = s.readings) : Spent s s' [] := by
  intro id
  simp [Shared.readCount, h, pendingCount]

theorem spent_loadPackage (hd : s.Distinct) (x : PackageId) :
    Spent s (loadPackage r s x).2 [(s, x)] := by
  intro id
  -- the same for an attempt that fails and for one after which members are made
  have attempted : ∀ {m m' : Member} {shared : Shared} {result : Except ResolutionError LoadState},
      s.member? x = some m → m.phase = .pending → Attempt r m s.toShared (result, shared, m') →
      shared.readCount id .features = s.readCount id .features + pendingCount id [(s, x)] := by
    intro m m' shared result hm hp a
    obtain rfl := id_of_member? hm
    rw [a.readCount hp, pendingCount, List.countP_singleton]
    by_cases own : id = m.id
    · subst own
      simp [attemptReads, isPending_of_member? hm, Member.isLoaded_eq_false_iff.2 hp]
    · simp [own, Ne.symm own]
  have cases := loads_loadPackage r hd x
  generalize loadPackage r s x = out at cases
  cases cases with
  | absent hm =>
    by_cases own : x = id <;> simp [pendingCount, isPending, own]
    simp [← own, hm]
  | done hm hl =>
    have : (materialize r s).2.readCount id .features = s.readCount id .features := rfl
    rw [this]
    by_cases own : x = id <;> simp [pendingCount, isPending, own]
    simp [← own, hm, hl]
  | failed hm hp a => exact attempted hm hp a
  | tried hm hp a => exact attempted hm hp a

theorem spent_loadEach (hs : Consistent r s) (ids : List PackageId) :
    Spent s (loadEach r s ids).2 (attemptsEach r s ids) := by
  induction ids generalizing s with
  | nil => exact .of_readings rfl
  | cons id ids ih =>
    have first := spent_loadPackage (r := r) hs.distinct id
    cases hload : loadPackage r s id with
    | mk result s₁ =>
      rw [hload] at first
      rw [loadEach, attemptsEach, hload]
      cases result with
      | error e => exact first
      | ok state =>
        have step : Steps r ∅ ∅ s s₁ := (loadPackage_steps s id).of_eq hload
        exact first.trans (ih (step.consistent hs))

theorem spent_resolvePass (hs : Consistent r s) :
    Spent s (resolvePass r s).2 (attemptsEach r s s.order) :=
  spent_loadEach hs s.order

theorem spent_resolveWithin (hs : Consistent r s) (passes fuel : Nat) :
    Spent s (resolveWithin r s passes fuel).2 (attemptsWithin r s fuel) := by
  induction fuel generalizing s passes with
  | zero => exact .of_readings rfl
  | succ fuel ih =>
    have first := spent_resolvePass hs
    cases hpass : resolvePass r s with
    | mk result s₁ =>
      rw [hpass] at first
      rw [resolveWithin, attemptsWithin, hpass]
      cases result with
      | error e => exact first.trans (.of_readings rfl)
      | ok more =>
        cases more with
        | false => exact first.trans (.of_readings rfl)
        | true =>
          have step : Steps r ∅ ∅ s s₁ := (resolvePass_steps s).of_eq hpass
          exact first.trans (ih (step.consistent hs) _)

theorem readings_addPackage (r : Registry) (s : Session) (id : PackageId) :
    (addPackage r s id).2.readings = s.readings := by
  rw [addPackage]
  split
  · rfl
  · exact s.readings_register id

theorem readings_addRoots (r : Registry) (s : Session) (entries : List String) :
    (addRoots r s entries).2.readings = s.readings := by
  induction entries generalizing s with
  | nil => rfl
  | cons entry entries ih =>
    have first : (addRoot r s entry).2.readings = s.readings := by
      rw [addRoot]
      split
      · rfl
      · exact readings_addPackage r s _
    rw [addRoots]
    split
    · next e s₁ he => rw [← first, he]
    · next id s₁ he =>
      rw [he] at first
      exact (ih s₁).trans first

/-- Putting flags together reads no features. -/
theorem spent_compilerInfo (r : Registry) (s : Session) (id : PackageId) :
    Spent s (compilerInfo r s id).2 [] := by
  rcases compilerInfo_cases r s id with same | ⟨m, provides, requires, includes, -, -, -, e⟩
  · exact .of_readings (congrArg (·.readings) same)
  · intro x
    rw [e, readCount_keepFlags]
    simp [pendingCount]

theorem spent_perform (hs : Consistent r s) (op : Operation) :
    Spent s (perform r s op) (attempts r s op) := by
  cases op with
  | addFeature name => exact .of_readings rfl
  | addPackage id => exact .of_readings (readings_addPackage r s id)
  | addRoot entry =>
    refine .of_readings ?_
    rw [perform, ← addRoots_singleton]
    exact readings_addRoots r s [entry]
  | seedTarget => exact .of_readings (readings_addRoots r s _)
  | loadPackage id => exact spent_loadPackage hs.distinct id
  | resolvePass => exact spent_resolvePass hs
  | resolve => exact spent_resolveWithin hs 0 _
  | compilerInfo id => exact spent_compilerInfo r s id

theorem spent_performAll (hs : Consistent r s) (ops : List Operation) :
    Spent s (performAll r s ops) (attemptsAll r s ops) := by
  induction ops generalizing s with
  | nil => exact .of_readings rfl
  | cons op ops ih =>
    exact (spent_perform hs op).trans (ih ((steps_perform r s op).consistent hs))

/-! ## Final packages -/

/-- The features of a final package are not read again. -/
theorem frozen_kept (r : Registry) (F : Set String) (P : Set PackageId) (id : PackageId) (n : Nat) :
    Kept r F P fun s => Consistent r s ∧ s.isFinal id = true ∧ s.readCount id .features = n where
  distinct h := h.1.distinct
  feature hn h := ⟨(consistent_kept r F P).feature hn h.1, h.2⟩
  register {s dep} hid hp h := by
    refine ⟨(consistent_kept r F P).register hid hp h.1, h.2.1, ?_⟩
    exact (s.readCount_register dep id .features).trans h.2.2
  make {s} h := ⟨h.1.make, (isFinal_materialize r s id).trans h.2.1, h.2.2⟩
  attempt {s m m' shared result} hm hp a h := by
    obtain ⟨hs, final, count⟩ := h
    have other : id ≠ m.id := by
      rintro rfl
      rw [isFinal_of_member? hm, Member.isLoaded_eq_false_iff.2 hp] at final
      cases final
    refine ⟨hs.attempt hm a, ?_, ?_⟩
    · rw [isFinal, member?_tried_of_ne (a.id_eq ▸ other)]
      exact final
    · have kept := a.readCount hp id .features
      rw [if_neg other, Nat.add_zero] at kept
      exact kept.trans count
  flags {s m provides requires includes} hm hp _ h := by
    obtain ⟨hs, final, count⟩ := h
    refine ⟨hs.flags hm, ?_, ?_⟩
    · obtain ⟨x, hx, hl⟩ := isFinal_eq_true_iff.1 final
      obtain ⟨y, hy, grown⟩ := (grows_flags hm hp).members hx
      exact isFinal_eq_true_iff.2 ⟨y, hy, (grown.loaded hl).1⟩
    · rw [← count, readCount_keepFlags]
      simp

/-- **`readCount_run`**: after all operations, also failing ones, the features and the dependencies
of each package were read once for each load attempt that found it pending, its capabilities exactly
once if it is final and not otherwise, and its flags exactly once if they are kept and not
otherwise. What load attempts read is not read again once the package is final. -/
theorem readCount_run (r : Registry) (t : Target) (ops : List Operation) (id : PackageId) :
    (∀ key, (run r t ops).readCount id key =
      (run r t ops).dueReads id (pendingCount id (attemptsAll r (start t) ops)) key) ∧
    ((run r t ops).isFinal id = true → ∀ more key, key = .features ∨ key = .deps →
      (performAll r (run r t ops) more).readCount id key = (run r t ops).readCount id key) := by
  have hs := run_consistent r t ops
  have tallied := ((tallied_kept r _ _).steps (steps_run r t ops) ⟨.start r t, tallied_start t⟩).2
  refine ⟨fun key => ?_, fun final more => ?_⟩
  · have spent := spent_performAll (.start r t) ops id
    rw [show (start t).readCount id .features = 0 from rfl, Nat.zero_add] at spent
    rw [tallied id key, ← spent]
    rfl
  · have steps : Steps r Set.univ r.held (run r t ops) (performAll r (run r t ops) more) :=
      performAll_steps _ more fun op _ s => steps_perform r s op
    have features := ((frozen_kept r _ _ id _).steps steps ⟨hs, final, rfl⟩).2.2
    have later := ((tallied_kept r _ _).steps steps ⟨hs, tallied⟩).2
    rintro key (rfl | rfl)
    · exact features
    calc
      _ = (performAll r (run r t ops) more).readCount id .features := later id .deps
      _ = (run r t ops).readCount id .features := features
      _ = (run r t ops).readCount id .deps := (tallied id .deps).symm

/-- With `b` added before `a`, two attempts find `a` pending: the first records `c`, the second
makes `a` final. Putting its flags together and resolving again reads its features no more. -/
theorem readCount_run_lateFeature :
    (∀ key, (runOn .lateFeature [.addPackage (.ofIndex 1), .addPackage (.ofIndex 0),
        .resolve]).readCount (.ofIndex 0) key =
      (runOn .lateFeature [.addPackage (.ofIndex 1), .addPackage (.ofIndex 0),
        .resolve]).dueReads (.ofIndex 0) 2 key) ∧
    (runOn .lateFeature
      [.addPackage (.ofIndex 1), .addPackage (.ofIndex 0), .resolve]).isFinal (.ofIndex 0) = true ∧
    (performAll Project.lateFeature.registry
      (runOn .lateFeature [.addPackage (.ofIndex 1), .addPackage (.ofIndex 0), .resolve])
      [.compilerInfo (.ofIndex 0), .addFeature "y", .resolve]).readCount (.ofIndex 0) .features =
        2 := by
  have reads := readCount_run Project.lateFeature.registry ⟨"t", "arm", [], []⟩
    [.addPackage (.ofIndex 1), .addPackage (.ofIndex 0), .resolve] (.ofIndex 0)
  have twice : pendingCount (.ofIndex 0)
      (attemptsAll Project.lateFeature.registry (start ⟨"t", "arm", [], []⟩)
        [.addPackage (.ofIndex 1), .addPackage (.ofIndex 0), .resolve]) = 2 := by
    decide
  have final : (runOn .lateFeature [.addPackage (.ofIndex 1), .addPackage (.ofIndex 0),
      .resolve]).isFinal (.ofIndex 0) = true := by
    decide
  rw [twice] at reads
  have later := reads.2 final [.compilerInfo (.ofIndex 0), .addFeature "y", .resolve]
    .features (.inl rfl)
  exact ⟨reads.1, final, later.trans (reads.1 .features)⟩

end Session
end PackageResolution

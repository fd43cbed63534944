import PackageResolution.Proofs.Attempt
import PackageResolution.Proofs.Members
import PackageResolution.Session.Resolve
import Mathlib.Logic.Relation
/-!
# Operations as sequences of steps

Whatever is done to a session is a sequence of four steps: enabling a feature, registering a
package of the registry, one load attempt, and putting flags together. So what holds of every
session that can come about is shown of the four.

Main statements: `steps_run`, that every run of operations is such a sequence, and `Kept.steps`,
the induction over one.
-/
namespace PackageResolution

/-- The identities of the packages that a registry holds. -/
def Registry.held (r : Registry) : Set PackageId := {id | (r.package? id).isSome}

/-- An operation on a session. -/
inductive Operation where
  | addFeature (name : String)
  | addPackage (id : PackageId)
  | addRoot (entry : String)
  | seedTarget
  | loadPackage (id : PackageId)
  | resolvePass
  | resolve
  | compilerInfo (id : PackageId)
  deriving DecidableEq

namespace Session

/-- The session after an operation, also if the operation fails. -/
def perform (r : Registry) (s : Session) : Operation → Session
  | .addFeature name => (s.addFeature name).2
  | .addPackage id => (addPackage r s id).2
  | .addRoot entry => (addRoot r s entry).2
  | .seedTarget => (seedTarget r s).2
  | .loadPackage id => (loadPackage r s id).2
  | .resolvePass => (resolvePass r s).2
  | .resolve => (resolve r s).2
  | .compilerInfo id => (compilerInfo r s id).2

/-- The session after some operations on another one. -/
def performAll (r : Registry) (s : Session) (ops : List Operation) : Session :=
  ops.foldl (perform r) s

/-- The session after some operations on a new one. -/
def run (r : Registry) (t : Target) (ops : List Operation) : Session := performAll r (start t) ops

/-- A new session in which features are enabled and then packages added. -/
def seeded (r : Registry) (t : Target) (names : List String) (ids : List PackageId) : Session :=
  run r t (names.map .addFeature ++ ids.map .addPackage)

/-- What resolution comes to once features are enabled and then packages added. -/
def resolveSeeded (r : Registry) (t : Target) (names : List String) (ids : List PackageId) :
    Outcome Summary :=
  resolve r (seeded r t names ids)

/-! ## Load attempts on a session -/

/-- The session after an attempt left the shared part and the member that it was made for. -/
def tried (s : Session) (shared : Shared) (m : Member) : Session :=
  { s with toShared := shared }.setMember m

/-- An attempt leaves its own member as it made it. -/
theorem member?_tried {s : Session} {shared : Shared} {m m' : Member}
    (hm : s.member? m.id = some m) (hid : m'.id = m.id) :
    (s.tried shared m').member? m.id = some m' := by
  rw [← hid] at hm ⊢
  exact member?_setMember_self (s := { s with toShared := shared }) hm

/-- An attempt leaves other members alone. -/
theorem member?_tried_of_ne {s : Session} {shared : Shared} {m' : Member} {id : PackageId}
    (h : id ≠ m'.id) : (s.tried shared m').member? id = s.member? id :=
  member?_setMember_of_ne (s := { s with toShared := shared }) h

/-- The ways a load attempt on a session can go. -/
inductive Loads (r : Registry) (s : Session) (id : PackageId) : Outcome LoadState → Prop
  | absent (h : s.member? id = none) : Loads r s id (.error (.notRegistered id.display), s)
  | done {m : Member} (h : s.member? id = some m) (hl : m.isLoaded = true) :
      Loads r s id ((materialize r s).1.map fun _ => .loaded, (materialize r s).2)
  | failed {m m' : Member} {shared : Shared} {e : ResolutionError} (h : s.member? id = some m)
      (hp : m.phase = .pending) (a : Attempt r m s.toShared (.error e, shared, m')) :
      Loads r s id (.error e, s.tried shared m')
  | tried {m m' : Member} {shared : Shared} {state : LoadState} (h : s.member? id = some m)
      (hp : m.phase = .pending) (a : Attempt r m s.toShared (.ok state, shared, m')) :
      Loads r s id ((materialize r (s.tried shared m')).1.map fun _ => state,
        (materialize r (s.tried shared m')).2)

theorem loads_loadPackage (r : Registry) {s : Session} (hd : s.Distinct) (id : PackageId) :
    Loads r s id (loadPackage r s id) := by
  rw [loadPackage]
  cases hm : s.member? id with
  | none => exact .absent hm
  | some m =>
    cases hp : m.phase with
    | loaded provides requires flags =>
      have hl : m.isLoaded = true := by simp [Member.isLoaded, hp]
      have same : s.setMember m = s := setMember_self hd hm
      simp only [Member.load_eq_of_loaded r s.toShared hl, same]
      exact .done hm hl
    | pending =>
      have a := attempt_of_pending r s.toShared hp
      revert a
      dsimp only
      generalize m.load r s.toShared = out
      obtain ⟨result, shared, m'⟩ := out
      intro a
      cases result with
      | error e => exact .failed hm hp a
      | ok state => exact .tried hm hp a

/-- What a load attempt that succeeds has done: nothing, if the package was final before, and
otherwise an attempt with that answer. -/
theorem loadPackage_eq_ok {r : Registry} {s s' : Session} {id : PackageId} {state : LoadState}
    (hd : s.Distinct) (h : loadPackage r s id = (.ok state, s')) :
    ∃ m, s.member? id = some m ∧
      ((m.isLoaded = true ∧ state = .loaded ∧ s' = (materialize r s).2) ∨
        ∃ shared m', m.phase = .pending ∧ Attempt r m s.toShared (.ok state, shared, m') ∧
          s' = (materialize r (s.tried shared m')).2) := by
  have answer : ∀ {a b : LoadState} {x : Except ResolutionError Unit},
      (x.map fun _ => a) = .ok b → a = b := by
    intro a b x hx
    cases x <;> cases hx
    rfl
  have cases := loads_loadPackage r hd id
  rw [h] at cases
  generalize hout : ((Except.ok state, s') : Outcome LoadState) = out at cases
  cases cases with
  | absent _ => cases hout
  | failed _ _ _ => cases hout
  | @done m hm hl =>
    obtain ⟨hstate, rfl⟩ := Prod.mk.inj hout
    exact ⟨m, hm, .inl ⟨hl, (answer hstate.symm).symm, rfl⟩⟩
  | @tried m m' shared state' hm hp a =>
    obtain ⟨hstate, rfl⟩ := Prod.mk.inj hout
    obtain rfl := answer hstate.symm
    exact ⟨m, hm, .inr ⟨shared, m', hp, a, rfl⟩⟩

/-- Asking for flags changes nothing, or keeps those that were put together. -/
theorem compilerInfo_cases (r : Registry) (s : Session) (id : PackageId) :
    (compilerInfo r s id).2 = s ∨ ∃ m provides requires includes, s.member? m.id = some m ∧
      m.phase = .loaded provides requires none ∧ includePath r s m.id = .ok includes ∧
      (compilerInfo r s id).2 = s.keepFlags m includes := by
  rw [compilerInfo_eq, requireMember]
  cases hm : s.member? id with
  | none => exact .inl rfl
  | some m =>
    obtain rfl := id_of_member? hm
    dsimp only
    split
    · exact .inl rfl
    · exact .inl rfl
    · next provides requires hp =>
      split
      · exact .inl rfl
      · next includes hi => exact .inr ⟨m, provides, requires, includes, hm, hp, hi, rfl⟩

/-- What the loop of a pass has done if it succeeds. -/
theorem loadEach_cons_eq_ok {r : Registry} {s s' : Session} {id : PackageId}
    {ids : List PackageId} {noisy : Bool} (h : loadEach r s (id :: ids) = (.ok noisy, s')) :
    ∃ state s₁ later, loadPackage r s id = (.ok state, s₁) ∧ loadEach r s₁ ids = (.ok later, s') ∧
      noisy = (decide (state = .pending) || later) := by
  rw [loadEach] at h
  split at h
  · cases h
  · next state s₁ he =>
    generalize hrest : loadEach r s₁ ids = rest at h
    obtain ⟨result, s₂⟩ := rest
    cases result with
    | error e => cases h
    | ok later =>
      cases h
      exact ⟨state, s₁, later, he, hrest, rfl⟩

/-- What a pass has done if it succeeds. -/
theorem resolvePass_eq_ok {r : Registry} {s s' : Session} {noisy : Bool}
    (h : resolvePass r s = (.ok noisy, s')) :
    ∃ pending, loadEach r s s.order = (.ok pending, s') ∧
      noisy = (pending || decide (s.order.length < s'.order.length)) := by
  rw [resolvePass] at h
  generalize heach : loadEach r s s.order = out at h
  obtain ⟨result, s₁⟩ := out
  cases result with
  | error e => cases h
  | ok pending =>
    cases h
    exact ⟨pending, rfl, rfl⟩

/-! ## Steps -/

/-- One step. From outside come only features in `F` and identities in `P`. -/
inductive Step (r : Registry) (F : Set String) (P : Set PackageId) : Session → Session → Prop
  | feature (s : Session) {name : String} (h : name ∈ F) : Step r F P s (s.addFeature name).2
  | package (s : Session) {id : PackageId} (h : id ∈ P) (hp : (r.package? id).isSome) :
      Step r F P s (addPackage r s id).2
  | load (s : Session) (id : PackageId) : Step r F P s (loadPackage r s id).2
  | flags (s : Session) (id : PackageId) : Step r F P s (compilerInfo r s id).2

/-- Any number of steps. -/
abbrev Steps (r : Registry) (F : Set String) (P : Set PackageId) : Session → Session → Prop :=
  Relation.ReflTransGen (Step r F P)

variable {r : Registry} {F : Set String} {P : Set PackageId} {s s' : Session}

/-- Steps to the session after an operation, where what the operation comes to is known. -/
theorem Steps.of_eq {α : Type} {o : Outcome α} {x : Except ResolutionError α} (h : o = (x, s'))
    (steps : Steps r F P s o.2) : Steps r F P s s' := by
  rw [h] at steps
  exact steps

/-- An addition either changes nothing, as the registry does not hold the package, or is a step. -/
theorem addPackage_steps (s : Session) {id : PackageId} (h : (r.package? id).isSome → id ∈ P) :
    Steps r F P s (addPackage r s id).2 := by
  cases hp : r.package? id with
  | none => simp only [addPackage, hp]; exact .refl
  | some p =>
    have known : (r.package? id).isSome := by simp [hp]
    exact .single (.package s (h known) known)

theorem addRoot_steps (s : Session) (entry : String)
    (h : ∀ d id, r.Means Descriptor.localRepo entry d id → (r.package? id).isSome → id ∈ P) :
    Steps r F P s (addRoot r s entry).2 := by
  rw [addRoot]
  split
  · exact .refl
  · next d id he => exact addPackage_steps s (h d id (resolveEntry_eq_ok.1 he))

theorem loadPackage_steps (s : Session) (id : PackageId) : Steps r F P s (loadPackage r s id).2 :=
  .single (.load s id)

theorem loadEach_steps (s : Session) (ids : List PackageId) :
    Steps r F P s (loadEach r s ids).2 := by
  induction ids generalizing s with
  | nil => exact .refl
  | cons id ids ih =>
    rw [loadEach]
    split
    · next e s₁ he => exact (loadPackage_steps s id).of_eq he
    · next state s₁ he =>
      have first : Steps r F P s s₁ := (loadPackage_steps s id).of_eq he
      exact first.trans (ih s₁)

theorem resolvePass_steps (s : Session) : Steps r F P s (resolvePass r s).2 :=
  loadEach_steps s s.order

theorem resolveWithin_steps (s : Session) (passes fuel : Nat) :
    Steps r F P s (resolveWithin r s passes fuel).2 := by
  induction fuel generalizing s passes with
  | zero => exact .refl
  | succ fuel ih =>
    rw [resolveWithin]
    split
    · next e s₁ he => exact (resolvePass_steps s).of_eq he
    · next s₁ he => exact (resolvePass_steps s).of_eq he
    · next s₁ he =>
      have first : Steps r F P s s₁ := (resolvePass_steps s).of_eq he
      exact first.trans (ih s₁ _)

theorem resolve_steps (s : Session) : Steps r F P s (resolve r s).2 := resolveWithin_steps s 0 _

theorem addRoots_steps (s : Session) (entries : List String) :
    Steps r Set.univ r.held s (addRoots r s entries).2 := by
  induction entries generalizing s with
  | nil => exact .refl
  | cons entry entries ih =>
    have first : Steps r Set.univ r.held s (addRoot r s entry).2 :=
      addRoot_steps s entry fun _ _ _ held => held
    rw [addRoots]
    split
    · next e s₁ he => exact first.of_eq he
    · next id s₁ he => exact (first.of_eq he).trans (ih s₁)

theorem addRoots_singleton (r : Registry) (s : Session) (entry : String) :
    (addRoots r s [entry]).2 = (addRoot r s entry).2 := by
  rw [addRoots]
  split <;> simp_all [addRoots]

/-- Every operation is a sequence of steps, and registers packages of the registry only. -/
theorem steps_perform (r : Registry) (s : Session) (op : Operation) :
    Steps r Set.univ r.held s (perform r s op) := by
  cases op with
  | addFeature name => exact .single (.feature s (Set.mem_univ name))
  | addPackage id => exact addPackage_steps s fun held => held
  | addRoot entry => exact addRoot_steps s entry fun _ _ _ held => held
  | seedTarget => exact addRoots_steps s s.target.packages
  | loadPackage id => exact .single (.load s id)
  | resolvePass => exact resolvePass_steps s
  | resolve => exact resolve_steps s
  | compilerInfo id => exact .single (.flags s id)

theorem performAll_steps (s : Session) (ops : List Operation)
    (h : ∀ op ∈ ops, ∀ s, Steps r F P s (perform r s op)) : Steps r F P s (performAll r s ops) := by
  induction ops generalizing s with
  | nil => exact .refl
  | cons op ops ih =>
    obtain ⟨first, rest⟩ := List.forall_mem_cons.1 h
    exact (first s).trans (ih (perform r s op) rest)

theorem steps_run (r : Registry) (t : Target) (ops : List Operation) :
    Steps r Set.univ r.held (start t) (run r t ops) :=
  performAll_steps (start t) ops fun op _ s => steps_perform r s op

theorem steps_run_resolve {t : Target} {ops : List Operation} {x : Except ResolutionError Summary}
    (h : resolve r (run r t ops) = (x, s')) : Steps r Set.univ r.held (start t) s' :=
  (steps_run r t ops).trans ((resolve_steps (run r t ops)).of_eq h)

/-- What is added comes in by the steps of a seeded session. -/
theorem seeded_steps (t : Target) {names : List String} {ids : List PackageId}
    (hF : ∀ x ∈ names, x ∈ F) (hP : ∀ id ∈ ids, id ∈ r.held → id ∈ P) :
    Steps r F P (start t) (seeded r t names ids) := by
  refine performAll_steps (start t) _ fun op hop s => ?_
  rcases List.mem_append.1 hop with feature | package
  · obtain ⟨name, hname, rfl⟩ := List.mem_map.1 feature
    exact .single (.feature s (hF name hname))
  · obtain ⟨id, hid, rfl⟩ := List.mem_map.1 package
    exact addPackage_steps s (hP id hid)

/-! ## Induction over steps -/

/-- `I` is kept by every step. Registration and attempts are seen without the members that are made
after them, which is a change of its own. -/
structure Kept (r : Registry) (F : Set String) (P : Set PackageId) (I : Session → Prop) : Prop where
  distinct : ∀ {s}, I s → s.Distinct
  feature : ∀ {s name}, name ∈ F → I s → I (s.addFeature name).2
  register : ∀ {s id}, id ∈ P → (r.package? id).isSome → I s →
    I { s with toShared := s.register id }
  make : ∀ {s}, I s → I (materialize r s).2
  attempt : ∀ {s m m' shared result}, s.member? m.id = some m → m.phase = .pending →
    Attempt r m s.toShared (result, shared, m') → I s → I (s.tried shared m')
  flags : ∀ {s m provides requires includes}, s.member? m.id = some m →
    m.phase = .loaded provides requires none → includePath r s m.id = .ok includes → I s →
    I (s.keepFlags m includes)

namespace Kept

variable {I : Session → Prop}

theorem load (h : Kept r F P I) {id : PackageId} (hs : I s) : I (loadPackage r s id).2 := by
  have cases := loads_loadPackage r (h.distinct hs) id
  revert cases
  generalize loadPackage r s id = out
  intro cases
  cases cases with
  | absent _ => exact hs
  | done _ _ => exact h.make hs
  | failed hm hp a => exact h.attempt (id_of_member? hm ▸ hm) hp a hs
  | tried hm hp a => exact h.make (h.attempt (id_of_member? hm ▸ hm) hp a hs)

theorem compilerInfo (h : Kept r F P I) {id : PackageId} (hs : I s) :
    I (compilerInfo r s id).2 := by
  rcases compilerInfo_cases r s id with same | ⟨m, provides, requires, includes, hm, hp, hi, e⟩
  · rw [same]
    exact hs
  · rw [e]
    exact h.flags hm hp hi hs

theorem step (h : Kept r F P I) (st : Step r F P s s') (hs : I s) : I s' := by
  cases st with
  | feature hn => exact h.feature hn hs
  | @package id hid hp =>
    obtain ⟨p, hp'⟩ := Option.isSome_iff_exists.1 hp
    simp only [addPackage, hp']
    exact h.make (h.register hid hp hs)
  | load id => exact h.load hs
  | flags id => exact h.compilerInfo hs

theorem steps (h : Kept r F P I) (st : Steps r F P s s') (hs : I s) : I s' := by
  induction st with
  | refl => exact hs
  | tail _ last ih => exact h.step last ih

end Kept

end Session
end PackageResolution

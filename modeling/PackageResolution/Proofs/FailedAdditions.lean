import PackageResolution.Proofs.Registration
/-!
# Additions that fail

An addition registers an identity and then makes the members that are missing, which stops at an
identity that the registry does not hold. With a closed registry no such identity is ever registered,
not even by a load attempt that fails. So an addition fails over what it is given or not at all, and
a failure comes before anything is registered. Where several texts are added, those before the one
that fails stay added.

Main statement: `additions_all_or_nothing`.
-/
namespace PackageResolution

namespace Session

variable {r : Registry} {s s' : Session} {id : PackageId} {entry : String} {entries : List String}
  {e : ResolutionError}

theorem Supplied.addPackage_eq_error (hs : Supplied r s) : addPackage r s id = (.error e, s') ↔
    r.package? id = none ∧ e = .notRegistered id.display ∧ s' = s := by
  by_cases held : id ∈ r.held
  · rw [addPackage_of_held hs.held held]
    constructor
    · intro h
      cases h
    · rintro ⟨none, -⟩
      simp [Registry.held, none] at held
  · have none : r.package? id = none := by simpa [Registry.held] using held
    rw [addPackage_of_not_held held]
    constructor
    · intro h
      cases h
      exact ⟨none, rfl, rfl⟩
    · rintro ⟨-, rfl, rfl⟩
      rfl

theorem Supplied.addRoot_of_means (hr : r.Closed) (hs : Supplied r s) {d : Descriptor}
    (h : r.Means Descriptor.localRepo entry d id) : addRoot r s entry =
      (.ok id, (materialize r { s with toShared := s.register id }).2) := by
  rw [addRoot, resolveEntry_eq_ok.2 h]
  dsimp only
  rw [addPackage_of_held hs.held (hr d id h.2)]
  rfl

theorem Supplied.addRoot_eq_error (hr : r.Closed) (hs : Supplied r s) :
    addRoot r s entry = (.error e, s') ↔
      r.Refuses s.target.display Descriptor.localRepo entry e ∧ s' = s := by
  rw [← resolveEntry_eq_error]
  cases he : resolveEntry r s.target.display Descriptor.localRepo entry with
  | error e' =>
    rw [addRoot, he]
    constructor
    · intro h
      cases h
      exact ⟨rfl, rfl⟩
    · rintro ⟨h, rfl⟩
      cases h
      rfl
  | ok found =>
    rw [hs.addRoot_of_means hr (resolveEntry_eq_ok.1 he)]
    constructor
    · intro h
      cases h
    · rintro ⟨h, -⟩
      cases h

theorem Supplied.addRoot_eq_ok (hr : r.Closed) (hs : Supplied r s)
    (h : addRoot r s entry = (.ok id, s')) :
    (∃ d, r.Means Descriptor.localRepo entry d id) ∧ s'.order = (s.register id).order := by
  cases he : resolveEntry r s.target.display Descriptor.localRepo entry with
  | error e =>
    rw [addRoot, he] at h
    cases h
  | ok found =>
    have means := resolveEntry_eq_ok.1 he
    rw [hs.addRoot_of_means hr means] at h
    cases h
    exact ⟨⟨_, means⟩, rfl⟩

/-! ## Texts one after another -/

theorem Supplied.addRoot (hr : r.Closed) (hs : Supplied r s) (entry : String) :
    Supplied r (addRoot r s entry).2 :=
  hs.steps hr (addRoot_steps s entry fun _ _ _ held => held)

/-- Adding texts one after another in `s` fails over `entry`: each text of `front` has been added,
and then adding `entry` fails and changes nothing. -/
structure StopsAt (r : Registry) (s : Session) (front : List String) (entry : String)
    (e : ResolutionError) (s' : Session) : Prop where
  added : ∀ x ∈ front, ∃ d id, r.Means Descriptor.localRepo x d id
  state : s' = performAll r s (front.map .addRoot)
  failed : addRoot r s' entry = (.error e, s')

theorem addRoots_of_stopsAt (hr : r.Closed) (hs : Supplied r s) {front back : List String}
    (h : StopsAt r s front entry e s') : addRoots r s (front ++ entry :: back) = (.error e, s') := by
  induction front generalizing s with
  | nil =>
    obtain rfl : s' = s := h.state
    rw [List.nil_append, addRoots, h.failed]
  | cons x front ih =>
    obtain ⟨⟨d, id, means⟩, added⟩ := List.forall_mem_cons.1 h.added
    have first := hs.addRoot_of_means hr means
    have rest := ih (hs.addRoot hr x) ⟨added, h.state, h.failed⟩
    rw [first] at rest
    rw [List.cons_append, addRoots, first]
    simp only [rest]
    rfl

theorem stopsAt_of_addRoots (hr : r.Closed) (hs : Supplied r s)
    (h : addRoots r s entries = (.error e, s')) :
    ∃ front entry back, entries = front ++ entry :: back ∧ StopsAt r s front entry e s' := by
  induction entries generalizing s with
  | nil => cases h
  | cons x entries ih =>
    rw [addRoots] at h
    split at h
    · next e' s₁ failed =>
      cases h
      obtain ⟨-, rfl⟩ := (hs.addRoot_eq_error hr).1 failed
      exact ⟨[], x, entries, rfl, by simp, rfl, failed⟩
    · next id s₁ first =>
      have hs₁ := hs.addRoot hr x
      rw [first] at hs₁
      generalize hout : addRoots r s₁ entries = out at h
      obtain ⟨result, s₂⟩ := out
      cases result with
      | ok ids => cases h
      | error e' =>
        cases h
        obtain ⟨⟨d, means⟩, -⟩ := hs.addRoot_eq_ok hr first
        obtain ⟨front, entry, back, rfl, stops⟩ := ih hs₁ hout
        refine ⟨x :: front, entry, back, rfl, ?_, ?_, stops.failed⟩
        · exact List.forall_mem_cons.2 ⟨⟨d, id, means⟩, stops.added⟩
        · have next : perform r s (.addRoot x) = s₁ := congrArg Prod.snd first
          rw [stops.state, ← next]
          rfl

/-- Adding texts one after another fails over the first of them that cannot be added. -/
theorem Supplied.addRoots_eq_error (hr : r.Closed) (hs : Supplied r s) :
    addRoots r s entries = (.error e, s') ↔
      ∃ front entry back, entries = front ++ entry :: back ∧ StopsAt r s front entry e s' := by
  constructor
  · exact stopsAt_of_addRoots hr hs
  · rintro ⟨front, entry, back, rfl, stops⟩
    exact addRoots_of_stopsAt hr hs stops

/-- **`additions_all_or_nothing`**: with a closed registry, in every session that operations can lead
to, an addition fails exactly over an identity that the registry does not hold, or over a text that
cannot be read or that the registry has no answer for, and then it changes nothing. Adding what the
target names fails exactly over one of its texts, and then all before it is added and nothing else. -/
theorem additions_all_or_nothing (r : Registry) (hr : r.Closed) (t : Target) (ops : List Operation)
    (e : ResolutionError) (s' : Session) :
    (∀ id, addPackage r (run r t ops) id = (.error e, s') ↔
      r.package? id = none ∧ e = .notRegistered id.display ∧ s' = run r t ops) ∧
    (∀ entry, addRoot r (run r t ops) entry = (.error e, s') ↔
      r.Refuses t.display Descriptor.localRepo entry e ∧ s' = run r t ops) ∧
    (seedTarget r (run r t ops) = (.error e, s') ↔ ∃ front entry back,
      t.packages = front ++ entry :: back ∧ StopsAt r (run r t ops) front entry e s') := by
  have hs := (Supplied.start r t).steps hr (steps_run r t ops)
  refine ⟨fun id => hs.addPackage_eq_error, fun entry => ?_, ?_⟩
  · rw [hs.addRoot_eq_error hr, run_target]
  · rw [seedTarget, hs.addRoots_eq_error hr, run_target]

/-- A target that names a package of `missingDep`, one that is not there, and another package. -/
def threeNames : Target := ⟨"t", "arm", ["a", "nowhere", "b"], []⟩

/-- A session for it in which an attempt for `a` has registered `b` and then failed. -/
def leftBehind : Session :=
  run Project.missingDep.registry threeNames [.addPackage (.ofIndex 0), .loadPackage (.ofIndex 0)]

/-- There the member of `b` is missing. Adding an identity that is not held changes nothing. Adding
what the target names fails over the second text, after adding `a` has made that member. -/
theorem additions_all_or_nothing_missingDep :
    Project.missingDep.registry.Closed ∧
      (PackageId.ofIndex 1 ∈ leftBehind.order ∧ leftBehind.isRegistered (.ofIndex 1) = false) ∧
      addPackage Project.missingDep.registry leftBehind (.ofIndex 2) =
        (.error (.notRegistered (PackageId.ofIndex 2).display), leftBehind) ∧
      addRoot Project.missingDep.registry leftBehind "nowhere" =
        (.error (.unresolvedDependency "target t" "@local/nowhere"), leftBehind) ∧
      ∃ front entry back s', threeNames.packages = front ++ entry :: back ∧
        StopsAt Project.missingDep.registry leftBehind front entry
          (.unresolvedDependency "target t" "@local/nowhere") s' := by
  have closed := Project.closed_missingDep
  have stays (e : ResolutionError) (s' : Session) :=
    additions_all_or_nothing Project.missingDep.registry closed threeNames
      [.addPackage (.ofIndex 0), .loadPackage (.ofIndex 0)] e s'
  have unknown : Project.missingDep.registry.package? (.ofIndex 2) = none := by decide
  have refused : Project.missingDep.registry.Refuses "target t" Descriptor.localRepo "nowhere"
      (.unresolvedDependency "target t" "@local/nowhere") :=
    .unresolved (d := ⟨"local", "nowhere"⟩) (by decide) (by decide)
  have failed : (seedTarget Project.missingDep.registry leftBehind).1 =
      .error (.unresolvedDependency "target t" "@local/nowhere") := by
    decide
  obtain ⟨front, entry, back, names, stops⟩ := (stays _ _).2.2.1 (Prod.ext failed rfl)
  exact ⟨closed, by decide, ((stays _ _).1 _).2 ⟨unknown, rfl, rfl⟩,
    ((stays _ _).2.1 _).2 ⟨refused, rfl⟩, front, entry, back, _, names, stops⟩

end Session
end PackageResolution

import PackageResolution.Proofs.AppendOnly
import PackageResolution.Proofs.Closure
import PackageResolution.Proofs.Quiescence
/-!
# Whether kept flags are fresh

The flags of a package are put together when they are first asked for, and kept. All that this asks
for is that the package itself is loaded. The features may grow after that, and the packages below
may still find dependencies, but flags that are kept are not looked at again. After resolution they
are those that would be put together then exactly if nothing that they are made of has changed.

Main statement: `compilerInfo_eq_assembled_iff`.
-/
namespace PackageResolution

/-- A project of three packages: `a` depends on `b` and has a flag for the feature `x`, and `b`
enables it and depends on `c`. -/
def Project.lateFlag : Project := .holding "flag" "flag" [
  ⟨"a", Descriptor.localRepo, "flag/a", none,
    (({} : Settings).add .deps ["b"]).addScoped "x" .cflags ["-DX"]⟩,
  ⟨"b", Descriptor.localRepo, "flag/b", none,
    (({} : Settings).add .features ["x"]).add .deps ["c"]⟩,
  ⟨"c", Descriptor.localRepo, "flag/c", none, {}⟩]

namespace Package

theorem length_publicIncludes (p : Package) (arch : String) : (p.publicIncludes arch).length = 2 := rfl

theorem length_privateIncludes (p : Package) (arch : String) (features : FeatureSet) :
    (p.privateIncludes arch features).length = if features.isTest then 4 else 2 := by
  unfold privateIncludes
  split <;> rfl

/-- Of the features, only the test feature matters for the private directories. -/
theorem privateIncludes_congr (p : Package) (arch : String) {F G : FeatureSet}
    (h : F.isTest = G.isTest) : p.privateIncludes arch F = p.privateIncludes arch G := by
  unfold privateIncludes
  rw [h]

end Package

namespace Member

/-- The three readings are made under the same features. -/
theorem fst_assemble (m : Member) (dirs : List Path) (s : Shared) : (m.assemble dirs s).1 =
    ⟨m.package.settings.values .cflags s.features, m.package.settings.values .lflags s.features,
      m.package.settings.values .aflags s.features, dirs⟩ := rfl

theorem assemble_eq_iff {m m' : Member} {s s' : Shared} {dirs dirs' : List Path}
    (package : m'.package = m.package) (grown : s.features ⊆ s'.features) :
    (m.assemble dirs s).1 = (m'.assemble dirs' s').1 ↔
      (∀ k ∈ [Settings.Key.cflags, .lflags, .aflags],
        m.package.settings.gained s.features s'.features k = []) ∧ dirs = dirs' := by
  simp [fst_assemble, package, Settings.values_eq_iff_gained grown, and_assoc]

end Member

namespace Session

variable {r : Registry} {F : Set String} {P : Set PackageId} {s s' u : Session} {id : PackageId}

/-! ## The parts of flags -/

/-- The public directories of a closure, package by package. -/
def closureIncludes (r : Registry) (s : Session) (id : PackageId) :
    Except ResolutionError (List Path) := do
  return (← (← collectDeps r s id).mapM (publicIncludes r s)).flatten

/-- The flags as they would be put together in this session, whatever it keeps. -/
def assembled (r : Registry) (s : Session) (id : PackageId) :
    Except ResolutionError CompilerInfo := do
  return ((← requireMember r s id).assemble (← includePath r s id) s.toShared).1

theorem includePath_of_member {m : Member} (hm : s.member? id = some m) :
    includePath r s id =
      (closureIncludes r s id).map (m.package.privateIncludes s.target.arch s.features ++ ·) := by
  simp only [includePath, privateIncludes, requireMember, hm, closureIncludes]
  cases collectDeps r s id with
  | error e => rfl
  | ok l =>
    show (do return _ ++ (← l.mapM (publicIncludes r s)).flatten) = _
    cases h : l.mapM (publicIncludes r s) with
    | error e => simp [h, bind, Except.bind, Except.map]
    | ok dirs => simp [h, bind, Except.bind, Except.map, pure, Except.pure]

theorem assembled_of_member {m : Member} (hm : s.member? id = some m) :
    assembled r s id = (includePath r s id).map fun dirs => (m.assemble dirs s.toShared).1 := by
  simp only [assembled, requireMember, hm]
  rfl

/-- The public directories of some packages are asked for one package after another. -/
theorem mapM_publicIncludes (hs : Consistent r s) {l : List PackageId}
    (h : ∀ x ∈ l, ∃ m, s.member? x = some m) : ∃ ps : List Package, l.map r.package? = ps.map some ∧
      l.mapM (publicIncludes r s) = .ok (ps.map (·.publicIncludes s.target.arch)) := by
  induction l with
  | nil => exact ⟨[], rfl, rfl⟩
  | cons id ids ih =>
    obtain ⟨⟨m, hm⟩, rest⟩ := List.forall_mem_cons.1 h
    obtain ⟨ps, packages, ok⟩ := ih rest
    refine ⟨m.package :: ps, ?_, ?_⟩
    · rw [List.map_cons, List.map_cons, (hs.of_member? hm).2, packages]
    · have here : publicIncludes r s id = .ok (m.package.publicIncludes s.target.arch) := by
        simp only [publicIncludes, requireMember, hm]
        rfl
      rw [List.mapM_cons, here, ok]
      rfl

/-- The directories of a closure are those of its packages, or there is something reached that has no
member. -/
theorem closureIncludes_cases (hs : Consistent r s) (id : PackageId) :
    (∃ (l : List PackageId) (ps : List Package), collectDeps r s id = .ok l ∧ IsClosure r s id l ∧
      l.map r.package? = ps.map some ∧
      closureIncludes r s id = .ok (ps.flatMap (·.publicIncludes s.target.arch))) ∨
    ∃ x, closureIncludes r s id = .error (.notRegistered (r.describe x)) ∧ Reached r s {id} x ∧
      s.isRegistered x = false := by
  rcases collectDeps_cases hs id with ⟨l, ok, closure⟩ | ⟨x, stop, lost⟩
  · obtain ⟨ps, packages, dirs⟩ := mapM_publicIncludes hs closure.members
    refine .inl ⟨l, ps, ok, closure, packages, ?_⟩
    rw [closureIncludes, ok, List.flatMap_def]
    show (do return (← l.mapM (publicIncludes r s)).flatten) = _
    rw [dirs]
    rfl
  · refine .inr ⟨x, ?_, lost⟩
    rw [closureIncludes, stop]
    rfl

theorem closure_of_closureIncludes (hs : Consistent r s) {dirs : List Path}
    (h : closureIncludes r s id = .ok dirs) :
    ∃ (l : List PackageId) (ps : List Package), collectDeps r s id = .ok l ∧ IsClosure r s id l ∧
      l.map r.package? = ps.map some ∧
      dirs = ps.flatMap (·.publicIncludes s.target.arch) := by
  rcases closureIncludes_cases hs id with ⟨l, ps, ok, closure, packages, dirs'⟩ | ⟨x, stop, -⟩
  · exact ⟨l, ps, ok, closure, packages, Except.ok.inj (h.symm.trans dirs')⟩
  · rw [stop] at h
    cases h

/-- The directories of a closure are two for each package of it. -/
theorem length_of_closureIncludes (hs : Consistent r s) {dirs : List Path}
    (h : closureIncludes r s id = .ok dirs) :
    ∃ l, IsClosure r s id l ∧ dirs.length = 2 * l.length := by
  obtain ⟨l, ps, -, closure, packages, rfl⟩ := closure_of_closureIncludes hs h
  have length := congrArg List.length packages
  rw [List.length_map, List.length_map] at length
  refine ⟨l, closure, ?_⟩
  simp only [List.length_flatMap, Package.length_publicIncludes, List.map_const',
    List.sum_replicate_nat, length]
  omega

theorem assembled_eq_ok_iff {ci : CompilerInfo} :
    assembled r s id = .ok ci ↔ ∃ m dirs, s.member? id = some m ∧
      closureIncludes r s id = .ok dirs ∧
      ci = (m.assemble (m.package.privateIncludes s.target.arch s.features ++ dirs)
        s.toShared).1 := by
  cases hm : s.member? id with
  | none =>
    simp only [assembled, requireMember, hm]
    constructor
    · intro h
      cases h
    · rintro ⟨m, dirs, absent, -⟩
      cases absent
  | some m =>
    rw [assembled_of_member hm, includePath_of_member hm]
    cases closureIncludes r s id with
    | error e =>
      constructor
      · intro h
        cases h
      · rintro ⟨m', dirs, -, failed, -⟩
        cases failed
    | ok dirs =>
      constructor
      · intro h
        exact ⟨m, dirs, rfl, rfl, (Except.ok.inj h).symm⟩
      · rintro ⟨m', dirs', hm', hdirs, rfl⟩
        obtain rfl := Option.some.inj hm'
        obtain rfl := Except.ok.inj hdirs
        rfl

/-- What recorded dependencies lead to from the registered packages of a finished session stays the
same, whatever is registered later. -/
theorem Finished.mem_order_of_reached (h : s.Finished) (hs : Consistent r s) (grows : Grows s s')
    (hid : id ∈ s.order) {x : PackageId} (reached : Reached r s' {id} x) : x ∈ s.order := by
  apply reached.mem (Q := {y | y ∈ s.order})
  · rintro y rfl
    exact hid
  · intro y hy d hd z hz
    obtain ⟨m, hm, hl⟩ := h y hy
    obtain ⟨m', hm', grown⟩ := grows.members hm
    have old : s.records y d = true := by
      rw [records_of_member? hm', (grown.loaded hl).2.1] at hd
      exact (records_of_member? hm).2 hd
    exact hs.mem_order_of_dep old hz

/-- In a finished session there are flags to put together for every registered package. -/
theorem Finished.exists_assembled (hs : Consistent r s) (h : s.Finished) (hid : id ∈ s.order) :
    ∃ ci, assembled r s id = .ok ci := by
  obtain ⟨m, hm, -⟩ := h id hid
  rcases closureIncludes_cases hs id with ⟨l, ps, -, -, -, dirs⟩ | ⟨x, -, reached, absent⟩
  · exact ⟨_, assembled_eq_ok_iff.2 ⟨m, _, hm, dirs, rfl⟩⟩
  · obtain ⟨m', hm', -⟩ := h x (h.mem_order_of_reached hs (.refl s) hid reached)
    rw [isRegistered_of_member? hm'] at absent
    cases absent

/-! ## Comparing two sessions -/

/-- What the flags of `id` are made of is the same in two sessions. -/
structure SameParts (r : Registry) (s s' : Session) (id : PackageId) : Prop where
  flags : ∀ p, r.package? id = some p → ∀ k ∈ [Settings.Key.cflags, .lflags, .aflags],
    p.settings.gained s.features s'.features k = []
  test : s.features.isTest = s'.features.isTest
  closure : closureIncludes r s id = closureIncludes r s' id

/-- A closure only grows. -/
theorem IsClosure.length_le {l l' : List PackageId} (hg : Grows s s') (h : IsClosure r s id l)
    (h' : IsClosure r s' id l') : l.length ≤ l'.length := by
  apply List.Subperm.length_le
  apply h.nodup.subperm
  intro x hx
  exact (h'.mem_iff x).2 (((h.mem_iff x).1 hx).grow hg)

/-- The private directories do not hide a change of the others: both lists only grow. -/
theorem includes_eq_iff {p : Package} {arch : String} {F G : FeatureSet} {dirs dirs' : List Path}
    (hFG : F ⊆ G) (length_le : dirs.length ≤ dirs'.length) :
    p.privateIncludes arch F ++ dirs = p.privateIncludes arch G ++ dirs' ↔
      F.isTest = G.isTest ∧ dirs = dirs' := by
  constructor
  · intro same
    have lengths := congrArg List.length same
    simp only [List.length_append, Package.length_privateIncludes] at lengths
    have test : F.isTest = G.isTest := by
      cases hF : F.isTest with
      | true => rw [FeatureSet.isTest_mono hFG hF]
      | false =>
        cases hG : G.isTest with
        | false => rfl
        | true =>
          simp only [hF, hG, if_true, Bool.false_eq_true, if_false] at lengths
          omega
    rw [p.privateIncludes_congr arch test] at same
    exact ⟨test, List.append_cancel_left same⟩
  · rintro ⟨test, rfl⟩
    rw [p.privateIncludes_congr arch test]

/-- What is put together in two sessions is the same exactly if its parts are. -/
theorem assembled_eq_iff (steps : Steps r F P s s') (hs : Consistent r s) {ci ci' : CompilerInfo}
    (h : assembled r s id = .ok ci) (h' : assembled r s' id = .ok ci') :
    ci = ci' ↔ SameParts r s s' id := by
  have hs' := steps.consistent hs
  have grows := steps.grows hs.distinct
  obtain ⟨m, dirs, hm, hdirs, rfl⟩ := assembled_eq_ok_iff.1 h
  obtain ⟨m', dirs', hm', hdirs', rfl⟩ := assembled_eq_ok_iff.1 h'
  obtain ⟨x, hx, grown⟩ := grows.members hm
  obtain rfl := Option.some.inj (hm'.symm.trans hx)
  have held := (hs.of_member? hm).2
  have length_le : dirs.length ≤ dirs'.length := by
    obtain ⟨l, closure, length⟩ := length_of_closureIncludes hs hdirs
    obtain ⟨l', closure', length'⟩ := length_of_closureIncludes hs' hdirs'
    have := closure.length_le grows closure'
    omega
  rw [Member.assemble_eq_iff grown.package grows.features, grown.package, steps.target_eq hs,
    includes_eq_iff grows.features length_le]
  constructor
  · rintro ⟨flags, test, rfl⟩
    refine ⟨fun p hp => ?_, test, hdirs.trans hdirs'.symm⟩
    obtain rfl := Option.some.inj (held.symm.trans hp)
    exact flags
  · intro same
    refine ⟨same.flags m.package held, same.test, ?_⟩
    exact Except.ok.inj (hdirs.symm.trans (same.closure.trans hdirs'))

/-! ## Requests -/

/-- The package of an identity is loaded and keeps no flags. -/
def Blank (s : Session) (id : PackageId) : Prop :=
  ∃ m provides requires, s.member? id = some m ∧ m.phase = .loaded provides requires none

theorem blank_or_flagged {m : Member} (hm : s.member? id = some m) (hl : m.isLoaded = true) :
    s.Blank id ∨ ∃ ci, s.Flagged id ci := by
  cases hp : m.phase with
  | pending => simp [Member.isLoaded, hp] at hl
  | loaded provides requires flags =>
    cases flags with
    | none => exact .inl ⟨m, provides, requires, hm, hp⟩
    | some ci => exact .inr ⟨ci, m, hm, by simp only [Member.flags, hp]⟩

theorem Blank.not_flagged (h : s.Blank id) (ci : CompilerInfo) : ¬ s.Flagged id ci := by
  obtain ⟨m, provides, requires, hm, hp⟩ := h
  exact not_flagged_of_none hm (by simp only [Member.flags, hp]) ci

theorem Flagged.unique {ci ci' : CompilerInfo} (h : s.Flagged id ci) (h' : s.Flagged id ci') :
    ci = ci' := by
  obtain ⟨m, hm, hf⟩ := h
  obtain ⟨m', hm', hf'⟩ := h'
  obtain rfl := Option.some.inj (hm.symm.trans hm')
  exact Option.some.inj (hf.symm.trans hf')

theorem flagged_keepFlags {m : Member} {provides requires : List String} (includes : List Path)
    (hm : s.member? m.id = some m) (hp : m.phase = .loaded provides requires none) :
    (s.keepFlags m includes).Flagged m.id (m.assemble includes s.toShared).1 := by
  refine ⟨_, member?_keepFlags_self hm includes, ?_⟩
  rw [Member.keep_of_blank hp]
  rfl

/-- The ways a request for flags can go. -/
inductive Request (r : Registry) (s : Session) (id : PackageId) : Outcome CompilerInfo → Prop
  | refused {e : ResolutionError} (h : ∀ ci, ¬ s.Flagged id ci)
      (failed : s.Blank id → assembled r s id = .error e) : Request r s id (.error e, s)
  | kept {ci : CompilerInfo} (h : s.Flagged id ci) : Request r s id (.ok ci, s)
  | put {ci : CompilerInfo} {s' : Session} (blank : s.Blank id) (h : assembled r s id = .ok ci)
      (flagged : s'.Flagged id ci) (others : ∀ x, x ≠ id → s'.member? x = s.member? x) :
      Request r s id (.ok ci, s')

theorem request_compilerInfo (r : Registry) (s : Session) (id : PackageId) :
    Request r s id (compilerInfo r s id) := by
  rw [compilerInfo_eq, requireMember]
  cases hm : s.member? id with
  | none =>
    refine .refused ?_ ?_
    · rintro ci ⟨m, hm', -⟩
      cases hm.symm.trans hm'
    · rintro ⟨m, provides, requires, hm', -⟩
      cases hm.symm.trans hm'
  | some m =>
    obtain rfl := id_of_member? hm
    have answer := assembled_of_member (r := r) hm
    dsimp only
    split
    · next hp =>
      refine .refused (not_flagged_of_none hm (by simp only [Member.flags, hp])) ?_
      rintro ⟨m', provides, requires, hm', hp'⟩
      obtain rfl := Option.some.inj (hm.symm.trans hm')
      rw [hp] at hp'
      cases hp'
    · next ci hp => exact .kept ⟨m, hm, by simp only [Member.flags, hp]⟩
    · next provides requires hp =>
      have blank : s.Blank m.id := ⟨m, provides, requires, hm, hp⟩
      split
      · next e he =>
        rw [he] at answer
        exact .refused blank.not_flagged fun _ => answer
      · next includes hi =>
        rw [hi] at answer
        refine .put blank answer (flagged_keepFlags includes hm hp) ?_
        exact fun x hx => member?_keepFlags_of_ne hx includes

theorem compilerInfo_of_flagged {ci : CompilerInfo} (h : s.Flagged id ci) :
    (compilerInfo r s id).1 = .ok ci := by
  have request := request_compilerInfo r s id
  generalize compilerInfo r s id = out at request ⊢
  cases request with
  | refused none _ => exact absurd h (none ci)
  | kept h' => rw [h.unique h']
  | put blank _ _ _ => exact absurd h (blank.not_flagged ci)

theorem compilerInfo_of_blank (h : s.Blank id) : (compilerInfo r s id).1 = assembled r s id := by
  have request := request_compilerInfo r s id
  generalize compilerInfo r s id = out at request ⊢
  cases request with
  | refused _ failed => exact (failed h).symm
  | kept h' => exact absurd h' (h.not_flagged _)
  | put _ ok _ _ => exact ok.symm

/-! ## When flags are put together -/

theorem Flagged.of_make {ci : CompilerInfo} (h : (materialize r s).2.Flagged id ci) :
    s.Flagged id ci := by
  obtain ⟨m, hm, hf⟩ := h
  rcases member?_materialize hm with old | ⟨-, -, fresh⟩
  · exact ⟨m, old, hf⟩
  · simp [Member.flags, fresh.phase] at hf

theorem flags_of_attempt {m m' : Member} {shared out : Shared}
    {result : Except ResolutionError LoadState} (hp : m.phase = .pending)
    (a : Attempt r m shared (result, out, m')) : m'.flags = none := by
  cases a with
  | failed e t _ _ =>
    have still : (m.extend t).phase = .pending := hp
    simp only [Member.flags, still]
  | pending t _ _ _ =>
    have still : (m.extend t).phase = .pending := hp
    simp only [Member.flags, still]
  | loaded _ _ => rfl

theorem Flagged.of_tried {m m' : Member} {shared : Shared}
    {result : Except ResolutionError LoadState} {ci : CompilerInfo} (hm : s.member? m.id = some m)
    (hp : m.phase = .pending) (a : Attempt r m s.toShared (result, shared, m'))
    (h : (s.tried shared m').Flagged id ci) : s.Flagged id ci := by
  have found : (s.tried shared m').member? m'.id = some m' := a.id_eq ▸ member?_tried hm a.id_eq
  have other := h.ne found (flags_of_attempt hp a)
  obtain ⟨x, hx, hf⟩ := h
  exact ⟨x, (member?_tried_of_ne other).symm.trans hx, hf⟩

/-- Load attempts put no flags together. -/
theorem Flagged.of_load {id' : PackageId} {ci : CompilerInfo} (hs : Consistent r s)
    (h : (loadPackage r s id').2.Flagged id ci) : s.Flagged id ci := by
  have cases := loads_loadPackage r hs.distinct id'
  generalize loadPackage r s id' = out at h cases
  cases cases with
  | absent _ => exact h
  | done _ _ => exact h.of_make
  | failed hm hp a => exact h.of_tried (id_of_member? hm ▸ hm) hp a
  | tried hm hp a => exact h.of_make.of_tried (id_of_member? hm ▸ hm) hp a

/-- On a way from `s` to `s'` the flags of `id` are put together in the session `u`. -/
structure PutTogether (r : Registry) (s s' : Session) (id : PackageId) (u : Session) : Prop where
  before : Steps r Set.univ r.held s u
  blank : u.Blank id
  answered : ∃ ci, (compilerInfo r u id).1 = .ok ci
  after : Steps r Set.univ r.held (compilerInfo r u id).2 s'

/-- Flags that a step leaves behind were kept before, or the step has put them together. -/
theorem flagged_of_step (st : Step r Set.univ r.held s s') (hs : Consistent r s) {ci : CompilerInfo}
    (h : s'.Flagged id ci) : s.Flagged id ci ∨ PutTogether r s s' id s := by
  cases st with
  | feature _ => exact .inl h
  | @package id' _ hp =>
    obtain ⟨p, hp⟩ := Option.isSome_iff_exists.1 hp
    simp only [addPackage, hp] at h
    exact .inl h.of_make
  | load id' => exact .inl (h.of_load hs)
  | flags id' =>
    have request := request_compilerInfo r s id'
    generalize hout : compilerInfo r s id' = out at h request
    cases request with
    | refused _ _ => exact .inl h
    | kept _ => exact .inl h
    | @put ci' s' blank ok flagged others =>
      by_cases own : id = id'
      · subst own
        exact .inr ⟨.refl, blank, ⟨ci', by rw [hout]⟩, by rw [hout]⟩
      · obtain ⟨m, hm, hf⟩ := h
        exact .inl ⟨m, (others id own).symm.trans hm, hf⟩

theorem PutTogether.trans (h : PutTogether r s s' id u) {s'' : Session}
    (h' : Steps r Set.univ r.held s' s'') : PutTogether r s s'' id u :=
  ⟨h.before, h.blank, h.answered, h.after.trans h'⟩

/-- Flags that are kept in the end were put together on the way. -/
theorem Steps.exists_putTogether (h : Steps r Set.univ r.held s s') (hs : Consistent r s)
    (begin : ∀ ci, ¬ s.Flagged id ci) {ci : CompilerInfo} (hf : s'.Flagged id ci) :
    ∃ u, PutTogether r s s' id u := by
  induction h with
  | refl => exact absurd hf (begin ci)
  | @tail v s' before last ih =>
    have hv : Consistent r v := Steps.consistent before hs
    rcases flagged_of_step last hv hf with kept | put
    · obtain ⟨u, put⟩ := ih kept
      exact ⟨u, put.trans (.single last)⟩
    · exact ⟨v, before, put.blank, put.answered, put.after⟩

/-- What was put together on the way is kept in the end. -/
theorem PutTogether.flagged (h : PutTogether r s s' id u) (hs : Consistent r s) :
    ∃ ci, assembled r u id = .ok ci ∧ s'.Flagged id ci := by
  obtain ⟨ci, ok⟩ := h.answered
  have hu := h.before.consistent hs
  have after := h.after
  have asking : Steps r ∅ ∅ u (compilerInfo r u id).2 := .single (.flags u id)
  have next := asking.consistent hu
  have request := request_compilerInfo r u id
  clear asking
  generalize compilerInfo r u id = out at ok after next request
  cases request with
  | refused _ _ => cases ok
  | kept kept => exact absurd kept (h.blank.not_flagged _)
  | @put ci' v _ ok' flagged _ => exact ⟨ci', ok', after.flagged next flagged⟩

/-! ## Flags that are asked for early -/

/-- The session of `lateFlag` in which `a` is loaded and `b` is not. -/
def halfLoaded : Session :=
  runOn .lateFlag [.addPackage (.ofIndex 0), .loadPackage (.ofIndex 0), .loadPackage (.ofIndex 0)]

/-- What resolution of `lateFlag` comes to if the flags of `a` are asked for before `b` is loaded. -/
def lateFlagOutcome : Outcome Summary :=
  resolve Project.lateFlag.registry (runOn .lateFlag [.addPackage (.ofIndex 0),
    .loadPackage (.ofIndex 0), .loadPackage (.ofIndex 0), .compilerInfo (.ofIndex 0)])

/-- The member of `a` in that session. -/
def halfLoadedMember : Member :=
  ⟨.ofIndex 0, Project.lateFlag.packages[0], [⟨"local", "b"⟩], .loaded [] [] none⟩

/-- The flags of `a` in that session. -/
def earlyFlags : CompilerInfo where
  includes := ["flag/a/src", "flag/a/src/arch/arm", "flag/a/include",
    "flag/a/include/a/arch/arm", "flag/b/include", "flag/b/include/b/arch/arm"]

theorem compilerInfo_halfLoaded :
    compilerInfo Project.lateFlag.registry halfLoaded (.ofIndex 0) =
      (.ok earlyFlags, halfLoaded.keepFlags halfLoadedMember earlyFlags.includes) := by
  have member : halfLoaded.member? (.ofIndex 0) = some halfLoadedMember := by decide
  have closure : collectDeps Project.lateFlag.registry halfLoaded (.ofIndex 0) =
      .ok [.ofIndex 0, .ofIndex 1] := by
    refine Discovers.collectDeps_eq ?_ (run_consistent _ _ _)
    exact .expand [.ofIndex 1] (by decide) (by decide)
      (.expand [] (by decide) (by decide) .done .done) .done
  have includes : includePath Project.lateFlag.registry halfLoaded (.ofIndex 0) =
      .ok earlyFlags.includes := by
    rw [includePath, closure]
    decide
  rw [compilerInfo_eq, requireMember, member, includes]
  rfl

theorem lateFlagOutcome_eq : lateFlagOutcome = resolve Project.lateFlag.registry
    (halfLoaded.keepFlags halfLoadedMember earlyFlags.includes) := by
  show resolve Project.lateFlag.registry
    (compilerInfo Project.lateFlag.registry halfLoaded (.ofIndex 0)).2 = _
  rw [compilerInfo_halfLoaded]

theorem lateFlagOutcome_ok : lateFlagOutcome.1 = .ok ⟨2, 3, 1⟩ := by
  rw [lateFlagOutcome_eq]
  decide

theorem mem_order_lateFlagOutcome : PackageId.ofIndex 0 ∈ lateFlagOutcome.2.order := by
  rw [lateFlagOutcome_eq]
  decide

theorem compilerInfo_lateFlagOutcome :
    (compilerInfo Project.lateFlag.registry lateFlagOutcome.2 (.ofIndex 0)).1 = .ok earlyFlags := by
  rw [lateFlagOutcome_eq]
  decide

/-- Flags that were put together now would have the one for `x`. -/
theorem assembled_lateFlagOutcome :
    assembled Project.lateFlag.registry lateFlagOutcome.2 (.ofIndex 0) ≠ .ok earlyFlags := by
  have declared : (lateFlagOutcome.2.member? (.ofIndex 0)).map
      (·.package.settings.values .cflags lateFlagOutcome.2.features) = some ["-DX"] := by
    rw [lateFlagOutcome_eq]
    decide
  intro h
  obtain ⟨m, dirs, hm, -, flags⟩ := assembled_eq_ok_iff.1 h
  have cflags : earlyFlags.cflags = m.package.settings.values .cflags lateFlagOutcome.2.features :=
    congrArg CompilerInfo.cflags flags
  rw [hm, Option.map_some, ← cflags] at declared
  cases declared

/-- **`compilerInfo_eq_assembled_iff`**: after operations and a resolution that succeeds, asking for
the flags of a registered package is answered. The answer is what would be put together afresh
exactly if nothing that flags are made of has changed since the flags that are kept were put
together: no flag of the package was gained by a feature that was enabled later, the test feature
was not enabled later, and the public directories of the closure are the same. -/
theorem compilerInfo_eq_assembled_iff (r : Registry) (t : Target) (ops : List Operation) {a : Summary}
    {s' : Session} (h : resolve r (run r t ops) = (.ok a, s')) {id : PackageId}
    (hid : id ∈ s'.order) :
    ∃ ci fresh, (compilerInfo r s' id).1 = .ok ci ∧ assembled r s' id = .ok fresh ∧
      (ci = fresh ↔ ∀ u, PutTogether r (start t) s' id u → SameParts r u s' id) := by
  have begin := Consistent.start r t
  have steps := steps_run_resolve h
  have hs' := steps.consistent begin
  have finished := finished_of_resolve (run_consistent r t ops) h
  obtain ⟨m, hm, hl⟩ := finished id hid
  obtain ⟨fresh, hfresh⟩ := finished.exists_assembled hs' hid
  rcases blank_or_flagged hm hl with blank | ⟨ci, flagged⟩
  · refine ⟨fresh, fresh, (compilerInfo_of_blank blank).trans hfresh, hfresh, ?_⟩
    refine ⟨fun _ u put => ?_, fun _ => rfl⟩
    obtain ⟨ci, -, flagged⟩ := put.flagged begin
    exact absurd flagged (blank.not_flagged ci)
  · refine ⟨ci, fresh, compilerInfo_of_flagged flagged, hfresh, ?_⟩
    -- whenever flags were put together on a way to `s'`, they were those that are kept
    have same : ∀ u, PutTogether r (start t) s' id u → (ci = fresh ↔ SameParts r u s' id) := by
      intro u put
      obtain ⟨ci', hci', flagged'⟩ := put.flagged begin
      obtain rfl := flagged.unique flagged'
      have asking : Steps r Set.univ r.held u (compilerInfo r u id).2 := .single (.flags u id)
      exact assembled_eq_iff (asking.trans put.after) (put.before.consistent begin) hci' hfresh
    constructor
    · exact fun e u put => (same u put).1 e
    · intro all
      have none : ∀ ci, ¬ (start t).Flagged id ci := fun ci ⟨x, hx, _⟩ => nomatch hx
      obtain ⟨u, put⟩ := steps.exists_putTogether begin none flagged
      exact (same u put).2 (all u put)

/-- The session in which the flags of `a` were put together had not all the parts of the last. -/
theorem compilerInfo_eq_assembled_iff_lateFlag :
    lateFlagOutcome.1 = .ok ⟨2, 3, 1⟩ ∧ PackageId.ofIndex 0 ∈ lateFlagOutcome.2.order ∧
      ∃ u, PutTogether Project.lateFlag.registry (start ⟨"t", "arm", [], []⟩) lateFlagOutcome.2
          (.ofIndex 0) u ∧
        ¬ SameParts Project.lateFlag.registry u lateFlagOutcome.2 (.ofIndex 0) := by
  obtain ⟨ci, fresh, kept, afresh, fresh_iff⟩ :=
    compilerInfo_eq_assembled_iff Project.lateFlag.registry ⟨"t", "arm", [], []⟩ _
      (Prod.ext lateFlagOutcome_ok rfl) mem_order_lateFlagOutcome
  obtain rfl := Except.ok.inj (compilerInfo_lateFlagOutcome.symm.trans kept)
  refine ⟨lateFlagOutcome_ok, mem_order_lateFlagOutcome, ?_⟩
  by_contra none
  have same : earlyFlags = fresh := by
    apply fresh_iff.2
    intro u put
    by_contra changed
    exact none ⟨u, put, changed⟩
  exact assembled_lateFlagOutcome (same ▸ afresh)

/-- The flags of `a` that were asked for early have neither the flag for `x` nor the directories of
`c`, and they are still the answer after resolution. -/
theorem compilerInfo_ne_assembled :
    lateFlagOutcome.1 = .ok ⟨2, 3, 1⟩ ∧ PackageId.ofIndex 0 ∈ lateFlagOutcome.2.order ∧
      (compilerInfo Project.lateFlag.registry lateFlagOutcome.2 (.ofIndex 0)).1 ≠
        assembled Project.lateFlag.registry lateFlagOutcome.2 (.ofIndex 0) := by
  refine ⟨lateFlagOutcome_ok, mem_order_lateFlagOutcome, ?_⟩
  rw [compilerInfo_lateFlagOutcome]
  exact assembled_lateFlagOutcome.symm

end Session
end PackageResolution

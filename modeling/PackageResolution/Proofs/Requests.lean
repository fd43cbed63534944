import PackageResolution.Proofs.Freshness
/-!
# What a request for flags answers

Flags are made of one package's own lists and of a search path for headers, which alone reaches
beyond the package. Behind the private directories it has one pair of public directories for each
package of the closure, and nothing else.

A request is refused while the package is missing or pending. For a loaded package whose flags are
not kept yet, the closure has to be gone through, and that can stop at an identity that a failed
attempt has registered without making its member. A refusal changes nothing. After resolution there
are no refusals for what was registered then, whatever is done later.

Main statements: `compilerInfo_contents` and `compilerInfo_refusals`.
-/
namespace PackageResolution

/-- A project of two packages that depend on each other. The second enables the test feature, and
both have a flag. -/
def Project.testedPair : Project := .holding "pair" "pair" [
  ⟨"a", Descriptor.localRepo, "pair/a", none,
    (({} : Settings).add .deps ["b"]).add .cflags ["-DA"]⟩,
  ⟨"b", Descriptor.localRepo, "pair/b", none,
    ((({} : Settings).add .features ["test"]).add .deps ["a"]).add .cflags ["-DB"]⟩]

/-- A project of three packages: `a` depends on `b`, and `b` on `c`, then on a package that is not
there. -/
def Project.missingBelow : Project := .holding "below" "below" [
  ⟨"a", Descriptor.localRepo, "below/a", none, ({} : Settings).add .deps ["b"]⟩,
  ⟨"b", Descriptor.localRepo, "below/b", none, ({} : Settings).add .deps ["c", "nowhere"]⟩,
  ⟨"c", Descriptor.localRepo, "below/c", none, {}⟩]

/-! ## Search paths -/

/-- The places of a list of pairs. -/
theorem getElem?_flatMap_pair {α β : Type} (f g : α → β) (as : List α) (i : Nat) (b : β) :
    (as.flatMap fun a => [f a, g a])[i]? = some b ↔
      ∃ k a, as[k]? = some a ∧ (i = 2 * k ∧ b = f a ∨ i = 2 * k + 1 ∧ b = g a) := by
  induction as generalizing i with
  | nil => simp
  | cons a as ih =>
    rw [List.flatMap_cons]
    match i with
    | 0 =>
      constructor
      · intro h
        exact ⟨0, a, rfl, .inl ⟨rfl, (Option.some.inj h).symm⟩⟩
      · rintro ⟨k, x, hx, ⟨hk, rfl⟩ | ⟨hk, -⟩⟩
        · obtain rfl : k = 0 := by omega
          exact congrArg _ (congrArg f (Option.some.inj hx))
        · omega
    | 1 =>
      constructor
      · intro h
        exact ⟨0, a, rfl, .inr ⟨rfl, (Option.some.inj h).symm⟩⟩
      · rintro ⟨k, x, hx, ⟨hk, -⟩ | ⟨hk, rfl⟩⟩
        · omega
        · obtain rfl : k = 0 := by omega
          exact congrArg _ (congrArg g (Option.some.inj hx))
    | i + 2 =>
      refine (ih i).trans ⟨?_, ?_⟩
      · rintro ⟨k, x, hx, place⟩
        exact ⟨k + 1, x, hx, place.imp (fun h => ⟨by omega, h.2⟩) fun h => ⟨by omega, h.2⟩⟩
      · rintro ⟨k, x, hx, place⟩
        obtain ⟨k, rfl⟩ : ∃ j, k = j + 1 := ⟨k - 1, by omega⟩
        exact ⟨k, x, hx, place.imp (fun h => ⟨by omega, h.2⟩) fun h => ⟨by omega, h.2⟩⟩

/-- Lists of identities and of their packages have the same places. -/
theorem getElem?_of_packages {r : Registry} {l : List PackageId} {ps : List Package}
    (h : l.map r.package? = ps.map some) (k : Nat) (p : Package) :
    ps[k]? = some p ↔ ∃ x, l[k]? = some x ∧ r.package? x = some p := by
  have same := congrArg (·[k]?) h
  simp only [List.getElem?_map] at same
  cases hp : ps[k]? with
  | none =>
    rw [hp] at same
    simp_all
  | some q =>
    rw [hp] at same
    obtain ⟨x, hx, hq⟩ := Option.map_eq_some_iff.1 same
    simp [hx, hq]

/-- The directory of the public headers for an architecture. -/
def Package.archIncludeDir (p : Package) (arch : String) : Path :=
  ((p.includeDir.join p.baseName).join "arch").join arch

/-- The search path of a package `p` with the closure `l`: the private directories of `p`, then for
each package of the closure in turn its two public directories. Each place behind the private
directories is one of a pair, and the pair is that of the package that stands at this place of the
closure. -/
structure SearchPath (r : Registry) (arch : String) (features : FeatureSet) (p : Package)
    (l : List PackageId) (dirs : List Path) : Prop where
  whole : ∃ ps : List Package, l.map r.package? = ps.map some ∧ dirs =
    (if "test" ∈ features then
      [p.sourceDir, (p.sourceDir.join "arch").join arch,
        p.sourceDir.join "test", ((p.sourceDir.join "test").join "arch").join arch]
    else [p.sourceDir, (p.sourceDir.join "arch").join arch]) ++
      ps.flatMap fun q => [q.includeDir, q.archIncludeDir arch]
  behind : ∀ i dir, dirs[(if "test" ∈ features then 4 else 2) + i]? = some dir ↔
    ∃ k x q, l[k]? = some x ∧ r.package? x = some q ∧
      (i = 2 * k ∧ dir = q.includeDir ∨ i = 2 * k + 1 ∧ dir = q.archIncludeDir arch)

theorem searchPath_of_packages {r : Registry} {l : List PackageId} {ps : List Package}
    (h : l.map r.package? = ps.map some) (arch : String) (features : FeatureSet) (p : Package) :
    SearchPath r arch features p l
      (p.privateIncludes arch features ++ ps.flatMap (·.publicIncludes arch)) := by
  have own : p.privateIncludes arch features =
      if "test" ∈ features then
        [p.sourceDir, (p.sourceDir.join "arch").join arch,
          p.sourceDir.join "test", ((p.sourceDir.join "test").join "arch").join arch]
      else [p.sourceDir, (p.sourceDir.join "arch").join arch] := by
    rw [Package.privateIncludes, FeatureSet.isTest]
    simp only [FeatureSet.contains_iff, FeatureSet.testFeature]
    split <;> rfl
  have length : (p.privateIncludes arch features).length = if "test" ∈ features then 4 else 2 := by
    rw [own]
    split <;> rfl
  refine ⟨⟨ps, h, by rw [own]; rfl⟩, fun i dir => ?_⟩
  rw [← length, List.getElem?_append_right (Nat.le_add_right _ i), Nat.add_sub_cancel_left]
  refine (getElem?_flatMap_pair Package.includeDir (·.archIncludeDir arch) ps i dir).trans ?_
  simp only [getElem?_of_packages h]
  constructor
  · rintro ⟨k, q, ⟨x, hx, hq⟩, place⟩
    exact ⟨k, x, q, hx, hq, place⟩
  · rintro ⟨k, x, q, hx, hq, place⟩
    exact ⟨k, q, ⟨x, hx, hq⟩, place⟩

namespace Session

variable {r : Registry} {s s' : Session} {id : PackageId}

/-! ## What is answered -/

/-- What the flags of a package `p` with the closure `l` are made of. -/
structure Contents (r : Registry) (arch : String) (features : FeatureSet) (p : Package)
    (l : List PackageId) (ci : CompilerInfo) : Prop where
  cflags : ci.cflags = p.settings.values .cflags features
  lflags : ci.lflags = p.settings.values .lflags features
  aflags : ci.aflags = p.settings.values .aflags features
  includes : SearchPath r arch features p l ci.includes

/-- **`compilerInfo_contents`**: in every session that operations can lead to, where flags of a
loaded package are not kept yet and a request is answered, the answer has the package's own lists
under the features enabled now and nothing of other lists, and the search path has the private
directories of the package and behind them exactly one pair of public ones for each package of its
closure, in the order of the closure. -/
theorem compilerInfo_contents (r : Registry) (t : Target) (ops : List Operation) {id : PackageId}
    {ci : CompilerInfo} (blank : (run r t ops).Blank id)
    (h : (compilerInfo r (run r t ops) id).1 = .ok ci) :
    ∃ p l, r.package? id = some p ∧ collectDeps r (run r t ops) id = .ok l ∧
      IsClosure r (run r t ops) id l ∧ Contents r t.arch (run r t ops).features p l ci := by
  have hs := run_consistent r t ops
  rw [compilerInfo_of_blank blank] at h
  obtain ⟨m, dirs, hm, hdirs, rfl⟩ := assembled_eq_ok_iff.1 h
  obtain ⟨l, ps, ok, closure, packages, rfl⟩ := closure_of_closureIncludes hs hdirs
  have path := searchPath_of_packages packages t.arch (run r t ops).features m.package
  rw [run_target] at *
  exact ⟨m.package, l, (hs.of_member? hm).2, ok, closure, rfl, rfl, rfl, path⟩

/-- The session of `testedPair` after resolution. -/
def pairResolved : Session := runOn .testedPair [.addPackage (.ofIndex 0), .resolve]

/-- The flags of `a` then. The public directories of `b` are among them, but neither its private ones
nor its flag. -/
def pairFlags : CompilerInfo where
  cflags := ["-DA"]
  includes := ["pair/a/src", "pair/a/src/arch/arm", "pair/a/src/test", "pair/a/src/test/arch/arm",
    "pair/a/include", "pair/a/include/a/arch/arm", "pair/b/include", "pair/b/include/b/arch/arm"]

/-- Each package is in the closure of the other, and no package twice. -/
theorem compilerInfo_contents_testedPair :
    pairResolved.Blank (.ofIndex 0) ∧
      (compilerInfo Project.testedPair.registry pairResolved (.ofIndex 0)).1 = .ok pairFlags ∧
      ∃ p l, Project.testedPair.registry.package? (.ofIndex 0) = some p ∧
        collectDeps Project.testedPair.registry pairResolved (.ofIndex 0) = .ok l ∧
        IsClosure Project.testedPair.registry pairResolved (.ofIndex 0) l ∧
        Contents Project.testedPair.registry "arm" pairResolved.features p l pairFlags := by
  have blank : pairResolved.Blank (.ofIndex 0) :=
    ⟨⟨.ofIndex 0, Project.testedPair.packages[0], [⟨"local", "b"⟩], .loaded [] [] none⟩, [], [],
      by decide, rfl⟩
  have closure : collectDeps Project.testedPair.registry pairResolved (.ofIndex 0) =
      .ok [.ofIndex 0, .ofIndex 1] := by
    refine Discovers.collectDeps_eq ?_ (run_consistent _ _ _)
    exact .expand [.ofIndex 1] (by decide) (by decide)
      (.expand [.ofIndex 0] (by decide) (by decide) (.again (by decide) .done) .done) .done
  have flags : assembled Project.testedPair.registry pairResolved (.ofIndex 0) = .ok pairFlags := by
    simp only [assembled, includePath, closure]
    decide
  have answered := (compilerInfo_of_blank blank).trans flags
  exact ⟨blank, answered, compilerInfo_contents _ _ _ blank answered⟩

/-! ## What is refused -/

/-- The ways a request can be refused: the package is missing, it is not loaded yet, or something that
recorded dependencies lead to is missing. -/
inductive Refusal (r : Registry) (s : Session) (id : PackageId) : ResolutionError → Prop
  | absent (h : s.isRegistered id = false) : Refusal r s id (.notRegistered (r.describe id))
  | pending {m : Member} (h : s.member? id = some m) (hl : m.isLoaded = false) :
      Refusal r s id (.notLoaded m.display)
  | severed {x : PackageId} (blank : s.Blank id) (h : Reached r s {id} x)
      (hx : s.isRegistered x = false) : Refusal r s id (.notRegistered (r.describe x))

theorem Blank.exists_loaded (h : s.Blank id) : ∃ m, s.member? id = some m ∧ m.isLoaded = true := by
  obtain ⟨m, provides, requires, hm, hp⟩ := h
  exact ⟨m, hm, by simp [Member.isLoaded, hp]⟩

theorem compilerInfo_eq_error {e : ResolutionError} (h : (compilerInfo r s id).1 = .error e) :
    compilerInfo r s id = (.error e, s) := by
  have request := request_compilerInfo r s id
  generalize compilerInfo r s id = out at h request ⊢
  cases request with
  | refused _ _ =>
    obtain rfl := Except.error.inj h
    rfl
  | kept _ => cases h
  | put _ _ _ _ => cases h

theorem compilerInfo_of_absent (h : s.isRegistered id = false) :
    (compilerInfo r s id).1 = .error (.notRegistered (r.describe id)) := by
  have none : s.member? id = none := by simpa [isRegistered] using h
  rw [compilerInfo_eq, requireMember, none]

theorem compilerInfo_of_pending {m : Member} (hm : s.member? id = some m)
    (hl : m.isLoaded = false) : (compilerInfo r s id).1 = .error (.notLoaded m.display) := by
  rw [compilerInfo_eq, requireMember, hm]
  simp only [Member.isLoaded_eq_false_iff.1 hl]

/-- Flags that are not kept are put together if all below the package is there. Otherwise the error
names something there that is missing. -/
theorem compilerInfo_cases_of_blank (hs : Consistent r s) (blank : s.Blank id) :
    (∃ ci, (compilerInfo r s id).1 = .ok ci ∧
      ∀ x, Reached r s {id} x → s.isRegistered x = true) ∨
    ∃ x, (compilerInfo r s id).1 = .error (.notRegistered (r.describe x)) ∧ Reached r s {id} x ∧
      s.isRegistered x = false := by
  obtain ⟨m, hm, -⟩ := blank.exists_loaded
  rw [compilerInfo_of_blank blank]
  rcases closureIncludes_cases hs id with ⟨l, ps, -, closure, -, dirs⟩ | ⟨x, stop, lost⟩
  · refine .inl ⟨_, assembled_eq_ok_iff.2 ⟨m, _, hm, dirs, rfl⟩, fun x hx => ?_⟩
    obtain ⟨m', hm'⟩ := closure.members x ((closure.mem_iff x).2 hx)
    exact isRegistered_of_member? hm'
  · refine .inr ⟨x, ?_, lost⟩
    rw [assembled_of_member hm, includePath_of_member hm, stop]
    rfl

/-- A request is answered for a loaded package, or refused. -/
theorem compilerInfo_answer (hs : Consistent r s) (id : PackageId) :
    (∃ ci, (compilerInfo r s id).1 = .ok ci) ∨
    ∃ e, (compilerInfo r s id).1 = .error e ∧ Refusal r s id e := by
  cases hm : s.member? id with
  | none =>
    have absent : s.isRegistered id = false := by simp [isRegistered, hm]
    exact .inr ⟨_, compilerInfo_of_absent absent, .absent absent⟩
  | some m =>
    cases hl : m.isLoaded with
    | false => exact .inr ⟨_, compilerInfo_of_pending hm hl, .pending hm hl⟩
    | true =>
      rcases blank_or_flagged hm hl with blank | ⟨ci, flagged⟩
      · rcases compilerInfo_cases_of_blank hs blank with ⟨ci, ok, -⟩ | ⟨x, stop, reached, hx⟩
        · exact .inl ⟨ci, ok⟩
        · exact .inr ⟨_, stop, .severed blank reached hx⟩
      · exact .inl ⟨ci, compilerInfo_of_flagged flagged⟩

theorem refusal_of_compilerInfo (hs : Consistent r s) {e : ResolutionError}
    (h : (compilerInfo r s id).1 = .error e) : Refusal r s id e := by
  rcases compilerInfo_answer hs id with ⟨ci, ok⟩ | ⟨e', refused, refusal⟩
  · rw [ok] at h
    cases h
  · obtain rfl := Except.error.inj (refused.symm.trans h)
    exact refusal

/-- When a request is refused, and what that leaves. -/
structure Refusals (r : Registry) (s : Session) (id : PackageId) : Prop where
  notLoaded : (∃ name, (compilerInfo r s id).1 = .error (.notLoaded name)) ↔
    ∃ m, s.member? id = some m ∧ m.isLoaded = false
  notRegistered : (∃ name, (compilerInfo r s id).1 = .error (.notRegistered name)) ↔
    s.isRegistered id = false ∨
      s.Blank id ∧ ∃ x, Reached r s {id} x ∧ s.isRegistered x = false
  /-- The error names what the request is refused for, and nothing has changed. -/
  only : ∀ e s', compilerInfo r s id = (.error e, s') → Refusal r s id e ∧ s' = s

theorem refusals_of_consistent (hs : Consistent r s) (id : PackageId) : Refusals r s id where
  notLoaded := by
    constructor
    · rintro ⟨name, h⟩
      cases refusal_of_compilerInfo hs h with
      | pending hm hl => exact ⟨_, hm, hl⟩
    · rintro ⟨m, hm, hl⟩
      exact ⟨_, compilerInfo_of_pending hm hl⟩
  notRegistered := by
    constructor
    · rintro ⟨name, h⟩
      generalize he : ResolutionError.notRegistered name = e at h
      cases refusal_of_compilerInfo hs h with
      | absent absent => exact .inl absent
      | pending _ _ => cases he
      | severed blank reached hx => exact .inr ⟨blank, _, reached, hx⟩
    · rintro (absent | ⟨blank, x, reached, hx⟩)
      · exact ⟨_, compilerInfo_of_absent absent⟩
      · rcases compilerInfo_cases_of_blank hs blank with ⟨ci, -, all⟩ | ⟨y, stop, -⟩
        · rw [all x reached] at hx
          cases hx
        · exact ⟨_, stop⟩
  only e s' h := by
    have refused := congrArg Prod.fst h
    refine ⟨refusal_of_compilerInfo hs refused, ?_⟩
    exact congrArg Prod.snd (h.symm.trans (compilerInfo_eq_error refused))

/-! ## Requests after resolution -/

/-- There are flags for what is registered in a finished session, then and later. -/
theorem Finished.exists_compilerInfo (h : s.Finished) (hs : Consistent r s) (hs' : Consistent r s')
    (grows : Grows s s') (hid : id ∈ s.order) : ∃ ci, (compilerInfo r s' id).1 = .ok ci := by
  have loaded : ∀ x ∈ s.order, ∃ m, s'.member? x = some m ∧ m.isLoaded = true := by
    intro x hx
    obtain ⟨m, hm, hl⟩ := h x hx
    obtain ⟨m', hm', grown⟩ := grows.members hm
    exact ⟨m', hm', (grown.loaded hl).1⟩
  rcases compilerInfo_answer hs' id with ⟨ci, ok⟩ | ⟨e, -, refusal⟩
  · exact ⟨ci, ok⟩
  · exfalso
    cases refusal with
    | absent absent =>
      obtain ⟨m, hm, -⟩ := loaded id hid
      rw [isRegistered_of_member? hm] at absent
      cases absent
    | pending hm hl =>
      obtain ⟨m, hm', loaded⟩ := loaded id hid
      obtain rfl := Option.some.inj (hm.symm.trans hm')
      rw [loaded] at hl
      cases hl
    | severed _ reached absent =>
      obtain ⟨m, hm, -⟩ := loaded _ (h.mem_order_of_reached hs grows hid reached)
      rw [isRegistered_of_member? hm] at absent
      cases absent

/-- **`compilerInfo_refusals`**: in every session that operations can lead to, a request is refused
with `notLoaded` exactly for a package that is not loaded, with `notRegistered` exactly if the
package is missing, or its flags are not kept and something is missing that recorded dependencies
lead to, and with nothing else. It is as if a request that is refused was never made. After
resolution that succeeds no request for what is registered then is refused, and none will be. -/
theorem compilerInfo_refusals (r : Registry) (t : Target) (ops : List Operation) :
    (∀ id, Refusals r (run r t ops) id) ∧
    ∀ a s', resolve r (run r t ops) = (.ok a, s') → ∀ id ∈ s'.order, ∀ more,
      ∃ ci, (compilerInfo r (performAll r s' more) id).1 = .ok ci := by
  have hs := run_consistent r t ops
  refine ⟨refusals_of_consistent hs, fun a s' h id hid more => ?_⟩
  have hs' := (steps_run_resolve h).consistent (.start r t)
  have later : Steps r Set.univ r.held s' (performAll r s' more) :=
    performAll_steps s' more fun op _ s => steps_perform r s op
  exact (finished_of_resolve hs h).exists_compilerInfo hs' (later.consistent hs')
    (later.grows hs'.distinct) hid

/-- The session of `missingBelow` in which `a` is loaded, and the attempt for `b` has failed after
registering `c`. -/
def brokenBelow : Session := runOn .missingBelow [.addPackage (.ofIndex 0),
  .loadPackage (.ofIndex 0), .loadPackage (.ofIndex 0), .loadPackage (.ofIndex 1)]

/-- Then `a` is refused because `c` is missing, and `b` because it is not loaded. In `circle`, what
is asked for after resolution is answered whatever is enabled and asked for in between. -/
theorem compilerInfo_refusals_missingBelow :
    (brokenBelow.Blank (.ofIndex 0) ∧
      Reached Project.missingBelow.registry brokenBelow {.ofIndex 0} (.ofIndex 2) ∧
      brokenBelow.isRegistered (.ofIndex 2) = false ∧
      ∃ name, (compilerInfo Project.missingBelow.registry brokenBelow (.ofIndex 0)).1 =
        .error (.notRegistered name)) ∧
    (∃ name, (compilerInfo Project.missingBelow.registry brokenBelow (.ofIndex 1)).1 =
      .error (.notLoaded name)) ∧
    (resolve Project.circle.registry (runOn .circle [.addRoot "a"])).1 = .ok ⟨3, 4, 0⟩ ∧
    ∃ ci, (compilerInfo Project.circle.registry (performAll Project.circle.registry
      (resolve Project.circle.registry (runOn .circle [.addRoot "a"])).2
        [.addFeature "test", .compilerInfo (.ofIndex 3)]) (.ofIndex 2)).1 = .ok ci := by
  obtain ⟨refusals, -⟩ := compilerInfo_refusals Project.missingBelow.registry
    ⟨"t", "arm", [], []⟩ [.addPackage (.ofIndex 0), .loadPackage (.ofIndex 0),
      .loadPackage (.ofIndex 0), .loadPackage (.ofIndex 1)]
  have blank : brokenBelow.Blank (.ofIndex 0) :=
    ⟨⟨.ofIndex 0, Project.missingBelow.packages[0], [⟨"local", "b"⟩], .loaded [] [] none⟩, [], [],
      by decide, rfl⟩
  have reached : Reached Project.missingBelow.registry brokenBelow {.ofIndex 0} (.ofIndex 2) := by
    have below : Reached Project.missingBelow.registry brokenBelow {.ofIndex 0} (.ofIndex 1) := by
      refine .dep (d := ⟨"local", "b"⟩) (.root rfl) ?_ ?_ <;> decide
    refine .dep (d := ⟨"local", "c"⟩) below ?_ ?_ <;> decide
  have missing : brokenBelow.isRegistered (.ofIndex 2) = false := by decide
  have pending : (brokenBelow.member? (.ofIndex 1)).map (·.isLoaded) = some false := by decide
  obtain ⟨m, hm, hl⟩ := Option.map_eq_some_iff.1 pending
  have ok : (resolve Project.circle.registry (runOn .circle [.addRoot "a"])).1 = .ok ⟨3, 4, 0⟩ := by
    decide
  have registered : PackageId.ofIndex 2 ∈
      (resolve Project.circle.registry (runOn .circle [.addRoot "a"])).2.order := by
    decide
  have after := (compilerInfo_refusals Project.circle.registry ⟨"t", "arm", [], []⟩
    [.addRoot "a"]).2 _ _ (Prod.ext ok rfl) _ registered
  exact ⟨⟨blank, reached, missing,
    (refusals (.ofIndex 0)).notRegistered.2 (.inr ⟨blank, _, reached, missing⟩)⟩,
    (refusals (.ofIndex 1)).notLoaded.2 ⟨m, hm, hl⟩, ok, after _⟩

end Session
end PackageResolution

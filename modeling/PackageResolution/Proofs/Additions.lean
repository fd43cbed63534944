import PackageResolution.Project
import Mathlib.Algebra.Group.Nat.Defs
import Mathlib.Data.List.Nodup
/-!
# Additions to a project

Packages are added to a project one after another, and each addition writes to two places: to the
list of packages and to the index of their names. An addition fails if the index has its name, and
then leaves the project as it is. List and index stay in step. So, as long as there are identities to
hand out, they are handed out in order and each goes on meaning the package that it was handed out
for, and a name means the package that was added under it.

Main statements: `InStep.add`, `InStep.addEach` and `additions_indexed`.
-/
namespace PackageResolution

namespace Project

variable {p q : Project} {pkg : Package} {calls : List Package} {d : Descriptor} {id : PackageId}

/-- The names of the packages, in order. -/
def names (p : Project) : List Descriptor := p.packages.map Package.descriptor

/-! ## List and index -/

/-- The index is in step with the packages: no name is taken twice, and under each name the index has
the place of the package that has the name. -/
structure InStep (p : Project) : Prop where
  distinct : p.names.Nodup
  lookup : ∀ d id, p.index.lookup d = some id ↔
    ∃ i pkg, p.packages[i]? = some pkg ∧ pkg.descriptor = d ∧ id = .ofIndex i

theorem inStep_new (name : String) (root : Path) : InStep { name, root } :=
  ⟨List.nodup_nil, fun d id => by simp⟩

namespace InStep

theorem resolve_eq_some_iff (h : p.InStep) : p.resolve d = some id ↔
    ∃ i pkg, p.packages[i]? = some pkg ∧ pkg.descriptor = d ∧ id = .ofIndex i :=
  h.lookup d id

/-- The index has exactly the names that are taken. -/
theorem resolve_eq_none_iff (h : p.InStep) : p.resolve d = none ↔ d ∉ p.names := by
  constructor
  · intro none taken
    obtain ⟨pkg, hpkg, same⟩ := List.mem_map.1 taken
    obtain ⟨i, hi⟩ := List.getElem?_of_mem hpkg
    rw [h.resolve_eq_some_iff.2 ⟨i, pkg, hi, same, rfl⟩] at none
    cases none
  · intro free
    cases found : p.resolve d with
    | none => rfl
    | some id =>
      obtain ⟨i, pkg, hi, same, -⟩ := h.resolve_eq_some_iff.1 found
      exact absurd (List.mem_map.2 ⟨pkg, List.mem_of_getElem? hi, same⟩) free

/-- Two places with one name are the same. -/
theorem place_unique (h : p.InStep) {i j : Nat} {pkg pkg' : Package}
    (hi : p.packages[i]? = some pkg) (hj : p.packages[j]? = some pkg')
    (same : pkg.descriptor = pkg'.descriptor) : i = j := by
  obtain ⟨bound, -⟩ := List.getElem?_eq_some_iff.1 hi
  apply (List.getElem?_inj (by simpa [names] using bound) h.distinct).1
  rw [names, List.getElem?_map, List.getElem?_map, hi, hj, Option.map_some, Option.map_some, same]

/-- What the index answers is held, also where identities have run out. -/
theorem registry_closed (h : p.InStep) : p.registry.Closed := by
  intro d id found
  obtain ⟨i, pkg, hi, -, rfl⟩ := h.resolve_eq_some_iff.1 found
  obtain ⟨bound, -⟩ := List.getElem?_eq_some_iff.1 hi
  have small : i % UInt32.size ≤ i := Nat.mod_le _ _
  show (p.packages[(PackageId.ofIndex i).index]?).isSome
  rw [PackageId.index_ofIndex, List.getElem?_eq_getElem (by omega)]
  rfl

end InStep

/-- The identity of a place leads back to it, while there are identities for all places. -/
theorem package?_eq_some_iff (hp : p.packages.length ≤ 2 ^ 32) :
    p.registry.package? id = some pkg ↔ ∃ i, p.packages[i]? = some pkg ∧ id = .ofIndex i := by
  constructor
  · intro h
    exact ⟨id.index, h, (PackageId.ofIndex_index id).symm⟩
  · rintro ⟨i, h, rfl⟩
    obtain ⟨hi, -⟩ := List.getElem?_eq_some_iff.1 h
    have small : i % UInt32.size = i := Nat.mod_eq_of_lt (Nat.lt_of_lt_of_le hi hp)
    rw [Registry.package?, PackageId.index_ofIndex, small]
    exact h

/-! ## One addition -/

/-- The project with one more package, in the list and in the index. -/
def append (p : Project) (pkg : Package) : Project :=
  { p with
    packages := p.packages ++ [pkg]
    index := (pkg.descriptor, .ofIndex p.packages.length) :: p.index }

theorem getElem?_packages_append (p : Project) (pkg : Package) (i : Nat) (x : Package) :
    (p.append pkg).packages[i]? = some x ↔
      p.packages[i]? = some x ∨ i = p.packages.length ∧ pkg = x := by
  rw [append, List.getElem?_append]
  split
  · next before => simp [Nat.ne_of_lt before]
  · next behind =>
    rw [List.getElem?_eq_none (Nat.not_lt.1 behind), List.getElem?_singleton]
    constructor
    · intro h
      obtain ⟨here, same⟩ := Option.ite_none_right_eq_some.1 h
      exact .inr ⟨by omega, Option.some.inj same⟩
    · rintro (old | ⟨rfl, rfl⟩)
      · cases old
      · simp

/-- A package with a name of its own leaves list and index in step. -/
theorem InStep.append (h : p.InStep) (free : pkg.descriptor ∉ p.names) : (p.append pkg).InStep where
  distinct := by
    have apart : ∀ x ∈ p.names, ∀ y ∈ [pkg.descriptor], x ≠ y := by
      rintro x hx y hy rfl
      exact free (List.mem_singleton.1 hy ▸ hx)
    simpa [names, Project.append] using
      List.nodup_append.2 ⟨h.distinct, List.nodup_singleton pkg.descriptor, apart⟩
  lookup d id := by
    simp only [getElem?_packages_append]
    show List.lookup d ((pkg.descriptor, .ofIndex p.packages.length) :: p.index) = some id ↔ _
    rw [List.lookup_cons]
    by_cases new : d = pkg.descriptor
    · subst new
      simp only [beq_self_eq_true, Option.some.injEq]
      constructor
      · rintro rfl
        exact ⟨_, pkg, .inr ⟨rfl, rfl⟩, rfl, rfl⟩
      · rintro ⟨i, x, old | ⟨rfl, -⟩, same, rfl⟩
        · exact absurd (List.mem_map.2 ⟨x, List.mem_of_getElem? old, same⟩) free
        · rfl
    · rw [beq_eq_false_iff_ne.2 new]
      refine (h.lookup d id).trans ⟨?_, ?_⟩
      · rintro ⟨i, x, old, rest⟩
        exact ⟨i, x, .inl old, rest⟩
      · rintro ⟨i, x, old | ⟨-, rfl⟩, same, hid⟩
        · exact ⟨i, x, old, same, hid⟩
        · exact absurd same.symm new

/-- The ways an addition can go where list and index are in step. -/
inductive Addition (p : Project) (pkg : Package) : Except DefinedTwice PackageId × Project → Prop
  | refused {e : DefinedTwice} (taken : pkg.descriptor ∈ p.names) : Addition p pkg (.error e, p)
  | granted (free : pkg.descriptor ∉ p.names) :
      Addition p pkg (.ok (.ofIndex p.packages.length), p.append pkg)

theorem InStep.addition (h : p.InStep) (pkg : Package) : Addition p pkg (p.add pkg) := by
  unfold add
  cases found : p.resolve pkg.descriptor with
  | none => exact .granted (h.resolve_eq_none_iff.1 found)
  | some existing =>
    refine .refused ?_
    by_contra free
    rw [h.resolve_eq_none_iff.2 free] at found
    cases found

/-- **`InStep.add`**: an addition keeps list and index in step, also if it fails. -/
theorem InStep.add (h : p.InStep) (pkg : Package) : (p.add pkg).2.InStep := by
  have ways := h.addition pkg
  generalize p.add pkg = out at ways
  cases ways with
  | refused _ => exact h
  | granted free => exact h.append free

theorem InStep.add_eq_ok_iff (h : p.InStep) : p.add pkg = (.ok id, q) ↔
    pkg.descriptor ∉ p.names ∧ id = .ofIndex p.packages.length ∧ q = p.append pkg := by
  have ways := h.addition pkg
  generalize p.add pkg = out at ways
  cases ways with
  | refused taken => simp [taken]
  | granted free =>
    rw [Prod.mk.injEq, Except.ok.injEq]
    constructor
    · rintro ⟨rfl, rfl⟩
      exact ⟨free, rfl, rfl⟩
    · rintro ⟨-, rfl, rfl⟩
      exact ⟨rfl, rfl⟩

/-- An addition fails over the package that has the name, which the index leads to. -/
theorem InStep.add_eq_error_iff (h : p.InStep) (few : p.packages.length ≤ 2 ^ 32)
    {e : DefinedTwice} : (p.add pkg).1 = .error e ↔ ∃ id other,
      p.registry.package? id = some other ∧ other.descriptor = pkg.descriptor ∧
        e = ⟨pkg.descriptor, other.base, pkg.base⟩ := by
  rw [Project.add]
  cases found : p.resolve pkg.descriptor with
  | none =>
    refine ⟨nofun, ?_⟩
    rintro ⟨id, other, hid, same, -⟩
    have free := h.resolve_eq_none_iff.1 found
    exact absurd (List.mem_map.2 ⟨other, List.mem_of_getElem? hid, same⟩) free
  | some existing =>
    obtain ⟨i, first, hi, same, hid⟩ := h.resolve_eq_some_iff.1 found
    have held : p.packages[existing.index]? = some first :=
      (package?_eq_some_iff few).2 ⟨i, hi, hid⟩
    dsimp only
    rw [held]
    constructor
    · intro he
      exact ⟨existing, first, held, same, (Except.error.inj he).symm⟩
    · rintro ⟨id, other, hid', same', rfl⟩
      have place := h.place_unique held hid' (same.trans same'.symm)
      rw [place] at held
      obtain rfl := Option.some.inj (held.symm.trans hid')
      rfl

/-- An addition that fails changes neither the list nor the index, nor anything else. -/
theorem add_of_error {e : DefinedTwice} (he : (p.add pkg).1 = .error e) : (p.add pkg).2 = p := by
  unfold add at he ⊢
  cases found : p.resolve pkg.descriptor with
  | none =>
    rw [found] at he
    cases he
  | some existing => rfl

/-! ## Many additions -/

/-- **`InStep.addEach`**: list and index are in step after any additions. -/
theorem InStep.addEach (h : p.InStep) (calls : List Package) : (p.addEach calls).2.InStep := by
  induction calls generalizing p with
  | nil => exact h
  | cons pkg pkgs ih => exact ih (h.add pkg)

/-- A new project after some additions. -/
def holding (name : String) (root : Path) (pkgs : List Package) : Project :=
  (addEach { name, root } pkgs).2

theorem inStep_holding (name : String) (root : Path) (pkgs : List Package) :
    (holding name root pkgs).InStep :=
  (inStep_new name root).addEach pkgs

theorem registry_closed_holding (name : String) (root : Path) (pkgs : List Package) :
    (holding name root pkgs).registry.Closed :=
  (inStep_holding name root pkgs).registry_closed

/-- The identities among some answers. -/
def handedOut (answers : List (Except DefinedTwice PackageId)) : List PackageId :=
  answers.filterMap Except.toOption

/-- What additions have led to: behind the packages that were there stand those whose additions
succeeded, and each was answered the identity of its place. -/
structure Followed (p : Project) (calls : List Package)
    (answers : List (Except DefinedTwice PackageId)) (q : Project) : Prop where
  packages : ∃ new, q.packages = p.packages ++ new
  given : handedOut answers =
    (List.range' p.packages.length (handedOut answers).length).map PackageId.ofIndex
  size : q.packages.length = p.packages.length + (handedOut answers).length
  granted : ∀ id pkg, (pkg, .ok id) ∈ calls.zip answers ↔
    ∃ i, p.packages.length ≤ i ∧ q.packages[i]? = some pkg ∧ id = .ofIndex i

theorem Followed.refused {answers : List (Except DefinedTwice PackageId)} {e : DefinedTwice}
    (h : Followed p calls answers q) : Followed p (pkg :: calls) (.error e :: answers) q := by
  refine ⟨h.packages, h.given, h.size, fun id pkg' => ?_⟩
  rw [← h.granted]
  simp

theorem Followed.granted_first {answers : List (Except DefinedTwice PackageId)}
    (h : Followed (p.append pkg) calls answers q) :
    Followed p (pkg :: calls) (.ok (.ofIndex p.packages.length) :: answers) q := by
  obtain ⟨⟨new, hnew⟩, given, size, granted⟩ := h
  simp only [append, List.length_append, List.length_singleton] at hnew given size granted
  have here : q.packages[p.packages.length]? = some pkg := by simp [hnew]
  have handed : handedOut (.ok (.ofIndex p.packages.length) :: answers) =
      .ofIndex p.packages.length :: handedOut answers := rfl
  refine ⟨⟨pkg :: new, by simp [hnew]⟩, ?_, ?_, ?_⟩
  · rw [handed, List.length_cons, List.range'_succ, List.map_cons, ← given]
  · rw [handed, List.length_cons, size]
    omega
  · intro id pkg'
    rw [List.zip_cons_cons, List.mem_cons, granted]
    constructor
    · rintro (first | ⟨i, hi, later, rfl⟩)
      · obtain ⟨rfl, hid⟩ := Prod.mk.inj first
        exact ⟨p.packages.length, Nat.le_refl _, here, Except.ok.inj hid⟩
      · exact ⟨i, by omega, later, rfl⟩
    · rintro ⟨i, hi, found, rfl⟩
      rcases Nat.eq_or_lt_of_le hi with rfl | later
      · obtain rfl := Option.some.inj (here.symm.trans found)
        exact .inl rfl
      · exact .inr ⟨i, later, found, rfl⟩

theorem InStep.followed (h : p.InStep) (calls : List Package) :
    Followed p calls (p.addEach calls).1 (p.addEach calls).2 := by
  induction calls generalizing p with
  | nil =>
    refine ⟨⟨[], by simp [Project.addEach]⟩, rfl, rfl, fun id pkg => ?_⟩
    simp only [Project.addEach, List.zip_nil_left, List.not_mem_nil, false_iff]
    rintro ⟨i, hi, hpkg, -⟩
    simp [List.getElem?_eq_none hi] at hpkg
  | cons pkg pkgs ih =>
    have first := h.addition pkg
    have rest := ih (h.add pkg)
    rw [Project.addEach]
    generalize p.add pkg = out at first rest
    cases first with
    | refused _ => exact rest.refused
    | granted _ => exact rest.granted_first

theorem addEach_append (p : Project) (calls later : List Package) :
    p.addEach (calls ++ later) =
      ((p.addEach calls).1 ++ ((p.addEach calls).2.addEach later).1,
        ((p.addEach calls).2.addEach later).2) := by
  induction calls generalizing p with
  | nil => rfl
  | cons pkg pkgs ih => simp only [List.cons_append, addEach, ih]

/-- Places stay as they are. -/
theorem Followed.package? {answers : List (Except DefinedTwice PackageId)}
    (h : Followed p calls answers q) (hid : p.registry.package? id = some pkg) :
    q.registry.package? id = some pkg := by
  obtain ⟨new, hnew⟩ := h.packages
  obtain ⟨bound, -⟩ := List.getElem?_eq_some_iff.1 hid
  show q.packages[id.index]? = some pkg
  rw [hnew]
  exact (List.getElem?_append_left bound).trans hid

/-! ## The project as an index -/

/-- After some additions, `q` answers for exactly the packages whose additions succeeded: by the
identities that these were answered, and through its index by their names. -/
structure Indexes (calls : List Package) (answers : List (Except DefinedTwice PackageId))
    (q : Project) : Prop where
  inStep : q.InStep
  counted : (handedOut answers).map PackageId.index = List.range (handedOut answers).length
  size : q.registry.size = (handedOut answers).length
  granted : ∀ id pkg, q.registry.package? id = some pkg ↔ (pkg, .ok id) ∈ calls.zip answers
  resolve_iff : ∀ d id, q.registry.resolve d = some id ↔
    ∃ pkg, q.registry.package? id = some pkg ∧ pkg.descriptor = d
  distinct : ∀ id id' pkg pkg', q.registry.package? id = some pkg →
    q.registry.package? id' = some pkg' → pkg.descriptor = pkg'.descriptor → id = id'
  /-- A further addition fails exactly if its name is taken, over the package that has the name. -/
  refused : ∀ pkg e, (q.add pkg).1 = .error e ↔
    ∃ id other, q.registry.package? id = some other ∧ other.descriptor = pkg.descriptor ∧
      e = ⟨pkg.descriptor, other.base, pkg.base⟩
  unchanged : ∀ pkg e, (q.add pkg).1 = .error e → (q.add pkg).2 = q

/-- Additions to a project without packages make it an index, while there are identities. -/
theorem Followed.indexes {answers : List (Except DefinedTwice PackageId)}
    (h : Followed p calls answers q) (inStep : q.InStep) (empty : p.packages = [])
    (few : (handedOut answers).length ≤ 2 ^ 32) : Indexes calls answers q := by
  have size : q.packages.length = (handedOut answers).length := by simpa [empty] using h.size
  have held : ∀ {id pkg}, q.registry.package? id = some pkg ↔
      ∃ i, q.packages[i]? = some pkg ∧ id = .ofIndex i :=
    package?_eq_some_iff (size ▸ few)
  refine ⟨inStep, ?_, size, ?_, ?_, ?_, ?_, ?_⟩
  · have given := h.given
    rw [empty, List.length_nil, ← List.range_eq_range'] at given
    calc (handedOut answers).map PackageId.index
        = ((List.range (handedOut answers).length).map PackageId.ofIndex).map PackageId.index :=
          congrArg _ given
      _ = (List.range (handedOut answers).length).map id := by
          rw [List.map_map]
          refine List.map_congr_left fun i hi => ?_
          exact Nat.mod_eq_of_lt (Nat.lt_of_lt_of_le (List.mem_range.1 hi) few)
      _ = List.range (handedOut answers).length := List.map_id _
  · intro id pkg
    rw [held, h.granted]
    simp [empty]
  · intro d id
    show q.resolve d = some id ↔ _
    rw [inStep.resolve_eq_some_iff]
    constructor
    · rintro ⟨i, pkg, hpkg, same, hid⟩
      exact ⟨pkg, held.2 ⟨i, hpkg, hid⟩, same⟩
    · rintro ⟨pkg, hpkg, same⟩
      obtain ⟨i, hi, hid⟩ := held.1 hpkg
      exact ⟨i, pkg, hi, same, hid⟩
  · intro id id' pkg pkg' hpkg hpkg' same
    obtain ⟨i, hi, rfl⟩ := held.1 hpkg
    obtain ⟨j, hj, rfl⟩ := held.1 hpkg'
    rw [inStep.place_unique hi hj same]
  · exact fun pkg e => inStep.add_eq_error_iff (size ▸ few)
  · exact fun pkg e => add_of_error

/-- What a project answers for stays so. -/
structure Keeps (p q : Project) : Prop where
  package : ∀ id pkg, p.registry.package? id = some pkg → q.registry.package? id = some pkg
  resolve : ∀ d id, p.registry.resolve d = some id → q.registry.resolve d = some id

/-- **`additions_indexed`**: while there are identities for all that are added, additions to a new
project make it an index of exactly the packages whose additions succeeded, and whatever the project
has answered for an identity or a name before further additions it answers after them. -/
theorem additions_indexed (name : String) (root : Path) (earlier later : List Package)
    (few : (handedOut (addEach { name, root } (earlier ++ later)).1).length ≤ 2 ^ 32) :
    Indexes (earlier ++ later) (addEach { name, root } (earlier ++ later)).1
        (addEach { name, root } (earlier ++ later)).2 ∧
      Indexes earlier (addEach { name, root } earlier).1 (addEach { name, root } earlier).2 ∧
      Keeps (addEach { name, root } earlier).2 (addEach { name, root } (earlier ++ later)).2 := by
  have new := inStep_new name root
  have begun := new.addEach earlier
  have first := new.followed earlier
  have rest := begun.followed later
  have after := (new.followed (earlier ++ later)).indexes (new.addEach _) rfl few
  rw [addEach_append] at few after ⊢
  have fewer : (handedOut (addEach { name, root } earlier).1).length ≤ 2 ^ 32 := by
    rw [handedOut, List.filterMap_append, List.length_append] at few
    exact Nat.le_trans (Nat.le_add_right _ _) few
  have before := first.indexes begun rfl fewer
  refine ⟨after, before, fun id pkg h => rest.package? h, fun d id h => ?_⟩
  obtain ⟨pkg, hpkg, same⟩ := (before.resolve_iff d id).1 h
  exact (after.resolve_iff d id).2 ⟨pkg, rest.package? hpkg, same⟩

/-- Packages `a` and `b`. -/
def twoNames : List Package := [⟨"a", "local", "p/a", none, {}⟩, ⟨"b", "local", "p/b", none, {}⟩]

/-- Another package `a`, and a package `c`. -/
def oneTaken : List Package := [⟨"a", "local", "p/x", none, {}⟩, ⟨"c", "local", "p/c", none, {}⟩]

/-- The second `a` is refused, and `c` follows `b`. -/
theorem additions_indexed_oneTaken :
    (handedOut (addEach { name := "p", root := "p" } (twoNames ++ oneTaken)).1).length ≤ 2 ^ 32 ∧
      Indexes (twoNames ++ oneTaken)
        [.ok (.ofIndex 0), .ok (.ofIndex 1), .error ⟨⟨"local", "a"⟩, "p/a", "p/x"⟩,
          .ok (.ofIndex 2)]
        { name := "p", root := "p", packages := twoNames ++ oneTaken.drop 1,
          index := [(⟨"local", "c"⟩, .ofIndex 2), (⟨"local", "b"⟩, .ofIndex 1),
            (⟨"local", "a"⟩, .ofIndex 0)] } ∧
      Keeps
        { name := "p", root := "p", packages := twoNames,
          index := [(⟨"local", "b"⟩, .ofIndex 1), (⟨"local", "a"⟩, .ofIndex 0)] }
        { name := "p", root := "p", packages := twoNames ++ oneTaken.drop 1,
          index := [(⟨"local", "c"⟩, .ofIndex 2), (⟨"local", "b"⟩, .ofIndex 1),
            (⟨"local", "a"⟩, .ofIndex 0)] } := by
  have few : (handedOut (addEach { name := "p", root := "p" }
      (twoNames ++ oneTaken)).1).length ≤ 2 ^ 32 := by
    decide
  obtain ⟨after, -, keeps⟩ := additions_indexed "p" "p" twoNames oneTaken few
  exact ⟨few, after, keeps⟩

end Project
end PackageResolution

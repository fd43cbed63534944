import PackageResolution.Session.Flags
import Mathlib.Data.List.Nodup
/-!
# Members and how they are made

A session finds a member by its identity. Putting a member in the place of another changes what is
found under its own identity only, and `materialize` only adds members at the end, each for a
registered identity that had none.

Main statements: `member?_setMember`, `compilerInfo_eq`, `materializeEach_members` and
`materializeEach_eq_ok`.
-/
namespace PackageResolution

namespace Member

@[simp] theorem id_keep (m : Member) (ci : CompilerInfo) : (m.keep ci).id = m.id := by
  unfold keep
  split <;> rfl

@[simp] theorem package_keep (m : Member) (ci : CompilerInfo) : (m.keep ci).package = m.package := by
  unfold keep
  split <;> rfl

@[simp] theorem deps_keep (m : Member) (ci : CompilerInfo) : (m.keep ci).deps = m.deps := by
  unfold keep
  split <;> rfl

/-- A loaded member without flags keeps those that it is given. -/
theorem keep_of_blank {m : Member} {provides requires : List String}
    (h : m.phase = .loaded provides requires none) (ci : CompilerInfo) :
    m.keep ci = { m with phase := .loaded provides requires (some ci) } := by
  rw [keep, h]

end Member

namespace Session

/-- No two members have one identity. -/
def Distinct (s : Session) : Prop := (s.members.map (·.id)).Nodup

/-- Every registered identity has a member. -/
def Made (s : Session) : Prop := ∀ id ∈ s.order, ∃ m, s.member? id = some m

/-! ## Finding -/

theorem id_of_member? {s : Session} {id : PackageId} {m : Member} (h : s.member? id = some m) :
    m.id = id := by
  simpa using List.find?_some h

theorem mem_of_member? {s : Session} {id : PackageId} {m : Member} (h : s.member? id = some m) :
    m ∈ s.members :=
  List.mem_of_find?_eq_some h

theorem find?_id_of_mem {members : List Member} {m : Member} (hd : (members.map (·.id)).Nodup)
    (h : m ∈ members) : members.find? (·.id == m.id) = some m := by
  induction members with
  | nil => cases h
  | cons x xs ih =>
    have ⟨hx, hxs⟩ := List.nodup_cons.1 (List.map_cons ▸ hd)
    rcases List.mem_cons.1 h with rfl | h
    · simp
    · have ne : x.id ≠ m.id := fun e => hx (e ▸ List.mem_map_of_mem h)
      rw [List.find?_cons_of_neg (by simpa using ne)]
      exact ih hxs h

theorem member?_of_mem {s : Session} {m : Member} (hd : s.Distinct) (h : m ∈ s.members) :
    s.member? m.id = some m :=
  find?_id_of_mem hd h

theorem member?_isSome_iff {s : Session} {id : PackageId} :
    (s.member? id).isSome = true ↔ ∃ m ∈ s.members, m.id = id := by
  simp [member?, List.find?_isSome]

theorem isRegistered_of_member? {s : Session} {id : PackageId} {m : Member}
    (h : s.member? id = some m) : s.isRegistered id = true := by
  simp [isRegistered, h]

/-! ## Listing -/

/-- The members are listed under the registered identities that have one. -/
theorem map_id_packages (s : Session) : s.packages.map (·.id) = s.order.filter s.isRegistered := by
  unfold packages
  induction s.order with
  | nil => rfl
  | cons id ids ih =>
    cases hm : s.member? id with
    | none => rw [List.filterMap_cons_none hm, ih]; simp [isRegistered, hm]
    | some m =>
      rw [List.filterMap_cons_some hm, List.map_cons, ih, id_of_member? hm]
      simp [isRegistered, hm]

theorem map_id_packages_of_made {s : Session} (h : s.Made) : s.packages.map (·.id) = s.order := by
  rw [map_id_packages, List.filter_eq_self]
  exact fun id hid => Option.isSome_iff_exists.2 (h id hid)

/-! ## Replacing -/

theorem map_id_setMember (s : Session) (m : Member) :
    (s.setMember m).members.map (·.id) = s.members.map (·.id) := by
  simp only [setMember, List.map_map]
  refine List.map_congr_left fun x _ => ?_
  simp only [Function.comp_apply]
  split <;> simp_all

/-- Under its own identity the new member is found, if there was one. -/
theorem member?_setMember (s : Session) (m : Member) (id : PackageId) :
    (s.setMember m).member? id =
      (s.member? id).map fun old => if old.id = m.id then m else old := by
  simp only [member?, setMember, List.find?_map]
  congr 1
  refine congrArg (s.members.find? ·) (funext fun x => ?_)
  simp only [Function.comp_apply]
  split <;> simp_all

theorem member?_setMember_self {s : Session} {m old : Member} (h : s.member? m.id = some old) :
    (s.setMember m).member? m.id = some m := by
  rw [member?_setMember, h]
  simp [id_of_member? h]

theorem member?_setMember_of_ne {s : Session} {m : Member} {id : PackageId} (h : id ≠ m.id) :
    (s.setMember m).member? id = s.member? id := by
  rw [member?_setMember]
  cases hm : s.member? id with
  | none => rfl
  | some old => simp [id_of_member? hm, h]

/-- A member of the session with replacements is the new one or an old one. -/
theorem mem_setMember {s : Session} {m x : Member} (h : x ∈ (s.setMember m).members) :
    x = m ∨ (x ∈ s.members ∧ x.id ≠ m.id) := by
  obtain ⟨old, ho, e⟩ := List.mem_map.1 h
  split at e
  · exact .inl e.symm
  · next ne => exact .inr (e ▸ ⟨ho, ne⟩)

/-- Putting a member in its own place changes nothing. -/
theorem setMember_self {s : Session} {id : PackageId} {m : Member} (hd : s.Distinct)
    (h : s.member? id = some m) : s.setMember m = s := by
  have same : s.members.map (fun old => if old.id = m.id then m else old) = s.members := by
    conv_rhs => rw [← List.map_id s.members]
    refine List.map_congr_left fun x hx => ?_
    split
    · next e =>
      have hxm := member?_of_mem hd hx
      rw [e, id_of_member? h, h] at hxm
      exact Option.some.inj hxm
    · rfl
  simp only [setMember, same]

/-! ## Keeping flags -/

theorem member?_keepFlags_self {s : Session} {m : Member} (hm : s.member? m.id = some m)
    (includes : List Path) :
    (s.keepFlags m includes).member? m.id = some (m.keep (m.assemble includes s.toShared).1) := by
  have own := m.id_keep (m.assemble includes s.toShared).1
  rw [← own] at hm ⊢
  exact member?_setMember_self (s := { s with toShared := (m.assemble includes s.toShared).2 }) hm

theorem member?_keepFlags_of_ne {s : Session} {m : Member} {id : PackageId} (h : id ≠ m.id)
    (includes : List Path) : (s.keepFlags m includes).member? id = s.member? id :=
  member?_setMember_of_ne (s := { s with toShared := (m.assemble includes s.toShared).2 })
    (by rwa [m.id_keep])

/-- Once flags are kept, looking the member up again finds them. -/
theorem keptFlags_keepFlags (r : Registry) {s : Session} {m : Member}
    (hm : s.member? m.id = some m) {provides requires : List String}
    (hp : m.phase = .loaded provides requires none) (includes : List Path) :
    keptFlags r (s.keepFlags m includes) m.id = .ok (m.assemble includes s.toShared).1 := by
  rw [keptFlags, requireMember, member?_keepFlags_self hm, Member.keep_of_blank hp]
  rfl

/-- What a request comes to, by the phase of the member. Looking the member up a second time never
fails. -/
theorem compilerInfo_eq (r : Registry) (s : Session) (id : PackageId) :
    compilerInfo r s id =
      match requireMember r s id with
      | .error e => (.error e, s)
      | .ok m =>
        match m.phase with
        | .pending => (.error (.notLoaded m.display), s)
        | .loaded _ _ (some ci) => (.ok ci, s)
        | .loaded _ _ none =>
          match includePath r s id with
          | .error e => (.error e, s)
          | .ok includes => (.ok (m.assemble includes s.toShared).1, s.keepFlags m includes) := by
  rw [compilerInfo]
  cases hm : s.member? id with
  | none => simp only [requireMember, hm]
  | some m =>
    obtain rfl := id_of_member? hm
    simp only [requireMember, hm]
    cases hp : m.phase with
    | pending => simp [Member.isLoaded, hp]
    | loaded provides requires flags =>
      have hl : m.isLoaded = true := by simp [Member.isLoaded, hp]
      cases flags with
      | some ci =>
        have kept : m.flags = some ci := by simp only [Member.flags, hp]
        have found : keptFlags r s m.id = .ok ci := by
          rw [keptFlags, requireMember, hm]
          simp only [bind, Except.bind, kept]
          rfl
        simp only [hl, kept, found, Bool.not_true, Bool.false_eq_true, if_false, if_true,
          Option.isSome_some]
      | none =>
        have blank : m.flags = none := by simp only [Member.flags, hp]
        simp only [hl, blank, Bool.not_true, Bool.false_eq_true, if_false, Option.isSome_none]
        cases hi : includePath r s m.id with
        | error e => rfl
        | ok includes => simp only [Except.map, keptFlags_keepFlags r hm hp]

/-! ## Making -/

/-- A member as it is made: its package is the registry's, and nothing was found yet. -/
structure Fresh (r : Registry) (m : Member) : Prop where
  package : r.package? m.id = some m.package
  deps : m.deps = []
  phase : m.phase = .pending

/-- Making members adds new ones at the end, each for one of the identities that had none. -/
theorem materializeEach_members (r : Registry) (ids : List PackageId) (members : List Member) :
    ∃ new, (materializeEach r ids members).2 = members ++ new ∧ (new.map (·.id)).Nodup ∧
      ∀ m ∈ new, m.id ∉ members.map (·.id) ∧ m.id ∈ ids ∧ Fresh r m := by
  induction ids generalizing members with
  | nil => exact ⟨[], by simp [materializeEach]⟩
  | cons id ids ih =>
    rw [materializeEach]
    split
    · obtain ⟨new, e, nd, hn⟩ := ih members
      refine ⟨new, e, nd, fun m hm => ?_⟩
      obtain ⟨h₁, h₂, h₃⟩ := hn m hm
      exact ⟨h₁, List.mem_cons_of_mem id h₂, h₃⟩
    · next absent =>
      split
      · exact ⟨[], by simp⟩
      · next package hp =>
        obtain ⟨new, e, nd, hn⟩ := ih (members ++ [⟨id, package, [], .pending⟩])
        have absent' : id ∉ members.map (·.id) := by simpa using absent
        refine ⟨⟨id, package, [], .pending⟩ :: new, by simp [e], ?_, ?_⟩
        · refine List.nodup_cons.2 ⟨fun h => ?_, nd⟩
          obtain ⟨m, hm, hid⟩ := List.mem_map.1 h
          exact (hn m hm).1 (by simp [hid])
        · intro m hm
          rcases List.mem_cons.1 hm with rfl | hm
          · exact ⟨absent', List.mem_cons_self, hp, rfl, rfl⟩
          · obtain ⟨h₁, h₂, h₃⟩ := hn m hm
            exact ⟨fun h => h₁ (by simp_all), List.mem_cons_of_mem id h₂, h₃⟩

/-- If making succeeds, all identities have members. -/
theorem materializeEach_complete {r : Registry} {ids : List PackageId} {members : List Member}
    (h : (materializeEach r ids members).1 = .ok ()) :
    ∀ id ∈ ids, ∃ m ∈ (materializeEach r ids members).2, m.id = id := by
  induction ids generalizing members with
  | nil => simp
  | cons id ids ih =>
    rw [materializeEach] at h ⊢
    split at h
    · next present =>
      rw [if_pos present]
      obtain ⟨new, e, -, -⟩ := materializeEach_members r ids members
      obtain ⟨m, hm, hid⟩ := List.any_eq_true.1 present
      refine List.forall_mem_cons.2 ⟨⟨m, ?_, by simpa using hid⟩, ih h⟩
      rw [e]
      exact List.mem_append_left new hm
    · next absent =>
      rw [if_neg absent]
      split at h
      · cases h
      · next package hp =>
        obtain ⟨new, e, -, -⟩ :=
          materializeEach_members r ids (members ++ [⟨id, package, [], .pending⟩])
        refine List.forall_mem_cons.2 ⟨⟨⟨id, package, [], .pending⟩, ?_, rfl⟩, ih h⟩
        rw [e]
        simp

/-- Making succeeds if the registry holds a package for each identity. -/
theorem materializeEach_eq_ok {r : Registry} {ids : List PackageId} {members : List Member}
    (h : ∀ id ∈ ids, (r.package? id).isSome) : (materializeEach r ids members).1 = .ok () := by
  induction ids generalizing members with
  | nil => rfl
  | cons id ids ih =>
    have ⟨hid, hids⟩ := List.forall_mem_cons.1 h
    rw [materializeEach]
    split
    · exact ih hids
    · obtain ⟨package, hp⟩ := Option.isSome_iff_exists.1 hid
      rw [hp]
      exact ih hids

/-- Where each identity has a member there is nothing to make. -/
theorem materializeEach_of_present (r : Registry) {ids : List PackageId} {members : List Member}
    (h : ∀ id ∈ ids, ∃ m ∈ members, m.id = id) :
    materializeEach r ids members = (.ok (), members) := by
  induction ids with
  | nil => rfl
  | cons id ids ih =>
    obtain ⟨⟨m, hm, hid⟩, rest⟩ := List.forall_mem_cons.1 h
    have present : members.any (·.id == id) = true :=
      List.any_eq_true.2 ⟨m, hm, by simpa using hid⟩
    rw [materializeEach, if_pos present]
    exact ih rest

theorem materialize_of_made (r : Registry) {s : Session} (h : s.Made) :
    materialize r s = (.ok (), s) := by
  have present : ∀ id ∈ s.order, ∃ m ∈ s.members, m.id = id :=
    fun id hid => member?_isSome_iff.1 (Option.isSome_iff_exists.2 (h id hid))
  rw [materialize, materializeEach_of_present r present]

@[simp] theorem materialize_toShared (r : Registry) (s : Session) :
    (materialize r s).2.toShared = s.toShared := rfl

/-- What was found before is found after making members, and what is found only then is new. -/
theorem member?_materialize {r : Registry} {s : Session} {id : PackageId} {m : Member} :
    (materialize r s).2.member? id = some m →
      s.member? id = some m ∨ (s.member? id = none ∧ id ∈ s.order ∧ Fresh r m) := by
  obtain ⟨new, e, -, hn⟩ := materializeEach_members r s.order s.members
  intro h
  have h' : (s.members ++ new).find? (·.id == id) = some m := by rw [← e]; exact h
  rw [List.find?_append] at h'
  cases hs : s.members.find? (·.id == id) with
  | some old =>
    rw [hs, Option.some_or] at h'
    exact .inl (h' ▸ hs)
  | none =>
    rw [hs, Option.none_or] at h'
    have hid : m.id = id := by simpa using List.find?_some h'
    have := hn m (List.mem_of_find?_eq_some h')
    exact .inr ⟨hs, hid ▸ this.2.1, this.2.2⟩

/-- If the registry holds all registered packages, they all are members after making them. -/
theorem materialize_of_held {r : Registry} {s : Session}
    (h : ∀ id ∈ s.order, (r.package? id).isSome) :
    (materialize r s).1 = .ok () ∧ (materialize r s).2.Made := by
  have ok : (materialize r s).1 = .ok () := materializeEach_eq_ok h
  refine ⟨ok, fun id hid => ?_⟩
  obtain ⟨m, hm, e⟩ := materializeEach_complete ok id hid
  exact Option.isSome_iff_exists.1 (member?_isSome_iff.2 ⟨m, hm, e⟩)

theorem member?_materialize_of_some {r : Registry} {s : Session} {id : PackageId} {m : Member}
    (h : s.member? id = some m) : (materialize r s).2.member? id = some m := by
  obtain ⟨new, e, -, -⟩ := materializeEach_members r s.order s.members
  show (materializeEach r s.order s.members).2.find? (·.id == id) = some m
  rw [e, List.find?_append, show s.members.find? (·.id == id) = some m from h, Option.some_or]

theorem materialize_distinct (r : Registry) {s : Session} (h : s.Distinct) :
    (materialize r s).2.Distinct := by
  obtain ⟨new, e, nd, hn⟩ := materializeEach_members r s.order s.members
  show ((materializeEach r s.order s.members).2.map (·.id)).Nodup
  rw [e, List.map_append]
  refine List.nodup_append.2 ⟨h, nd, fun x hx y hy exy => ?_⟩
  obtain ⟨m, hm, hmy⟩ := List.mem_map.1 hy
  exact (hn m hm).1 (by rw [hmy, ← exy]; exact hx)

end Session
end PackageResolution

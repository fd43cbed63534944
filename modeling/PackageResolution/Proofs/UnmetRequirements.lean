import PackageResolution.Proofs.Capabilities
/-!
# The first requirement that is not met

Verification judges what members have recorded. It takes them in the order of their registration and
the requirements of each in the order in which they are listed, and stops at the first one that no
member provides. An identity that is registered and has no member requires and provides nothing, and
so does a package that is pending. How often something is provided makes no difference.

Main statement: `verifyCapabilities_decides`.
-/
namespace PackageResolution

/-- An entry of a list for which `p` holds, as it does for no entry before. -/
def FirstWith {α : Type} (p : α → Prop) (l : List α) (x : α) : Prop :=
  ∃ before after, l = before ++ x :: after ∧ p x ∧ ∀ y ∈ before, ¬ p y

namespace FirstWith

variable {α : Type} {p : α → Prop} {l : List α} {x : α}

theorem congr {q : α → Prop} (hpq : ∀ z, p z ↔ q z) (h : FirstWith p l x) : FirstWith q l x := by
  obtain ⟨before, after, e, hx, hbefore⟩ := h
  exact ⟨before, after, e, (hpq x).1 hx, fun y hy hq => hbefore y hy ((hpq y).2 hq)⟩

end FirstWith

theorem find?_eq_some_iff_firstWith {α : Type} {p : α → Bool} {l : List α} {x : α} :
    l.find? p = some x ↔ FirstWith (p · = true) l x := by
  rw [List.find?_eq_some_iff_append, FirstWith]
  constructor
  · rintro ⟨hx, before, after, rfl, hbefore⟩
    exact ⟨before, after, rfl, hx, fun y hy => by simpa using hbefore y hy⟩
  · rintro ⟨before, after, rfl, hx, hbefore⟩
    exact ⟨hx, before, after, rfl, fun y hy => by simpa using hbefore y hy⟩

theorem findSome?_eq_some_iff_firstWith {α β : Type} {f : α → Option β} {l : List α} {b : β} :
    l.findSome? f = some b ↔ ∃ x, FirstWith (fun y => (f y).isSome = true) l x ∧ f x = some b := by
  rw [List.findSome?_eq_some_iff]
  constructor
  · rintro ⟨before, x, after, rfl, hx, hbefore⟩
    exact ⟨x, ⟨before, after, rfl, by simp [hx], fun y hy => by simp [hbefore y hy]⟩, hx⟩
  · rintro ⟨x, ⟨before, after, rfl, -, hbefore⟩, hx⟩
    exact ⟨before, x, after, rfl, hx, fun y hy => by simpa using hbefore y hy⟩

theorem findSome?_filterMap {α β γ : Type} (f : α → Option β) (g : β → Option γ) (l : List α) :
    (l.filterMap f).findSome? g = l.findSome? fun x => (f x).bind g := by
  induction l with
  | nil => rfl
  | cons x xs ih =>
    cases hx : f x with
    | none => simp [hx, ih]
    | some y => simp [hx, List.findSome?_cons, ih]

namespace Session

variable {r : Registry} {s : Session} {id : PackageId} {c : String}

/-- A member has recorded that it provides a capability. -/
def Provided (s : Session) (c : String) : Prop := ∃ id m, s.member? id = some m ∧ c ∈ m.provides

/-- A registered package has recorded a requirement that no member meets. -/
def Wanting (s : Session) (id : PackageId) : Prop :=
  ∃ m, s.member? id = some m ∧ ∃ c ∈ m.requires, ¬ s.Provided c

/-- The first requirement that no member meets: it is that of the first package, in the order of
registration, that has one, and the first in the package's list. -/
structure FirstUnmet (s : Session) (m : Member) (c : String) : Prop where
  member : s.member? m.id = some m
  package : FirstWith s.Wanting s.order m.id
  requirement : FirstWith (¬ s.Provided ·) m.requires c

theorem provided_iff (hs : Consistent r s) :
    s.Provided c ↔ s.providers.contains c = true := by
  rw [contains_providers]
  constructor
  · rintro ⟨id, m, hm, hc⟩
    exact ⟨m, mem_packages.2 ⟨id, (hs.of_member? hm).1, hm⟩, hc⟩
  · rintro ⟨m, hm, hc⟩
    obtain ⟨id, -, hm⟩ := mem_packages.1 hm
    exact ⟨id, m, hm, hc⟩

/-- The first requirement of a member that is not met. -/
def unmetOf? (s : Session) (m : Member) : Option String :=
  m.requires.find? fun c => !s.providers.contains c

theorem unmetOf?_eq_some_iff (hs : Consistent r s) {m : Member} :
    s.unmetOf? m = some c ↔ FirstWith (¬ s.Provided ·) m.requires c := by
  have missing : ∀ x, (!s.providers.contains x) = true ↔ ¬ s.Provided x := by
    intro x
    rw [provided_iff hs]
    simp
  rw [unmetOf?, find?_eq_some_iff_firstWith]
  exact ⟨.congr missing, .congr fun x => (missing x).symm⟩

theorem unmetOf?_isSome_iff (hs : Consistent r s) {m : Member} :
    (s.unmetOf? m).isSome = true ↔ ∃ c ∈ m.requires, ¬ s.Provided c := by
  rw [unmetOf?, List.find?_isSome]
  simp only [provided_iff hs, Bool.not_eq_true']
  simp

/-- The search goes through the registered identities and passes over those without member. -/
theorem unmet?_eq (s : Session) : s.unmet? =
    s.order.findSome? fun id => (s.member? id).bind fun m => (s.unmetOf? m).map (m, ·) := by
  rw [unmet?, packages, findSome?_filterMap]
  rfl

theorem unmet?_eq_some_iff (hs : Consistent r s) {m : Member} :
    s.unmet? = some (m, c) ↔ FirstUnmet s m c := by
  have wanting : ∀ id, ((s.member? id).bind fun m => (s.unmetOf? m).map (m, ·)).isSome = true ↔
      s.Wanting id := by
    intro id
    rw [Wanting]
    cases hm : s.member? id with
    | none => simp
    | some m => simp [unmetOf?_isSome_iff hs]
  rw [unmet?_eq, findSome?_eq_some_iff_firstWith]
  constructor
  · rintro ⟨id, first, found⟩
    obtain ⟨m', hm, found⟩ := Option.bind_eq_some_iff.1 found
    obtain ⟨c', hc, e⟩ := Option.map_eq_some_iff.1 found
    cases e
    obtain rfl := id_of_member? hm
    exact ⟨hm, first.congr wanting, (unmetOf?_eq_some_iff hs).1 hc⟩
  · rintro ⟨hm, first, requirement⟩
    refine ⟨m.id, first.congr fun x => (wanting x).symm, ?_⟩
    rw [hm, Option.bind_some, (unmetOf?_eq_some_iff hs).2 requirement]
    rfl

theorem verifyCapabilities_eq_error_iff {e : ResolutionError} :
    s.verifyCapabilities = .error e ↔
      ∃ m c, s.unmet? = some (m, c) ∧ e = .missingCapability m.display c := by
  rw [verifyCapabilities]
  cases s.unmet? with
  | none => simp
  | some x =>
    obtain ⟨m, c⟩ := x
    simp [eq_comm]

/-- **`verifyCapabilities_decides`**: in every session that operations can lead to, verification
succeeds exactly if every requirement that a member has recorded is provided by a member, and it
fails exactly over the first one that is not. -/
theorem verifyCapabilities_decides (r : Registry) (t : Target) (ops : List Operation) :
    ((run r t ops).verifyCapabilities = .ok () ↔
      ∀ id m, (run r t ops).member? id = some m →
        ∀ c ∈ m.requires, (run r t ops).Provided c) ∧
    ∀ e, (run r t ops).verifyCapabilities = .error e ↔
      ∃ m c, FirstUnmet (run r t ops) m c ∧ e = .missingCapability m.display c := by
  have hs := run_consistent r t ops
  constructor
  · rw [verifyCapabilities_eq_ok_iff]
    simp only [provided_iff hs, contains_providers]
    constructor
    · intro all id m hm
      exact all m (mem_packages.2 ⟨id, (hs.of_member? hm).1, hm⟩)
    · intro all m hm
      obtain ⟨id, -, hm⟩ := mem_packages.1 hm
      exact all id m hm
  · intro e
    simp only [verifyCapabilities_eq_error_iff, unmet?_eq_some_iff hs]

end Session
end PackageResolution

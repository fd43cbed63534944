import PackageResolution.Proofs.FixedPoint
import PackageResolution.Session.Capability
/-!
# What capability verification judges

A package records what it provides and what it requires in the moment in which it becomes final, and
verification compares what was recorded. Features that are enabled later can add to both, so after
resolution the verdict and the final configuration can differ in two ways: a package came to require
something that nobody provides, or to provide something that was missed.

Main statement: `verifyCapabilities_iff_covered_iff`.
-/
namespace PackageResolution

/-- A project of two packages: `a` provides `net` while the feature `x` is enabled, and `b` enables it
and requires `net`. -/
def Project.lateCapability : Project := .holding "capability" "capability" [
  ⟨"a", Descriptor.localRepo, "capability/a", none, ({} : Settings).addScoped "x" .caps ["net"]⟩,
  ⟨"b", Descriptor.localRepo, "capability/b", none,
    (({} : Settings).add .features ["x"]).add .reqCaps ["net"]⟩]

namespace Session

variable {r : Registry} {s s' : Session} {id : PackageId} {c : String}

/-! ## The verdict -/

theorem mem_packages {m : Member} : m ∈ s.packages ↔ ∃ id ∈ s.order, s.member? id = some m := by
  simp [packages, List.mem_filterMap]

theorem contains_push (m : Member) (x : String) (groups : Providers) :
    (groups.push m x).contains c = true ↔ c = x ∨ groups.contains c = true := by
  induction groups with
  | nil => simp [Providers.push, Providers.contains, eq_comm (a := c)]
  | cons g gs ih =>
    rw [Providers.push]
    simp only [Providers.contains, List.any_cons, Bool.or_eq_true, beq_iff_eq] at ih ⊢
    split
    · next same => simp [← same, eq_comm (a := c)]
    · rw [List.any_cons, Bool.or_eq_true, ih, beq_iff_eq]
      exact or_left_comm

theorem contains_foldl_push (m : Member) (capabilities : List String) (groups : Providers) :
    (capabilities.foldl (fun groups c => groups.push m c) groups).contains c = true ↔
      c ∈ capabilities ∨ groups.contains c = true := by
  induction capabilities generalizing groups with
  | nil => simp
  | cons x xs ih =>
    rw [List.foldl_cons, ih, contains_push, List.mem_cons, or_assoc]
    exact or_left_comm

theorem contains_foldl_members (members : List Member) (groups : Providers) :
    (members.foldl (fun groups m =>
      m.provides.foldl (fun groups c => groups.push m c) groups) groups).contains c = true ↔
        (∃ m ∈ members, c ∈ m.provides) ∨ groups.contains c = true := by
  induction members generalizing groups with
  | nil => simp
  | cons m ms ih =>
    rw [List.foldl_cons, ih, contains_foldl_push, List.exists_mem_cons_iff, or_assoc]
    exact or_left_comm

theorem contains_providers : s.providers.contains c = true ↔ ∃ m ∈ s.packages, c ∈ m.provides := by
  rw [providers, contains_foldl_members]
  simp [Providers.contains]

/-- Verification succeeds exactly if whatever a member records as required is recorded as provided
by some member. -/
theorem verifyCapabilities_eq_ok_iff : s.verifyCapabilities = .ok () ↔
    ∀ m ∈ s.packages, ∀ c ∈ m.requires, ∃ m' ∈ s.packages, c ∈ m'.provides := by
  have unmet : s.unmet? = none ↔
      ∀ m ∈ s.packages, ∀ c ∈ m.requires, ∃ m' ∈ s.packages, c ∈ m'.provides := by
    simp [unmet?, contains_providers]
  rw [← unmet, verifyCapabilities]
  cases s.unmet? with
  | none => simp
  | some x => simp

/-! ## The final configuration -/

/-- A registered package declares a value under the enabled features. -/
def Declared (r : Registry) (s : Session) (k : Settings.Key) (c : String) : Prop :=
  ∃ id ∈ s.order, ∃ p ∈ r.package? id, c ∈ p.settings.values k s.features

instance (r : Registry) (s : Session) (k : Settings.Key) (c : String) : Decidable (Declared r s k c) :=
  inferInstanceAs (Decidable (∃ id ∈ s.order, ∃ p ∈ r.package? id,
    c ∈ p.settings.values k s.features))

/-- Whatever registered packages require under the enabled features is provided under them. -/
def Covered (r : Registry) (s : Session) : Prop :=
  ∀ id ∈ s.order, ∀ p ∈ r.package? id, ∀ c ∈ p.settings.values .reqCaps s.features,
    Declared r s .caps c

instance (r : Registry) (s : Session) : Decidable (Covered r s) :=
  inferInstanceAs (Decidable (∀ id ∈ s.order, ∀ p ∈ r.package? id,
    ∀ c ∈ p.settings.values .reqCaps s.features, Declared r s .caps c))

theorem covered_iff : Covered r s ↔ ∀ c, Declared r s .reqCaps c → Declared r s .caps c := by
  constructor
  · rintro covered c ⟨id, hid, p, hp, hc⟩
    exact covered id hid p hp c hc
  · intro all id hid p hp c hc
    exact all c ⟨id, hid, p, hp, hc⟩

/-- On a way from `s` to `s'` a package became final, and a feature that was enabled after that gives
it a value. -/
def Late (r : Registry) (s s' : Session) (k : Settings.Key) (c : String) : Prop :=
  ∃ id G p, FinalUnder r s s' id G ∧ r.package? id = some p ∧ c ∈ p.settings.gained G s'.features k

/-- What is declared in a finished session was recorded, or came late. -/
theorem Finished.declared_iff (finished : s'.Finished) (hs : Consistent r s)
    (begin : ∀ m ∈ s.members, m.isLoaded = false) (steps : Steps r Set.univ r.held s s')
    {k : Settings.Key} {recorded : Member → List String}
    (reads : ∀ m G, Snapshot r s' m G → recorded m = m.package.settings.values k G) :
    Declared r s' k c ↔ (∃ m ∈ s'.packages, c ∈ recorded m) ∨ Late r s s' k c := by
  have hs' := steps.consistent hs
  constructor
  · rintro ⟨id, hid, p, hp, hc⟩
    obtain ⟨m, hm, hl⟩ := finished id hid
    obtain ⟨G, final, snapshot⟩ := steps.exists_finalUnder hs begin hm hl
    obtain rfl : m.package = p := Option.some.inj ((hs'.of_member? hm).2.symm.trans hp)
    rcases (Settings.mem_values_iff_gained snapshot.enabled).1 hc with early | gained
    · exact .inl ⟨m, mem_packages.2 ⟨id, hid, hm⟩, (reads m G snapshot).symm ▸ early⟩
    · exact .inr ⟨id, G, m.package, final, hp, gained⟩
  · rintro (⟨m, hm, hc⟩ | ⟨id, G, p, final, hp, gained⟩)
    · obtain ⟨id, hid, hm⟩ := mem_packages.1 hm
      obtain ⟨x, hx, hl⟩ := finished id hid
      obtain rfl := Option.some.inj (hm.symm.trans hx)
      obtain ⟨G, -, snapshot⟩ := steps.exists_finalUnder hs begin hm hl
      rw [reads m G snapshot] at hc
      exact ⟨id, hid, m.package, (hs'.of_member? hm).2, Settings.values_mono snapshot.enabled hc⟩
    · obtain ⟨m, hm, snapshot⟩ := final.snapshot hs
      have now := (Settings.mem_values_iff_gained snapshot.enabled).2 (.inr gained)
      exact ⟨id, (hs'.of_member? hm).1, p, hp, now⟩

/-- **`verifyCapabilities_iff_covered_iff`**: after operations and a resolution that succeeds, the
verdict on the capabilities is that on the final configuration exactly if nothing that came late
turns it: where verification succeeds, what packages came to require after they were final is
provided, and where the final configuration is covered, no capability that was recorded as required
is provided only by packages that came to provide it after they were final. -/
theorem verifyCapabilities_iff_covered_iff (r : Registry) (t : Target) (ops : List Operation)
    {a : Summary} {s' : Session} (h : resolve r (run r t ops) = (.ok a, s')) :
    (s'.verifyCapabilities = .ok () ↔ Covered r s') ↔
      (s'.verifyCapabilities = .ok () →
        ∀ c, Late r (start t) s' .reqCaps c → Declared r s' .caps c) ∧
      (Covered r s' → ∀ c, Late r (start t) s' .caps c → (∃ m ∈ s'.packages, c ∈ m.requires) →
        ∃ m ∈ s'.packages, c ∈ m.provides) := by
  have begin := Consistent.start r t
  have pending : ∀ m ∈ (start t).members, m.isLoaded = false := by simp
  have steps := steps_run_resolve h
  have finished := finished_of_resolve (run_consistent r t ops) h
  have required : ∀ c, Declared r s' .reqCaps c ↔
      (∃ m ∈ s'.packages, c ∈ m.requires) ∨ Late r (start t) s' .reqCaps c :=
    fun c => finished.declared_iff begin pending steps fun m G snapshot => snapshot.requires
  have provided : ∀ c, Declared r s' .caps c ↔
      (∃ m ∈ s'.packages, c ∈ m.provides) ∨ Late r (start t) s' .caps c :=
    fun c => finished.declared_iff begin pending steps fun m G snapshot => snapshot.provides
  rw [covered_iff, verifyCapabilities_eq_ok_iff]
  constructor
  · intro same
    constructor
    · intro verdict c late
      exact same.1 verdict c ((required c).2 (.inr late))
    · rintro covered c - ⟨m, hm, hc⟩
      exact same.2 covered m hm c hc
  · rintro ⟨sound, complete⟩
    constructor
    · intro verdict c hc
      rcases (required c).1 hc with ⟨m, hm, hc⟩ | late
      · exact (provided c).2 (.inl (verdict m hm c hc))
      · exact sound verdict c late
    · intro covered m hm c hc
      rcases (provided c).1 (covered c ((required c).2 (.inl ⟨m, hm, hc⟩))) with early | late
      · exact early
      · exact complete covered c late ⟨m, hm, hc⟩

/-- What resolution of `lateCapability` comes to if `a` is added before `b`. -/
def lateCapabilityOutcome : Outcome Summary :=
  resolveSeeded Project.lateCapability.registry ⟨"t", "arm", [], []⟩ [] [.ofIndex 0, .ofIndex 1]

/-- Here `a` came to provide `net` after it was final. -/
theorem verifyCapabilities_iff_covered_iff_lateCapability :
    lateCapabilityOutcome.1 = .ok ⟨2, 2, 1⟩ ∧
      ∃ c, Late Project.lateCapability.registry (start ⟨"t", "arm", [], []⟩) lateCapabilityOutcome.2
          .caps c ∧
        (∃ m ∈ lateCapabilityOutcome.2.packages, c ∈ m.requires) ∧
        ¬ ∃ m ∈ lateCapabilityOutcome.2.packages, c ∈ m.provides := by
  have ok : lateCapabilityOutcome.1 = .ok ⟨2, 2, 1⟩ := by decide
  have covered : Covered Project.lateCapability.registry lateCapabilityOutcome.2 := by decide
  have refused : lateCapabilityOutcome.2.verifyCapabilities ≠ .ok () := by decide
  refine ⟨ok, ?_⟩
  by_contra none
  have same := (verifyCapabilities_iff_covered_iff Project.lateCapability.registry _ _
    (Prod.ext ok rfl)).2 ⟨fun verdict => absurd verdict refused, ?_⟩
  · exact refused (same.2 covered)
  · intro _ c late required
    by_contra missing
    exact none ⟨c, late, required, missing⟩

/-- Verification misses that `a` provides `net`. -/
theorem not_verifyCapabilities_iff_covered :
    lateCapabilityOutcome.1 = .ok ⟨2, 2, 1⟩ ∧
      ¬ (lateCapabilityOutcome.2.verifyCapabilities = .ok () ↔
        Covered Project.lateCapability.registry lateCapabilityOutcome.2) := by
  decide

end Session
end PackageResolution

import PackageResolution.Proofs.Quiescence
import PackageResolution.Proofs.Snapshot
/-!
# When resolution reaches the fixed point

A session is complete if nothing is left to find: what its packages declare under all enabled
features is enabled and recorded. Resolution that succeeds ends with every package final, and each
of them has read what it declares under the features of the time when it became final. Nothing sees
to what is scoped under the features that came later, so the session is complete exactly if all of
that was found in another way.

Main statement: `resolve_complete_iff`.
-/
namespace PackageResolution

namespace Session

variable {r : Registry} {s s' : Session}

/-- Of some values of a member's package, the features are enabled, and the dependencies are
recorded and lead to registered identities. -/
structure Met (r : Registry) (s : Session) (m : Member) (values : Settings.Key → List String) :
    Prop where
  features : ∀ x ∈ values .features, x ∈ s.features
  deps : ∀ entry ∈ values .deps, ∃ d ∈ m.deps, ∃ id ∈ s.order, r.Means m.package.repo entry d id

instance (r : Registry) (s : Session) (m : Member) (values : Settings.Key → List String) :
    Decidable (Met r s m values) :=
  decidable_of_iff ((∀ x ∈ values .features, x ∈ s.features) ∧
      ∀ entry ∈ values .deps, ∃ d ∈ m.deps, ∃ id ∈ s.order, r.Means m.package.repo entry d id)
    ⟨fun h => ⟨h.1, h.2⟩, fun h => ⟨h.features, h.deps⟩⟩

/-- All that the registered packages declare under the enabled features is met. -/
def Complete (r : Registry) (s : Session) : Prop :=
  ∀ id ∈ s.order, ∃ m, s.member? id = some m ∧
    Met r s m fun k => m.package.settings.values k s.features

instance (r : Registry) (s : Session) : Decidable (Complete r s) :=
  decidable_of_iff (∀ id ∈ s.order, ∃ m ∈ s.member? id,
      Met r s m fun k => m.package.settings.values k s.features) Iff.rfl

/-! ## Complete sessions -/

/-- A session is complete if what was read is met and what was gained since is met. -/
theorem Met.of_snapshot {m : Member} {G : FeatureSet} (h : Snapshot r s m G)
    (late : Met r s m (m.package.settings.gained G s.features)) :
    Met r s m fun k => m.package.settings.values k s.features := by
  constructor
  · intro x hx
    rcases (Settings.mem_values_iff_gained h.enabled).1 hx with early | gained
    · exact h.enabled x (h.settled x early)
    · exact late.features x gained
  · intro entry he
    rcases (Settings.mem_values_iff_gained h.enabled).1 he with early | gained
    · exact h.read entry early
    · exact late.deps entry gained

theorem Met.gained {m : Member} {G : FeatureSet} (hG : G ⊆ s.features)
    (h : Met r s m fun k => m.package.settings.values k s.features) :
    Met r s m (m.package.settings.gained G s.features) where
  features x hx := h.features x ((Settings.mem_values_iff_gained hG).2 (.inr hx))
  deps entry he := h.deps entry ((Settings.mem_values_iff_gained hG).2 (.inr he))

/-- The features under which a package became final are enabled. -/
theorem FinalUnder.subset (hs : Consistent r s) {id : PackageId} {G : FeatureSet}
    (h : FinalUnder r s s' id G) : G ⊆ s'.features := by
  obtain ⟨u, before, -, rfl, after⟩ := h
  have later : Steps r Set.univ r.held u s' := (loadPackage_steps u id).trans after
  exact (later.grows (before.consistent hs).distinct).features

/-- What resolution of `lateFeature` comes to if its packages are added in this order. -/
def lateOutcome (ids : List PackageId) : Outcome Summary :=
  resolveSeeded Project.lateFeature.registry ⟨"t", "arm", [], []⟩ [] ids

/-- **`resolve_complete_iff`**: resolution that succeeds reaches the fixed point exactly if, for
each package, what it has scoped under features that were enabled after it became final is met. -/
theorem resolve_complete_iff (r : Registry) (t : Target) (ops : List Operation) {a : Summary}
    {s' : Session} (h : resolve r (run r t ops) = (.ok a, s')) :
    Complete r s' ↔ ∀ id G m, FinalUnder r (start t) s' id G → s'.member? id = some m →
      Met r s' m (m.package.settings.gained G s'.features) := by
  have steps : Steps r Set.univ r.held (start t) s' :=
    (steps_run r t ops).trans ((resolve_steps (run r t ops)).of_eq h)
  have hs := steps.consistent (.start r t)
  constructor
  · intro complete id G m final hm
    obtain ⟨m', hm', met⟩ := complete id (hs.of_member? hm).1
    obtain rfl : m = m' := Option.some.inj (hm.symm.trans hm')
    exact met.gained (final.subset (.start r t))
  · intro late id hid
    obtain ⟨m, hm, hl⟩ := finished_of_resolve (run_consistent r t ops) h id hid
    have begin : ∀ x ∈ (start t).members, x.isLoaded = false :=
      fun _ hx => absurd hx List.not_mem_nil
    obtain ⟨G, final, snapshot⟩ := steps.exists_finalUnder (.start r t) begin hm hl
    exact ⟨m, hm, .of_snapshot snapshot (late id G m final hm)⟩

/-- If `b` is added before `a`, then `x` is enabled before `a` is final, and nothing is missed. -/
theorem resolve_complete_iff_lateFeature :
    (lateOutcome [.ofIndex 1, .ofIndex 0]).1 = .ok ⟨2, 3, 1⟩ ∧
      Complete Project.lateFeature.registry (lateOutcome [.ofIndex 1, .ofIndex 0]).2 ∧
      ∀ id G m, FinalUnder Project.lateFeature.registry (start ⟨"t", "arm", [], []⟩)
        (lateOutcome [.ofIndex 1, .ofIndex 0]).2 id G →
        (lateOutcome [.ofIndex 1, .ofIndex 0]).2.member? id = some m →
        Met Project.lateFeature.registry (lateOutcome [.ofIndex 1, .ofIndex 0]).2 m
          (m.package.settings.gained G (lateOutcome [.ofIndex 1, .ofIndex 0]).2.features) := by
  have ok : (lateOutcome [.ofIndex 1, .ofIndex 0]).1 = .ok ⟨2, 3, 1⟩ := by decide
  have complete : Complete Project.lateFeature.registry
      (lateOutcome [.ofIndex 1, .ofIndex 0]).2 := by decide
  exact ⟨ok, complete, (resolve_complete_iff _ _ _ (Prod.ext ok rfl)).1 complete⟩

/-- If `a` is added before `b`, then `a` is final before `b` enables `x`, and never records `c`. -/
theorem resolve_not_complete :
    (lateOutcome [.ofIndex 0, .ofIndex 1]).1 = .ok ⟨2, 2, 1⟩ ∧
      ¬ Complete Project.lateFeature.registry (lateOutcome [.ofIndex 0, .ofIndex 1]).2 := by
  decide

end Session
end PackageResolution

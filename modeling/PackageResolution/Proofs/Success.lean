import PackageResolution.Proofs.FixedPoint
/-!
# Where resolution cannot fail

Two things make resolution fail: a dependency text that means nothing, and a registered identity
that is no package's. Within a closed pair of features and packages that has neither, every load
attempt succeeds, and so does the whole. What a complete session has enabled and registered is such
a pair.

Main statements: `Complete.answered` and `Ready.resolve`.
-/
namespace PackageResolution

/-- A closed pair in which nothing fails: the registry holds the packages, and every dependency text
that they declare means something. -/
structure Registry.AnsweredUnder (r : Registry) (F : Set String) (P : Set PackageId) : Prop
    extends r.ClosedUnder F P where
  held : ∀ id ∈ P, id ∈ r.held
  means : ∀ id ∈ P, ∀ p, r.package? id = some p →
    ∀ entry, p.settings.Applies .deps F entry → ∃ d dep, r.Means p.repo entry d dep

namespace Session

variable {r : Registry} {F : Set String} {P : Set PackageId} {s s' : Session}

/-- What a complete session has enabled and registered is a pair in which nothing fails. -/
theorem Complete.answered (hs : Consistent r s) (h : Complete r s) :
    r.AnsweredUnder s.features.toSet {id | id ∈ s.order} := by
  have met : ∀ id ∈ s.order, ∀ p, r.package? id = some p →
      ∃ m, s.member? id = some m ∧ m.package = p ∧
        Met r s m fun k => p.settings.values k s.features := by
    intro id hid p hp
    obtain ⟨m, hm, met⟩ := h id hid
    obtain rfl := Option.some.inj (hp.symm.trans (hs.of_member? hm).2)
    exact ⟨m, hm, rfl, met⟩
  refine ⟨⟨?_, ?_⟩, ?_, ?_⟩
  · intro id hid p hp x hx
    obtain ⟨m, -, -, met⟩ := met id hid p hp
    exact met.features x (Settings.mem_values.2 hx)
  · intro id hid p hp entry he d dep means
    obtain ⟨m, -, rfl, met⟩ := met id hid p hp
    obtain ⟨d', -, dep', hdep, means'⟩ := met.deps entry (Settings.mem_values.2 he)
    obtain rfl : d = d' := Except.ok.inj (means.1.symm.trans means'.1)
    obtain rfl : dep = dep' := Option.some.inj (means.2.symm.trans means'.2)
    exact hdep
  · intro id hid
    obtain ⟨m, hm, -⟩ := h id hid
    simp [Registry.held, (hs.of_member? hm).2]
  · intro id hid p hp entry he
    obtain ⟨m, -, rfl, met⟩ := met id hid p hp
    obtain ⟨d, -, dep, -, means⟩ := met.deps entry (Settings.mem_values.2 he)
    exact ⟨d, dep, means⟩

/-! ## Where resolution cannot fail -/

/-- A session within `F` and `P` whose registered identities all have members. -/
structure Ready (r : Registry) (F : Set String) (P : Set PackageId) (s : Session) : Prop where
  consistent : Consistent r s
  within : Within F P s
  made : s.Made

theorem Ready.loadPackage (ha : r.AnsweredUnder F P) (h : Ready r F P s) {id : PackageId}
    (hid : id ∈ s.order) :
    ∃ state s', loadPackage r s id = (.ok state, s') ∧ Ready r F P s' := by
  have steps := loadPackage_steps (r := r) (F := F) (P := P) s id
  have hs' := steps.consistent h.consistent
  have within' := steps.within ha.toClosedUnder h.consistent h.within
  obtain ⟨m, hm⟩ := h.made id hid
  have cases := loads_loadPackage r h.consistent.distinct id
  revert cases hs' within'
  generalize Session.loadPackage r s id = out
  intro hs' within' cases
  cases cases with
  | absent none => rw [none] at hm; cases hm
  | done _ _ =>
    have held : ∀ x ∈ s.order, x ∈ r.held := fun x hx => ha.held x (within'.order x hx)
    obtain ⟨ok, made⟩ := materialize_of_held held
    exact ⟨_, _, Prod.ext (by rw [ok]; rfl) rfl, hs', within', made⟩
  | @failed m m' shared e hm hp a =>
    -- the text that means nothing is declared under the features that the attempt enabled
    obtain rfl := id_of_member? hm
    have features := a.features_eq
    cases a with
    | failed e t found bad =>
      obtain ⟨entry, he, nothing⟩ := bad
      have applies : m.package.settings.Applies .deps F entry := by
        refine (Settings.mem_values.1 he).mono fun x hx => within'.features x ?_
        exact features ▸ hx
      obtain ⟨d, dep, means⟩ := ha.means m.id (h.within.order m.id hid) m.package
        (h.consistent.package m (mem_of_member? hm)) entry applies
      exact absurd means (nothing d dep)
  | @tried m m' shared state _ _ _ =>
    have held : ∀ x ∈ (s.tried shared m').order, x ∈ r.held :=
      fun x hx => ha.held x (within'.order x hx)
    obtain ⟨ok, made⟩ := materialize_of_held held
    exact ⟨_, _, Prod.ext (by rw [ok]; rfl) rfl, hs', within', made⟩

theorem Ready.loadEach (ha : r.AnsweredUnder F P) {ids : List PackageId} (h : Ready r F P s)
    (hids : ∀ id ∈ ids, id ∈ s.order) :
    ∃ noisy s', loadEach r s ids = (.ok noisy, s') ∧ Ready r F P s' := by
  induction ids generalizing s with
  | nil => exact ⟨false, s, rfl, h⟩
  | cons id ids ih =>
    obtain ⟨hid, hids⟩ := List.forall_mem_cons.1 hids
    obtain ⟨state, s₁, first, h₁⟩ := h.loadPackage ha hid
    have step : Steps r F P s s₁ := (loadPackage_steps s id).of_eq first
    have grows := step.grows h.consistent.distinct
    obtain ⟨noisy, s', rest, h'⟩ := ih h₁ fun x hx => grows.order.subset (hids x hx)
    refine ⟨decide (state = .pending) || noisy, s', ?_, h'⟩
    rw [Session.loadEach, first]
    dsimp only
    rw [rest]
    rfl

theorem Ready.resolvePass (ha : r.AnsweredUnder F P) (h : Ready r F P s) :
    ∃ noisy s', resolvePass r s = (.ok noisy, s') ∧ Ready r F P s' := by
  obtain ⟨pending, s', each, h'⟩ := h.loadEach ha fun _ hid => hid
  refine ⟨pending || decide (s.order.length < s'.order.length), s', ?_, h'⟩
  rw [Session.resolvePass, each]
  rfl

theorem Ready.rounds (ha : r.AnsweredUnder F P) {n : Nat} {result : Except ResolutionError Unit}
    (h : Ready r F P s) (rounds : Rounds r s n result s') : result = .ok () := by
  induction rounds with
  | quiet _ => rfl
  | failed hpass =>
    obtain ⟨noisy, s', ok, -⟩ := h.resolvePass ha
    rw [ok] at hpass
    cases hpass
  | again hpass _ ih =>
    obtain ⟨noisy, s', ok, h'⟩ := h.resolvePass ha
    rw [ok] at hpass
    cases hpass
    exact ih h'

/-- Resolution succeeds where nothing fails. -/
theorem Ready.resolve (ha : r.AnsweredUnder F P) (h : Ready r F P s) :
    ∃ a, (resolve r s).1 = .ok a := by
  obtain ⟨n, result, s', rounds, -, answer⟩ := resolve_rounds h.consistent
  obtain rfl := h.rounds ha rounds
  exact ⟨_, by rw [answer]; rfl⟩

end Session
end PackageResolution

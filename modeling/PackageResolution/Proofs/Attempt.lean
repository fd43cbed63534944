import PackageResolution.Proofs.Values
import PackageResolution.Session.Load
import Mathlib.Data.List.Nodup
/-!
# What one load attempt does

A load attempt enables features, follows dependency texts up to the first that means nothing, and
makes the package final if it found nothing new. `Attempt` says this as a relation with one case for
each way an attempt can end, so that what holds of every session is proved by three cases and the
definitions stay closed.

Main statements: `follow_continues` (what following texts adds, and that it adds it once) and
`attempt_of_pending`.
-/
namespace PackageResolution

/-! ## Lists that only grow -/

/-- `now` is `old` followed by new elements, each once, that all satisfy `p`. -/
def Appended {α : Type} (p : α → Prop) (old now : List α) : Prop :=
  ∃ new, now = old ++ new ∧ new.Nodup ∧ ∀ x ∈ new, x ∉ old ∧ p x

namespace Appended

variable {α : Type} {p q : α → Prop} {old mid now : List α}

theorem refl (p : α → Prop) (l : List α) : Appended p l l := ⟨[], by simp⟩

theorem mono (h : Appended p old now) (hpq : ∀ x, p x → q x) : Appended q old now := by
  obtain ⟨new, e, nd, hn⟩ := h
  exact ⟨new, e, nd, fun x hx => ⟨(hn x hx).1, hpq x (hn x hx).2⟩⟩

theorem subset (h : Appended p old now) : ∀ x ∈ old, x ∈ now := by
  obtain ⟨new, rfl, -, -⟩ := h
  exact fun x hx => List.mem_append_left new hx

theorem mem_cases (h : Appended p old now) {x : α} (hx : x ∈ now) :
    x ∈ old ∨ (x ∉ old ∧ p x) := by
  obtain ⟨new, rfl, -, hn⟩ := h
  rcases List.mem_append.1 hx with hx | hx
  · exact .inl hx
  · exact .inr (hn x hx)

theorem trans (h : Appended p old mid) (h' : Appended p mid now) : Appended p old now := by
  obtain ⟨new, rfl, nd, hn⟩ := h
  obtain ⟨new', rfl, nd', hn'⟩ := h'
  refine ⟨new ++ new', by simp, ?_, ?_⟩
  · refine List.nodup_append.2 ⟨nd, nd', fun x hx y hy e => ?_⟩
    subst e
    exact (hn' x hy).1 (List.mem_append_right old hx)
  · intro x hx
    rcases List.mem_append.1 hx with hx | hx
    · exact hn x hx
    · exact ⟨fun ho => (hn' x hx).1 (List.mem_append_left new ho), (hn' x hx).2⟩

theorem nodup (h : Appended p old now) (ho : old.Nodup) : now.Nodup := by
  obtain ⟨new, rfl, nd, hn⟩ := h
  refine List.nodup_append.2 ⟨ho, nd, fun x hx y hy e => ?_⟩
  subst e
  exact (hn x hy).1 hx

/-- A list that grew has a new element. -/
theorem exists_new (h : Appended p old now) (hne : now ≠ old) : ∃ x ∈ now, x ∉ old ∧ p x := by
  obtain ⟨new, rfl, -, hn⟩ := h
  cases new with
  | nil => exact absurd (List.append_nil old) hne
  | cons x xs => exact ⟨x, by simp, hn x (by simp)⟩

/-- What is new stands behind all that was there. -/
theorem split_of_new (h : Appended p old now) {x : α} (hx : x ∈ now) (hnew : x ∉ old) :
    ∃ before after, now = before ++ x :: after ∧ ∀ y ∈ old, y ∈ before := by
  obtain ⟨new, rfl, -, -⟩ := h
  obtain ⟨l, after, rfl⟩ := List.append_of_mem ((List.mem_append.1 hx).resolve_left hnew)
  exact ⟨old ++ l, after, by simp, fun y hy => List.mem_append_left l hy⟩

theorem isPrefix (h : Appended p old now) : old <+: now := by
  obtain ⟨new, rfl, -, -⟩ := h
  exact List.prefix_append old new

/-- Adding an element unless it is there. -/
theorem insert [DecidableEq α] {x : α} (hx : p x) (l : List α) :
    Appended p l (if x ∈ l then l else l ++ [x]) := by
  split
  · exact refl p l
  · next h => exact ⟨[x], rfl, by simp, by simpa using ⟨h, hx⟩⟩

end Appended

/-! ## What dependency texts mean -/

/-- A dependency text, read with a default repository, is the descriptor `d`, which the registry
answers with `id`. -/
def Registry.Means (r : Registry) (repo entry : String) (d : Descriptor) (id : PackageId) : Prop :=
  Descriptor.parse entry repo = .ok d ∧ r.resolve d = some id

instance (r : Registry) (repo entry : String) (d : Descriptor) (id : PackageId) :
    Decidable (r.Means repo entry d id) :=
  inferInstanceAs (Decidable (_ ∧ _))

theorem resolveEntry_eq_ok {r : Registry} {owner repo entry : String} {d : Descriptor}
    {id : PackageId} :
    Session.resolveEntry r owner repo entry = .ok (d, id) ↔ r.Means repo entry d id := by
  unfold Session.resolveEntry Registry.Means
  cases Descriptor.parse entry repo with
  | error cause => simp
  | ok d' =>
    cases hr : r.resolve d' with
    | none =>
      simp only [hr, reduceCtorEq, Except.ok.injEq, false_iff, not_and]
      rintro rfl
      simp [hr]
    | some id' =>
      simp only [hr, Except.ok.injEq, Prod.mk.injEq]
      constructor
      · rintro ⟨rfl, rfl⟩
        exact ⟨rfl, hr⟩
      · rintro ⟨rfl, h⟩
        exact ⟨rfl, by simpa [hr] using h⟩

/-- The ways a dependency text of an owner can fail, read with a default repository. -/
inductive Registry.Refuses (r : Registry) (owner repo entry : String) : ResolutionError → Prop
  | malformed {cause : Descriptor.ParseError} (h : Descriptor.parse entry repo = .error cause) :
      Refuses r owner repo entry (.malformedDependency owner entry cause)
  | unresolved {d : Descriptor} (h : Descriptor.parse entry repo = .ok d) (hr : r.resolve d = none) :
      Refuses r owner repo entry (.unresolvedDependency owner d.display)

theorem resolveEntry_eq_error {r : Registry} {owner repo entry : String} {e : ResolutionError} :
    Session.resolveEntry r owner repo entry = .error e ↔ r.Refuses owner repo entry e := by
  rw [Session.resolveEntry]
  constructor
  · intro h
    split at h
    · next cause hc =>
      cases h
      exact .malformed hc
    · next d hd =>
      split at h
      · next none =>
        cases h
        exact .unresolved hd none
      · cases h
  · intro h
    cases h with
    | malformed hc => simp only [hc]
    | unresolved hd none => simp only [hd, none]

/-- A text fails exactly if it means nothing. -/
theorem not_means_of_resolveEntry {r : Registry} {owner repo entry : String} {e : ResolutionError}
    (h : Session.resolveEntry r owner repo entry = .error e) (d : Descriptor) (id : PackageId) :
    ¬ r.Means repo entry d id := by
  intro hm
  rw [resolveEntry_eq_ok.2 hm] at h
  cases h

namespace Trail

/-- `t` became `t'` by following some of the texts in `entries`: what was added is what they mean,
and descriptor and identity were added together. -/
structure Continues (r : Registry) (repo : String) (entries : List String) (t t' : Trail) :
    Prop where
  order : Appended (fun id => ∃ entry ∈ entries, ∃ d ∈ t'.deps, r.Means repo entry d id)
    t.order t'.order
  deps : Appended (fun d => ∃ entry ∈ entries, ∃ id ∈ t'.order, r.Means repo entry d id)
    t.deps t'.deps

theorem mem_record_order (t : Trail) (d : Descriptor) (id : PackageId) :
    id ∈ (t.record d id).order := by
  simp only [record]
  split <;> simp_all

theorem mem_record_deps (t : Trail) (d : Descriptor) (id : PackageId) :
    d ∈ (t.record d id).deps := by
  simp only [record]
  split <;> simp_all

theorem record_continues {r : Registry} {repo entry : String} {d : Descriptor} {id : PackageId}
    (h : r.Means repo entry d id) (t : Trail) : Continues r repo [entry] t (t.record d id) where
  order := Appended.insert ⟨entry, by simp, d, mem_record_deps t d id, h⟩ t.order
  deps := Appended.insert ⟨entry, by simp, id, mem_record_order t d id, h⟩ t.deps

theorem Continues.trans {r : Registry} {repo : String} {es es' : List String} {t t' t'' : Trail}
    (h : Continues r repo es t t') (h' : Continues r repo es' t' t'') :
    Continues r repo (es ++ es') t t'' where
  order := by
    refine (h.order.mono ?_).trans (h'.order.mono ?_)
    · rintro id ⟨e, he, d, hd, hm⟩
      exact ⟨e, by simp [he], d, h'.deps.subset d hd, hm⟩
    · rintro id ⟨e, he, hm⟩
      exact ⟨e, by simp [he], hm⟩
  deps := by
    refine (h.deps.mono ?_).trans (h'.deps.mono ?_)
    · rintro d ⟨e, he, id, hid, hm⟩
      exact ⟨e, by simp [he], id, h'.order.subset id hid, hm⟩
    · rintro d ⟨e, he, hm⟩
      exact ⟨e, by simp [he], hm⟩

theorem follow_continues (r : Registry) (owner : Package) (entries : List String) (t : Trail) :
    Continues r owner.repo entries t (follow r owner entries t).2 := by
  induction entries generalizing t with
  | nil => exact ⟨Appended.refl _ _, Appended.refl _ _⟩
  | cons entry entries ih =>
    rw [follow]
    split
    · exact ⟨Appended.refl _ _, Appended.refl _ _⟩
    · next d id he => exact (record_continues (resolveEntry_eq_ok.1 he) t).trans (ih _)

/-- Texts that were all followed are all recorded. -/
theorem follow_ok (r : Registry) (owner : Package) (entries : List String) (t : Trail)
    (h : (follow r owner entries t).1 = .ok ()) :
    ∀ entry ∈ entries, ∃ d ∈ (follow r owner entries t).2.deps,
      ∃ id ∈ (follow r owner entries t).2.order, r.Means owner.repo entry d id := by
  induction entries generalizing t with
  | nil => simp
  | cons entry entries ih =>
    rw [follow] at h ⊢
    split at h
    · cases h
    · next d id he =>
      simp only [List.mem_cons, forall_eq_or_imp]
      have later := follow_continues r owner entries (t.record d id)
      exact ⟨⟨d, later.deps.subset d (mem_record_deps t d id), id,
        later.order.subset id (mem_record_order t d id), resolveEntry_eq_ok.1 he⟩, ih _ h⟩

/-- Where following stops, a text means nothing. -/
theorem follow_error (r : Registry) (owner : Package) (entries : List String) (t : Trail)
    {e : ResolutionError} (h : (follow r owner entries t).1 = .error e) :
    ∃ entry ∈ entries, ∀ d id, ¬ r.Means owner.repo entry d id := by
  induction entries generalizing t with
  | nil => cases h
  | cons entry entries ih =>
    rw [follow] at h
    split at h
    · next he => exact ⟨entry, by simp, not_means_of_resolveEntry he⟩
    · obtain ⟨e', he', hm⟩ := ih _ h
      exact ⟨e', by simp [he'], hm⟩

end Trail

/-! ## Attempts -/

namespace Member

/-- The features after an attempt enabled those that the package declares. -/
def enabled (m : Member) (s : Shared) : FeatureSet :=
  s.features.insertAll (m.package.settings.values .features s.features)

/-- The dependency texts that an attempt reads, under the features it enabled. -/
def entries (m : Member) (s : Shared) : List String :=
  m.package.settings.values .deps (m.enabled s)

/-- What attempts share after one that left a trail. -/
def share (m : Member) (s : Shared) (t : Trail) : Shared :=
  { (s.note m.id .features).note m.id .deps with features := m.enabled s, order := t.order }

/-- The member with what a trail found. -/
def extend (m : Member) (t : Trail) : Member := { m with deps := t.deps }

/-- The member once it is final, with the capabilities that it has under some features. -/
def finish (m : Member) (features : FeatureSet) : Member :=
  let values := m.package.settings.values
  { m with phase := .loaded (values .caps features) (values .reqCaps features) none }

theorem subset_enabled (m : Member) (s : Shared) : s.features ⊆ m.enabled s :=
  FeatureSet.subset_insertAll _ _

/-- What the package declares under the features from before is enabled after. -/
theorem mem_enabled (m : Member) (s : Shared) {x : String}
    (h : x ∈ m.package.settings.values .features s.features) : x ∈ m.enabled s :=
  (FeatureSet.mem_insertAll _ _ x).2 (.inl h)

end Member

/-- The ways a load attempt of a pending member can end. -/
inductive Attempt (r : Registry) (m : Member) (s : Shared) :
    Except ResolutionError LoadState × Shared × Member → Prop
  /-- A text means nothing. What was found before it stays. -/
  | failed (e : ResolutionError) (t : Trail)
      (found : Trail.Continues r m.package.repo (m.entries s) ⟨s.order, m.deps⟩ t)
      (bad : ∃ entry ∈ m.entries s, ∀ d id, ¬ r.Means m.package.repo entry d id) :
      Attempt r m s (.error e, m.share s t, m.extend t)
  /-- Something new was found. -/
  | pending (t : Trail)
      (found : Trail.Continues r m.package.repo (m.entries s) ⟨s.order, m.deps⟩ t)
      (all : ∀ entry ∈ m.entries s, ∃ d ∈ t.deps, ∃ id ∈ t.order, r.Means m.package.repo entry d id)
      (new : m.enabled s = s.features → t ≠ ⟨s.order, m.deps⟩) :
      Attempt r m s (.ok .pending, m.share s t, m.extend t)
  /-- Nothing new was found, and the package is final. -/
  | loaded
      (features : m.enabled s = s.features)
      (all : ∀ entry ∈ m.package.settings.values .deps s.features,
        ∃ d ∈ m.deps, ∃ id ∈ s.order, r.Means m.package.repo entry d id) :
      Attempt r m s (.ok .loaded,
        ((m.share s ⟨s.order, m.deps⟩).note m.id .caps).note m.id .reqCaps, m.finish s.features)

/-- A load attempt of a pending member, in terms of the trail that it leaves. -/
theorem Member.load_eq_of_pending (r : Registry) {m : Member} (s : Shared)
    (h : m.phase = .pending) : m.load r s =
      match Trail.follow r m.package (m.entries s) ⟨s.order, m.deps⟩ with
      | (.error e, t) => (.error e, m.share s t, m.extend t)
      | (.ok (), t) =>
        if m.enabled s = s.features ∧ t = ⟨s.order, m.deps⟩ then
          (.ok .loaded, ((m.share s t).note m.id .caps).note m.id .reqCaps,
            (m.extend t).finish (m.enabled s))
        else (.ok .pending, m.share s t, m.extend t) := by
  obtain ⟨id, package, deps, phase⟩ := m
  cases h
  rcases hout : Trail.follow r package (Member.entries ⟨id, package, deps, .pending⟩ s)
    ⟨s.order, deps⟩ with ⟨result, t⟩
  simp only [Member.entries, Member.enabled] at hout
  simp only [Member.load, Member.enableFeatures, Member.read, Member.enabled, Shared.note, hout]
  cases result <;> rfl

theorem attempt_of_pending (r : Registry) {m : Member} (s : Shared) (h : m.phase = .pending) :
    Attempt r m s (m.load r s) := by
  have found := Trail.follow_continues r m.package (m.entries s) ⟨s.order, m.deps⟩
  have good := Trail.follow_ok r m.package (m.entries s) ⟨s.order, m.deps⟩
  have bad := fun e => @Trail.follow_error r m.package (m.entries s) ⟨s.order, m.deps⟩ e
  rw [Member.load_eq_of_pending r s h]
  generalize Trail.follow r m.package (m.entries s) ⟨s.order, m.deps⟩ = out at found good bad ⊢
  obtain ⟨result, t⟩ := out
  cases result with
  | error e => exact .failed e t found (bad e rfl)
  | ok u =>
    have all := good rfl
    dsimp only
    split
    · next quiet =>
      obtain ⟨hF, rfl⟩ := quiet
      rw [hF]
      rw [Member.entries, hF] at all
      exact .loaded hF all
    · next noisy => exact .pending t found all fun hF ht => noisy ⟨hF, ht⟩

namespace Attempt

variable {r : Registry} {m m' : Member} {s s' : Shared} {result : Except ResolutionError LoadState}

theorem id_eq (h : Attempt r m s (result, s', m')) : m'.id = m.id := by
  cases h <;> rfl

theorem package_eq (h : Attempt r m s (result, s', m')) : m'.package = m.package := by
  cases h <;> rfl

/-- However it ends, an attempt enables the features that the package declares. -/
theorem features_eq (h : Attempt r m s (result, s', m')) : s'.features = m.enabled s := by
  cases h <;> rfl

theorem subset_features (h : Attempt r m s (result, s', m')) : s.features ⊆ s'.features := by
  rw [h.features_eq]
  exact m.subset_enabled s

/-- An attempt that leaves its package pending enabled a feature, or recorded a dependency, or
registered an identity for one that was recorded before. -/
theorem news (h : Attempt r m s (.ok .pending, s', m')) :
    (∃ x ∈ m.package.settings.values .features s.features, x ∉ s.features) ∨
      (∃ d ∈ m'.deps, d ∉ m.deps) ∨ (m'.deps = m.deps ∧ ∃ id ∈ s'.order, id ∉ s.order) := by
  cases h with
  | pending t found _ new =>
    by_cases hF : m.enabled s = s.features
    · by_cases hD : t.deps = m.deps
      · have hO : t.order ≠ s.order := fun hO => new hF (by cases t; simp_all)
        obtain ⟨id, hid, fresh, -⟩ := found.order.exists_new hO
        exact .inr (.inr ⟨hD, id, hid, fresh⟩)
      · obtain ⟨d, hd, fresh, -⟩ := found.deps.exists_new hD
        exact .inr (.inl ⟨d, hd, fresh⟩)
    · rw [Member.enabled, FeatureSet.insertAll_eq_self_iff] at hF
      simp only [not_forall] at hF
      obtain ⟨x, hx, fresh⟩ := hF
      exact .inl ⟨x, hx, fresh⟩

/-- However it ends, what an attempt recorded is what the package declares. -/
theorem continues (h : Attempt r m s (result, s', m')) :
    Trail.Continues r m.package.repo (m.package.settings.values .deps s'.features)
      ⟨s.order, m.deps⟩ ⟨s'.order, m'.deps⟩ := by
  cases h with
  | failed e t found bad => exact found
  | pending t found all new => exact found
  | loaded features all => exact ⟨Appended.refl _ _, Appended.refl _ _⟩

end Attempt
end PackageResolution

import PackageResolution.CompilerInfo
import PackageResolution.Proofs.Utf8
import Mathlib.Data.List.Basic
/-!
# What a fingerprint tells apart

A fingerprint is fed with the four lists of a record one after the other. Each list stands behind
its name, and each text, names included, is closed by a NUL byte. The NUL bytes keep texts apart
that hold none, but nothing keeps a list's name apart from a text that is spelled like it. So a
record is told apart from all others exactly if its lists can be cut out of the sequence in one way
only.

Main statement: `separated_iff_unambiguous`.
-/
namespace PackageResolution

/-- If a list is cut at an element that `A` does not hold, the cut is at the end of `A` or further
on. -/
theorem cut_eq_or_behind {α : Type} {A B C D : List α} {a x : α} (hA : x ∉ A)
    (h : A ++ a :: B = C ++ x :: D) :
    (C = A ∧ a = x ∧ B = D) ∨ ∃ between, C = A ++ a :: between ∧ B = between ++ x :: D := by
  rcases List.append_eq_append_iff.1 h with ⟨c, rfl, hc⟩ | ⟨c, rfl, hc⟩
  · cases c with
    | nil =>
      obtain ⟨rfl, rfl⟩ := List.cons.inj hc
      exact .inl ⟨List.append_nil A, rfl, rfl⟩
    | cons y between =>
      obtain ⟨rfl, rfl⟩ := List.cons.inj hc
      exact .inr ⟨between, rfl, rfl⟩
  · cases c with
    | nil =>
      obtain ⟨rfl, rfl⟩ := List.cons.inj hc
      exact .inl ⟨(List.append_nil C).symm, rfl, rfl⟩
    | cons y rest =>
      obtain ⟨rfl, -⟩ := List.cons.inj hc
      exact absurd (List.mem_append_right C List.mem_cons_self) hA

/-- A list with an element at a cut and also before or behind it can be cut at another place. -/
theorem exists_other_cut {α : Type} {A B : List α} {x : α} (h : x ∈ A ++ B) :
    ∃ C D, C ≠ A ∧ C ++ x :: D = A ++ x :: B := by
  rcases List.mem_append.1 h with before | behind
  · obtain ⟨u, v, rfl⟩ := List.append_of_mem before
    exact ⟨u, v ++ x :: B, fun e => by simpa using congrArg List.length e, by simp⟩
  · obtain ⟨u, v, rfl⟩ := List.append_of_mem behind
    exact ⟨A ++ x :: u, v, fun e => by simpa using congrArg List.length e, by simp⟩

namespace Fingerprint

/-- Components without NUL can be read back from the bytes that are fed for them. -/
theorem bytes_inj {a b : List String} (ha : ∀ c ∈ a, '\x00' ∉ c.toList)
    (hb : ∀ c ∈ b, '\x00' ∉ c.toList) : bytes a = bytes b ↔ a = b := by
  refine ⟨fun h => ?_, congrArg bytes⟩
  induction a generalizing b with
  | nil =>
    cases b with
    | nil => rfl
    | cons d ds => simp [bytes] at h
  | cons c cs ih =>
    cases b with
    | nil => simp [bytes] at h
    | cons d ds =>
      obtain ⟨hc, hcs⟩ := List.forall_mem_cons.1 ha
      obtain ⟨hd, hds⟩ := List.forall_mem_cons.1 hb
      have fed : Text.utf8 c ++ 0 :: bytes cs = Text.utf8 d ++ 0 :: bytes ds := by
        simpa [bytes] using h
      rcases cut_eq_or_behind (mt Text.zero_mem_utf8_iff.1 hc) fed with ⟨same, -, rest⟩ | ⟨_, longer, -⟩
      · rw [Text.utf8_injective same.symm, ih hcs hds rest]
      · refine absurd ?_ (mt Text.zero_mem_utf8_iff.1 hd)
        rw [longer]
        simp

end Fingerprint

/-! ## Records -/

namespace CompilerInfo

variable {a b : CompilerInfo}

/-- The texts of a record, as they are fed to the fingerprint. -/
def components (ci : CompilerInfo) : List String := ci.parts.flatMap Fingerprint.Part.components

theorem components_eq (ci : CompilerInfo) : ci.components =
    "cflags" :: (ci.cflags ++ "lflags" :: (ci.lflags ++ "aflags" :: (ci.aflags ++
      "includes" :: ci.includes.map Path.text))) := by
  have paths : (ci.includes.map Fingerprint.Part.path).flatMap Fingerprint.Part.components =
      ci.includes.map Path.text := by
    induction ci.includes with
    | nil => rfl
    | cons p ps ih => simp_all [Fingerprint.Part.components]
  simp [components, parts, Fingerprint.Part.components, paths]

/-- The include directories are texts, and no flag and no include directory holds the character
NUL. -/
structure NulFree (ci : CompilerInfo) : Prop where
  texts : ∀ p ∈ ci.includes, p.text?.isSome = true
  free : ∀ s ∈ ci.cflags ++ ci.lflags ++ ci.aflags ++ ci.includes.map Path.text, '\x00' ∉ s.toList

instance (ci : CompilerInfo) : Decidable ci.NulFree :=
  decidable_of_iff (_ ∧ _) ⟨fun h => ⟨h.1, h.2⟩, fun h => ⟨h.texts, h.free⟩⟩

theorem nulFree_iff : a.NulFree ↔ (∀ p ∈ a.includes, p = .ofText p.text) ∧
    ∀ s ∈ a.components, '\x00' ∉ s.toList := by
  have texts : (∀ p ∈ a.includes, p.text?.isSome = true) ↔ ∀ p ∈ a.includes, p = .ofText p.text :=
    forall₂_congr fun _ _ => Path.isSome_text?_iff
  rw [components_eq]
  simp only [List.mem_append, List.mem_cons, or_imp, forall_and, forall_eq]
  constructor
  · rintro ⟨htexts, free⟩
    simp only [List.mem_append, or_imp, forall_and] at free
    obtain ⟨⟨⟨hc, hl⟩, ha⟩, hi⟩ := free
    exact ⟨texts.1 htexts, by decide, hc, by decide, hl, by decide, ha, by decide, hi⟩
  · rintro ⟨htexts, -, hc, -, hl, -, ha, -, hi⟩
    refine ⟨texts.2 htexts, ?_⟩
    simp only [List.mem_append, or_imp, forall_and]
    exact ⟨⟨⟨hc, hl⟩, ha⟩, hi⟩

theorem NulFree.fingerprintBytes_inj (ha : a.NulFree) (hb : b.NulFree) :
    a.fingerprintBytes = b.fingerprintBytes ↔ a.components = b.components :=
  Fingerprint.bytes_inj (nulFree_iff.1 ha).2 (nulFree_iff.1 hb).2

/-- Include directories that are texts are told apart by them. -/
theorem includes_eq_of_texts {ps qs : List Path} (hp : ∀ p ∈ ps, p = .ofText p.text)
    (hq : ∀ q ∈ qs, q = .ofText q.text) (h : ps.map Path.text = qs.map Path.text) : ps = qs := by
  have spelled : ∀ {l : List Path}, (∀ p ∈ l, p = .ofText p.text) →
      (l.map Path.text).map Path.ofText = l := by
    intro l hl
    rw [List.map_map]
    exact (List.map_congr_left fun p hp => (hl p hp).symm).trans (List.map_id _)
  rw [← spelled hp, h, spelled hq]

/-- No list of the record can be cut at another place: none holds the name of a list next to it,
where it could be taken for that name. -/
structure Unambiguous (ci : CompilerInfo) : Prop where
  lflags : "lflags" ∉ ci.cflags ++ ci.lflags
  aflags : "aflags" ∉ ci.lflags ++ ci.aflags
  includes : "includes" ∉ ci.aflags ++ ci.includes.map Path.text

theorem Unambiguous.eq_of_components (ha : a.Unambiguous) (texts : ∀ p ∈ a.includes, p = .ofText p.text)
    (texts' : ∀ p ∈ b.includes, p = .ofText p.text) (h : a.components = b.components) : b = a := by
  obtain ⟨C, L, A, I⟩ := a
  obtain ⟨C', L', A', I'⟩ := b
  obtain ⟨hl, ha, hi⟩ := ha
  simp only [List.mem_append, not_or] at hl ha hi
  rw [components_eq, components_eq] at h
  have h := (List.cons.inj h).2
  -- the name of the third list is not found in the third list or behind the name of the fourth
  have late : ∀ X Y J,
      A ++ "includes" :: I.map Path.text ≠ X ++ "aflags" :: (Y ++ "includes" :: J) := by
    intro X Y J e
    rcases cut_eq_or_behind ha.2 e with ⟨-, names, -⟩ | ⟨between, -, e⟩
    · exact absurd names (by decide)
    · exact hi.2 (e ▸ by simp)
  rcases cut_eq_or_behind hl.1 h with ⟨rfl, -, h⟩ | ⟨between, -, h⟩
  · rcases cut_eq_or_behind ha.1 h with ⟨rfl, -, h⟩ | ⟨between, -, h⟩
    · obtain ⟨rfl, -, same⟩ := (List.append_cons_inj_of_notMem hi.1 hi.2).1 h
      exact congrArg (CompilerInfo.mk C' L' A) (includes_eq_of_texts texts texts' same).symm
    · exact absurd h (late between A' _)
  · rcases cut_eq_or_behind hl.2 h with ⟨-, names, -⟩ | ⟨more, -, h⟩
    · exact absurd names (by decide)
    · exact absurd (h.trans (by simp)) (late (more ++ "lflags" :: L') A' (I'.map Path.text))

/-- A record that can be cut at another place is fed like the record that is cut there. -/
theorem exists_twin (ha : a.NulFree) (h : ¬ a.Unambiguous) :
    ∃ b, b ≠ a ∧ b.NulFree ∧ b.components = a.components := by
  obtain ⟨texts, free⟩ := nulFree_iff.1 ha
  suffices ∃ b, b ≠ a ∧ (∀ p ∈ b.includes, p = .ofText p.text) ∧ b.components = a.components by
    obtain ⟨b, ne, texts', same⟩ := this
    exact ⟨b, ne, nulFree_iff.2 ⟨texts', same ▸ free⟩, same⟩
  obtain ⟨C, L, A, I⟩ := a
  have cases : "lflags" ∈ C ++ L ∨ "aflags" ∈ L ++ A ∨ "includes" ∈ A ++ I.map Path.text := by
    by_contra none
    simp only [not_or] at none
    exact h ⟨none.1, none.2.1, none.2.2⟩
  rcases cases with found | found | found
  · obtain ⟨C', L', ne, cut⟩ := exists_other_cut found
    refine ⟨⟨C', L', A, I⟩, fun e => ne (congrArg cflags e), texts, ?_⟩
    have longer := congrArg (· ++ "aflags" :: (A ++ "includes" :: I.map Path.text)) cut
    simpa [components_eq] using longer
  · obtain ⟨L', A', ne, cut⟩ := exists_other_cut found
    refine ⟨⟨C, L', A', I⟩, fun e => ne (congrArg CompilerInfo.lflags e), texts, ?_⟩
    have longer := congrArg (· ++ "includes" :: I.map Path.text) cut
    simpa [components_eq] using longer
  · obtain ⟨A', J, ne, cut⟩ := exists_other_cut found
    refine ⟨⟨C, L, A', J.map Path.ofText⟩, fun e => ne (congrArg CompilerInfo.aflags e), ?_, ?_⟩
    · simp
    · simpa [components_eq, Function.comp_def] using cut

/-- **`separated_iff_unambiguous`**: a record without NUL is fed to the fingerprint as other bytes
than every other such record exactly if it is unambiguous. -/
theorem separated_iff_unambiguous (a : CompilerInfo) (ha : a.NulFree) :
    (∀ b : CompilerInfo, b.NulFree → b ≠ a → b.fingerprintBytes ≠ a.fingerprintBytes) ↔
      a.Unambiguous := by
  constructor
  · intro separated
    by_contra ambiguous
    obtain ⟨b, ne, hb, same⟩ := exists_twin ha ambiguous
    exact separated b hb ne ((hb.fingerprintBytes_inj ha).2 same)
  · intro unambiguous b hb ne same
    exact ne (unambiguous.eq_of_components (nulFree_iff.1 ha).1 (nulFree_iff.1 hb).1
      ((hb.fingerprintBytes_inj ha).1 same).symm)

/-- The flag `includes` of the compiler does no harm, as its list does not stand next to the include
directories. -/
theorem separated_iff_unambiguous_includesFlag :
    CompilerInfo.NulFree ⟨["-Os", "includes"], [], ["-x"], ["p/src"]⟩ ∧
      ∀ b : CompilerInfo, b.NulFree → b ≠ ⟨["-Os", "includes"], [], ["-x"], ["p/src"]⟩ →
        b.fingerprintBytes ≠
          CompilerInfo.fingerprintBytes ⟨["-Os", "includes"], [], ["-x"], ["p/src"]⟩ := by
  have free : CompilerInfo.NulFree ⟨["-Os", "includes"], [], ["-x"], ["p/src"]⟩ := by decide
  exact ⟨free, (separated_iff_unambiguous _ free).2 ⟨by decide, by decide, by decide⟩⟩

/-- The same text as a flag of the compiler and as a flag of the linker. -/
theorem not_separated_label :
    ({ cflags := ["lflags"] } : CompilerInfo) ≠ { lflags := ["lflags"] } ∧
      ({ cflags := ["lflags"] } : CompilerInfo).NulFree ∧
      ({ lflags := ["lflags"] } : CompilerInfo).NulFree ∧
      ({ cflags := ["lflags"] } : CompilerInfo).fingerprintBytes =
        ({ lflags := ["lflags"] } : CompilerInfo).fingerprintBytes := by
  decide

end CompilerInfo
end PackageResolution

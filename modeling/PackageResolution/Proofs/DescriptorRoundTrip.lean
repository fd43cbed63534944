import PackageResolution.Descriptor.Schema
import PackageResolution.Proofs.Computations
import PackageResolution.Proofs.DescriptorGrammar
import Mathlib.Data.Set.Function
/-!
# Descriptors that survive printing

A descriptor can be made of any repository and any name, but what is printed for it is one text, in
which a reader looks for the end of the repository again. It is found where it was exactly if the
parts are such as reading gives: a repository that qualified texts can name, and a name that is made
of segments. A name may then look like a qualified text itself, as in `@core/@hw/uart`.

Main statement: `display_round_trips`.
-/
namespace PackageResolution

namespace Descriptor

variable {text r : String} {d : Descriptor} {v : Value}

/-- A descriptor whose parts can be told apart where it is printed. -/
structure IsPrintable (d : Descriptor) : Prop where
  repo : IsRepo d.repo
  solid : IsSolid d.name
  segments : IsSegmented d.name

theorem isPrintable_iff : d.IsPrintable ↔ IsRepo d.repo ∧ IsName d.name := by
  constructor
  · rintro ⟨repo, solid, segments⟩
    exact ⟨repo, ⟨solid, isSegmented_iff.1 segments⟩⟩
  · rintro ⟨repo, ⟨solid, segments⟩⟩
    exact ⟨repo, solid, isSegmented_iff.2 segments⟩

theorem parse_display_iff_isPrintable : parse d.display r = .ok d ↔ d.IsPrintable :=
  parse_display_iff.trans isPrintable_iff.symm

/-- Reading gives descriptors that can be printed, unless the default repository is at fault. -/
theorem isPrintable_of_parse (repo : IsRepo r) (h : parse text r = .ok d) : d.IsPrintable := by
  cases parse_eq_ok_iff_written.1 h with
  | plain solid _ segments => exact ⟨repo, solid, segments⟩
  | @qualified own name solid nonempty unslashed segments =>
    obtain ⟨ownSolid, nameSolid⟩ := (isSolid_display (d := ⟨own, name⟩)).1 solid
    exact ⟨⟨nonempty, ownSolid, unslashed⟩, nameSolid, segments⟩

theorem isRepo_localRepo : IsRepo localRepo where
  nonempty := by decide
  solid := by
    have noBlank : localRepo.toList.any Text.isBlank = false := by decide
    simpa [IsSolid] using noBlank
  unslashed := by decide

/-! ## Documents -/

/-- Only texts are read as descriptors, and as in the project's own repository. -/
theorem ofValue_eq_ok_iff :
    ofValue v = .ok d ↔ ∃ text, v = .text text ∧ parse text localRepo = .ok d := by
  constructor
  · intro h
    obtain ⟨text, htext, h⟩ := bind_eq_ok.1 h
    have parsed := mapError_eq_ok.1 h
    cases v with
    | text s =>
      obtain rfl := Except.ok.inj htext
      exact ⟨s, rfl, parsed⟩
    | _ => cases htext
  · rintro ⟨text, rfl, parsed⟩
    exact bind_eq_ok.2 ⟨text, rfl, mapError_eq_ok.2 parsed⟩

theorem ofValue_toValue (h : d.IsPrintable) : ofValue d.toValue = .ok d :=
  ofValue_eq_ok_iff.2 ⟨d.display, rfl, parse_display_iff_isPrintable.2 h⟩

/-! ## The round trip -/

theorem injOn_display : Set.InjOn display {d | d.IsPrintable} := fun _ hd _ hd' same =>
  eq_of_display_eq (isPrintable_iff.1 hd) (isPrintable_iff.1 hd') same

/-- **`display_round_trips`**: what is printed for a descriptor is read back as that descriptor
exactly if the repository can be named in a qualified text and the name is made of segments. So
what has been read, with a default repository of that kind, survives printing and documents, and
printing tells such descriptors apart. -/
theorem display_round_trips :
    (∀ repo name r, parse (display ⟨repo, name⟩) r = .ok ⟨repo, name⟩ ↔ IsPrintable ⟨repo, name⟩) ∧
    (∀ text r₀ d, IsRepo r₀ → parse text r₀ = .ok d →
      (∀ r, parse d.display r = .ok d) ∧
        ∃ written, d.toValue = .text written ∧ ofValue (.text written) = .ok d) ∧
    Set.InjOn display {d | d.IsPrintable} := by
  refine ⟨fun repo name r => parse_display_iff_isPrintable, ?_, injOn_display⟩
  intro text r₀ d repo parsed
  have printable := isPrintable_of_parse repo parsed
  exact ⟨fun r => parse_display_iff_isPrintable.2 printable, d.display, rfl,
    ofValue_toValue printable⟩

/-- A name that looks like a qualified text. -/
theorem display_round_trips_markedName :
    IsRepo localRepo ∧ parse "@core/@hw/uart" localRepo = .ok ⟨"core", "@hw/uart"⟩ ∧
      (∀ r, parse "@core/@hw/uart" r = .ok ⟨"core", "@hw/uart"⟩) ∧
      ∃ written, toValue ⟨"core", "@hw/uart"⟩ = .text written ∧
        ofValue (.text written) = .ok ⟨"core", "@hw/uart"⟩ := by
  have parsed : parse "@core/@hw/uart" localRepo = .ok ⟨"core", "@hw/uart"⟩ := by decide +kernel
  obtain ⟨-, survives, -⟩ := display_round_trips
  exact ⟨isRepo_localRepo, parsed, survives _ _ _ isRepo_localRepo parsed⟩

end Descriptor
end PackageResolution

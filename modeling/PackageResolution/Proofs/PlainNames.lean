import PackageResolution.Proofs.PrintedNames
/-!
# The names that manifests give

What a package may be called is said by manifests, and what a text refers to by descriptors. Both
say the same: a manifest may give a name exactly if the name, written where a descriptor is expected,
refers to the package of that name in the repository that is understood there. So a package is always
reached by its plain name from its own repository, also where it cannot be by what is printed for it.

Main statement: `validate_iff_plain`.
-/
namespace PackageResolution

variable {name r : String} {d : Descriptor} {m : Manifest}

/-- A text refers to itself exactly if it can be a name and lacks the mark of qualified texts. -/
theorem Descriptor.parse_self_iff :
    parse name r = .ok ⟨r, name⟩ ↔ IsName name ∧ name.toList.head? ≠ some '@' := by
  rw [parse_eq_ok_iff]
  constructor
  · rintro ⟨solid, segments, ⟨-, -, unmarked⟩ | ⟨qualified, -⟩⟩
    · exact ⟨⟨solid, segments⟩, unmarked⟩
    · -- the qualified form is longer than the name in it
      have same := congrArg List.length (congrArg String.toList qualified)
      rw [toList_display] at same
      simp at same
      omega
  · rintro ⟨⟨solid, segments⟩, unmarked⟩
    exact ⟨solid, segments, .inl ⟨rfl, rfl, unmarked⟩⟩

/-- A name that refers to itself refers to nothing else. -/
theorem Descriptor.parse_eq_ok_iff_of_self (h : parse name r = .ok ⟨r, name⟩) :
    parse name r = .ok d ↔ d = ⟨r, name⟩ := by
  rw [h, Except.ok.injEq, eq_comm]

namespace Manifest

theorem parse_name_of_validate (h : m.validate = .ok ()) (r : String) :
    Descriptor.parse m.name r = .ok ⟨r, m.name⟩ :=
  Descriptor.parse_self_iff.2 (validate_eq_ok_iff.1 h).1

/-- A package that a manifest defines is reached by its plain name from its own repository. -/
theorem parse_name_of_toPackage {repo : String} {base : Path} {pkg : Package}
    (h : m.validate = .ok ()) (made : m.toPackage repo base = .ok pkg) :
    Descriptor.parse pkg.name pkg.repo = .ok pkg.descriptor := by
  obtain ⟨hname, -, -⟩ := toPackage_eq_ok made
  rw [Package.descriptor, hname]
  exact parse_name_of_validate h pkg.repo

theorem exists_toPackage (h : m.validate = .ok ()) (repo : String) (base : Path) :
    ∃ pkg, m.toPackage repo base = .ok pkg := by
  obtain ⟨-, v, hv⟩ := validate_eq_ok_iff.1 h
  exact ⟨_, bind_eq_ok.2 ⟨v, hv, rfl⟩⟩

end Manifest

/-- The packages of a project that is loaded are reached by their plain names, each from its own
repository. -/
theorem Project.resolve_plain {t : FileTree} {root : Path} {p : Project} (h : load t root = .ok p)
    {i : Nat} {pkg : Package} (hpkg : p.packages[i]? = some pkg) :
    ∃ d, Descriptor.parse pkg.name pkg.repo = .ok d ∧ p.resolve d = some (.ofIndex i) := by
  obtain ⟨f, found, discovered⟩ := discovered_of_load h
  obtain ⟨s, -, paths, -, path, -, loaded⟩ :=
    discovered.mem_packages_iff.1 (List.mem_of_getElem? hpkg)
  obtain ⟨m, valid, made⟩ := FileTree.exists_manifest_of_loadPackage loaded
  exact ⟨pkg.descriptor, Manifest.parse_name_of_toPackage valid made,
    discovered.inStep.resolve_eq_some_iff.2 ⟨i, pkg, hpkg, rfl, rfl⟩⟩

/-- **`validate_iff_plain`**: a manifest may give a name exactly if the name, wherever it is written,
is read as that name in the repository that is understood. So no such name is taken for a qualified
text, every package that a manifest defines is reached by its plain name from its own repository, and
in a project the name leads to its place. -/
theorem Manifest.validate_iff_plain :
    (∀ name description settings,
      validate { name, version := none, description, settings } = .ok () ↔
        ∀ r, Descriptor.parse name r = .ok ⟨r, name⟩) ∧
    (∀ m : Manifest, m.validate = .ok () →
      (∀ r d, Descriptor.parse m.name r = .ok d ↔ d = ⟨r, m.name⟩) ∧
        ∀ repo base, ∃ pkg, m.toPackage repo base = .ok pkg ∧
          Descriptor.parse pkg.name pkg.repo = .ok pkg.descriptor) ∧
    (∀ t root p, Project.load t root = .ok p → ∀ i pkg, p.packages[i]? = some pkg →
      ∃ d, Descriptor.parse pkg.name pkg.repo = .ok d ∧ p.resolve d = some (.ofIndex i)) := by
  refine ⟨fun name description settings => ?_, fun m valid => ⟨?_, ?_⟩, ?_⟩
  · rw [validate_eq_ok_iff]
    constructor
    · rintro ⟨plain, -⟩ r
      exact Descriptor.parse_self_iff.2 plain
    · intro plain
      exact ⟨Descriptor.parse_self_iff.1 (plain ""), none, rfl⟩
  · exact fun r d => Descriptor.parse_eq_ok_iff_of_self (parse_name_of_validate valid r)
  · intro repo base
    obtain ⟨pkg, made⟩ := exists_toPackage valid repo base
    exact ⟨pkg, made, parse_name_of_toPackage valid made⟩
  · exact fun t root p load i pkg => Project.resolve_plain load

/-- A name with a mark inside a segment, and the package that cannot be asked for by what is printed
for it. -/
theorem Manifest.validate_iff_plain_slashedRepository :
    (validate { name := "hw/@uart" } = .ok () ∧
      Descriptor.parse "hw/@uart" "core" = .ok ⟨"core", "hw/@uart"⟩) ∧
    ∃ p, Project.load Project.slashedRepository "p" = .ok p ∧
      ∃ pkg, p.packages[0]? = some pkg ∧
        ∃ d, Descriptor.parse pkg.name pkg.repo = .ok d ∧ p.resolve d = some (.ofIndex 0) := by
  obtain ⟨-, plain, reached⟩ := validate_iff_plain
  have valid : validate { name := "hw/@uart" } = .ok () := by decide +kernel
  have loads : (Project.load Project.slashedRepository "p").toOption.any
      (fun p => p.packages[0]?.isSome) = true := by decide +kernel
  obtain ⟨p, h, first⟩ := exists_eq_ok_of_any loads
  obtain ⟨pkg, hpkg⟩ := Option.isSome_iff_exists.1 first
  exact ⟨⟨valid, ((plain _ valid).1 "core" _).2 rfl⟩, p, h, pkg, hpkg,
    reached _ _ p h 0 pkg hpkg⟩

end PackageResolution

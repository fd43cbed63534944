import PackageResolution.Proofs.Discovery
/-!
# The names that packages are printed by

Manifests are only read if the package's name can stand in a text, but the names of repositories are
read as they are. A package can be asked for by the name that it is printed by exactly if its
repository's name can stand in a text too.

Main statement: `addressable_iff`.
-/
namespace PackageResolution

namespace Project

variable {t : FileTree} {root : Path} {p : Project} {i : Nat} {pkg : Package}

/-- The name that a package is printed by is read as one that leads to its place, whatever repository
a text without one is taken to mean. -/
def Addressable (p : Project) (i : Nat) (pkg : Package) : Prop :=
  ∀ r, ∃ d, Descriptor.parse pkg.display r = .ok d ∧ p.resolve d = some (.ofIndex i)

theorem isName_of_load (h : load t root = .ok p) (hpkg : pkg ∈ p.packages) :
    Descriptor.IsName pkg.name := by
  obtain ⟨f, found, discovered⟩ := discovered_of_load h
  obtain ⟨s, -, paths, -, path, -, loaded⟩ := discovered.mem_packages_iff.1 hpkg
  exact (FileTree.loadPackage_eq_ok loaded).2.2

theorem inStep_of_load (h : load t root = .ok p) : p.InStep := by
  obtain ⟨f, found, discovered⟩ := discovered_of_load h
  exact discovered.inStep

theorem addressable_of_isRepo (hp : p.InStep) (hpkg : p.packages[i]? = some pkg)
    (name : Descriptor.IsName pkg.name) (repo : Descriptor.IsRepo pkg.repo) : p.Addressable i pkg :=
  fun _ => ⟨pkg.descriptor, Descriptor.parse_display_iff.2 ⟨repo, name⟩,
    hp.resolve_eq_some_iff.2 ⟨i, pkg, hpkg, rfl, rfl⟩⟩

theorem nodup_display (hp : p.InStep) (names : ∀ pkg ∈ p.packages, Descriptor.IsName pkg.name)
    (repos : ∀ pkg ∈ p.packages, Descriptor.IsRepo pkg.repo) :
    (p.packages.map Package.display).Nodup := by
  have displays : p.packages.map Package.display =
      (p.packages.map Package.descriptor).map Descriptor.display := by
    simp [Package.display, Function.comp_def]
  have readBack {d : Descriptor} (hd : d ∈ p.packages.map Package.descriptor) :
      Descriptor.IsRepo d.repo ∧ Descriptor.IsName d.name := by
    obtain ⟨pkg, hpkg, rfl⟩ := List.mem_map.1 hd
    exact ⟨repos pkg hpkg, names pkg hpkg⟩
  rw [displays]
  exact hp.distinct.map_on fun _ h _ h' same =>
    Descriptor.eq_of_display_eq (readBack h) (readBack h') same

/-- A package that can be asked for by what is printed for it alone has a repository's name that can
stand in a text. -/
theorem isRepo_of_addressable (hp : p.InStep) (displays : (p.packages.map Package.display).Nodup)
    (hpkg : p.packages[i]? = some pkg) (h : p.Addressable i pkg) : Descriptor.IsRepo pkg.repo := by
  obtain ⟨d, parsed, resolved⟩ := h ""
  obtain ⟨solid, -, ⟨-, -, plain⟩ | ⟨same, nonempty, unslashed⟩⟩ := Descriptor.parse_eq_ok_iff.1 parsed
  · exact absurd (by simp [Package.display, Descriptor.toList_display]) plain
  · obtain ⟨j, other, hother, rfl, -⟩ := hp.resolve_eq_some_iff.1 resolved
    obtain ⟨bound, -⟩ := List.getElem?_eq_some_iff.1 hpkg
    -- the package that is meant is printed alike, so it is this one
    obtain rfl : i = j := by
      refine (List.getElem?_inj (by simpa using bound) displays).1 ?_
      rw [List.getElem?_map, List.getElem?_map, hpkg, hother]
      exact congrArg some same
    obtain rfl := Option.some.inj (hpkg.symm.trans hother)
    exact ⟨nonempty, (Descriptor.isSolid_display.1 solid).1, unslashed⟩

/-- **`addressable_iff`**: the packages of a project that is loaded can all be asked for by what is
printed for them, and are told apart by it, exactly if the names of their repositories can stand in
a text. A package whose repository's name can is never in doubt. -/
theorem addressable_iff (h : load t root = .ok p) :
    ((∀ i pkg, p.packages[i]? = some pkg → p.Addressable i pkg) ∧
        (p.packages.map Package.display).Nodup ↔
      ∀ pkg ∈ p.packages, Descriptor.IsRepo pkg.repo) ∧
    ∀ i pkg, p.packages[i]? = some pkg → Descriptor.IsRepo pkg.repo → p.Addressable i pkg := by
  have hp := inStep_of_load h
  have names : ∀ pkg ∈ p.packages, Descriptor.IsName pkg.name := fun _ => isName_of_load h
  have each : ∀ i pkg, p.packages[i]? = some pkg → Descriptor.IsRepo pkg.repo → p.Addressable i pkg :=
    fun i pkg hpkg => addressable_of_isRepo hp hpkg (names pkg (List.mem_of_getElem? hpkg))
  refine ⟨⟨fun ⟨all, displays⟩ pkg hpkg => ?_, fun repos => ⟨fun i pkg hpkg => ?_, ?_⟩⟩, each⟩
  · obtain ⟨i, hi⟩ := List.mem_iff_getElem?.1 hpkg
    exact isRepo_of_addressable hp displays hi (all i pkg hi)
  · exact each i pkg hpkg (repos pkg (List.mem_of_getElem? hpkg))
  · exact nodup_display hp names repos

/-- A project with a repository whose name has a slash in it. -/
def slashedRepository : FileTree where
  top := .dir [("p", .dir [
    ("project.toml", .file ("[project]\nname = \"p\"\n\n[repositories]\n" ++
      "\"vendor/net\" = \"r\"\n").toUTF8),
    ("r", .dir [("a", .dir [("pkg.toml", .file "[package]\nname = \"a\"\n".toUTF8)])])])]
  current := []

theorem addressable_iff_slashedRepository : ∃ p, load slashedRepository "p" = .ok p ∧
    ((∀ i pkg, p.packages[i]? = some pkg → p.Addressable i pkg) ∧
        (p.packages.map Package.display).Nodup ↔
      ∀ pkg ∈ p.packages, Descriptor.IsRepo pkg.repo) ∧
    ∀ i pkg, p.packages[i]? = some pkg → Descriptor.IsRepo pkg.repo → p.Addressable i pkg := by
  have loads : (load slashedRepository "p").toOption.isSome = true := by decide +kernel
  obtain ⟨p, h⟩ := exists_eq_ok_of_isSome loads
  exact ⟨p, h, addressable_iff h⟩

/-- The package is printed as `@vendor/net/a`, which is read as `net/a` of a repository `vendor`. -/
theorem not_addressable : ∃ p, load slashedRepository "p" = .ok p ∧
    ∃ pkg, p.packages[0]? = some pkg ∧ pkg.display = "@vendor/net/a" ∧ ¬ p.Addressable 0 pkg := by
  have found : (load slashedRepository "p").toOption.bind (fun p => p.packages[0]?.map fun pkg =>
      (pkg.display, p.resolve ⟨"vendor", "net/a"⟩)) = some ("@vendor/net/a", none) := by
    decide +kernel
  have read : Descriptor.parse "@vendor/net/a" "" = .ok ⟨"vendor", "net/a"⟩ := by decide +kernel
  cases h : load slashedRepository "p" with
  | error e => simp [h, Except.toOption] at found
  | ok p =>
    rw [h, Except.toOption, Option.bind_some] at found
    obtain ⟨pkg, hpkg, hfound⟩ := Option.map_eq_some_iff.1 found
    obtain ⟨display, unresolved⟩ := Prod.mk.inj hfound
    refine ⟨p, rfl, pkg, hpkg, display, fun addressable => ?_⟩
    obtain ⟨d, parsed, resolved⟩ := addressable ""
    rw [display, read] at parsed
    obtain rfl := Except.ok.inj parsed
    simp [unresolved] at resolved

end Project
end PackageResolution

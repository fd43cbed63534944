import PackageResolution.Project.Discovery
import PackageResolution.Proofs.Additions
import PackageResolution.Proofs.DescriptorText
import PackageResolution.Proofs.Walks
/-!
# What loading a project finds

A project that is loaded has the packages that its searches find, one search for each repository, in
order. A search reads every manifest that a way of kept entries leads to.

Main statements: `discovered_of_load`, `mem_packages_iff`.
-/
namespace PackageResolution

namespace Manifest

variable {m : Manifest} {text repo : String} {base : Path} {pkg : Package}

/-- A manifest may define a package exactly if its name can stand in a text, without the mark of
qualified ones, and its version can be read if there is one. -/
theorem validate_eq_ok_iff : m.validate = .ok () ↔
    (Descriptor.IsName m.name ∧ m.name.toList.head? ≠ some '@') ∧ ∃ v, m.parsedVersion = .ok v := by
  have solid_iff : Descriptor.IsSolid m.name ↔ ¬ m.name.toList.any Text.isBlank = true := by
    simp [Descriptor.IsSolid]
  simp only [validate, throw, throwThe, MonadExceptOf.throw]
  split
  · next empty =>
    refine ⟨by rintro ⟨⟩, ?_⟩
    rintro ⟨⟨name, -⟩, -⟩
    exact absurd name.segments (by rw [empty]; decide)
  split
  · next invalid =>
    refine ⟨by rintro ⟨⟩, ?_⟩
    rintro ⟨⟨name, unmarked⟩, -⟩
    exact absurd invalid (not_or.2 ⟨unmarked, solid_iff.1 name.solid⟩)
  next valid =>
  obtain ⟨unmarked, noBlank⟩ := not_or.1 valid
  split
  · next gap =>
    refine ⟨by rintro ⟨⟩, ?_⟩
    rintro ⟨⟨name, -⟩, -⟩
    rw [name.segments] at gap
    cases gap
  next segments =>
  have name : Descriptor.IsName m.name := ⟨solid_iff.2 noBlank, by simpa using segments⟩
  constructor
  · intro h
    obtain ⟨v, hv, -⟩ := bind_eq_ok.1 h
    exact ⟨⟨name, unmarked⟩, v, hv⟩
  · rintro ⟨-, v, hv⟩
    exact bind_eq_ok.2 ⟨v, hv, rfl⟩

theorem validate_of_parse (h : parse text = .ok m) : m.validate = .ok () := by
  obtain ⟨m', -, h⟩ := bind_eq_ok.1 h
  obtain ⟨⟨⟩, valid, h⟩ := bind_eq_ok.1 h
  obtain rfl := Except.ok.inj h
  exact valid

theorem toPackage_eq_ok (h : m.toPackage repo base = .ok pkg) :
    pkg.name = m.name ∧ pkg.repo = repo ∧ pkg.base = base := by
  obtain ⟨version, -, h⟩ := bind_eq_ok.1 h
  obtain rfl := Except.ok.inj h
  exact ⟨rfl, rfl, rfl⟩

end Manifest

namespace FileTree

variable {t : FileTree} {path : Path} {repo : String} {pkg : Package} {f : ProjectFile}

/-- A package that is loaded is what a manifest defines that may. -/
theorem exists_manifest_of_loadPackage (h : t.loadPackage path repo = .ok pkg) :
    ∃ m : Manifest, m.validate = .ok () ∧ m.toPackage repo (path.parent?.getD ".") = .ok pkg := by
  obtain ⟨m, hm, h⟩ := bind_eq_ok.1 h
  obtain ⟨text, -, parsed⟩ := bind_eq_ok.1 hm
  exact ⟨m, Manifest.validate_of_parse (mapError_eq_ok.1 parsed), mapError_eq_ok.1 h⟩

/-- A package that is loaded belongs to the repository it is loaded for, has the directory of its
manifest, and has a name that texts can have in them. -/
theorem loadPackage_eq_ok (h : t.loadPackage path repo = .ok pkg) :
    pkg.repo = repo ∧ pkg.base = path.parent?.getD "." ∧ Descriptor.IsName pkg.name := by
  obtain ⟨m, valid, made⟩ := exists_manifest_of_loadPackage h
  obtain ⟨hname, hrepo, hbase⟩ := Manifest.toPackage_eq_ok made
  exact ⟨hrepo, hbase, hname ▸ (Manifest.validate_eq_ok_iff.1 valid).1.1⟩

/-- A project file names the further repositories once each, and none of them like the project's
own. -/
theorem loadProjectFile_eq_ok (h : t.loadProjectFile path = .ok f) :
    f.repositories.contains Descriptor.localRepo = false := by
  obtain ⟨text, -, parsed⟩ := bind_eq_ok.1 h
  obtain ⟨f', -, h⟩ := bind_eq_ok.1 (mapError_eq_ok.1 parsed)
  split at h
  · exact absurd h nofun
  · next free =>
    obtain rfl := Except.ok.inj h
    simpa using free

end FileTree

namespace Project

variable {t : FileTree} {root path : Path} {exclude : List Path} {f : ProjectFile} {p q : Project}
  {repo : String} {paths : List Path} {pkg : Package}

/-- A search for the packages of a repository. -/
structure Search where
  repo : String
  root : Path
  exclude : List Path

/-- The further repositories of a project with their directories. -/
def repositories (root : Path) (f : ProjectFile) : List (String × Path) :=
  f.repositories.entries.map fun (repo, path) => (repo, root.join path)

/-- The searches for the packages of a project. -/
def searches (root : Path) (f : ProjectFile) : List Search :=
  ⟨Descriptor.localRepo, root, (repositories root f).map (·.2)⟩ ::
    (repositories root f).map fun (repo, dir) => ⟨repo, dir, []⟩

/-- What a search finds: the packages that the manifests on its walk define. -/
inductive Search.Finds (t : FileTree) (s : Search) (pkgs : List Package) : Prop
  | read {paths : List Path} (met : manifestPaths t s.root s.exclude = .ok paths)
      (loaded : List.Forall₂ (fun path pkg => t.loadPackage path s.repo = .ok pkg) paths pkgs)

/-- What loading a project has found. -/
structure Discovered (t : FileTree) (root : Path) (f : ProjectFile) (found : List (List Package))
    (p : Project) : Prop where
  file : t.loadProjectFile (root.join ProjectFile.fileName) = .ok f
  finds : List.Forall₂ (Search.Finds t) (searches root f) found
  packages : p.packages = found.flatten
  inStep : p.InStep

theorem repositoryRoots_eq_ok {roots : List (String × Path)}
    (h : repositoryRoots t root f = .ok roots) : roots = repositories root f := by
  unfold repositoryRoots at h
  unfold repositories
  generalize f.repositories.entries = entries at h
  induction entries generalizing roots with
  | nil => exact (Except.ok.inj h).symm
  | cons entry entries ih =>
    rw [List.mapM_cons] at h
    obtain ⟨first, hfirst, h⟩ := bind_eq_ok.1 h
    obtain ⟨rest, hrest, h⟩ := bind_eq_ok.1 h
    obtain rfl := Except.ok.inj h
    obtain rfl := ih hrest
    dsimp only at hfirst
    split at hfirst
    · rw [← Except.ok.inj hfirst]
      rfl
    · cases hfirst

theorem addManifests_eq_ok (hp : p.InStep) (h : addManifests t repo p paths = .ok q) : ∃ pkgs,
    List.Forall₂ (fun path pkg => t.loadPackage path repo = .ok pkg) paths pkgs ∧
      q.name = p.name ∧ q.root = p.root ∧ q.packages = p.packages ++ pkgs ∧ q.InStep := by
  induction paths generalizing p with
  | nil =>
    obtain rfl := Except.ok.inj h
    exact ⟨[], .nil, rfl, rfl, by simp, hp⟩
  | cons path paths ih =>
    rw [addManifests] at h
    obtain ⟨pkg, hpkg, h⟩ := bind_eq_ok.1 h
    split at h
    · exact absurd h nofun
    · next added =>
      obtain ⟨free, -, rfl⟩ := hp.add_eq_ok_iff.1 added
      obtain ⟨pkgs, loaded, name, root, packages, inStep⟩ := ih (hp.append free) h
      exact ⟨pkg :: pkgs, .cons hpkg loaded, name, root, by simp [packages, append], inStep⟩

theorem scan_eq_ok (hp : p.InStep) (h : scan t repo root exclude p = .ok q) : ∃ pkgs,
    Search.Finds t ⟨repo, root, exclude⟩ pkgs ∧
      q.name = p.name ∧ q.root = p.root ∧ q.packages = p.packages ++ pkgs ∧ q.InStep := by
  obtain ⟨paths, hpaths, h⟩ := bind_eq_ok.1 h
  obtain ⟨pkgs, loaded, rest⟩ := addManifests_eq_ok hp h
  exact ⟨pkgs, .read (mapError_eq_ok.1 hpaths) loaded, rest⟩

/-- Searches one after another find what each of them finds. -/
theorem foldlM_scan_eq_ok (hp : p.InStep) {ss : List Search}
    (h : ss.foldlM (fun p s => scan t s.repo s.root s.exclude p) p = .ok q) : ∃ found,
      List.Forall₂ (Search.Finds t) ss found ∧
        q.name = p.name ∧ q.root = p.root ∧ q.packages = p.packages ++ found.flatten ∧ q.InStep := by
  induction ss generalizing p with
  | nil =>
    obtain rfl := Except.ok.inj h
    exact ⟨[], .nil, rfl, rfl, by simp, hp⟩
  | cons s ss ih =>
    rw [List.foldlM_cons] at h
    obtain ⟨p', hscan, h⟩ := bind_eq_ok.1 h
    obtain ⟨pkgs, finds, name, root, packages, inStep⟩ := scan_eq_ok hp hscan
    obtain ⟨found, rest, name', root', packages', inStep'⟩ := ih inStep h
    exact ⟨pkgs :: found, .cons finds rest, name'.trans name, root'.trans root,
      by simp [packages', packages], inStep'⟩

/-- What loading a project has gone through: its searches, from a project without packages. -/
theorem exists_scans_of_load (h : load t root = .ok p) : ∃ f,
    t.loadProjectFile (root.join ProjectFile.fileName) = .ok f ∧
      (searches root f).foldlM (fun p s => scan t s.repo s.root s.exclude p)
        { name := f.name, root } = .ok p := by
  obtain ⟨f, file, h⟩ := bind_eq_ok.1 h
  obtain ⟨roots, hroots, h⟩ := bind_eq_ok.1 h
  obtain rfl := repositoryRoots_eq_ok hroots
  refine ⟨f, file, ?_⟩
  rw [searches, List.foldlM_cons]
  simp only [List.foldlM_map]
  exact h

/-- **`discovered_of_load`**: a project that is loaded has what its searches find, in its list of
packages and in its index. -/
theorem discovered_of_load (h : load t root = .ok p) : ∃ f found, Discovered t root f found p := by
  obtain ⟨f, file, run⟩ := exists_scans_of_load h
  obtain ⟨found, finds, -, -, packages, inStep⟩ := foldlM_scan_eq_ok (inStep_new f.name root) run
  exact ⟨f, found, file, finds, packages, inStep⟩

/-- No two searches are for one repository. -/
theorem nodup_repo_searches (h : t.loadProjectFile path = .ok f) :
    ((searches root f).map Search.repo).Nodup := by
  have names : ((repositories root f).map fun (repo, dir) => (⟨repo, dir, []⟩ : Search)).map
      Search.repo = f.repositories.names := by
    simp [repositories, NameMap.names, Function.comp_def]
  have reserved : Descriptor.localRepo ∉ f.repositories.names := fun taken => by
    obtain ⟨entry, hentry, e⟩ := List.mem_map.1 taken
    have free := FileTree.loadProjectFile_eq_ok h
    rw [NameMap.contains, NameMap.find?, Option.isSome_eq_false_iff, Option.isNone_iff_eq_none,
      List.lookup_eq_none_iff] at free
    exact absurd e.symm (by simpa using free entry hentry)
  have apart : f.repositories.names.Nodup :=
    List.Pairwise.imp (fun lt => by rintro rfl; exact String.lt_irrefl _ lt)
      f.repositories.ascending
  rw [searches, List.map_cons, names]
  exact List.nodup_cons.2 ⟨reserved, apart⟩

theorem Search.Finds.mem_iff {s : Search} {pkgs : List Package} (h : Finds t s pkgs) : pkg ∈ pkgs ↔
    ∃ paths, manifestPaths t s.root s.exclude = .ok paths ∧
      ∃ path ∈ paths, t.loadPackage path s.repo = .ok pkg := by
  obtain ⟨hpaths, loaded⟩ := h
  constructor
  · intro hpkg
    obtain ⟨path, hpath, hload⟩ := exists_of_forall₂ loaded.flip hpkg
    exact ⟨_, hpaths, path, hpath, hload⟩
  · rintro ⟨paths', hpaths', path, hpath, hload⟩
    obtain rfl := Except.ok.inj (hpaths.symm.trans hpaths')
    obtain ⟨pkg', hpkg', hload'⟩ := exists_of_forall₂ loaded hpath
    exact Except.ok.inj (hload'.symm.trans hload) ▸ hpkg'

/-- **`mem_packages_iff`**: packages come from manifests, and each manifest that a search meets is a
package. -/
theorem Discovered.mem_packages_iff {found : List (List Package)} (h : Discovered t root f found p) :
    pkg ∈ p.packages ↔ ∃ s ∈ searches root f, ∃ paths, manifestPaths t s.root s.exclude = .ok paths ∧
      ∃ path ∈ paths, t.loadPackage path s.repo = .ok pkg := by
  rw [h.packages, List.mem_flatten]
  constructor
  · rintro ⟨pkgs, hpkgs, hpkg⟩
    obtain ⟨s, hs, finds⟩ := exists_of_forall₂ h.finds.flip hpkgs
    exact ⟨s, hs, finds.mem_iff.1 hpkg⟩
  · rintro ⟨s, hs, hpkg⟩
    obtain ⟨pkgs, hpkgs, finds⟩ := exists_of_forall₂ h.finds hs
    exact ⟨pkgs, hpkgs, finds.mem_iff.2 hpkg⟩

/-- A search reads all manifests on its walk. -/
theorem Discovered.exists_package {found : List (List Package)} (h : Discovered t root f found p)
    {s : Search} (hs : s ∈ searches root f) : ∃ paths,
      manifestPaths t s.root s.exclude = .ok paths ∧
        ∀ path ∈ paths, ∃ pkg ∈ p.packages, t.loadPackage path s.repo = .ok pkg := by
  obtain ⟨pkgs, hpkgs, hpaths, loaded⟩ := exists_of_forall₂ h.finds hs
  refine ⟨_, hpaths, fun path hpath => ?_⟩
  obtain ⟨pkg, hpkg, hload⟩ := exists_of_forall₂ loaded hpath
  exact ⟨pkg, h.packages ▸ List.mem_flatten.2 ⟨pkgs, hpkgs, hpkg⟩, hload⟩

/-- The manifests on a walk. -/
theorem manifestPaths_eq_ok (h : manifestPaths t root exclude = .ok paths) :
    ∃ node, t.node root = .ok node ∧ ∀ path, path ∈ paths ↔ ∃ names node',
      Node.Meets (isKept exclude) root node (names ++ [(Manifest.fileName : FileName)]) path node' ∧
        node'.isFile = true := by
  obtain ⟨node, hnode, h⟩ := bind_eq_ok.1 h
  refine ⟨node, mapError_eq_ok.1 hnode, fun path => ?_⟩
  dsimp only at h
  split at h
  · exact absurd h nofun
  obtain rfl := Except.ok.inj h
  simp only [List.mem_map, List.mem_filter, Node.walkBelow, Node.mem_walk]
  constructor
  · rintro ⟨_, ⟨⟨names, path', node', way, rfl⟩, manifest⟩, rfl⟩
    simp only [isManifest, Bool.and_eq_true, beq_iff_eq] at manifest
    obtain ⟨file, last⟩ := manifest
    have nonempty : names ≠ [] := by
      rintro rfl
      have empty : (⟨[]⟩ : FileName) = (Manifest.fileName : FileName) := last
      exact absurd empty (by decide)
    obtain ⟨front, name, rfl⟩ := List.eq_nil_or_concat' names |>.resolve_left nonempty
    obtain rfl : name = (Manifest.fileName : FileName) := by simpa [Node.found] using last
    exact ⟨front, node', way, file⟩
  · rintro ⟨names, node', way, file⟩
    exact ⟨_, ⟨⟨_, _, _, way, rfl⟩, by simp [isManifest, Node.found, file]⟩, rfl⟩

end Project
end PackageResolution

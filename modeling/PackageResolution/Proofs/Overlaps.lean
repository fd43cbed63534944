import PackageResolution.Proofs.Discovery
/-!
# Packages found by two searches

The search for the project's own packages leaves the directories of the further repositories out, but
the searches of these leave nothing out. So a package is found twice, once for each repository, where
the directory of a further repository is that of another one or has it below.

Main statement: `basesApart_iff`.
-/
namespace PackageResolution

namespace Project

variable {t : FileTree} {root path path' : Path} {f : ProjectFile} {p : Project}
  {found : List (List Package)} {s s' outer inner : Search} {pkg pkg' : Package}
  {names names' way : List FileName}

/-- No two packages have one directory. -/
def BasesApart (p : Project) : Prop :=
  ∀ a ∈ p.packages, ∀ b ∈ p.packages, a.base.sameAs b.base = true → a = b

instance (p : Project) : Decidable p.BasesApart :=
  inferInstanceAs (Decidable (∀ a ∈ p.packages, ∀ b ∈ p.packages, _ → a = b))

/-- A search for a further repository comes to the directory of another one which has packages. -/
structure Overlap (p : Project) (outer inner : Search) : Prop where
  further : outer.repo ≠ Descriptor.localRepo
  other : inner.repo ≠ outer.repo
  way : ∃ names : List FileName, inner.root.components = outer.root.components ++ names.map .named ∧
    ∀ name ∈ names, isSkipped name = false
  used : ∃ pkg ∈ p.packages, pkg.repo = inner.repo

/-! ## Ways to packages -/

/-- A search comes to a manifest by the names of the directories on the way. -/
inductive Search.ComesTo (s : Search) (t : FileTree) (names : List FileName) (path : Path) : Prop
  | by {node node' : Node} (start : t.node s.root = .ok node)
      (way : Node.Meets (isKept s.exclude) s.root node
        (names ++ [(Manifest.fileName : FileName)]) path node')
      (file : node'.isFile = true)

/-- Packages are what the manifests define that searches come to. -/
theorem Discovered.mem_packages_iff_comesTo (h : Discovered t root f found p) :
    pkg ∈ p.packages ↔ ∃ s ∈ searches root f, ∃ names path, s.ComesTo t names path ∧
      t.loadPackage path s.repo = .ok pkg := by
  rw [h.mem_packages_iff]
  constructor
  · rintro ⟨s, hs, paths, met, path, hpath, hload⟩
    obtain ⟨node, start, walk⟩ := manifestPaths_eq_ok met
    obtain ⟨names, node', way, file⟩ := (walk path).1 hpath
    exact ⟨s, hs, names, path, .by start way file, hload⟩
  · rintro ⟨s, hs, names, path, ⟨start, way, file⟩, hload⟩
    obtain ⟨paths, met, -⟩ := h.exists_package hs
    obtain ⟨node, start', walk⟩ := manifestPaths_eq_ok met
    obtain rfl := Except.ok.inj (start.symm.trans start')
    exact ⟨s, hs, paths, met, path, (walk path).2 ⟨names, _, way, file⟩, hload⟩

/-- What a search comes to is a package. -/
theorem Discovered.exists_package_of_comesTo (h : Discovered t root f found p)
    (hs : s ∈ searches root f) (comes : s.ComesTo t names path) :
    ∃ pkg ∈ p.packages, t.loadPackage path s.repo = .ok pkg := by
  obtain ⟨paths, met, each⟩ := h.exists_package hs
  obtain ⟨node, start', walk⟩ := manifestPaths_eq_ok met
  obtain ⟨start, way, file⟩ := comes
  obtain rfl := Except.ok.inj (start.symm.trans start')
  exact each path ((walk path).2 ⟨names, _, way, file⟩)

theorem Discovered.exists_node (h : Discovered t root f found p) (hs : s ∈ searches root f) :
    ∃ node, t.node s.root = .ok node := by
  obtain ⟨paths, met, -⟩ := h.exists_package hs
  obtain ⟨node, start, -⟩ := manifestPaths_eq_ok met
  exact ⟨node, start⟩

theorem Search.ComesTo.path_unique (h : ComesTo s t names path) (h' : ComesTo s t names path') :
    path = path' := by
  obtain ⟨-, way, -⟩ := h
  obtain ⟨-, way', -⟩ := h'
  rw [way.path_eq, way'.path_eq]

theorem Search.ComesTo.not_isSkipped (h : ComesTo s t names path) :
    ∀ name ∈ names, isSkipped name = false := by
  obtain ⟨-, way, -⟩ := h
  intro name hname
  obtain ⟨q, kept⟩ := way.kept name (List.mem_append_left _ hname)
  simp only [isKept, Bool.and_eq_true, Bool.not_eq_true'] at kept
  exact kept.1

/-- The directory of a package is made of the names on the way to it. -/
theorem Search.ComesTo.components_base (h : ComesTo s t names path) (ht : t.top.isWellNamed = true)
    (hpkg : t.loadPackage path s.repo = .ok pkg) :
    pkg.base.components = s.root.components ++ names.map .named := by
  obtain ⟨start, way, -⟩ := h
  obtain ⟨dir, hdir, same⟩ := way.parent? (FileTree.isWellNamed_of_node ht start)
  obtain ⟨-, base, -⟩ := FileTree.loadPackage_eq_ok hpkg
  rw [base, hdir]
  exact same

/-- A search does not come to what it leaves out. -/
theorem Search.ComesTo.not_excluded (h : ComesTo s t (way ++ names) path)
    (ht : t.top.isWellNamed = true) (hway : way ≠ []) {dir : Path} (hdir : dir ∈ s.exclude) :
    dir.components ≠ s.root.components ++ way.map .named := by
  obtain ⟨start, steps, -⟩ := h
  obtain ⟨front, name, rfl⟩ := List.eq_nil_or_concat' way |>.resolve_left hway
  rw [List.append_assoc, List.append_assoc, List.singleton_append] at steps
  obtain ⟨q, kept, same⟩ := steps.kept_at (FileTree.isWellNamed_of_node ht start)
  simp only [isKept, Bool.and_eq_true, Bool.not_eq_true', List.any_eq_false] at kept
  intro e
  exact kept.2 dir hdir (by simp [Path.sameAs, e, same])

/-- A search that leaves nothing out comes to what a search below comes to. -/
theorem Search.ComesTo.of_below (h : ComesTo inner t names path) {node : Node}
    (start : t.node outer.root = .ok node) (nothing : outer.exclude = [])
    (below : inner.root.components = outer.root.components ++ way.map .named)
    (hway : ∀ name ∈ way, isSkipped name = false) :
    ∃ path', ComesTo outer t (way ++ names) path' := by
  have plain {name : FileName} (hname : isSkipped name = false) (q : Path) :
      isKept outer.exclude q name = true := by
    simp [isKept, hname, nothing]
  have own := h.not_isSkipped
  obtain ⟨start', steps, file⟩ := h
  have manifest : isSkipped Manifest.fileName = false := by decide
  have kept : ∀ name ∈ names ++ [(Manifest.fileName : FileName)],
      ∀ q, isKept outer.exclude q name = true := by
    intro name hname
    rcases List.mem_append.1 hname with hname | hname
    · exact plain (own name hname)
    · obtain rfl : name = (Manifest.fileName : FileName) := by simpa using hname
      exact plain manifest
  obtain ⟨q, first⟩ := FileTree.meets_of_node start start' below
    (fun name hname => plain (hway name hname)) outer.root
  obtain ⟨path', second⟩ := steps.elsewhere kept q
  exact ⟨path', .by start (List.append_assoc .. ▸ first.append second) file⟩

/-! ## Searches -/

theorem mem_searches_iff : s ∈ searches root f ↔
    s = ⟨Descriptor.localRepo, root, (repositories root f).map (·.2)⟩ ∨
      ∃ repo dir, (repo, dir) ∈ repositories root f ∧ s = ⟨repo, dir, []⟩ := by
  simp [searches, eq_comm]

theorem exclude_eq_nil (hs : s ∈ searches root f) (further : s.repo ≠ Descriptor.localRepo) :
    s.exclude = [] := by
  rcases mem_searches_iff.1 hs with rfl | ⟨repo, dir, -, rfl⟩
  · exact absurd rfl further
  · rfl

theorem Discovered.search_unique (h : Discovered t root f found p) (hs : s ∈ searches root f)
    (hs' : s' ∈ searches root f) (same : s.repo = s'.repo) : s = s' :=
  List.inj_on_of_nodup_map (nodup_repo_searches h.file) hs hs' same

/-- The search for the project's own packages leaves the other directories out. -/
theorem Discovered.root_mem_exclude (h : Discovered t root f found p) (hs : s ∈ searches root f)
    (hs' : s' ∈ searches root f) (own : s.repo = Descriptor.localRepo)
    (further : s'.repo ≠ Descriptor.localRepo) : s'.root ∈ s.exclude := by
  obtain rfl := h.search_unique hs (mem_searches_iff.2 (.inl rfl)) own
  rcases mem_searches_iff.1 hs' with rfl | ⟨repo, dir, hr, rfl⟩
  · exact absurd rfl further
  · exact List.mem_map_of_mem hr

/-! ## Overlaps -/

theorem exists_overlap (h : Discovered t root f found p) (ht : t.top.isWellNamed = true)
    (hs : s ∈ searches root f) (hs' : s' ∈ searches root f) (other : s.repo ≠ s'.repo)
    (comes : s.ComesTo t (way ++ names) path) (hpkg : pkg ∈ p.packages) (repo : pkg.repo = s.repo)
    (hpkg' : pkg' ∈ p.packages) (repo' : pkg'.repo = s'.repo)
    (below : s'.root.components = s.root.components ++ way.map .named) :
    ∃ outer ∈ searches root f, ∃ inner ∈ searches root f, Overlap p outer inner := by
  by_cases own : s.repo = Descriptor.localRepo
  · have further : s'.repo ≠ Descriptor.localRepo := own ▸ other.symm
    -- the search leaves the other directory out unless it starts there
    have here : way = [] := by
      by_contra hway
      exact comes.not_excluded ht hway (h.root_mem_exclude hs hs' own further) below
    refine ⟨s', hs', s, hs, further, other, ⟨[], ?_, by simp⟩, pkg, hpkg, repo⟩
    simp [below, here]
  · refine ⟨s, hs, s', hs', own, other.symm, ⟨way, below, fun name hname => ?_⟩, pkg', hpkg', repo'⟩
    exact comes.not_isSkipped name (List.mem_append_left _ hname)

/-- What a search finds on its way through the directory of another has that directory twice. -/
theorem Overlap.not_basesApart (h : Discovered t root f found p) (ht : t.top.isWellNamed = true)
    (houter : outer ∈ searches root f) (hinner : inner ∈ searches root f)
    (overlap : Overlap p outer inner) : ¬ p.BasesApart := by
  intro apart
  obtain ⟨further, other, ⟨way, below, hway⟩, pkg, hpkg, repo⟩ := overlap
  obtain ⟨s, hs, names, path, comes, hload⟩ := h.mem_packages_iff_comesTo.1 hpkg
  obtain ⟨hrepo, -⟩ := FileTree.loadPackage_eq_ok hload
  obtain rfl := h.search_unique hs hinner (hrepo.symm.trans repo)
  obtain ⟨node, start⟩ := h.exists_node houter
  obtain ⟨path', comes'⟩ := comes.of_below start (exclude_eq_nil houter further) below hway
  obtain ⟨pkg', hpkg', hload'⟩ := h.exists_package_of_comesTo houter comes'
  have same : pkg.base.components = pkg'.base.components := by
    rw [comes.components_base ht hload, comes'.components_base ht hload', below, List.map_append,
      List.append_assoc]
  obtain rfl := apart pkg hpkg pkg' hpkg' (by simp [Path.sameAs, same])
  exact other (hrepo.symm.trans (FileTree.loadPackage_eq_ok hload').1)

/-- Without overlaps, packages of one directory are one. -/
theorem basesApart_of_forall_not_overlap (h : Discovered t root f found p)
    (ht : t.top.isWellNamed = true)
    (none : ∀ outer ∈ searches root f, ∀ inner ∈ searches root f, ¬ Overlap p outer inner) :
    p.BasesApart := by
  intro a ha b hb same
  obtain ⟨s, hs, names, path, comes, hload⟩ := h.mem_packages_iff_comesTo.1 ha
  obtain ⟨s', hs', names', path', comes', hload'⟩ := h.mem_packages_iff_comesTo.1 hb
  obtain ⟨hrepo, -⟩ := FileTree.loadPackage_eq_ok hload
  obtain ⟨hrepo', -⟩ := FileTree.loadPackage_eq_ok hload'
  have both : s.root.components ++ names.map .named = s'.root.components ++ names'.map .named := by
    rw [← comes.components_base ht hload, ← comes'.components_base ht hload']
    simpa [Path.sameAs] using same
  by_cases one : s.repo = s'.repo
  · -- the same search by the same names has come to the same manifest
    obtain rfl := h.search_unique hs hs' one
    obtain rfl : names = names' := List.map_injective_iff.2 (fun _ _ e => Path.Component.named.inj e)
      (List.append_cancel_left both)
    obtain rfl := comes.path_unique comes'
    exact Except.ok.inj (hload.symm.trans hload')
  · exfalso
    rcases List.append_eq_append_iff.1 both with ⟨way, below, rest⟩ | ⟨way, below, rest⟩
    · obtain ⟨front, back, rfl, rfl, -⟩ := List.map_eq_append_iff.1 rest
      obtain ⟨outer, houter, inner, hinner, overlap⟩ :=
        exists_overlap h ht hs hs' one comes ha hrepo hb hrepo' below
      exact none outer houter inner hinner overlap
    · obtain ⟨front, back, rfl, rfl, -⟩ := List.map_eq_append_iff.1 rest
      obtain ⟨outer, houter, inner, hinner, overlap⟩ :=
        exists_overlap h ht hs' hs (Ne.symm one) comes' hb hrepo' ha hrepo below
      exact none outer houter inner hinner overlap

/-- **`basesApart_iff`**: no two packages of a project that is loaded have one directory, exactly if no
search for a further repository comes to the directory of another repository which has packages. -/
theorem basesApart_iff (ht : t.top.isWellNamed = true) (h : load t root = .ok p) :
    ∃ f, t.loadProjectFile (root.join ProjectFile.fileName) = .ok f ∧
      (p.BasesApart ↔
        ∀ outer ∈ searches root f, ∀ inner ∈ searches root f, ¬ Overlap p outer inner) := by
  obtain ⟨f, found, discovered⟩ := discovered_of_load h
  refine ⟨f, discovered.file, fun apart outer houter inner hinner overlap => ?_,
    basesApart_of_forall_not_overlap discovered ht⟩
  exact overlap.not_basesApart discovered ht houter hinner apart

/-- A project with a repository inside the directory of another. -/
def nestedRepositories : FileTree where
  top := .dir [("p", .dir [
    ("project.toml", .file ("[project]\nname = \"p\"\n\n[repositories]\n" ++
      "a = \"repos\"\nb = \"repos/b\"\n").toUTF8),
    ("repos", .dir [("b", .dir [("x", .dir [
      ("pkg.toml", .file "[package]\nname = \"x\"\n".toUTF8)])])])])]
  current := []

theorem basesApart_iff_nestedRepositories : ∃ p f,
    load nestedRepositories "p" = .ok p ∧
      nestedRepositories.loadProjectFile "p/project.toml" = .ok f ∧
      (p.BasesApart ↔
        ∀ outer ∈ searches "p" f, ∀ inner ∈ searches "p" f, ¬ Overlap p outer inner) := by
  have loads : (load nestedRepositories "p").toOption.isSome = true := by decide +kernel
  obtain ⟨p, h⟩ := exists_eq_ok_of_isSome loads
  obtain ⟨f, hf, iff⟩ := basesApart_iff (by decide +kernel) h
  exact ⟨p, f, h, hf, iff⟩

/-- The package inside both repositories is found by both searches. -/
theorem not_basesApart : ∃ p, load nestedRepositories "p" = .ok p ∧ ¬ p.BasesApart := by
  have loads : (load nestedRepositories "p").toOption.any (fun p => !decide p.BasesApart) = true := by
    decide +kernel
  obtain ⟨p, h, together⟩ := exists_eq_ok_of_any loads
  exact ⟨p, h, by simpa using together⟩

end Project
end PackageResolution

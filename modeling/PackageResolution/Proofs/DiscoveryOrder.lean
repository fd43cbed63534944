import PackageResolution.Proofs.Discovery
import PackageResolution.Proofs.Utf8
import PackageResolution.Proofs.WalkOrder
import Mathlib.Data.List.Perm.Subperm
/-!
# The packages of a project in order

What a project that is loaded consists of, said without the walks that find it. A search is for the
manifests that are reached without passing a directory for targets, a hidden entry or a directory
that the search leaves out; where it starts does not matter. It lists their packages in ascending
order of the ways, and the searches follow one another, the project's own first and then the others
in ascending order of the repositories' names.

An entry is hidden if its name starts with a dot. What a search passes over are the names that are
texts and start with a dot, so it goes on through a hidden name that is no text. Where no manifest is
reached through such a name, and only there, the packages are those of the manifests that a search is
for.

Main statements: `packages_in_order` and `not_inOrder_byteNamedProject`.
-/
namespace PackageResolution

namespace Project

variable {t : FileTree} {root path : Path} {f : ProjectFile} {p : Project} {s : Search}
  {paths exclude : List Path} {pkg : Package} {pkgs pkgs' : List Package} {node : Node}
  {name : FileName} {way : List FileName} {hidden : FileName → Prop}

/-! ## Hidden names -/

/-- A name that starts with a dot. -/
def IsHidden (name : FileName) : Prop := name.bytes.head? = some Path.dot

/-- A name that is a text and starts with a dot. -/
def IsHiddenText (name : FileName) : Prop :=
  ∃ text, name.text? = some text ∧ text.toList.head? = some '.'

theorem head?_utf8_eq_dot_iff {text : String} :
    (Text.utf8 text).head? = some Path.dot ↔ text.toList.head? = some '.' := by
  unfold Text.utf8
  cases text.toList with
  | nil => simp
  | cons c cs =>
    obtain ⟨first, tail, encoded, -⟩ := Text.firstChar_utf8EncodeChar c []
    rw [List.flatMap_cons, encoded, List.cons_append, List.head?_cons, List.head?_cons,
      Option.some.injEq, Option.some.injEq]
    constructor
    · rintro rfl
      exact (Text.mem_utf8EncodeChar_iff (x := '.') (by decide) c).1 (encoded ▸ List.mem_cons_self)
    · rintro rfl
      exact (List.cons.inj encoded).1.symm

theorem isHiddenText_iff : IsHiddenText name ↔ IsHidden name ∧ name.text?.isSome = true := by
  simp only [IsHiddenText, IsHidden, Option.isSome_iff_exists, Path.text?,
    Text.ofUtf8?_eq_some_iff]
  constructor
  · rintro ⟨text, same, dot⟩
    exact ⟨same ▸ head?_utf8_eq_dot_iff.2 dot, text, same⟩
  · rintro ⟨dot, text, same⟩
    exact ⟨text, same, head?_utf8_eq_dot_iff.1 (same ▸ dot)⟩

theorem isSkipped_iff :
    isSkipped name = true ↔ name = (Target.directoryName : FileName) ∨ IsHiddenText name := by
  rw [← Path.text?_eq_some_iff, IsHiddenText, isSkipped]
  cases name.text? <;> simp

theorem isKept_iff : isKept exclude path name = true ↔
    name ≠ (Target.directoryName : FileName) ∧ ¬ IsHiddenText name ∧
      ∀ dir ∈ exclude, dir.components ≠ path.components := by
  have left : (exclude.any (·.sameAs path)) = true ↔
      ∃ dir ∈ exclude, dir.components = path.components := by
    simp [Path.sameAs]
  rw [isKept, Bool.and_eq_true, Bool.not_eq_true', Bool.not_eq_true', ← Bool.not_eq_true,
    ← Bool.not_eq_true, isSkipped_iff, left, not_or, and_assoc]
  push Not
  exact Iff.rfl

/-! ## What a search is for -/

/-- A way from the root of a search to a manifest, along which no name is hidden. -/
structure Search.Seeks (hidden : FileName → Prop) (s : Search) (node : Node) (way : List FileName) :
    Prop where
  file : ∃ bytes, node.find? way = some (.file bytes)
  named : way.getLast? = some (Manifest.fileName : FileName)
  passable : ∀ before name after, way = before ++ name :: after →
    name ≠ (Target.directoryName : FileName) ∧ ¬ hidden name ∧
      ∀ dir ∈ s.exclude, dir.components ≠ s.root.components ++ (before ++ [name]).map .named

/-- The package of the manifest at the end of a way. -/
structure Search.Gives (t : FileTree) (s : Search) (way : List FileName) (pkg : Package) : Prop where
  loaded : t.loadPackage (way.foldl Path.join s.root) s.repo = .ok pkg
  repo : pkg.repo = s.repo
  parent : (way.foldl Path.join s.root).parent? = some pkg.base
  base : pkg.base.components = s.root.components ++ way.dropLast.map .named

/-- The packages of all manifests that a search is for, in ascending order of the ways to them. -/
inductive Search.Lists (hidden : FileName → Prop) (t : FileTree) (s : Search) (pkgs : List Package) :
    Prop
  | inOrder {node : Node} {ways : List (List FileName)} (start : t.node s.root = .ok node)
      (ascending : ways.Pairwise (· < ·)) (complete : ∀ way, way ∈ ways ↔ s.Seeks hidden node way)
      (packages : List.Forall₂ (s.Gives t) ways pkgs)

/-- The packages of a project are those that its searches are for, one search after another. -/
inductive InOrder (hidden : FileName → Prop) (t : FileTree) (root : Path) (f : ProjectFile)
    (p : Project) : Prop
  | searched (own : List Package) (further : List (List Package))
      (packages : p.packages = own ++ further.flatten)
      (first : Search.Lists hidden t
        ⟨Descriptor.localRepo, root, (repositories root f).map (·.2)⟩ own)
      (rest : List.Forall₂ (fun repo pkgs => Search.Lists hidden t ⟨repo.1, repo.2, []⟩ pkgs)
        (repositories root f) further)

/-- No manifest that a search reads is reached through a hidden name that is no text. -/
def Search.IsByTexts (t : FileTree) (s : Search) : Prop :=
  ∀ node way, t.node s.root = .ok node → s.Seeks IsHiddenText node way →
    ∀ name ∈ way, IsHidden name → name.text?.isSome = true

theorem inOrder_iff : InOrder hidden t root f p ↔ ∃ found, p.packages = found.flatten ∧
    List.Forall₂ (fun s pkgs => Search.Lists hidden t s pkgs) (searches root f) found := by
  constructor
  · rintro ⟨own, further, packages, first, rest⟩
    exact ⟨own :: further, packages, .cons first (List.forall₂_map_left_iff.2 rest)⟩
  · rintro ⟨found, packages, lists⟩
    obtain ⟨own, further, first, rest, rfl⟩ := List.forall₂_cons_left_iff.1 lists
    exact ⟨own, further, packages, first, List.forall₂_map_left_iff.1 rest⟩

/-! ## What a search reads -/

theorem exists_of_isFile (h : node.isFile = true) : ∃ bytes, node = .file bytes := by
  cases node with
  | file bytes => exact ⟨bytes, rfl⟩
  | dir _ | other => cases h

/-- The ways that a search reads are those of the walk to the files of that name. -/
theorem Search.seeks_iff (hd : node.isDistinct = true) (hn : node.isWellNamed = true) :
    s.Seeks IsHiddenText node way ↔ way.getLast? = some (Manifest.fileName : FileName) ∧ ∃ bytes,
      Node.Meets (isKept s.exclude) s.root node way (way.foldl Path.join s.root) (.file bytes) := by
  have components {bytes before name after} (found : node.find? way = some (.file bytes))
      (split : way = before ++ name :: after) :
      ((before ++ [name]).foldl Path.join s.root).components =
        s.root.components ++ (before ++ [name]).map .named := by
    have found : node.find? (before ++ [name] ++ after) = some (.file bytes) := by
      rw [List.append_assoc]
      exact split ▸ found
    exact Node.components_of_find? hd hn found s.root
  constructor
  · rintro ⟨⟨bytes, found⟩, named, passable⟩
    refine ⟨named, bytes, (Node.meets_iff hd).2 ⟨rfl, found, fun before name after split => ?_⟩⟩
    rw [isKept_iff, components found split]
    exact passable before name after split
  · rintro ⟨named, bytes, meets⟩
    obtain ⟨-, found, kept⟩ := (Node.meets_iff hd).1 meets
    refine ⟨⟨bytes, found⟩, named, fun before name after split => ?_⟩
    rw [← components found split, ← isKept_iff]
    exact kept before name after split

/-- The manifests of a search are met in ascending order of the ways to them. -/
theorem exists_ways (ht : t.top.isWellNamed = true) (hd : t.top.isDistinct = true)
    (h : manifestPaths t s.root s.exclude = .ok paths) : ∃ (node : Node)
      (ways : List (List FileName)), t.node s.root = .ok node ∧ ways.Pairwise (· < ·) ∧
        (∀ way, way ∈ ways ↔ s.Seeks IsHiddenText node way) ∧
        paths = ways.map (·.foldl Path.join s.root) := by
  obtain ⟨node, start, h⟩ := bind_eq_ok.1 h
  have start := mapError_eq_ok.1 start
  have distinct := Node.isDistinct_of_node hd start
  obtain ⟨met, found, ascending, mem_iff⟩ :=
    Node.exists_toured (isKept s.exclude) s.root ⟨[]⟩ node distinct
  dsimp only at h
  split at h
  · exact absurd h nofun
  obtain rfl := Except.ok.inj h
  -- what the walk meets is a manifest by the last name on the way
  let last (m : List FileName × Node) : Bool :=
    m.2.isFile && m.1.getLast?.getD ⟨[]⟩ == (Manifest.fileName : FileName)
  have last_iff (way : List FileName) (n : Node) : last (way, n) = true ↔
      way.getLast? = some (Manifest.fileName : FileName) ∧ ∃ bytes, n = .file bytes := by
    have named : way.getLast?.getD ⟨[]⟩ = (Manifest.fileName : FileName) ↔
        way.getLast? = some (Manifest.fileName : FileName) := by
      have nonempty : (⟨[]⟩ : FileName) ≠ (Manifest.fileName : FileName) := by decide
      cases way.getLast? <;> simp [nonempty]
    cases n <;> simp [last, Node.isFile, named]
  refine ⟨node, (met.filter last).map (·.1), start, ?_, fun way => ?_, ?_⟩
  · rw [List.pairwise_map] at ascending ⊢
    exact ascending.filter last
  · rw [Search.seeks_iff distinct (FileTree.isWellNamed_of_node ht start)]
    simp only [List.mem_map, List.mem_filter, Prod.exists, exists_and_right, exists_eq_right,
      mem_iff, last_iff]
    constructor
    · rintro ⟨n, meets, named, bytes, rfl⟩
      exact ⟨named, bytes, meets⟩
    · rintro ⟨named, bytes, meets⟩
      exact ⟨_, meets, named, bytes, rfl⟩
  · rw [Node.walkBelow, found, List.filter_map, List.map_map, List.map_map]
    rfl

/-- What a search finds is what it reads. -/
theorem Search.Finds.lists (ht : t.top.isWellNamed = true) (hd : t.top.isDistinct = true)
    (h : Finds t s pkgs) : s.Lists IsHiddenText t pkgs := by
  obtain ⟨met, loaded⟩ := h
  obtain ⟨node, ways, start, ascending, complete, rfl⟩ := exists_ways ht hd met
  have distinct := Node.isDistinct_of_node hd start
  have named := FileTree.isWellNamed_of_node ht start
  refine .inOrder start ascending complete ?_
  have both := (List.forall₂_and_left _ _).2
    ⟨fun way hway => (complete way).1 hway, List.forall₂_map_left_iff.1 loaded⟩
  refine both.imp ?_
  rintro way pkg ⟨seeks, hload⟩
  obtain ⟨last, bytes, meets⟩ := (seeks_iff distinct named).1 seeks
  obtain ⟨front, rfl⟩ := List.getLast?_eq_some_iff.1 last
  obtain ⟨dir, hdir, same⟩ := meets.parent? named
  obtain ⟨repo, base, -⟩ := FileTree.loadPackage_eq_ok hload
  rw [hdir, Option.getD_some] at base
  subst base
  exact ⟨hload, repo, hdir, by simpa using same⟩

/-! ## What a search reads and what it is for -/

theorem Search.Seeks.toText (h : s.Seeks IsHidden node way) : s.Seeks IsHiddenText node way where
  file := h.file
  named := h.named
  passable before name after split :=
    have ⟨target, shown, passed⟩ := h.passable before name after split
    ⟨target, fun hiddenText => shown (isHiddenText_iff.1 hiddenText).1, passed⟩

theorem Search.Seeks.ofText (h : s.Seeks IsHiddenText node way)
    (texts : ∀ name ∈ way, IsHidden name → name.text?.isSome = true) : s.Seeks IsHidden node way where
  file := h.file
  named := h.named
  passable before name after split :=
    have ⟨target, shown, passed⟩ := h.passable before name after split
    have mem : name ∈ way := split ▸ List.mem_append_right _ List.mem_cons_self
    ⟨target, fun dot => shown (isHiddenText_iff.2 ⟨dot, texts name mem dot⟩), passed⟩

/-- A way without hidden names has none that is no text. -/
theorem Search.Seeks.isSome_text? (h : s.Seeks IsHidden node way) (hname : name ∈ way)
    (dot : IsHidden name) : name.text?.isSome = true := by
  obtain ⟨before, after, split⟩ := List.append_of_mem hname
  exact absurd dot (h.passable before name after split).2.1

theorem Search.Lists.ofTexts (h : s.Lists IsHiddenText t pkgs) (texts : s.IsByTexts t) :
    s.Lists IsHidden t pkgs := by
  obtain ⟨start, ascending, complete, packages⟩ := h
  refine .inOrder start ascending (fun way => (complete way).trans ?_) packages
  exact ⟨fun seeks => seeks.ofText (texts _ way start seeks), Seeks.toText⟩

/-- A search reads no fewer manifests than it is for, and no more only where none is reached through
a hidden name that is no text. -/
theorem Search.Lists.length_le (h : s.Lists IsHiddenText t pkgs) (h' : s.Lists IsHidden t pkgs') :
    pkgs'.length ≤ pkgs.length ∧ (pkgs.length ≤ pkgs'.length → s.IsByTexts t) := by
  obtain ⟨start, ascending, complete, packages⟩ := h
  obtain @⟨node, ways, start', ascending', complete', packages'⟩ := h'
  obtain rfl := Except.ok.inj (start'.symm.trans start)
  have apart : ways.Nodup := ascending'.imp fun lt => by
    rintro rfl
    exact List.lt_irrefl _ lt
  have sub := List.subperm_of_subset apart fun way hway =>
    (complete way).2 ((complete' way).1 hway).toText
  rw [← packages.length_eq, ← packages'.length_eq]
  refine ⟨sub.length_le, fun le node way start'' seeks name hname dot => ?_⟩
  obtain rfl := Except.ok.inj (start'.symm.trans start'')
  have mem : way ∈ ways := (sub.perm_of_length_le le).mem_iff.2 ((complete way).2 seeks)
  exact ((complete' way).1 mem).isSome_text? hname dot

/-- The same of searches one after another. -/
theorem Search.length_flatten_le {ss : List Search} {found found' : List (List Package)}
    (h : List.Forall₂ (fun s pkgs => Search.Lists IsHiddenText t s pkgs) ss found)
    (h' : List.Forall₂ (fun s pkgs => Search.Lists IsHidden t s pkgs) ss found') :
    found'.flatten.length ≤ found.flatten.length ∧
      (found.flatten.length ≤ found'.flatten.length → ∀ s ∈ ss, s.IsByTexts t) := by
  induction h generalizing found' with
  | nil =>
    cases h'
    simp
  | cons first rest ih =>
    cases h' with
    | cons first' rest' =>
      obtain ⟨le, texts⟩ := first.length_le first'
      obtain ⟨restLe, restTexts⟩ := ih rest'
      simp only [List.flatten_cons, List.length_append]
      refine ⟨Nat.add_le_add le restLe, fun all => ?_⟩
      rw [List.forall_mem_cons]
      exact ⟨texts (by omega), restTexts (by omega)⟩

/-- The packages of the manifests that searches read are those of the manifests that they are for
exactly if none of them is reached through a hidden name that is no text. -/
theorem InOrder.isHidden_iff (h : InOrder IsHiddenText t root f p) :
    InOrder IsHidden t root f p ↔ ∀ s ∈ searches root f, s.IsByTexts t := by
  obtain ⟨found, packages, lists⟩ := inOrder_iff.1 h
  rw [inOrder_iff]
  constructor
  · rintro ⟨found', packages', lists'⟩
    exact (Search.length_flatten_le lists lists').2 (by rw [← packages, ← packages'])
  · intro texts
    refine ⟨found, packages, ?_⟩
    exact ((List.forall₂_and_left _ _).2 ⟨texts, lists⟩).imp fun s pkgs both => both.2.ofTexts both.1

theorem Discovered.inOrder {found : List (List Package)} (ht : t.top.isWellNamed = true)
    (hd : t.top.isDistinct = true) (h : Discovered t root f found p) :
    InOrder IsHiddenText t root f p :=
  inOrder_iff.2 ⟨found, h.packages, h.finds.imp fun _ _ finds => finds.lists ht hd⟩

/-- **`packages_in_order`**: the packages of a project that is loaded are, in the order of their
identities, those of the project's own search and then those of the search for each further
repository, in ascending order of the repositories' names; each search lists exactly the manifests
reached without passing a directory for targets, one that it leaves out or a name that is a text and
starts with a dot, in ascending order of the ways to them. They are the manifests reached without
passing any name that starts with a dot exactly if all names on the ways that do are texts. -/
theorem packages_in_order (ht : t.top.isWellNamed = true) (hd : t.top.isDistinct = true)
    (h : load t root = .ok p) : ∃ f,
      t.loadProjectFile (root.join ProjectFile.fileName) = .ok f ∧
      Ascending f.repositories.names ∧
      (∀ i pkg, p.packages[i]? = some pkg → p.resolve pkg.descriptor = some (.ofIndex i)) ∧
      InOrder IsHiddenText t root f p ∧
      (InOrder IsHidden t root f p ↔ ∀ s ∈ searches root f, s.IsByTexts t) := by
  obtain ⟨f, found, discovered⟩ := discovered_of_load h
  have inOrder := discovered.inOrder ht hd
  refine ⟨f, discovered.file, f.repositories.ascending, ?_, inOrder, inOrder.isHidden_iff⟩
  intro i pkg hpkg
  exact discovered.inStep.resolve_eq_some_iff.2 ⟨i, pkg, hpkg, rfl, rfl⟩

/-- A project whose file names its repositories in descending order. One of them is a hidden
directory, and the other has manifests that its search is not for. -/
def branchedProject : FileTree where
  top := .dir [("p", .dir [
    ("project.toml", .file ("[project]\nname = \"p\"\n\n[repositories]\n" ++
      "b = \"b\"\na = \".a\"\n").toUTF8),
    ("targets", .dir [("pkg.toml", .file "[package]\nname = \"t\"\n".toUTF8)]),
    ("b", .dir [
      ("targets", .dir [("pkg.toml", .file "[package]\nname = \"t\"\n".toUTF8)]),
      ("x", .dir [("pkg.toml", .file "[package]\nname = \"x\"\n".toUTF8)]),
      (".c", .dir [("pkg.toml", .file "[package]\nname = \"c\"\n".toUTF8)])]),
    (".a", .dir [("pkg.toml", .file "[package]\nname = \"y\"\n".toUTF8)])])]
  current := []

theorem packages_in_order_branchedProject : ∃ p, load branchedProject "p" = .ok p ∧
    p.packages.map Package.display = ["@a/y", "@b/x"] ∧ ∃ f,
      branchedProject.loadProjectFile (Path.join "p" ProjectFile.fileName) = .ok f ∧
      Ascending f.repositories.names ∧
      (∀ i pkg, p.packages[i]? = some pkg → p.resolve pkg.descriptor = some (.ofIndex i)) ∧
      InOrder IsHiddenText branchedProject "p" f p ∧
      (InOrder IsHidden branchedProject "p" f p ↔
        ∀ s ∈ searches "p" f, s.IsByTexts branchedProject) := by
  have loads : (load branchedProject "p").toOption.any
      (fun p => p.packages.map Package.display == ["@a/y", "@b/x"]) = true := by
    decide +kernel
  obtain ⟨p, h, displays⟩ := exists_eq_ok_of_any loads
  exact ⟨p, h, by simpa using displays, packages_in_order (by decide +kernel) (by decide +kernel) h⟩

/-- The name of two bytes that starts with a dot and is no text. -/
def dotFF : FileName := ⟨[0x2E, 0xFF]⟩

/-- A project with one further repository, whose one manifest is in a hidden directory. -/
def byteNamedProject : FileTree where
  top := .dir [("p", .dir [
    ("project.toml", .file "[project]\nname = \"p\"\n\n[repositories]\nr = \"r\"\n".toUTF8),
    ("r", .dir [(dotFF, .dir [("pkg.toml", .file "[package]\nname = \"x\"\n".toUTF8)])])])]
  current := []

/-- The search of the further repository is for nothing, but it reads the manifest. -/
theorem seeks_byteNamedProject : ∃ node, byteNamedProject.node "p/r" = .ok node ∧
    Search.Seeks IsHiddenText ⟨"r", "p/r", []⟩ node [dotFF, Manifest.fileName] := by
  have found : (byteNamedProject.node "p/r").toOption.any
      (fun node => (node.find? [dotFF, Manifest.fileName]).any Node.isFile) = true := by
    decide +kernel
  obtain ⟨node, start, found⟩ := exists_eq_ok_of_any found
  obtain ⟨manifest, hmanifest, isFile⟩ := (Option.any_eq_true _ _).1 found
  obtain ⟨bytes, rfl⟩ := exists_of_isFile isFile
  refine ⟨node, start, ⟨bytes, hmanifest⟩, rfl, fun before name after split => ?_⟩
  have shown : ∀ name ∈ [dotFF, (Manifest.fileName : FileName)],
      name ≠ (Target.directoryName : FileName) ∧
        (name.bytes.head? = some Path.dot → name.text? = none) := by
    decide +kernel
  obtain ⟨other, noText⟩ := shown name (split ▸ List.mem_append_right _ List.mem_cons_self)
  refine ⟨other, fun hiddenText => ?_, nofun⟩
  obtain ⟨dot, text⟩ := isHiddenText_iff.1 hiddenText
  simp [noText dot] at text

/-- The manifest in the hidden directory becomes a package, though no search is for it. -/
theorem not_inOrder_byteNamedProject : ∃ p, load byteNamedProject "p" = .ok p ∧
    p.packages.map Package.display = ["@r/x"] ∧
    ¬ ∃ f, byteNamedProject.loadProjectFile (Path.join "p" ProjectFile.fileName) = .ok f ∧
      InOrder IsHidden byteNamedProject "p" f p := by
  have loads : (load byteNamedProject "p").toOption.any
      (fun p => p.packages.map Package.display == ["@r/x"]) = true := by
    decide +kernel
  obtain ⟨p, h, displays⟩ := exists_eq_ok_of_any loads
  refine ⟨p, h, by simpa using displays, ?_⟩
  rintro ⟨f, file, inOrder⟩
  obtain ⟨f', found, discovered⟩ := discovered_of_load h
  obtain rfl := Except.ok.inj (file.symm.trans discovered.file)
  have texts := (discovered.inOrder (by decide +kernel) (by decide +kernel)).isHidden_iff.1 inOrder
  have roots : (byteNamedProject.loadProjectFile (Path.join "p" ProjectFile.fileName)).toOption.any
      (fun f => repositories "p" f == [("r", Path.ofText "p/r")]) = true := by
    decide +kernel
  obtain ⟨f', file', roots⟩ := exists_eq_ok_of_any roots
  obtain rfl := Except.ok.inj (file'.symm.trans file)
  have search : ⟨"r", "p/r", []⟩ ∈ searches "p" f' := by
    simp [searches, beq_iff_eq.1 roots]
  obtain ⟨node, start, seeks⟩ := seeks_byteNamedProject
  exact absurd (texts _ search node _ start seeks dotFF List.mem_cons_self rfl) (by decide +kernel)

end Project
end PackageResolution

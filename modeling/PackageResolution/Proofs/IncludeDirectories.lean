import PackageResolution.Target.Schema
import PackageResolution.Proofs.Components
import PackageResolution.Proofs.Computations
import PackageResolution.Proofs.Discovery
import PackageResolution.Proofs.Utf8
/-!
# Where include directories lie

An include directory is the directory of a package with names joined to it. Two of the names are free
texts: the last segment of the package's name, and the architecture. Each is a single piece of a path,
so it neither takes the place of what it is joined to nor leads up more than one directory; and each
stands behind a name that leads down. So the directories lie within the package, also where both are
`..`.

Main statement: `includes_contained`.
-/
namespace PackageResolution

namespace Path

variable {p : Path} {name first : FileName} {names rest : List FileName}

/-! ## Joining several names -/

/-- A name that is a piece of a path, which `.` and `..` are too. -/
structure IsPiece (name : FileName) : Prop where
  nonempty : name.bytes ≠ []
  unslashed : separator ∉ name.bytes

/-- What a relative path is set apart by where it is joined to a path. -/
def gap (p : Path) : List UInt8 :=
  if p.bytes.getLast?.all (· == separator) then [] else [separator]

/-- A path with names joined to it one after another. -/
def joinAll (p : Path) (names : List FileName) : Path := names.foldl join p

theorem IsEntryName.isPiece (h : IsEntryName name) : IsPiece name where
  nonempty e := by
    have named := h.1
    rw [e] at named
    cases named
  unslashed := h.2

/-- The text of a piece has characters, and no slash among them. -/
theorem isPiece_ofText {s : String} : IsPiece s ↔ s ≠ "" ∧ '/' ∉ s.toList := by
  have slash : separator ∈ Text.utf8 s ↔ '/' ∈ s.toList := Text.mem_utf8_iff (x := '/') (by decide)
  constructor
  · rintro ⟨nonempty, unslashed⟩
    exact ⟨mt Text.utf8_eq_nil_iff.2 nonempty, mt slash.2 unslashed⟩
  · rintro ⟨nonempty, unslashed⟩
    exact ⟨mt Text.utf8_eq_nil_iff.1 nonempty, mt slash.1 unslashed⟩

theorem IsPiece.relative (h : IsPiece name) : name.isAbsolute = false := by
  have first : name.bytes.head? ≠ some separator := fun e => h.unslashed (List.mem_of_head? e)
  simpa [isAbsolute] using first

theorem join_eq (p : Path) (h : name.isAbsolute = false) :
    p.join name = ⟨p.bytes ++ p.gap ++ name.bytes⟩ := by
  unfold join gap
  rw [if_neg (by simp [h])]
  split
  · simp
  · simp

theorem bytes_join_ne_nil (p : Path) (h : IsPiece name) : (p.join name).bytes ≠ [] := by
  rw [join_eq p h.relative]
  exact List.append_ne_nil_of_right_ne_nil _ h.nonempty

theorem gap_join (h : IsPiece name) : (p.join name).gap = [separator] := by
  obtain ⟨cs, c, hname⟩ := (List.eq_nil_or_concat' name.bytes).resolve_left h.nonempty
  have last : c ≠ separator := by
    rintro rfl
    exact h.unslashed (by simp [hname])
  rw [join_eq p h.relative, gap]
  simp [hname, last]

/-- **`joinAll_eq`**: pieces of a path are written behind it with separators between them. -/
theorem joinAll_eq (hfirst : IsPiece first) (hrest : ∀ name ∈ rest, IsPiece name) :
    p.joinAll (first :: rest) =
      ⟨p.bytes ++ p.gap ++ [separator].intercalate ((first :: rest).map bytes)⟩ := by
  induction rest generalizing p first with
  | nil => simp [joinAll, join_eq p hfirst.relative]
  | cons second rest ih =>
    obtain ⟨hsecond, hrest⟩ := List.forall_mem_cons.1 hrest
    have step : p.joinAll (first :: second :: rest) = (p.join first).joinAll (second :: rest) := rfl
    rw [step, ih hsecond hrest, gap_join hfirst, join_eq p hfirst.relative, List.map_cons,
      List.map_cons, List.map_cons, List.intercalate_cons_cons]
    simp

/-- A piece behind a path that is not empty is one more component, or none. -/
theorem components_join_piece (h : IsPiece name) (hp : p.bytes ≠ []) :
    (p.join name).components = p.components ++ (componentOf? name.bytes).toList := by
  rw [components_eq, pieces_join h.unslashed, componentsOf_concat (stem_ne_nil hp),
    components_eq_stem hp]

theorem components_joinAll_of_nonempty (hp : p.bytes ≠ []) (h : ∀ name ∈ names, IsPiece name) :
    (p.joinAll names).components =
      p.components ++ names.filterMap fun name => componentOf? name.bytes := by
  induction names generalizing p with
  | nil => simp [joinAll]
  | cons name names ih =>
    obtain ⟨hname, hnames⟩ := List.forall_mem_cons.1 h
    have step : p.joinAll (name :: names) = (p.join name).joinAll names := rfl
    rw [step, ih (bytes_join_ne_nil p hname) hnames, components_join_piece hname hp, List.append_assoc]
    cases hc : componentOf? name.bytes <;> simp [hc]

/-- **`components_joinAll`**: pieces behind a path come in as components, if the first of them is
the name of an entry. -/
theorem components_joinAll (hfirst : IsEntryName first) (hrest : ∀ name ∈ rest, IsPiece name) :
    (p.joinAll (first :: rest)).components =
      p.components ++ .named first :: rest.filterMap fun name => componentOf? name.bytes := by
  have step : p.joinAll (first :: rest) = (p.join first).joinAll rest := rfl
  rw [step, components_joinAll_of_nonempty (bytes_join_ne_nil p hfirst.isPiece) hrest,
    components_join hfirst, List.append_assoc]
  rfl

/-! ## Going down and up -/

/-- Where components lead that stand behind a directory, `.` and `..` being taken out by what is
written alone: the names below the directory, the last one first. There is no answer where a
component leads above the directory, or anywhere else. -/
def descend : List FileName → List Component → Option (List FileName)
  | below, [] => some below
  | _, .root :: _ => none
  | below, .here :: cs => descend below cs
  | below, .named name :: cs => descend (name :: below) cs
  | [], .up :: _ => none
  | _ :: below, .up :: cs => descend below cs

/-- A piece behind a name leads up as far as the name led down, at most. -/
theorem exists_descend_named (below : List FileName) (name : FileName) (piece : List UInt8)
    (cs : List Component) : ∃ below',
      descend below (.named name :: ((componentOf? piece).toList ++ cs)) = descend below' cs := by
  unfold componentOf?
  split
  · exact ⟨name :: below, rfl⟩
  · split
    · exact ⟨below, rfl⟩
    · exact ⟨⟨piece⟩ :: name :: below, rfl⟩

/-- Names in which every piece that may be `.` or `..` stands behind the name of an entry. -/
inductive Grounded : List FileName → Prop
  | nil : Grounded []
  | entry {name : FileName} {names : List FileName} (h : IsEntryName name) (rest : Grounded names) :
      Grounded (name :: names)
  | piece {name piece : FileName} {names : List FileName} (h : IsEntryName name) (free : IsPiece piece)
      (rest : Grounded names) : Grounded (name :: piece :: names)

theorem Grounded.isPiece (h : Grounded names) : ∀ name ∈ names, IsPiece name := by
  induction h with
  | nil => simp
  | entry h _ ih => exact List.forall_mem_cons.2 ⟨h.isPiece, ih⟩
  | piece h free _ ih =>
    exact List.forall_mem_cons.2 ⟨h.isPiece, List.forall_mem_cons.2 ⟨free, ih⟩⟩

theorem Grounded.isEntryName (h : Grounded (first :: rest)) : IsEntryName first := by
  cases h with
  | entry h _ => exact h
  | piece h _ _ => exact h

theorem filterMap_cons_entry (h : IsEntryName name) (names : List FileName) :
    (name :: names).filterMap (fun name => componentOf? name.bytes) =
      .named name :: names.filterMap fun name => componentOf? name.bytes :=
  List.filterMap_cons_some h.1

theorem Grounded.descends (h : Grounded names) (below : List FileName) :
    (descend below (names.filterMap fun name => componentOf? name.bytes)).isSome = true := by
  induction h generalizing below with
  | nil => rfl
  | @entry name names h _ ih =>
    rw [filterMap_cons_entry h]
    exact ih (name :: below)
  | @piece name piece names h _ _ ih =>
    have split : (piece :: names).filterMap (fun name => componentOf? name.bytes) =
        (componentOf? piece.bytes).toList ++
          names.filterMap fun name => componentOf? name.bytes := by
      cases hc : componentOf? piece.bytes <;> simp [hc]
    obtain ⟨below', same⟩ := exists_descend_named below name piece.bytes
      (names.filterMap fun name => componentOf? name.bytes)
    rw [filterMap_cons_entry h, split, same]
    exact ih below'

/-! ## Directories that lie within another -/

/-- A path is written as another one with more behind it, and what is behind adds components and
never leads above. -/
structure Extends (base dir more : Path) : Prop where
  written : dir.bytes = base.bytes ++ base.gap ++ more.bytes
  components : dir.components = base.components ++ more.components
  nonempty : more.components ≠ []
  stays : (descend [] more.components).isSome = true

theorem Grounded.extends (h : Grounded (first :: rest)) (base : Path) :
    Extends base (base.joinAll (first :: rest)) (joinAll ⟨[]⟩ (first :: rest)) := by
  have entry := h.isEntryName
  have pieces := (List.forall_mem_cons.1 h.isPiece).2
  have all := filterMap_cons_entry entry rest
  -- what stands behind is itself joined together, behind the empty path
  have tail : (joinAll ⟨[]⟩ (first :: rest)).components =
      (first :: rest).filterMap fun name => componentOf? name.bytes := by
    have empty : (mk []).components = [] := by decide
    rw [components_joinAll entry pieces, empty, all]
    rfl
  refine ⟨?_, ?_, ?_, ?_⟩
  · rw [joinAll_eq entry.isPiece pieces, joinAll_eq entry.isPiece pieces]
    simp [gap]
  · rw [tail, components_joinAll entry pieces, all]
  · rw [tail, all]
    exact List.cons_ne_nil _ _
  · rw [tail]
    exact h.descends []

end Path

namespace Text

theorem isPiece_lastSegment {name : String} (h : hasEmptySegment name = false) :
    Path.IsPiece ↑(lastSegment name) := by
  obtain ⟨last, hlast⟩ : ∃ last, (segments name).getLast? = some last :=
    ⟨_, List.getLast?_eq_some_getLast (segments_ne_nil name)⟩
  have segment : last ∈ segments name := List.mem_of_getLast? hlast
  rw [hasEmptySegment, List.any_eq_false] at h
  have nonempty : last ≠ [] := fun e => h last segment (by simp [e])
  refine Path.isPiece_ofText.2 ⟨?_, ?_⟩
  · simpa [lastSegment, hlast] using nonempty
  · simpa [lastSegment, hlast] using Path.not_mem_of_mem_splitOn segment

end Text

theorem Target.isPiece_arch {text : String} {t : Target} (h : parse text = .ok t) :
    Path.IsPiece ↑t.arch := by
  obtain ⟨t', -, h⟩ := bind_eq_ok.1 h
  split at h
  · next checked =>
    obtain rfl := Except.ok.inj h
    simp only [isArch, Bool.and_eq_true, bne_iff_ne, List.all_eq_true] at checked
    exact Path.isPiece_ofText.2 ⟨checked.1, fun slash => (checked.2 '/' slash).1 rfl⟩
  · cases h

namespace Package

open PackageResolution.Path

variable {m : Manifest} {text : String} {t : Target} {pkg : Package} {dir : Path}

/-- The names that are joined to the package's directory. -/
def includeTails (pkg : Package) (arch : String) (features : FeatureSet) : List (List FileName) :=
  let always : List (List FileName) :=
    [["include"], ["include", pkg.baseName, "arch", arch], ["src"], ["src", "arch", arch]]
  let testing : List (List FileName) := [["src", "test"], ["src", "test", "arch", arch]]
  always ++ if features.isTest then testing else []

theorem includes_eq (pkg : Package) (arch : String) (features : FeatureSet) :
    pkg.publicIncludes arch ++ pkg.privateIncludes arch features =
      (pkg.includeTails arch features).map pkg.base.joinAll := by
  unfold privateIncludes includeTails
  split <;> rfl

theorem grounded_of_mem_includeTails {arch : String} {features : FeatureSet} {tail : List FileName}
    (hname : IsPiece ↑pkg.baseName) (harch : IsPiece ↑arch)
    (h : tail ∈ pkg.includeTails arch features) : tail ≠ [] ∧ Grounded tail := by
  have headers : IsEntryName ↑"include" := by decide
  have src : IsEntryName ↑"src" := by decide
  have test : IsEntryName ↑"test" := by decide
  have archDir : Grounded [↑"arch", ↑arch] := .piece (by decide) harch .nil
  rcases List.mem_append.1 h with h | h
  · simp only [List.mem_cons, List.not_mem_nil, or_false] at h
    rcases h with rfl | rfl | rfl | rfl
    · exact ⟨List.cons_ne_nil _ _, .entry headers .nil⟩
    · exact ⟨List.cons_ne_nil _ _, .piece headers hname archDir⟩
    · exact ⟨List.cons_ne_nil _ _, .entry src .nil⟩
    · exact ⟨List.cons_ne_nil _ _, .entry src archDir⟩
  · split at h
    · simp only [List.mem_cons, List.not_mem_nil, or_false] at h
      rcases h with rfl | rfl
      · exact ⟨List.cons_ne_nil _ _, .entry src (.entry test .nil)⟩
      · exact ⟨List.cons_ne_nil _ _, .entry src (.entry test archDir)⟩
    · cases h

/-- **`includes_contained`**: a package that is called as a manifest may call it, and a target that
has been read, give include directories that are written as the package's directory with further
components behind it, which never lead above that directory. -/
theorem includes_contained (valid : m.validate = .ok ()) (called : pkg.name = m.name)
    (parsed : Target.parse text = .ok t) (features : FeatureSet)
    (h : dir ∈ pkg.publicIncludes t.arch ++ pkg.privateIncludes t.arch features) :
    ∃ more, pkg.base.Extends dir more := by
  have name : IsPiece ↑pkg.baseName := by
    rw [baseName, called]
    exact Text.isPiece_lastSegment (Manifest.validate_eq_ok_iff.1 valid).1.1.segments
  have arch := Target.isPiece_arch parsed
  rw [includes_eq] at h
  obtain ⟨tail, htail, rfl⟩ := List.mem_map.1 h
  obtain ⟨nonempty, grounded⟩ := grounded_of_mem_includeTails name arch htail
  obtain ⟨first, rest, rfl⟩ := List.exists_cons_of_ne_nil nonempty
  exact ⟨_, grounded.extends pkg.base⟩

/-- A package of the root directory, whose name ends with `..` as the architecture does. -/
def climbing : Package := { name := "hw/..", repo := "core", base := "/" }

theorem includes_contained_climbing :
    Manifest.validate { name := "hw/.." } = .ok () ∧
      Target.parse "[target]\nname = \"t\"\narch = \"..\"\n" = .ok ⟨"t", "..", [], []⟩ ∧
      climbing.publicIncludes ".." ++ climbing.privateIncludes ".." (.ofList ["test"]) =
        ["/include", "/include/../arch/..", "/src", "/src/arch/..", "/src/test",
          "/src/test/arch/.."] ∧
      ∃ more, Path.Extends "/" "/include/../arch/.." more := by
  have valid : Manifest.validate { name := "hw/.." } = .ok () := by decide +kernel
  have parsed : Target.parse "[target]\nname = \"t\"\narch = \"..\"\n" =
      .ok ⟨"t", "..", [], []⟩ := by decide +kernel
  have dirs : climbing.publicIncludes ".." ++ climbing.privateIncludes ".." (.ofList ["test"]) =
      ["/include", "/include/../arch/..", "/src", "/src/arch/..", "/src/test",
        "/src/test/arch/.."] := by decide +kernel
  have called : climbing.name = "hw/.." := rfl
  have listed : (↑"/include/../arch/.." : Path) ∈
      climbing.publicIncludes ".." ++ climbing.privateIncludes ".." (.ofList ["test"]) := by
    rw [dirs]
    exact List.mem_cons_of_mem _ List.mem_cons_self
  exact ⟨valid, parsed, dirs, includes_contained valid called parsed _ listed⟩

end Package
end PackageResolution

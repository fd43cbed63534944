import PackageResolution.Commands
import PackageResolution.Proofs.DescriptorRoundTrip
import PackageResolution.Proofs.ProjectResolution
import PackageResolution.Proofs.Trees
/-!
# Printed trees

What is printed for a tree can be read back line by line. The bars of a line say how deep it stands,
its first word names the package, and a mark is its last word. This needs names without blanks, and a
line break is one. Names that are read from texts are such, so where a run has started from texts all
that it registers is printed readably.

Main statements: `readAll_tree` and `rooted_of_resolveAt`.
-/
namespace PackageResolution

/-! ## Words -/

theorem Descriptor.isSolid_append {s t : String} : IsSolid (s ++ t) ↔ IsSolid s ∧ IsSolid t := by
  simp [IsSolid, or_imp, forall_and]

theorem Descriptor.IsSolid.not_mem {s : String} (h : IsSolid s) {c : Char}
    (blank : Text.isBlank c = true) : c ∉ s.toList := fun hc => by
  rw [h c hc] at blank
  cases blank

namespace Version

theorem isBlank_of_isWritten {c : Char} (h : isWritten c = true) : Text.isBlank c = false := by
  have range : 0x2D ≤ c.toNat ∧ c.toNat ≤ 0x7A := by
    unfold isWritten isIdentifierChar Char.isAlphanum Char.isAlpha Char.isUpper Char.isLower
      Char.isDigit at h
    simp [UInt32.le_iff_toNat_le] at h
    rcases h with (((⟨_, _⟩ | ⟨_, _⟩) | ⟨_, _⟩) | rfl) | rfl
    all_goals first | omega | decide
  simp [Text.isBlank]
  omega

open Descriptor in
/-- A version is printed without blanks. -/
theorem isSolid_display (v : Version) : IsSolid v.display := by
  have number (n : Nat) : IsSolid (toString n) := by
    intro c hc
    have digit : c.isDigit = true := by
      rw [show toString n = n.repr from rfl, Nat.repr_eq_ofList_toDigits, String.toList_ofList] at hc
      exact Nat.isDigit_of_mem_toDigits (by decide) (by decide) hc
    exact isBlank_of_isWritten (by simp [isWritten, isIdentifierChar, Char.isAlphanum, digit])
  have mark {c : Char} (h : Text.isBlank c = false) : IsSolid (String.ofList [c]) := by
    simpa [IsSolid] using h
  have identifier (i : Identifier) : IsSolid i.text := fun c hc =>
    isBlank_of_isWritten (List.all_eq_true.1 i.written c hc)
  have nothing : IsSolid "" := by simp [IsSolid]
  have dot : IsSolid "." := mark (c := '.') (by decide)
  have pre : IsSolid (if v.pre = .none then "" else "-" ++ v.pre.text) := by
    split
    · exact nothing
    · exact isSolid_append.2 ⟨mark (c := '-') (by decide), identifier v.pre⟩
  have build : IsSolid (if v.build = .none then "" else "+" ++ v.build.text) := by
    split
    · exact nothing
    · exact isSolid_append.2 ⟨mark (c := '+') (by decide), identifier v.build⟩
  simp only [display, isSolid_append]
  exact ⟨⟨⟨⟨⟨⟨number _, dot⟩, number _⟩, dot⟩, number _⟩, pre⟩, build⟩

end Version

/-! ## Lines -/

theorem not_mem_intercalate {α : Type} {x sep : α} {parts : List (List α)} (other : x ≠ sep)
    (h : ∀ part ∈ parts, x ∉ part) : x ∉ [sep].intercalate parts := by
  induction parts with
  | nil => simp
  | cons part parts ih =>
    obtain ⟨first, rest⟩ := List.forall_mem_cons.1 h
    cases parts with
    | nil => simpa using first
    | cons next parts =>
      rw [List.intercalate_cons_cons]
      simp [first, other, ih rest]

/-- Lines are what stands between line breaks, if they have none themselves. -/
theorem Commands.splitOn_lines {ls : List String} (h : ∀ l ∈ ls, '\n' ∉ l.toList) :
    (lines ls).toList.splitOn '\n' = ls.map String.toList ++ [[]] := by
  induction ls with
  | nil => rfl
  | cons l ls ih =>
    obtain ⟨first, rest⟩ := List.forall_mem_cons.1 h
    have cut : (lines (l :: ls)).toList = l.toList ++ '\n' :: (lines ls).toList := by
      simp [lines]
    rw [cut, List.splitOn_append_cons_self, ih rest, List.splitOn_eq_singleton first]
    rfl

/-- A line of a printed tree, as it is read. -/
structure PrintedLine where
  depth : Nat
  name : String
  marked : Bool
  deriving DecidableEq

namespace PrintedLine

/-- The depth that the bars at the start of a line stand for, and what follows them. -/
def unindent : List Char → Nat × List Char
  | '│' :: ' ' :: ' ' :: ' ' :: cs => ((unindent cs).1 + 1, (unindent cs).2)
  | '├' :: '─' :: '─' :: ' ' :: cs => (1, cs)
  | cs => (0, cs)

/-- Reads a line: behind the bars, the first word is the name, and `(*)` as the last word the mark. -/
def read (line : List Char) : PrintedLine :=
  let words := (unindent line).2.splitOn ' '
  ⟨(unindent line).1, String.ofList (words.headD []), words.getLast? == some "(*)".toList⟩

/-- Reads the lines of a text, each of them ended. -/
def readAll (text : String) : List PrintedLine :=
  ((text.toList.splitOn '\n').dropLast).map read

end PrintedLine

namespace TreeLine

/-- The bars in front of a line. -/
def bars : Nat → List Char
  | 0 => []
  | n + 1 => (List.replicate n "│   ").flatMap String.toList ++ "├── ".toList

/-- The words of a line. -/
def words (l : TreeLine) : List String :=
  l.member.display :: (l.member.package.version.toList.map fun v => "v" ++ v.display) ++
    if l.repeated then ["(*)"] else []

/-- What is read back of a line. -/
def printed (l : TreeLine) : PrintedLine := ⟨l.depth, l.member.display, l.repeated⟩

theorem toList_text (l : TreeLine) :
    l.text.toList = bars l.depth ++ [' '].intercalate (l.words.map String.toList) := by
  obtain ⟨depth, m, repeated⟩ := l
  unfold text words bars
  cases depth <;> cases repeated <;> cases m.package.version <;> simp

/-- Bars end where a name begins. -/
theorem unindent_bars (depth : Nat) (cs : List Char) :
    PrintedLine.unindent (bars depth ++ '@' :: cs) = (depth, '@' :: cs) := by
  cases depth with
  | zero => rfl
  | succ n =>
    induction n with
    | zero => rfl
    | succ n ih =>
      have bar : bars (n + 2) ++ '@' :: cs =
          '│' :: ' ' :: ' ' :: ' ' :: (bars (n + 1) ++ '@' :: cs) := by
        simp [bars, List.replicate_succ]
      rw [bar, PrintedLine.unindent, ih]

variable {l : TreeLine} {tree : List TreeLine}

theorem isSolid_of_mem_words (solid : Descriptor.IsSolid l.member.display) {word : String}
    (h : word ∈ l.words) : Descriptor.IsSolid word := by
  have noBlank {text : String} (none : text.toList.any Text.isBlank = false) :
      Descriptor.IsSolid text := by
    simpa [Descriptor.IsSolid] using none
  simp only [words, List.cons_append, List.mem_cons, List.mem_append, List.mem_map] at h
  rcases h with rfl | ⟨v, -, rfl⟩ | marked
  · exact solid
  · exact Descriptor.isSolid_append.2 ⟨noBlank (by decide), v.isSolid_display⟩
  · split at marked
    · rw [List.mem_singleton.1 marked]
      exact noBlank (by decide)
    · cases marked

theorem splitOn_words (solid : Descriptor.IsSolid l.member.display) :
    ([' '].intercalate (l.words.map String.toList)).splitOn ' ' = l.words.map String.toList := by
  refine List.splitOn_intercalate ' ' (fun cs hcs => ?_) (List.cons_ne_nil _ _)
  obtain ⟨word, hword, rfl⟩ := List.mem_map.1 hcs
  exact (isSolid_of_mem_words solid hword).not_mem (by decide)

theorem exists_display (m : Member) : ∃ cs, m.display.toList = '@' :: cs :=
  ⟨_, Descriptor.toList_display m.package.descriptor⟩

/-- The mark is the last word only where it was put. -/
theorem getLast?_words (l : TreeLine) :
    ((l.words.map String.toList).getLast? == some "(*)".toList) = l.repeated := by
  obtain ⟨cs, display⟩ := exists_display l.member
  unfold words
  cases l.repeated with
  | true =>
    rw [if_pos rfl, List.map_append, List.map_singleton, List.getLast?_concat]
    exact beq_self_eq_true _
  | false => cases l.member.package.version <;> simp [display]

/-- What is printed for a line is read back as the line. -/
theorem read_text (solid : Descriptor.IsSolid l.member.display) :
    PrintedLine.read l.text.toList = l.printed := by
  have front : (l.words.map String.toList).headD [] = l.member.display.toList := rfl
  have behind : PrintedLine.unindent l.text.toList =
      (l.depth, [' '].intercalate (l.words.map String.toList)) := by
    obtain ⟨cs, display⟩ := exists_display l.member
    obtain ⟨rest, hrest⟩ : ∃ rest, [' '].intercalate (l.words.map String.toList) = '@' :: rest := by
      rw [words, List.cons_append, List.map_cons, display]
      cases _ : (((l.member.package.version.toList.map fun v => "v" ++ v.display) ++
        if l.repeated then ["(*)"] else []).map String.toList) <;> simp [List.intercalate_cons_cons]
    rw [toList_text, hrest, unindent_bars]
  simp only [PrintedLine.read, behind, splitOn_words solid, front, getLast?_words,
    String.ofList_toList]
  rfl

theorem newline_not_mem_text (solid : Descriptor.IsSolid l.member.display) :
    '\n' ∉ l.text.toList := by
  have bar : '\n' ∉ bars l.depth := by
    unfold bars
    split <;> simp
  have word : '\n' ∉ [' '].intercalate (l.words.map String.toList) := by
    refine not_mem_intercalate (by decide) fun cs hcs => ?_
    obtain ⟨word, hword, rfl⟩ := List.mem_map.1 hcs
    exact (isSolid_of_mem_words solid hword).not_mem (by decide)
  rw [toList_text, List.mem_append]
  exact not_or.2 ⟨bar, word⟩

/-- **`readAll_tree`**: the text of a tree is read back as its lines. -/
theorem readAll_tree (solid : ∀ l ∈ tree, Descriptor.IsSolid l.member.display) :
    PrintedLine.readAll (Commands.lines (tree.map text)) = tree.map printed := by
  have whole : ∀ line ∈ tree.map text, '\n' ∉ line.toList := by
    intro line hline
    obtain ⟨l, hl, rfl⟩ := List.mem_map.1 hline
    exact newline_not_mem_text (solid l hl)
  rw [PrintedLine.readAll, Commands.splitOn_lines whole, List.dropLast_concat, List.map_map,
    List.map_map]
  exact List.map_congr_left fun l hl => read_text (solid l hl)

end TreeLine

/-! ## Sessions whose trees can be read -/

namespace Session

variable {r : Registry} {s : Session} {id : PackageId} {limit : Option Nat}

/-- The packages of a session can be told apart where they are printed. -/
structure Legible (s : Session) : Prop where
  printable : ∀ m ∈ s.members, m.package.descriptor.IsPrintable
  apart : ∀ m ∈ s.members, ∀ m' ∈ s.members,
    m.package.descriptor = m'.package.descriptor → m.id = m'.id

theorem Legible.id_eq (h : s.Legible) {m m' : Member} (hm : m ∈ s.members) (hm' : m' ∈ s.members)
    (same : m.display = m'.display) : m.id = m'.id :=
  h.apart m hm m' hm' (Descriptor.injOn_display (h.printable m hm) (h.printable m' hm') same)

theorem Legible.isSolid_display (h : s.Legible) {m : Member} (hm : m ∈ s.members) :
    Descriptor.IsSolid m.display :=
  have ⟨repo, solid, _⟩ := h.printable m hm
  Descriptor.isSolid_display.2 ⟨repo.solid, solid⟩

/-- The text of a tree is read back as the lines of the tree. -/
theorem Legible.readAll_tree (h : s.Legible) :
    PrintedLine.readAll (Commands.lines ((tree r s id limit).map TreeLine.text)) =
      (tree r s id limit).map TreeLine.printed :=
  TreeLine.readAll_tree fun _ hl => h.isSolid_display (mem_of_member? ((shows_iff.2 rfl).member_eq hl))

end Session

namespace Resolution

variable {t : FileTree} {c : Context} {root : Path} {opts : Options} {res : Resolution}
  {id : PackageId} {depth : Option Nat}

/-- What a run has come to whose first root is `id`. -/
structure Rooted (res : Resolution) (id : PackageId) : Prop where
  consistent : Session.Consistent res.project.registry res.session
  made : res.session.Made
  registered : res.session.isRegistered id = true
  /-- While there are identities for all packages, those of the session can be told apart. -/
  legible : res.project.packages.length ≤ 2 ^ 32 → res.session.Legible

theorem printTree_eq (first : res.roots.head? = some id) : Commands.printTree depth res =
    Commands.lines ((res.session.tree res.project.registry id depth).map TreeLine.text) := by
  obtain ⟨rest, hrest⟩ := List.head?_eq_some_iff.1 first
  rw [Commands.printTree, hrest]

section

variable {p : Project} (hp : p.InStep) (few : p.packages.length ≤ 2 ^ 32)

include hp few

theorem descriptor_of_resolve {d : Descriptor} {pkg : Package} (found : p.registry.resolve d = some id)
    (hpkg : p.registry.package? id = some pkg) : pkg.descriptor = d := by
  obtain ⟨i, own, hi, same, rfl⟩ := hp.resolve_eq_some_iff.1 found
  have there := (Project.package?_eq_some_iff few).2 ⟨i, hi, rfl⟩
  obtain rfl := Option.some.inj (there.symm.trans hpkg)
  exact same

/-- Packages whose names can be read back have dependencies whose names can be. -/
theorem closedUnder_isPrintable : p.registry.ClosedUnder Set.univ
    {id | ∀ pkg, p.registry.package? id = some pkg → pkg.descriptor.IsPrintable} where
  features _ _ _ _ x _ := Set.mem_univ x
  deps id hid pkg hpkg entry _ d dep means dpkg hdpkg := by
    rw [descriptor_of_resolve hp few means.2 hdpkg]
    exact Descriptor.isPrintable_of_parse (hid pkg hpkg).repo means.1

theorem apart_of_consistent {s : Session} (hs : Session.Consistent p.registry s) :
    ∀ m ∈ s.members, ∀ m' ∈ s.members,
      m.package.descriptor = m'.package.descriptor → m.id = m'.id := by
  intro m hm m' hm' same
  obtain ⟨i, hi, hid⟩ := (Project.package?_eq_some_iff few).1 (hs.package m hm)
  obtain ⟨j, hj, hid'⟩ := (Project.package?_eq_some_iff few).1 (hs.package m' hm')
  rw [hid, hid', hp.place_unique hi hj same]

end

/-- **`rooted_of_resolveAt`**: a run registers what its texts name and what that leads to, so each name
in its session can be read where it is printed. -/
theorem rooted_of_resolveAt (h : (resolveAt t c root opts).1 = .ok res)
    (first : res.roots.head? = some id) : res.Rooted id := by
  obtain ⟨target, ran⟩ := ran_of_resolveAt h
  obtain ⟨loads, -⟩ := loaded_of_prepare ran.prepared
  obtain ⟨f, found, discovered⟩ := Project.discovered_of_load loads
  have inStep := discovered.inStep
  have driven := driven_of_drive inStep.registry_closed (begin_supplied _ _ _ _) rfl ran.driven
  have made := driven.finished.made
  obtain ⟨m, hm⟩ := made id (driven.registered id (List.mem_of_head? first))
  refine ⟨driven.consistent, made, by simp [Session.isRegistered, hm], fun few => ⟨?_, ?_⟩⟩
  · have printable := driven.within _ (closedUnder_isPrintable inStep few)
      fun entry _ d id means pkg hpkg => by
        rw [descriptor_of_resolve inStep few means.2 hpkg]
        exact Descriptor.isPrintable_of_parse Descriptor.isRepo_localRepo means.1
    intro m hm
    exact printable m.id (driven.consistent.registered m hm) _ (driven.consistent.package m hm)
  · exact apart_of_consistent inStep few driven.consistent

/-- A project of two packages that depend on each other, and one of them also on itself. -/
def knotted : FileTree where
  top := .dir [("p", .dir [
    ("project.toml", .file ("[project]\nname = \"p\"\n\n[repositories]\n" ++
      "v = \"r\"\nw = \"s\"\n").toUTF8),
    ("r", .dir [("a", .dir [("pkg.toml", .file ("[package]\nname = \"a\"\n\n" ++
      "[settings]\ndeps = [\"@w/b\", \"a\"]\n").toUTF8)])]),
    ("s", .dir [("b", .dir [("pkg.toml", .file ("[package]\nname = \"b\"\n" ++
      "version = \"1.2.0-rc.1\"\n\n[settings]\ndeps = [\"@v/a\"]\n").toUTF8)])]),
    ("targets", .dir [
      ("t", .dir [("target.toml", .file "[target]\nname = \"t\"\narch = \"arm\"\n".toUTF8)])])])]
  current := []

/-- A run in that project for the first of the packages. -/
def runKnotted : Except ProjectError Resolution :=
  (resolveAt knotted ⟨"p", "home", false, false⟩ "p" ⟨some "t", [], ["@v/a"], none⟩).1

theorem exists_runKnotted : ∃ res, runKnotted = .ok res ∧ res.roots.head? = some (.ofIndex 0) ∧
    res.project.packages.length = 2 := by
  have runs : runKnotted.toOption.any (fun res =>
      res.roots.head? == some (.ofIndex 0) && res.project.packages.length == 2) = true := by
    decide +kernel
  obtain ⟨res, run, facts⟩ := exists_eq_ok_of_any runs
  simp only [Bool.and_eq_true, beq_iff_eq] at facts
  exact ⟨res, run, facts⟩

end Resolution

end PackageResolution

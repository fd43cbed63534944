import PackageResolution.NameMap
import PackageResolution.Proofs.Walks
import Mathlib.Data.List.Basic
import Mathlib.Tactic.Choose
/-!
# The order of walks

A walk takes the entries of a directory by their names. So what it meets stands in ascending order of
the ways, where a way is the list of the names on it and two ways are compared at the first name that
they differ in: a directory comes before what is below it, and all of that before the next entry. The
order and the kept entries leave nothing open about what a walk meets.

Main statements: `exists_toured`, `meets_iff`.
-/
namespace PackageResolution

instance : Std.LawfulOrderLT Path where
  lt_iff p q := Std.LawfulOrderLT.lt_iff p.bytes q.bytes

instance : Std.IsLinearOrder Path where
  le_refl p := List.le_refl p.bytes
  le_trans _ _ _ := List.le_trans
  le_antisymm _ _ h h' := congrArg Path.mk (List.le_antisymm h h')
  le_total p q := List.le_total p.bytes q.bytes

namespace Node

variable {keep : Path → FileName → Bool} {path path' : Path} {node node' : Node}
  {names : List FileName} {name : FileName} {es : List (FileName × Node)} {e : FileName × Node}

/-! ## Directories with distinct names -/

mutual

/-- Whether no directory at or below a node has two entries of one name. -/
def isDistinct : Node → Bool
  | dir es => decide (es.map (·.1)).Nodup && areDistinct es
  | _ => true

def areDistinct : List (FileName × Node) → Bool
  | [] => true
  | (_, node) :: es => node.isDistinct && areDistinct es

end

theorem isDistinct_dir : (dir es).isDistinct = true ↔
    (es.map (·.1)).Nodup ∧ ∀ e ∈ es, e.2.isDistinct = true := by
  have each : areDistinct es = true ↔ ∀ e ∈ es, e.2.isDistinct = true := by
    induction es with
    | nil => simp [areDistinct]
    | cons e es ih =>
      rw [areDistinct, Bool.and_eq_true, ih, List.forall_mem_cons]
  rw [isDistinct, Bool.and_eq_true, decide_eq_true_eq, each]

theorem isDistinct_of_node {t : FileTree} (ht : t.top.isDistinct = true) (h : t.node path = .ok node) :
    node.isDistinct = true :=
  FileTree.inherited_of_node (P := fun node => node.isDistinct = true)
    (fun hdir hmem => (isDistinct_dir.1 hdir).2 _ hmem) ht h

/-! ## Following names -/

/-- The node that names lead to. -/
def find? : Node → List FileName → Option Node
  | n, [] => some n
  | dir es, name :: names => (es.lookup name).bind (·.find? names)
  | _, _ :: _ => none

theorem find?_nil (n : Node) : n.find? [] = some n := by
  cases n <;> rfl

/-- Where a directory's names are distinct, ways of kept entries are what names lead along. -/
theorem meets_iff (hd : node.isDistinct = true) : Meets keep path node names path' node' ↔
    path' = names.foldl Path.join path ∧ node.find? names = some node' ∧
      ∀ before name after, names = before ++ name :: after →
        keep ((before ++ [name]).foldl Path.join path) name = true := by
  induction names generalizing path node with
  | nil =>
    constructor
    · intro h
      cases h
      exact ⟨rfl, find?_nil _, by simp⟩
    · rintro ⟨rfl, found, -⟩
      rw [find?_nil] at found
      obtain rfl := Option.some.inj found
      exact .here _ _
  | cons name names ih =>
    constructor
    · intro h
      cases h with
      | @down _ _ _ _ child _ es entry kept way =>
        obtain ⟨apart, each⟩ := isDistinct_dir.1 hd
        obtain ⟨hpath, found, rest⟩ := (ih (each _ entry)).1 way
        refine ⟨hpath, ?_, ?_⟩
        · rw [find?, NameMap.lookup_of_mem apart entry]
          exact found
        · intro before name' after split
          rcases List.cons_eq_append_iff.1 split with ⟨rfl, first⟩ | ⟨before', rfl, later⟩
          · obtain ⟨rfl, -⟩ := List.cons.inj first
            exact kept
          · exact rest before' name' after later
    · rintro ⟨rfl, found, kept⟩
      cases node with
      | file _ | other => cases found
      | dir es =>
        obtain ⟨apart, each⟩ := isDistinct_dir.1 hd
        obtain ⟨child, hchild, found⟩ := Option.bind_eq_some_iff.1 found
        have entry : (name, child) ∈ es := by
          obtain ⟨before, after, rfl, -⟩ := List.lookup_eq_some_iff.1 hchild
          simp
        refine .down entry (kept [] name names rfl) ((ih (each _ entry)).2 ⟨rfl, found, ?_⟩)
        intro before name' after split
        exact kept (name :: before) name' after (by rw [split]; rfl)

/-- The names that lead to something are the last components of the paths on the way. -/
theorem components_of_find? {names' : List FileName} (hd : node.isDistinct = true)
    (hn : node.isWellNamed = true) (found : node.find? (names ++ names') = some node') (path : Path) :
    (names.foldl Path.join path).components = path.components ++ names.map .named := by
  have way : Meets (fun _ _ => true) path node (names ++ names') _ node' :=
    (meets_iff hd).2 ⟨rfl, found, fun _ _ _ _ => rfl⟩
  obtain ⟨path', above, first, -⟩ := way.split
  rw [← first.path_eq]
  exact first.components hn

/-! ## Entries in order -/

/-- The entries of a directory that a walk goes on to, in its order. -/
def visited (keep : Path → FileName → Bool) (path : Path) (es : List (FileName × Node)) :
    List (FileName × Node) :=
  (es.filter fun e => keep (path.join e.1) e.1).mergeSort fun a b => a.1 ≤ b.1

theorem mem_visited : e ∈ visited keep path es ↔ e ∈ es ∧ keep (path.join e.1) e.1 = true := by
  rw [visited, List.mem_mergeSort, List.mem_filter]

theorem walkEach_eq : walkEach keep path es =
    (es.filter fun e => keep (path.join e.1) e.1).map
      fun e => (e.1, e.2.walk keep (path.join e.1) e.1) := by
  induction es with
  | nil => rfl
  | cons e es ih =>
    rw [walkEach, List.filter_cons, ih]
    split <;> rfl

theorem walk_dir : (dir es).walk keep path name = (dir es).found path name ::
    (visited keep path es).flatMap fun e => e.2.walk keep (path.join e.1) e.1 := by
  have sorted := List.map_mergeSort (r := fun a b : FileName × Node => decide (a.1 ≤ b.1))
    (s := fun a b : FileName × List Found => decide (a.1 ≤ b.1))
    (f := fun e => (e.1, e.2.walk keep (path.join e.1) e.1))
    (l := es.filter fun e => keep (path.join e.1) e.1) fun _ _ _ _ => rfl
  rw [walk, walkEach_eq, ← sorted, List.flatMap_map, visited]

/-- Where names are distinct, the order of the entries is strict. -/
theorem pairwise_visited (apart : (es.map (·.1)).Nodup) :
    (visited keep path es).Pairwise (·.1 < ·.1) :=
  pairwise_lt_mergeSort (apart.sublist (List.filter_sublist.map _))

/-! ## Walks in order -/

/-- A walk meets the nodes at some ways, in ascending order of the ways. -/
structure Toured (keep : Path → FileName → Bool) (path : Path) (name : FileName) (node : Node)
    (met : List (List FileName × Node)) : Prop where
  found : node.walk keep path name =
    met.map fun (way, n) => n.found (way.foldl Path.join path) (way.getLast?.getD name)
  ascending : (met.map (·.1)).Pairwise (· < ·)
  mem_iff : ∀ way n, (way, n) ∈ met ↔ Meets keep path node way (way.foldl Path.join path) n

/-- Only itself is met at what is no directory. -/
theorem toured_leaf (keep : Path → FileName → Bool) (path : Path) (name : FileName)
    (leaf : node.isDir = false) : Toured keep path name node [([], node)] where
  found := by
    cases node with
    | dir es => cases leaf
    | file _ | other => rfl
  ascending := List.pairwise_singleton _ _
  mem_iff way n := by
    rw [List.mem_singleton]
    constructor
    · intro e
      cases e
      exact .here _ _
    · intro h
      cases h with
      | here => rfl
      | down _ _ _ => cases leaf

/-- What the walks of the entries meet, one after the other, the walk of their directory meets. -/
theorem toured_dir (apart : (es.map (·.1)).Nodup) {met : FileName × Node → List (List FileName × Node)}
    (each : ∀ e ∈ visited keep path es, Toured keep (path.join e.1) e.1 e.2 (met e)) :
    Toured keep path name (dir es) (([], dir es) ::
      (visited keep path es).flatMap fun e => (met e).map fun (way, n) => (e.1 :: way, n)) where
  found := by
    rw [walk_dir, List.map_cons, List.map_flatMap]
    refine congrArg _ (List.flatMap_congr fun e he => ?_)
    rw [(each e he).found, List.map_map]
    refine List.map_congr_left fun m _ => ?_
    obtain ⟨way, n⟩ := m
    cases way <;> rfl
  ascending := by
    rw [List.map_cons, List.pairwise_cons]
    refine ⟨?_, ?_⟩
    · intro way hway
      obtain ⟨m, hm, rfl⟩ := List.mem_map.1 hway
      obtain ⟨e, -, hm⟩ := List.mem_flatMap.1 hm
      obtain ⟨m', -, rfl⟩ := List.mem_map.1 hm
      exact List.nil_lt_cons _ _
    · rw [List.pairwise_map, List.pairwise_flatMap]
      constructor
      · intro e he
        rw [List.pairwise_map]
        refine (List.pairwise_map.1 (each e he).ascending).imp fun {a b} lt => ?_
        exact List.cons_lt_cons_iff.2 (.inr ⟨rfl, lt⟩)
      · refine (pairwise_visited apart).imp fun {a b} lt x hx y hy => ?_
        obtain ⟨m, -, rfl⟩ := List.mem_map.1 hx
        obtain ⟨m', -, rfl⟩ := List.mem_map.1 hy
        exact List.cons_lt_cons_iff.2 (.inl lt)
  mem_iff way n := by
    simp only [List.mem_cons, List.mem_flatMap, List.mem_map, Prod.mk.injEq, Prod.exists]
    constructor
    · rintro (⟨rfl, rfl⟩ | ⟨name', node, he, way', n', hm, rfl, rfl⟩)
      · exact .here _ _
      · obtain ⟨entry, kept⟩ := mem_visited.1 he
        exact .down entry kept (((each _ he).mem_iff _ _).1 hm)
    · intro h
      cases h with
      | here => exact .inl ⟨rfl, rfl⟩
      | @down _ _ name' way' node _ _ entry kept rest =>
        have he := mem_visited.2 ⟨entry, kept⟩
        exact .inr ⟨name', node, he, way', n, ((each _ he).mem_iff _ _).2 rest, rfl, rfl⟩

/-- **`exists_toured`**: a walk meets things in ascending order of the ways to them. -/
theorem exists_toured (keep : Path → FileName → Bool) (path : Path) (name : FileName) (node : Node)
    (hd : node.isDistinct = true) : ∃ met, Toured keep path name node met := by
  match node with
  | file bytes => exact ⟨_, toured_leaf keep path name rfl⟩
  | other => exact ⟨_, toured_leaf keep path name rfl⟩
  | dir es =>
    obtain ⟨apart, below⟩ := isDistinct_dir.1 hd
    have each : ∀ e ∈ visited keep path es, ∃ met, Toured keep (path.join e.1) e.1 e.2 met :=
      fun e he => exists_toured keep (path.join e.1) e.1 e.2 (below e (mem_visited.1 he).1)
    choose! met toured using each
    exact ⟨_, toured_dir apart toured⟩
termination_by sizeOf node
decreasing_by
  have smaller := List.sizeOf_lt_of_mem (mem_visited.1 he).1
  obtain ⟨name', child⟩ := e
  simp at smaller ⊢
  omega

end Node
end PackageResolution

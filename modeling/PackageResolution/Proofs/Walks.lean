import PackageResolution.FileTree.Walk
import PackageResolution.Proofs.Components
import PackageResolution.Proofs.Computations
/-!
# What walks meet

A walk meets what a way of kept entries leads to. The path that it meets something at has the names on
the way as its last components. A path is followed by its components alone, so where the components of
one path go on from those of another, so do the nodes.

Main statements: `mem_walk`, `Meets.components`, `meets_of_node`.
-/
namespace PackageResolution

namespace Node

mutual

/-- Whether everything below a node has a name that a directory's entry can have. -/
def isWellNamed : Node → Bool
  | dir es => areWellNamed es
  | _ => true

def areWellNamed : List (FileName × Node) → Bool
  | [] => true
  | (name, node) :: es => decide (Path.IsEntryName name) && node.isWellNamed && areWellNamed es

end

variable {keep : Path → FileName → Bool} {path path' path'' : Path} {node node' node'' : Node}
  {names names' : List FileName} {name : FileName} {es : List (FileName × Node)} {f : Found}

theorem isWellNamed_dir : (dir es).isWellNamed = true ↔
    ∀ name node, (name, node) ∈ es → Path.IsEntryName name ∧ node.isWellNamed = true := by
  rw [isWellNamed]
  induction es with
  | nil => simp [areWellNamed]
  | cons e es ih =>
    obtain ⟨name, node⟩ := e
    rw [areWellNamed, Bool.and_eq_true, Bool.and_eq_true, decide_eq_true_eq, ih]
    constructor
    · rintro ⟨first, rest⟩ name' node' h
      rcases List.mem_cons.1 h with h | h
      · cases h
        exact first
      · exact rest name' node' h
    · intro h
      exact ⟨h name node List.mem_cons_self, fun n x hx => h n x (List.mem_cons_of_mem _ hx)⟩

/-- A way of kept entries leads from a node at one path to a node at another. -/
inductive Meets (keep : Path → FileName → Bool) : Path → Node → List FileName → Path → Node → Prop
  | here (path : Path) (node : Node) : Meets keep path node [] path node
  | down {path path' : Path} {name : FileName} {names : List FileName} {node node' : Node}
      {es : List (FileName × Node)} (entry : (name, node) ∈ es)
      (kept : keep (path.join name) name = true)
      (way : Meets keep (path.join name) node names path' node') :
      Meets keep path (dir es) (name :: names) path' node'

theorem mem_walkEach {found : List Found} : (name, found) ∈ walkEach keep path es ↔
    ∃ node, (name, node) ∈ es ∧ keep (path.join name) name = true ∧
      found = walk keep (path.join name) name node := by
  induction es with
  | nil => simp [walkEach]
  | cons e es ih =>
    obtain ⟨name', node'⟩ := e
    rw [walkEach]
    split
    · next kept =>
      simp only [List.mem_cons, Prod.mk.injEq, ih]
      constructor
      · rintro (⟨rfl, rfl⟩ | ⟨node, hmem, rest⟩)
        · exact ⟨node', .inl ⟨rfl, rfl⟩, kept, rfl⟩
        · exact ⟨node, .inr hmem, rest⟩
      · rintro ⟨node, ⟨rfl, rfl⟩ | hmem, rest⟩
        · exact .inl ⟨rfl, rest.2⟩
        · exact .inr ⟨node, hmem, rest⟩
    · next passed =>
      simp only [List.mem_cons, Prod.mk.injEq, ih]
      constructor
      · rintro ⟨node, hmem, rest⟩
        exact ⟨node, .inr hmem, rest⟩
      · rintro ⟨node, ⟨rfl, rfl⟩ | hmem, rest⟩
        · exact absurd rest.1 passed
        · exact ⟨node, hmem, rest⟩

/-- What a walk meets in a directory is the directory and what it meets at the kept entries. -/
theorem mem_walk_dir : f ∈ walk keep path name (dir es) ↔ f = (dir es).found path name ∨
    ∃ name' node, (name', node) ∈ es ∧ keep (path.join name') name' = true ∧
      f ∈ walk keep (path.join name') name' node := by
  rw [walk]
  simp only [List.mem_cons, List.mem_flatMap, List.mem_mergeSort, Prod.exists, mem_walkEach]
  constructor
  · rintro (rfl | ⟨name', _, ⟨node, hmem, kept, rfl⟩, hf⟩)
    · exact .inl rfl
    · exact .inr ⟨name', node, hmem, kept, hf⟩
  · rintro (rfl | ⟨name', node, hmem, kept, hf⟩)
    · exact .inl rfl
    · exact .inr ⟨name', _, ⟨node, hmem, kept, rfl⟩, hf⟩

theorem Meets.mem_walk (h : Meets keep path node names path' node') (name : FileName) :
    node'.found path' (names.getLast?.getD name) ∈ walk keep path name node := by
  induction h generalizing name with
  | here path node => cases node <;> simp [walk]
  | @down path path' name' names node node' es entry kept way ih =>
    refine mem_walk_dir.2 (.inr ⟨name', node, entry, kept, ?_⟩)
    cases names with
    | nil => exact ih name'
    | cons next names => exact ih name'

theorem exists_meets_of_mem_walk (path : Path) (name : FileName) (node : Node)
    (h : f ∈ walk keep path name node) : ∃ names path' node',
      Meets keep path node names path' node' ∧
        f = node'.found path' (names.getLast?.getD name) := by
  match node with
  | file bytes =>
    obtain rfl : f = (file bytes).found path name := by simpa [walk] using h
    exact ⟨[], path, file bytes, .here _ _, rfl⟩
  | other =>
    obtain rfl : f = other.found path name := by simpa [walk] using h
    exact ⟨[], path, other, .here _ _, rfl⟩
  | dir es =>
    rcases mem_walk_dir.1 h with rfl | ⟨name', node, entry, kept, hf⟩
    · exact ⟨[], path, dir es, .here _ _, rfl⟩
    · obtain ⟨names, path', node', way, rfl⟩ := exists_meets_of_mem_walk _ _ node hf
      refine ⟨name' :: names, path', node', .down entry kept way, ?_⟩
      cases names <;> rfl
termination_by sizeOf node
decreasing_by
  have := List.sizeOf_lt_of_mem entry
  simp at this ⊢
  omega

/-- **`mem_walk`**: a walk meets what a way of kept entries leads to. -/
theorem mem_walk : f ∈ walk keep path name node ↔ ∃ names path' node',
    Meets keep path node names path' node' ∧ f = node'.found path' (names.getLast?.getD name) :=
  ⟨exists_meets_of_mem_walk path name node,
    fun ⟨_, _, _, way, e⟩ => e ▸ way.mem_walk name⟩

/-! ## Ways -/

theorem Meets.append (h : Meets keep path node names path' node')
    (h' : Meets keep path' node' names' path'' node'') :
    Meets keep path node (names ++ names') path'' node'' := by
  induction h with
  | here => exact h'
  | down entry kept _ ih => exact .down entry kept (ih h')

theorem Meets.split (h : Meets keep path node (names ++ names') path'' node'') :
    ∃ path' node', Meets keep path node names path' node' ∧
      Meets keep path' node' names' path'' node'' := by
  induction names generalizing path node with
  | nil => exact ⟨path, node, .here _ _, h⟩
  | cons name names ih =>
    cases h with
    | down entry kept way =>
      obtain ⟨path', node', first, second⟩ := ih way
      exact ⟨path', node', .down entry kept first, second⟩

/-- The same names lead on from another path, as far as they are kept there. -/
theorem Meets.elsewhere {keep' : Path → FileName → Bool} (h : Meets keep path node names path' node')
    (kept : ∀ name ∈ names, ∀ path, keep' path name = true) (start : Path) :
    ∃ finish, Meets keep' start node names finish node' := by
  induction h generalizing start with
  | here path node => exact ⟨start, .here _ _⟩
  | @down path path' name names node node' es entry _ _ ih =>
    obtain ⟨finish, way⟩ := ih (fun n hn => kept n (List.mem_cons_of_mem _ hn)) (start.join name)
    exact ⟨finish, .down entry (kept name List.mem_cons_self _) way⟩

theorem Meets.kept (h : Meets keep path node names path' node') :
    ∀ name ∈ names, ∃ path, keep path name = true := by
  induction h with
  | here => simp
  | down entry kept _ ih =>
    intro name hname
    rcases List.mem_cons.1 hname with rfl | hname
    · exact ⟨_, kept⟩
    · exact ih name hname

theorem Meets.isWellNamed (h : Meets keep path node names path' node')
    (hn : node.isWellNamed = true) : node'.isWellNamed = true := by
  induction h with
  | here => exact hn
  | down entry _ _ ih => exact ih (isWellNamed_dir.1 hn _ _ entry).2

/-- **`Meets.components`**: the names on the way are the last components of the path. -/
theorem Meets.components (h : Meets keep path node names path' node')
    (hn : node.isWellNamed = true) : path'.components = path.components ++ names.map .named := by
  induction h with
  | here => simp
  | down entry _ _ ih =>
    obtain ⟨hname, hnode⟩ := isWellNamed_dir.1 hn _ _ entry
    rw [ih hnode, Path.components_join hname]
    simp

theorem Meets.path_eq (h : Meets keep path node names path' node') :
    path' = names.foldl Path.join path := by
  induction h with
  | here => rfl
  | down _ _ _ ih => exact ih

/-- What a way passes by is kept at the path that its names make up. -/
theorem Meets.kept_at (h : Meets keep path node (names ++ name :: names') path' node')
    (hn : node.isWellNamed = true) : ∃ q, keep q name = true ∧
      q.components = path.components ++ (names ++ [name]).map .named := by
  obtain ⟨above, last, way, rest⟩ := h.split
  cases rest with
  | down entry kept _ =>
    have hname := (isWellNamed_dir.1 (way.isWellNamed hn) _ _ entry).1
    refine ⟨above.join name, kept, ?_⟩
    rw [Path.components_join hname, way.components hn, List.map_append, List.append_assoc]
    rfl

/-- The parent directory of what is met is made of the names on the way but the last. -/
theorem Meets.parent? (h : Meets keep path node (names ++ [name]) path' node')
    (hn : node.isWellNamed = true) :
    ∃ dir, path'.parent? = some dir ∧ dir.components = path.components ++ names.map .named := by
  obtain ⟨above, last, way, step⟩ := h.split
  cases step with
  | down entry _ rest =>
    cases rest
    obtain ⟨dir, hdir, same⟩ := Path.components_parent?_join
      (isWellNamed_dir.1 (way.isWellNamed hn) _ _ entry).1
    exact ⟨dir, hdir, same.trans (way.components hn)⟩

end Node

namespace FileTree

open Node PackageResolution.Path

variable {t : FileTree} {p q : Path} {node node' : Node} {up up' s s' : List Node}
  {piece : List UInt8} {ps : List (List UInt8)} {names : List FileName}

/-! ## Following paths -/

/-- The nodes passed up to where a path with some components is followed from. -/
def start (t : FileTree) (cs : List Component) : Except AccessError (List Node) :=
  if .root ∈ cs then .ok [t.top] else (t.current.map Path.bytes).foldlM step [t.top]

theorem step_idle (idle : isIdle piece = true) (h : step s piece = .ok s') : s' = s := by
  cases s with
  | nil => cases h
  | cons node up =>
    cases node with
    | file _ | other => cases h
    | dir es =>
      simp only [step, idle, if_true] at h
      exact (Except.ok.inj h).symm

theorem foldlM_filter_isIdle (h : ps.foldlM step s = .ok s') :
    (ps.filter (!isIdle ·)).foldlM step s = .ok s' := by
  induction ps generalizing s with
  | nil => exact h
  | cons piece ps ih =>
    rw [List.foldlM_cons, bind_eq_ok] at h
    obtain ⟨next, hstep, hrest⟩ := h
    cases idle : isIdle piece with
    | true =>
      obtain rfl := step_idle idle hstep
      simpa [idle] using ih hrest
    | false =>
      rw [List.filter_cons_of_pos (by simp [idle]), List.foldlM_cons, bind_eq_ok]
      exact ⟨next, hstep, ih hrest⟩

theorem exists_of_node (h : t.node p = .ok node) : ∃ s up,
    (if p.isAbsolute then .ok [t.top]
      else (t.current.map Path.bytes).foldlM step [t.top]) = .ok s ∧
      p.pieces.foldlM step s = .ok (node :: up) := by
  simp only [FileTree.node, throw, throwThe, MonadExceptOf.throw] at h
  split at h
  · exact absurd h nofun
  split at h
  · exact absurd h nofun
  split at h
  · exact absurd h nofun
  -- the ways from the root and from the current directory end alike
  split at h
  all_goals
    obtain ⟨s, hs, h⟩ := bind_eq_ok.1 h
    obtain ⟨passed, hpassed, h⟩ := bind_eq_ok.1 h
    cases passed with
    | nil => cases h
    | cons node' up =>
      cases h
      exact ⟨s, up, by simp_all [pure, Except.pure], hpassed⟩

/-- A path is followed by its components alone. -/
theorem node_eq_ok (h : t.node p = .ok node) : ∃ s up, t.start p.components = .ok s ∧
    (p.components.filterMap Component.piece?).foldlM step s = .ok (node :: up) := by
  obtain ⟨s, up, begun, steps⟩ := exists_of_node h
  rw [filterMap_piece?_components]
  refine ⟨s, up, ?_, foldlM_filter_isIdle steps⟩
  simp only [start, root_mem_components_iff]
  exact begun

theorem mem_of_entry {es : List (FileName × Node)} {name : FileName} (h : entry es name = .ok node) :
    (name, node) ∈ es := by
  unfold entry at h
  split at h
  · cases h
  · split at h
    · next found =>
      obtain rfl := Except.ok.inj h
      obtain ⟨before, after, rfl, -⟩ := List.lookup_eq_some_iff.1 found
      simp
    · cases h

/-- A step by a name goes down to the entry of that name. -/
theorem step_named {name : FileName} (named : componentOf? name.bytes = some (.named name))
    (h : step (node :: up) name.bytes = .ok s) :
    ∃ es child, node = .dir es ∧ (name, child) ∈ es ∧ s = child :: node :: up := by
  unfold componentOf? at named
  split at named
  · cases named
  · next busy =>
    split at named
    · cases named
    · next notUp =>
      cases node with
      | file _ | other => cases h
      | dir es =>
        simp only [step, busy, notUp, if_false] at h
        cases hentry : entry es name with
        | error e => simp [hentry, Except.map] at h
        | ok child =>
          rw [hentry] at h
          exact ⟨es, child, rfl, mem_of_entry hentry, (Except.ok.inj h).symm⟩

/-- A step stays among the nodes passed, or goes down to an entry of the last. -/
theorem step_cases (h : step s piece = .ok s') : s' ⊆ s ∨
    ∃ es up name child, s = .dir es :: up ∧ (name, child) ∈ es ∧ s' = child :: s := by
  match s with
  | [] => cases h
  | .file _ :: _ | .other :: _ => cases h
  | .dir es :: up =>
    simp only [step] at h
    split at h
    · obtain rfl := Except.ok.inj h
      exact .inl (List.Subset.refl _)
    · split at h
      · obtain rfl := Except.ok.inj h
        split
        · next top =>
          obtain rfl : up = [] := by simpa using top
          exact .inl (List.Subset.refl _)
        · exact .inl (List.subset_cons_self _ _)
      · cases hentry : entry es ⟨piece⟩ with
        | error e => simp [hentry, Except.map] at h
        | ok child =>
          rw [hentry] at h
          exact .inr ⟨es, up, _, child, rfl, mem_of_entry hentry, (Except.ok.inj h).symm⟩

/-- Steps by names go down through entries. -/
theorem meets_of_steps {keep : Path → FileName → Bool}
    (h : (names.map Path.bytes).foldlM step (node :: up) = .ok (node' :: up'))
    (named : ∀ name ∈ names, componentOf? name.bytes = some (.named name))
    (kept : ∀ name ∈ names, ∀ path, keep path name = true) (path : Path) :
    ∃ path', Meets keep path node names path' node' := by
  induction names generalizing node up path with
  | nil =>
    cases h
    exact ⟨path, .here _ _⟩
  | cons name names ih =>
    rw [List.map_cons, List.foldlM_cons, bind_eq_ok] at h
    obtain ⟨next, hstep, hrest⟩ := h
    obtain ⟨es, child, rfl, hmem, rfl⟩ := step_named (named name List.mem_cons_self) hstep
    obtain ⟨path', way⟩ := ih hrest (fun n hn => named n (List.mem_cons_of_mem _ hn))
      (fun n hn => kept n (List.mem_cons_of_mem _ hn)) (path.join name)
    exact ⟨path', .down hmem (kept name List.mem_cons_self _) way⟩

/-- **`meets_of_node`**: where the components of a path go on from those of another, a way of entries
leads on from the node. -/
theorem meets_of_node {keep : Path → FileName → Bool} (hp : t.node p = .ok node)
    (hq : t.node q = .ok node') (hc : q.components = p.components ++ names.map .named)
    (kept : ∀ name ∈ names, ∀ path, keep path name = true) (path : Path) :
    ∃ path', Meets keep path node names path' node' := by
  obtain ⟨s, up, hs, steps⟩ := node_eq_ok hp
  obtain ⟨s', up', hs', steps'⟩ := node_eq_ok hq
  have started : t.start q.components = t.start p.components := by
    simp [start, hc]
  obtain rfl : s' = s := Except.ok.inj (by rw [← hs', started, hs])
  have pieces : (names.map Component.named).filterMap Component.piece? = names.map Path.bytes := by
    simp [List.filterMap_map, Function.comp_def, Component.piece?]
  rw [hc, List.filterMap_append, pieces, List.foldlM_append, steps] at steps'
  refine meets_of_steps steps' (fun name hname => ?_) kept path
  exact componentOf?_of_mem_components (p := q) (by simp [hc, hname])

/-- What every entry has of its directory, the nodes that steps lead to have of those they start
from. -/
theorem inherited_of_foldlM {P : Node → Prop}
    (inherited : ∀ {es name child}, P (.dir es) → (name, child) ∈ es → P child)
    (h : ps.foldlM step s = .ok s') (hs : ∀ node ∈ s, P node) : ∀ node ∈ s', P node := by
  induction ps generalizing s with
  | nil =>
    cases h
    exact hs
  | cons piece ps ih =>
    rw [List.foldlM_cons, bind_eq_ok] at h
    obtain ⟨next, hstep, hrest⟩ := h
    refine ih hrest ?_
    rcases step_cases hstep with old | ⟨es, up, name, child, rfl, hmem, rfl⟩
    · exact fun node hnode => hs node (old hnode)
    · intro node hnode
      rcases List.mem_cons.1 hnode with rfl | hnode
      · exact inherited (hs _ List.mem_cons_self) hmem
      · exact hs node hnode

/-- What every entry has of its directory, every node of a tree has of the root directory. -/
theorem inherited_of_node {P : Node → Prop}
    (inherited : ∀ {es name child}, P (.dir es) → (name, child) ∈ es → P child)
    (ht : P t.top) (h : t.node p = .ok node) : P node := by
  obtain ⟨s, up, hs, steps⟩ := node_eq_ok h
  refine inherited_of_foldlM inherited steps ?_ node List.mem_cons_self
  have top : ∀ node ∈ [t.top], P node := by simpa using ht
  unfold start at hs
  split at hs
  · cases hs
    exact top
  · exact inherited_of_foldlM inherited hs top

theorem isWellNamed_of_node (ht : t.top.isWellNamed = true) (h : t.node p = .ok node) :
    node.isWellNamed = true :=
  inherited_of_node (P := fun node => node.isWellNamed = true)
    (fun hdir hmem => (isWellNamed_dir.1 hdir _ _ hmem).2) ht h

end FileTree
end PackageResolution

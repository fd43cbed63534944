import PackageResolution.Path
import Mathlib.Data.List.Basic
/-!
# Components of joined paths

Joining a path and the name of a directory's entry puts the name behind the components of the path,
and the parent directory of what comes out has the components of the path again. Following a path
takes the same steps for all paths of the same components.

Main statements: `components_join`, `components_parent?_join`, `filterMap_piece?_components`.
-/
namespace PackageResolution.Path

variable {p : Path} {name : FileName} {first piece : List UInt8} {ps rest more : List (List UInt8)}

/-- Whether an entry of a directory can have a name: it is one component, and the same as written. -/
def IsEntryName (name : FileName) : Prop :=
  componentOf? name.bytes = some (.named name) ∧ separator ∉ name.bytes

instance (name : FileName) : Decidable (IsEntryName name) := instDecidableAnd

/-! ## Pieces -/

/-- No piece of a split holds what is split at. -/
theorem not_mem_of_mem_splitOn {α : Type} [DecidableEq α] {sep : α} {cs piece : List α}
    (h : piece ∈ cs.splitOn sep) : sep ∉ piece := by
  induction cs generalizing piece with
  | nil => simp_all
  | cons c cs ih =>
    rw [List.splitOn_cons_eq_if_modifyHead] at h
    split at h
    · rcases List.mem_cons.1 h with rfl | h
      · simp
      · exact ih h
    · next hc =>
      obtain ⟨first, rest, hsplit⟩ := List.exists_cons_of_ne_nil (List.splitOn_ne_nil sep cs)
      rw [hsplit] at h ih
      rcases List.mem_cons.1 h with rfl | h
      · have other : sep ≠ c := fun e => hc (by simp [← e])
        simp [other, ih List.mem_cons_self]
      · exact ih (List.mem_cons_of_mem _ h)

theorem pieces_ne_nil (p : Path) : p.pieces ≠ [] := List.splitOn_ne_nil _ _

/-- The pieces of a path, except for an empty last one. -/
def stem (p : Path) : List (List UInt8) :=
  if p.bytes.getLast?.all (· == separator) then p.pieces.dropLast else p.pieces

theorem not_mem_of_mem_stem (h : piece ∈ p.stem) : separator ∉ piece := by
  unfold stem at h
  split at h
  · exact not_mem_of_mem_splitOn (List.dropLast_subset _ h)
  · exact not_mem_of_mem_splitOn h

/-- A path is empty, or ends with a separator, or does not. -/
theorem bytes_cases (p : Path) : p.bytes = [] ∨ (∃ cs, p.bytes = cs ++ [separator]) ∨
    p.bytes ≠ [] ∧ p.bytes.getLast?.all (· == separator) = false := by
  rcases p.bytes.eq_nil_or_concat' with h | ⟨cs, c, h⟩
  · exact .inl (by simpa using h)
  · by_cases hc : c = separator
    · exact .inr (.inl ⟨cs, by rw [h, hc]⟩)
    · refine .inr (.inr ⟨fun e => ?_, by simp [h, hc]⟩)
      simp [e] at h

/-- A path with an entry's name behind it has that name as one more piece. -/
theorem pieces_join (h : separator ∉ name.bytes) : (p.join name).pieces = p.stem ++ [name.bytes] := by
  have relative : name.isAbsolute = false := by
    cases hn : name.bytes with
    | nil => simp [isAbsolute, hn]
    | cons c cs =>
      have : c ≠ separator := fun e => h (by simp [hn, e])
      simp [isAbsolute, hn, this]
  have single : name.bytes.splitOn separator = [name.bytes] := List.splitOn_eq_singleton h
  unfold join stem
  rw [if_neg (by simp [relative])]
  rcases bytes_cases p with hp | ⟨cs, hp⟩ | ⟨-, hp⟩
  · simp [hp, pieces, single]
  · simp [hp, pieces, single, List.splitOn_append_cons_self]
  · simp [hp, pieces, single, List.splitOn_append_cons_self]

/-! ## Components of pieces -/

/-- What a path with some pieces is made of. -/
def componentsOf : List (List UInt8) → List Component
  | [] => []
  | first :: rest =>
    let body := rest.filterMap componentOf?
    if first = [] then (if rest = [] then [] else .root :: body)
    else if first = [dot] then .here :: body
    else (componentOf? first).toList ++ body

theorem components_eq (p : Path) : p.components = componentsOf p.pieces := rfl

@[simp] theorem filterMap_componentOf?_empty : [[]].filterMap componentOf? = [] := rfl

/-- Pieces behind those of a path that is not empty come in as they are. -/
theorem componentsOf_append (h : ps ≠ []) (h' : ps ≠ [[]]) :
    componentsOf (ps ++ more) = componentsOf ps ++ more.filterMap componentOf? := by
  obtain ⟨first, rest, rfl⟩ := List.exists_cons_of_ne_nil h
  by_cases hfirst : first = []
  · have : rest ≠ [] := by
      rintro rfl
      exact h' (by rw [hfirst])
    simp [componentsOf, hfirst, this]
  · by_cases here : first = [dot] <;> simp [componentsOf, hfirst, here]

theorem componentsOf_concat (h : ps ≠ []) : componentsOf (ps ++ [piece]) =
    componentsOf (ps ++ [[]]) ++ (componentOf? piece).toList := by
  have single : [piece].filterMap componentOf? = (componentOf? piece).toList := by
    cases hp : componentOf? piece <;> simp [hp]
  by_cases h' : ps = [[]]
  · subst h'
    simp [componentsOf, single]
  · rw [componentsOf_append h h', componentsOf_append h h', single]
    simp

/-- A path that is not empty is made of the same as if it ended with a separator. -/
theorem components_eq_stem (h : p.bytes ≠ []) : p.components = componentsOf (p.stem ++ [[]]) := by
  rw [components_eq]
  unfold stem
  rcases bytes_cases p with hp | ⟨cs, hp⟩ | ⟨-, hp⟩
  · exact absurd hp h
  · simp [hp, pieces, List.splitOn_append_cons_self]
  · have nonempty : p.pieces ≠ [[]] := fun e => by
      have back : [separator].intercalate p.pieces = p.bytes := List.intercalate_splitOn separator
      rw [e, List.intercalate_singleton] at back
      exact h (by simpa using back.symm)
    rw [if_neg (by simp [hp]), componentsOf_append p.pieces_ne_nil nonempty]
    simp

theorem stem_eq_nil (h : p.bytes = []) : p.stem = [] := by
  simp [stem, pieces, h]

theorem stem_ne_nil (h : p.bytes ≠ []) : p.stem ≠ [] := by
  unfold stem
  rcases bytes_cases p with hp | ⟨cs, hp⟩ | ⟨-, hp⟩
  · exact absurd hp h
  · simp [hp, pieces, List.splitOn_append_cons_self, List.splitOn_ne_nil]
  · simp [hp, pieces_ne_nil]

/-! ## Joining -/

theorem componentsOf_singleton (h : IsEntryName name) :
    componentsOf [name.bytes] = [.named name] := by
  have named := h.1
  have nonempty : name.bytes ≠ [] := by
    intro e
    rw [e] at named
    cases named
  have here : name.bytes ≠ [dot] := by
    intro e
    rw [e] at named
    cases named
  simp [componentsOf, nonempty, here, named]

/-- **`components_join`**: the name of an entry is one more component. -/
theorem components_join (h : IsEntryName name) :
    (p.join name).components = p.components ++ [.named name] := by
  rw [components_eq, pieces_join h.2]
  by_cases hp : p.bytes = []
  · have empty : p.components = [] := by simp [components_eq, pieces, hp, componentsOf]
    rw [stem_eq_nil hp, empty]
    exact componentsOf_singleton h
  · rw [componentsOf_concat (stem_ne_nil hp), h.1, components_eq_stem hp]
    rfl

theorem filterMap_dropWhile_isIdle (ps : List (List UInt8)) :
    (ps.dropWhile isIdle).filterMap componentOf? = ps.filterMap componentOf? := by
  induction ps with
  | nil => rfl
  | cons piece ps ih =>
    rw [List.dropWhile_cons]
    split
    · next idle => simp [componentOf?, idle, ih]
    · rfl

/-- Taking the pieces that name nothing off the end takes no component off. -/
theorem components_ofPieces (h : ∀ piece ∈ first :: rest, separator ∉ piece) :
    (ofPieces first rest.reverse).components = componentsOf (first :: rest ++ [[]]) := by
  have named : ((rest.reverse.dropWhile isIdle).reverse).filterMap componentOf? =
      rest.filterMap componentOf? := by
    rw [List.filterMap_reverse, filterMap_dropWhile_isIdle, List.filterMap_reverse,
      List.reverse_reverse]
  have hfirst : separator ∉ first := h first List.mem_cons_self
  unfold ofPieces
  cases hkept : rest.reverse.dropWhile isIdle with
  | nil =>
    have none : rest.filterMap componentOf? = [] := by simpa [hkept] using named.symm
    by_cases root : first = []
    · have top : (Path.mk [separator]).components = [.root] := by decide +kernel
      simp [root, none, componentsOf, top]
    · have one : first.splitOn separator = [first] := List.splitOn_eq_singleton hfirst
      simp [root, none, componentsOf, components_eq, pieces, one]
  | cons piece more =>
    have pieces_eq : (Path.mk ([separator].intercalate
        (first :: (piece :: more).reverse))).pieces = first :: (piece :: more).reverse := by
      rw [pieces]
      refine List.splitOn_intercalate separator (fun l hl => h l ?_) (List.cons_ne_nil _ _)
      rcases List.mem_cons.1 hl with rfl | hl
      · exact List.mem_cons_self
      · have kept : l ∈ rest.reverse.dropWhile isIdle := hkept ▸ List.mem_reverse.1 hl
        exact List.mem_cons_of_mem _ (List.mem_reverse.1 ((List.dropWhile_sublist _).subset kept))
    rw [hkept] at named
    rw [components_eq, pieces_eq]
    simp only [componentsOf, named]
    simp

/-- **`components_parent?_join`**: the parent directory of an entry is the directory. -/
theorem components_parent?_join (h : IsEntryName name) :
    ∃ dir, (p.join name).parent? = some dir ∧ dir.components = p.components := by
  have notIdle : isIdle name.bytes = false := by
    have named := h.1
    by_contra idle
    simp [componentOf?, idle] at named
  unfold parent? above
  rw [pieces_join h.2]
  cases hs : p.stem with
  | nil =>
    have hp : p.bytes = [] := by_contra fun e => stem_ne_nil e hs
    have nonempty : name.bytes ≠ [] := fun e => by simp [e, isIdle] at notIdle
    exact ⟨⟨[]⟩, by simp [abovePieces, nonempty], by simp [components_eq, pieces, hp]⟩
  | cons first rest =>
    have hp : p.bytes ≠ [] := fun e => by simp [stem_eq_nil e] at hs
    refine ⟨ofPieces first rest.reverse, by simp [abovePieces, notIdle], ?_⟩
    rw [components_eq_stem hp, hs]
    exact components_ofPieces fun piece hm => not_mem_of_mem_stem (hs ▸ hm)

/-! ## Steps -/

/-- The piece that a component is followed by, unless there is nothing to follow. -/
def Component.piece? : Component → Option (List UInt8)
  | root => none
  | here => none
  | up => some [dot, dot]
  | named name => some name.bytes

theorem componentOf?_bind_piece? (piece : List UInt8) :
    (componentOf? piece).bind Component.piece? = if isIdle piece then none else some piece := by
  unfold componentOf?
  split
  · rfl
  · split
    · next h => simp [Component.piece?, h]
    · simp [Component.piece?]

theorem filterMap_piece?_filterMap (ps : List (List UInt8)) :
    (ps.filterMap componentOf?).filterMap Component.piece? = ps.filter (!isIdle ·) := by
  rw [List.filterMap_filterMap]
  simp only [componentOf?_bind_piece?]
  induction ps with
  | nil => rfl
  | cons piece ps ih => cases h : isIdle piece <;> simp [h, ih]

/-- The pieces of a path and its first component, if that is not a later piece's. -/
theorem components_cases (p : Path) : ∃ first rest lead, p.pieces = first :: rest ∧
    p.components = lead ++ rest.filterMap componentOf? ∧
      (first = [] ∧ (rest = [] ∧ lead = [] ∨ rest ≠ [] ∧ lead = [.root]) ∨
        first = [dot] ∧ lead = [.here] ∨
        isIdle first = false ∧ lead = (componentOf? first).toList) := by
  obtain ⟨first, rest, hp⟩ := List.exists_cons_of_ne_nil p.pieces_ne_nil
  rw [components_eq, hp, componentsOf]
  by_cases empty : first = []
  · by_cases last : rest = []
    · exact ⟨first, rest, [], rfl, by simp [empty, last], .inl ⟨empty, .inl ⟨last, rfl⟩⟩⟩
    · exact ⟨first, rest, [.root], rfl, by simp [empty, last], .inl ⟨empty, .inr ⟨last, rfl⟩⟩⟩
  · by_cases here : first = [dot]
    · exact ⟨first, rest, [.here], rfl, by simp [here], .inr (.inl ⟨here, rfl⟩)⟩
    · exact ⟨first, rest, (componentOf? first).toList, rfl, by simp [empty, here],
        .inr (.inr ⟨by simp [isIdle, empty, here], rfl⟩)⟩

/-- The components of a path are followed by its pieces, those apart that stay where they are. -/
theorem filterMap_piece?_components (p : Path) :
    p.components.filterMap Component.piece? = p.pieces.filter (!isIdle ·) := by
  obtain ⟨first, rest, lead, hp, hc, h⟩ := p.components_cases
  rw [hc, hp, List.filterMap_append, filterMap_piece?_filterMap]
  rcases h with ⟨rfl, ⟨-, rfl⟩ | ⟨-, rfl⟩⟩ | ⟨rfl, rfl⟩ | ⟨busy, rfl⟩
  · rfl
  · rfl
  · rfl
  · have piece := componentOf?_bind_piece? first
    rw [busy] at piece
    cases hf : componentOf? first with
    | none => simp [hf] at piece
    | some c =>
      rw [hf] at piece
      simp only [Option.bind_some, Bool.false_eq_true, if_false] at piece
      simp [busy, piece]

theorem componentOf?_eq_some {c : Component} (h : componentOf? piece = some c) :
    c ≠ .root ∧ ∀ name, c = .named name → componentOf? name.bytes = some (.named name) := by
  have own := h
  unfold componentOf? at h
  split at h
  · cases h
  · split at h
    · cases h
      exact ⟨by decide, nofun⟩
    · cases h
      refine ⟨nofun, fun name e => ?_⟩
      cases e
      exact own

/-- An absolute path has an empty first piece, and another one behind it. -/
theorem isAbsolute_iff : p.isAbsolute = true ↔ ∃ rest, rest ≠ [] ∧ p.pieces = [] :: rest := by
  constructor
  · intro h
    obtain ⟨cs, hcs⟩ := List.head?_eq_some_iff.1 (by simpa [isAbsolute] using h)
    refine ⟨cs.splitOn separator, List.splitOn_ne_nil _ _, ?_⟩
    rw [pieces, hcs, List.splitOn_cons_eq_if_modifyHead, if_pos (by simp)]
  · rintro ⟨rest, last, hp⟩
    obtain ⟨second, more, rfl⟩ := List.exists_cons_of_ne_nil last
    have bytes : [separator].intercalate p.pieces = p.bytes := List.intercalate_splitOn separator
    rw [isAbsolute, ← bytes, hp]
    simp [List.intercalate_cons_cons]

theorem root_mem_components_iff : .root ∈ p.components ↔ p.isAbsolute = true := by
  obtain ⟨first, rest, lead, hp, hc, h⟩ := p.components_cases
  have later : .root ∉ rest.filterMap componentOf? := fun hm =>
    have ⟨_, _, hpiece⟩ := List.mem_filterMap.1 hm
    (componentOf?_eq_some hpiece).1 rfl
  have absolute : p.isAbsolute = true ↔ first = [] ∧ rest ≠ [] := by
    rw [isAbsolute_iff, hp]
    simp [and_comm]
  rw [hc, List.mem_append, absolute]
  rcases h with ⟨rfl, ⟨rfl, rfl⟩ | ⟨last, rfl⟩⟩ | ⟨rfl, rfl⟩ | ⟨busy, rfl⟩
  · simp
  · simp [last]
  · simp [later]
  · have nonempty : first ≠ [] := fun e => by simp [e, isIdle] at busy
    have own : componentOf? first ≠ some .root := fun e => (componentOf?_eq_some e).1 rfl
    simp [later, nonempty, own]

theorem componentOf?_of_mem_components (h : .named name ∈ p.components) :
    componentOf? name.bytes = some (.named name) := by
  obtain ⟨first, rest, lead, hp, hc, hlead⟩ := p.components_cases
  rw [hc, List.mem_append] at h
  rcases h with h | h
  · rcases hlead with ⟨rfl, ⟨-, rfl⟩ | ⟨-, rfl⟩⟩ | ⟨rfl, rfl⟩ | ⟨busy, rfl⟩
    · simp at h
    · simp at h
    · simp at h
    · exact (componentOf?_eq_some (by simpa using h)).2 name rfl
  · obtain ⟨piece, -, hpiece⟩ := List.mem_filterMap.1 h
    exact (componentOf?_eq_some hpiece).2 name rfl

end PackageResolution.Path

import PackageResolution.Proofs.Closure
import PackageResolution.Session.Tree
/-!
# What a dependency tree shows

A tree is printed by following recorded dependencies depth first. `Shows` says which lines come out,
case by case for the package that is next: it may be too deep, or have no member, and then there is
no line for it; it may have been shown before, and then its line is marked and nothing comes beneath;
or it is shown for the first time, with what its dependencies lead to beneath it, one level deeper.
A derivation is finite, so that there is one for every session says that printing comes to an end,
however the dependencies run.

Main statement: `shows_iff`.
-/
namespace PackageResolution

namespace Session

variable {r : Registry} {s : Session} {limit : Option Nat} {shown ids : List PackageId}
  {id : PackageId} {depth : Nat} {lines : List TreeLine}

/-- The packages that are shown for the first time, in the order of their lines. -/
def followed (lines : List TreeLine) : List PackageId :=
  (lines.filter fun l => !l.repeated).map (·.member.id)

@[simp] theorem followed_nil : followed [] = [] := rfl

@[simp] theorem followed_cons_repeated (depth : Nat) (m : Member) (lines : List TreeLine) :
    followed (⟨depth, m, true⟩ :: lines) = followed lines := rfl

@[simp] theorem followed_cons_fresh (depth : Nat) (m : Member) (lines : List TreeLine) :
    followed (⟨depth, m, false⟩ :: lines) = m.id :: followed lines := rfl

@[simp] theorem followed_append (lines more : List TreeLine) :
    followed (lines ++ more) = followed lines ++ followed more := by
  simp [followed]

theorem mem_followed_iff :
    id ∈ followed lines ↔ ∃ l ∈ lines, l.repeated = false ∧ l.member.id = id := by
  simp [followed, and_assoc]

/-- The lines for some packages at one depth, where others were shown before. -/
inductive Shows (r : Registry) (s : Session) (limit : Option Nat) :
    List PackageId → Nat → List PackageId → List TreeLine → Prop
  | done {shown : List PackageId} {depth : Nat} : Shows r s limit shown depth [] []
  | tooDeep {shown rest : List PackageId} {depth : Nat} {id : PackageId} {lines : List TreeLine}
      (deep : limit.any (· < depth) = true) (beside : Shows r s limit shown depth rest lines) :
      Shows r s limit shown depth (id :: rest) lines
  | absent {shown rest : List PackageId} {depth : Nat} {id : PackageId} {lines : List TreeLine}
      (near : limit.any (· < depth) = false) (hm : s.member? id = none)
      (beside : Shows r s limit shown depth rest lines) :
      Shows r s limit shown depth (id :: rest) lines
  | again {shown rest : List PackageId} {depth : Nat} {id : PackageId} {m : Member}
      {lines : List TreeLine} (near : limit.any (· < depth) = false) (hm : s.member? id = some m)
      (old : id ∈ shown) (beside : Shows r s limit shown depth rest lines) :
      Shows r s limit shown depth (id :: rest) (⟨depth, m, true⟩ :: lines)
  | fresh {shown rest : List PackageId} {depth : Nat} {id : PackageId} {m : Member}
      {below lines : List TreeLine} (near : limit.any (· < depth) = false)
      (hm : s.member? id = some m) (new : id ∉ shown)
      (under : Shows r s limit (shown ++ [id]) (depth + 1) (m.leads r) below)
      (beside : Shows r s limit (shown ++ id :: followed below) depth rest lines) :
      Shows r s limit shown depth (id :: rest) (⟨depth, m, false⟩ :: below ++ lines)

theorem Shows.expand {rest : List PackageId} {m : Member} {below : List TreeLine}
    (next : List PackageId) (near : limit.any (· < depth) = false) (hm : s.member? id = some m)
    (new : id ∉ shown) (leads : m.leads r = next)
    (under : Shows r s limit (shown ++ [id]) (depth + 1) next below)
    (beside : Shows r s limit (shown ++ id :: followed below) depth rest lines) :
    Shows r s limit shown depth (id :: rest) (⟨depth, m, false⟩ :: below ++ lines) :=
  .fresh near hm new (leads ▸ under) beside

/-- All that recorded dependencies lead to has a member. -/
def Populated (r : Registry) (s : Session) : Prop :=
  ∀ x m, s.member? x = some m → ∀ y ∈ m.leads r, ∃ m', s.member? y = some m'

theorem populated_of_made (hs : Consistent r s) (made : s.Made) : Populated r s := by
  intro x m hm y hy
  obtain ⟨d, hd, hr⟩ := (mem_leads_iff hm).1 hy
  exact made y (hs.mem_order_of_dep hd hr)

/-! ## Printing comes to an end -/

theorem length_unvisited_append_le (s : Session) (seen more : List PackageId) :
    (s.unvisited (seen ++ more)).length ≤ (s.unvisited seen).length := by
  refine (List.monotone_filter_right s.members fun m hm => ?_).length_le
  simp only [List.contains_eq_mem, Bool.not_eq_true', decide_eq_false_iff_not, List.mem_append,
    not_or] at hm ⊢
  exact hm.1

/-- Each package that is shown for the first time leaves fewer of them. -/
theorem exists_shows (r : Registry) (s : Session) (limit : Option Nat) (shown : List PackageId)
    (depth : Nat) (ids : List PackageId) : ∃ lines, Shows r s limit shown depth ids lines := by
  induction hn : (s.unvisited shown).length using Nat.strong_induction_on
    generalizing shown depth ids with
  | _ n fewer =>
    induction ids with
    | nil => exact ⟨[], .done⟩
    | cons id rest ih =>
      obtain ⟨lines, beside⟩ := ih
      cases deep : limit.any (· < depth) with
      | true => exact ⟨lines, .tooDeep deep beside⟩
      | false =>
        cases hm : s.member? id with
        | none => exact ⟨lines, .absent deep hm beside⟩
        | some m =>
          by_cases old : id ∈ shown
          · exact ⟨⟨depth, m, true⟩ :: lines, .again deep hm old beside⟩
          · have less : (s.unvisited (shown ++ [id])).length < n := hn ▸ length_unvisited_lt hm old
            obtain ⟨below, under⟩ := fewer _ less (shown ++ [id]) (depth + 1) (m.leads r) rfl
            have less' : (s.unvisited (shown ++ id :: followed below)).length < n := by
              have le := length_unvisited_append_le s (shown ++ [id]) (followed below)
              rw [List.append_assoc, List.singleton_append] at le
              omega
            obtain ⟨lines, beside⟩ := fewer _ less' (shown ++ id :: followed below) depth rest rfl
            exact ⟨⟨depth, m, false⟩ :: below ++ lines, .fresh deep hm old under beside⟩

/-! ## The lines that are printed -/

section

variable {todo : List (Nat × PackageId)}

theorem treeBelow_of_tooDeep (deep : limit.any (· < depth) = true) :
    treeBelow r s limit shown ((depth, id) :: todo) = treeBelow r s limit shown todo := by
  rw [treeBelow, if_pos deep]

theorem treeBelow_of_absent (near : limit.any (· < depth) = false) (hm : s.member? id = none) :
    treeBelow r s limit shown ((depth, id) :: todo) = treeBelow r s limit shown todo := by
  rw [treeBelow, if_neg (by simp [near])]
  split
  · rfl
  · next m hm' => rw [hm] at hm'; cases hm'

theorem treeBelow_of_member {m : Member} (near : limit.any (· < depth) = false)
    (hm : s.member? id = some m) : treeBelow r s limit shown ((depth, id) :: todo) =
      if id ∈ shown then ⟨depth, m, true⟩ :: treeBelow r s limit shown todo
      else ⟨depth, m, false⟩ ::
        treeBelow r s limit (shown ++ [id]) ((m.leads r).map (depth + 1, ·) ++ todo) := by
  rw [treeBelow, if_neg (by simp [near])]
  split
  · next hm' => rw [hm] at hm'; cases hm'
  · next m' hm' =>
    obtain rfl := Option.some.inj (hm.symm.trans hm')
    rfl

end

/-- The list of what is to be shown is worked off from the front. -/
theorem treeBelow_of_shows (h : Shows r s limit shown depth ids lines)
    (todo : List (Nat × PackageId)) : treeBelow r s limit shown (ids.map (depth, ·) ++ todo) =
      lines ++ treeBelow r s limit (shown ++ followed lines) todo := by
  induction h generalizing todo with
  | done => simp
  | tooDeep deep _ ih => rw [List.map_cons, List.cons_append, treeBelow_of_tooDeep deep, ih]
  | absent near hm _ ih => rw [List.map_cons, List.cons_append, treeBelow_of_absent near hm, ih]
  | again near hm old _ ih =>
    rw [List.map_cons, List.cons_append, treeBelow_of_member near hm, if_pos old, ih]
    simp
  | @fresh shown rest depth id m below lines near hm new _ _ under_ih beside_ih =>
    obtain rfl := id_of_member? hm
    rw [List.map_cons, List.cons_append, treeBelow_of_member near hm, if_neg new, under_ih,
      List.append_assoc, List.singleton_append, beside_ih]
    simp

/-- Printing comes to an end, with the lines of the tree. -/
theorem shows_iff : Shows r s limit [] 0 [id] lines ↔ lines = tree r s id limit := by
  have shown {lines : List TreeLine} (h : Shows r s limit [] 0 [id] lines) :
      lines = tree r s id limit := by
    have := treeBelow_of_shows h []
    simp only [List.map_cons, List.map_nil, List.append_nil] at this
    rw [tree, this, treeBelow, List.append_nil]
  constructor
  · exact shown
  · rintro rfl
    obtain ⟨lines, h⟩ := exists_shows r s limit [] 0 [id]
    exact shown h ▸ h

/-! ## Depths and members -/

namespace Shows

/-- A line stands at the depth that was asked for or deeper, within the limit, and carries the member
of its package. -/
theorem line (h : Shows r s limit shown depth ids lines) :
    ∀ l ∈ lines, depth ≤ l.depth ∧ limit.any (· < l.depth) = false ∧
      s.member? l.member.id = some l.member := by
  have own {id : PackageId} {m : Member} (hm : s.member? id = some m) :
      s.member? m.id = some m := id_of_member? hm ▸ hm
  induction h with
  | done => simp
  | tooDeep _ _ ih => exact ih
  | absent _ _ _ ih => exact ih
  | again near hm _ _ ih => exact List.forall_mem_cons.2 ⟨⟨le_rfl, near, own hm⟩, ih⟩
  | fresh near hm _ _ _ under_ih beside_ih =>
    rw [List.cons_append, List.forall_mem_cons, List.forall_mem_append]
    refine ⟨⟨le_rfl, near, own hm⟩, fun l hl => ?_, beside_ih⟩
    exact ⟨(Nat.le_succ _).trans (under_ih l hl).1, (under_ih l hl).2⟩

theorem depth_le (h : Shows r s limit shown depth ids lines) {l : TreeLine} (hl : l ∈ lines) :
    depth ≤ l.depth :=
  (h.line l hl).1

theorem depth_le_limit {d : Nat} (h : Shows r s (some d) shown depth ids lines) {l : TreeLine}
    (hl : l ∈ lines) : l.depth ≤ d := by
  simpa using (h.line l hl).2.1

theorem member_eq (h : Shows r s limit shown depth ids lines) {l : TreeLine} (hl : l ∈ lines) :
    s.member? l.member.id = some l.member :=
  (h.line l hl).2.2

/-- What is shown first stands at the depth that was asked for. -/
theorem head_depth (h : Shows r s limit shown depth ids lines) :
    ∀ l, lines.head? = some l → l.depth = depth := by
  induction h with
  | done => simp
  | tooDeep _ _ ih => exact ih
  | absent _ _ _ ih => exact ih
  | again _ _ _ _ _ =>
    rintro l hl
    cases hl
    rfl
  | fresh _ _ _ _ _ _ _ =>
    rintro l hl
    cases hl
    rfl

end Shows

end Session
end PackageResolution

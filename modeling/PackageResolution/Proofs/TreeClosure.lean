import PackageResolution.Proofs.PrintedTrees
import PackageResolution.Proofs.Quiescence
import PackageResolution.Proofs.Trees
import Mathlib.Algebra.GroupWithZero.Nat
/-!
# Dependency trees and dependency closures

The tree of a package and its closure are found by two searches. The one for the closure passes over
what it has seen and stops where something is missing; the one for the tree shows what it has seen
once more, marked, and passes over what is missing. After resolution nothing is missing, and then the
two agree: without its marked lines the tree lists the closure, and under each of these lines stand
the dependencies of its package. The same is read of the text that is printed for the tree.

Main statement: `tree_agrees_with_closure`.
-/
namespace PackageResolution

/-- Where an element stands in a list that begins with one element and goes on in two parts. -/
theorem cons_append_cases {α : Type} {x l : α} {below beside before after : List α}
    (h : x :: below ++ beside = before ++ l :: after) :
    (x = l ∧ below ++ beside = after) ∨
      (∃ front back, below = front ++ l :: back ∧ after = back ++ beside) ∨
      ∃ front, beside = front ++ l :: after := by
  cases before with
  | nil => exact .inl (List.cons.inj h)
  | cons _ before =>
    rcases List.append_eq_append_iff.1 (List.cons.inj h).2 with
      ⟨mid, -, hbeside⟩ | ⟨mid, hbelow, hafter⟩
    · exact .inr (.inr ⟨mid, hbeside⟩)
    · cases mid with
      | nil => exact .inr (.inr ⟨[], hafter.symm⟩)
      | cons y mid =>
        obtain ⟨rfl, rfl⟩ := List.cons.inj hafter
        exact .inr (.inl ⟨before, mid, hbelow, rfl⟩)

theorem exists_split_of_map {α β : Type} {f : α → β} {xs : List α} {y : β} {before after : List β}
    (h : xs.map f = before ++ y :: after) :
    ∃ front x back, xs = front ++ x :: back ∧ f x = y ∧ back.map f = after := by
  obtain ⟨front, rest, split, -, hrest⟩ := List.map_eq_append_iff.1 h
  obtain ⟨x, back, rfl, hx, hback⟩ := List.map_eq_cons_iff.1 hrest
  exact ⟨front, x, back, split, hx, hback⟩

/-! ## Lines at depths -/

namespace Outline

variable {α β : Type} {depth : α → Nat} {l : α} {after later : List α}

/-- The lines beneath a line: those that follow it, up to the next one that is not deeper. -/
def beneath (depth : α → Nat) (l : α) (after : List α) : List α :=
  after.takeWhile (depth l < depth ·)

/-- The lines beneath a line and one level deeper. -/
def children (depth : α → Nat) (l : α) (after : List α) : List α :=
  (beneath depth l after).filter (depth · = depth l + 1)

theorem beneath_of_head (h : ∀ x, after.head? = some x → depth x ≤ depth l) :
    beneath depth l after = [] := by
  cases after with
  | nil => rfl
  | cons x after =>
    have := h x rfl
    exact List.takeWhile_cons_of_neg (by simpa using this)

/-- Lines from one on that is not deeper are not beneath. -/
theorem beneath_append (h : ∀ x, later.head? = some x → depth x ≤ depth l) :
    beneath depth l (after ++ later) = beneath depth l after := by
  induction after with
  | nil => exact beneath_of_head h
  | cons x after ih =>
    rw [beneath, beneath, List.cons_append, List.takeWhile_cons, List.takeWhile_cons]
    split
    · exact congrArg (x :: ·) ih
    · rfl

theorem beneath_of_forall (h : ∀ x ∈ after, depth l < depth x) : beneath depth l after = after :=
  List.takeWhile_eq_self_iff.2 fun x hx => by simpa using h x hx

variable {f : α → β} {depth' : β → Nat}

/-- What is beneath a line depends on the depths alone. -/
theorem beneath_map (same : ∀ x, depth' (f x) = depth x) (l : α) (after : List α) :
    beneath depth' (f l) (after.map f) = (beneath depth l after).map f := by
  rw [beneath, List.takeWhile_map, beneath]
  simp only [Function.comp_def, same]

theorem children_map (same : ∀ x, depth' (f x) = depth x) (l : α) (after : List α) :
    children depth' (f l) (after.map f) = (children depth l after).map f := by
  rw [children, beneath_map same, List.filter_map, children]
  simp only [Function.comp_def, same]

end Outline

namespace Session

variable {r : Registry} {s s' : Session} {shown ids : List PackageId} {id : PackageId} {depth : Nat}
  {lines : List TreeLine}

/-! ## Trees that leave nothing out -/

/-- The lines for some packages at one depth, where nothing is left out. -/
inductive Unfolds (r : Registry) (s : Session) :
    List PackageId → Nat → List PackageId → List TreeLine → Prop
  | done {shown : List PackageId} {depth : Nat} : Unfolds r s shown depth [] []
  | again {shown rest : List PackageId} {depth : Nat} {id : PackageId} {m : Member}
      {lines : List TreeLine} (hm : s.member? id = some m) (old : id ∈ shown)
      (beside : Unfolds r s shown depth rest lines) :
      Unfolds r s shown depth (id :: rest) (⟨depth, m, true⟩ :: lines)
  | fresh {shown rest : List PackageId} {depth : Nat} {id : PackageId} {m : Member}
      {below lines : List TreeLine} (hm : s.member? id = some m) (new : id ∉ shown)
      (under : Unfolds r s (shown ++ [id]) (depth + 1) (m.leads r) below)
      (beside : Unfolds r s (shown ++ id :: followed below) depth rest lines) :
      Unfolds r s shown depth (id :: rest) (⟨depth, m, false⟩ :: below ++ lines)

theorem Shows.unfolds (populated : Populated r s) (h : Shows r s none shown depth ids lines)
    (hids : ∀ x ∈ ids, ∃ m, s.member? x = some m) : Unfolds r s shown depth ids lines := by
  induction h with
  | done => exact .done
  | tooDeep deep _ _ => cases deep
  | absent _ hm _ _ =>
    obtain ⟨m, hm'⟩ := hids _ List.mem_cons_self
    rw [hm] at hm'
    cases hm'
  | again _ hm old _ ih => exact .again hm old (ih (List.forall_mem_cons.1 hids).2)
  | fresh _ hm new _ _ under_ih beside_ih =>
    exact .fresh hm new (under_ih (populated _ _ hm)) (beside_ih (List.forall_mem_cons.1 hids).2)

namespace Unfolds

theorem shows (h : Unfolds r s shown depth ids lines) : Shows r s none shown depth ids lines := by
  induction h with
  | done => exact .done
  | again hm old _ ih => exact .again rfl hm old ih
  | fresh hm new _ _ under_ih beside_ih => exact .fresh rfl hm new under_ih beside_ih

/-- What is shown for the first time is what is discovered. -/
theorem discovers (h : Unfolds r s shown depth ids lines) :
    Discovers r s shown ids (followed lines) := by
  induction h with
  | done => exact .done
  | again _ old _ ih => exact .again old ih
  | fresh hm new _ _ under_ih beside_ih =>
    rw [List.cons_append, followed_cons_fresh, followed_append, id_of_member? hm]
    exact .fresh new hm under_ih beside_ih

/-- The lines at the depth that was asked for are one for each package. -/
theorem top (h : Unfolds r s shown depth ids lines) :
    (lines.filter (·.depth = depth)).map (·.member.id) = ids := by
  induction h with
  | done => rfl
  | again hm _ _ ih => simpa [id_of_member? hm] using ih
  | @fresh shown rest depth id m below lines hm _ under _ _ ih =>
    have deeper : below.filter (·.depth = depth) = [] := by
      rw [List.filter_eq_nil_iff]
      intro l hl
      have := under.shows.depth_le hl
      simp only [decide_eq_true_eq]
      omega
    simpa [deeper, id_of_member? hm] using ih

/-- Beneath a line that is marked there is nothing; beneath any other, and one level deeper, there is
one line for each package that its dependencies lead to. -/
theorem beneath (h : Unfolds r s shown depth ids lines) {before after : List TreeLine} {l : TreeLine}
    (split : lines = before ++ l :: after) :
    (l.repeated = true → Outline.beneath TreeLine.depth l after = []) ∧
      (l.repeated = false →
        (Outline.children TreeLine.depth l after).map (·.member.id) = l.member.leads r) := by
  induction h generalizing before after l with
  | done => simp at split
  | again hm old beside ih =>
    cases before with
    | nil =>
      obtain ⟨rfl, rfl⟩ := List.cons.inj split
      refine ⟨fun _ => Outline.beneath_of_head fun x hx => ?_, nofun⟩
      exact (beside.shows.head_depth x hx).le
    | cons _ before => exact ih (List.cons.inj split).2
  | @fresh shown rest depth id m below lines hm new under beside under_ih beside_ih =>
    -- the lines beside come to an end of what is beneath, as the first of them stands at `depth`
    have ends {l : TreeLine} (hl : depth ≤ l.depth) :
        ∀ x, lines.head? = some x → x.depth ≤ l.depth :=
      fun x hx => (beside.shows.head_depth x hx).trans_le hl
    rcases cons_append_cases split with ⟨rfl, rfl⟩ | ⟨front, back, hbelow, rfl⟩ | ⟨front, hlines⟩
    · refine ⟨nofun, fun _ => ?_⟩
      have all : Outline.beneath TreeLine.depth ⟨depth, m, false⟩ below = below :=
        Outline.beneath_of_forall fun x hx => under.shows.depth_le hx
      rw [Outline.children, Outline.beneath_append (ends le_rfl), all]
      exact under.top
    · have deeper : depth + 1 ≤ l.depth := under.shows.depth_le (by simp [hbelow])
      rw [Outline.children, Outline.beneath_append (ends (by omega))]
      exact under_ih hbelow
    · exact beside_ih hlines

/-- Each line but those that were asked for stands for a dependency of a package that is shown for
the first time. -/
theorem length (h : Unfolds r s shown depth ids lines) : lines.length =
    ids.length + ((lines.filter fun l => !l.repeated).map (·.member.leads r |>.length)).sum := by
  induction h with
  | done => rfl
  | again _ _ _ ih =>
    simp only [List.length_cons, ih]
    simp
    omega
  | fresh _ _ _ _ under_ih beside_ih =>
    simp only [List.cons_append, List.length_cons, List.length_append, under_ih, beside_ih]
    simp
    omega

end Unfolds

/-! ## The tree of a package -/

/-- The number of dependencies that are recorded for a package. -/
def depCount (s : Session) (id : PackageId) : Nat := (s.member? id).elim 0 (·.deps.length)

/-- The lines of a tree that shows all of a closure: those that are not marked list it, beneath each
of them and one level deeper stand its recorded dependencies, and beneath the marked ones nothing. -/
structure ShowsAll (r : Registry) (s : Session) (closure : List PackageId)
    (lines : List TreeLine) : Prop where
  member : ∀ l ∈ lines, s.member? l.member.id = some l.member
  unmarked : (lines.filter fun l => !l.repeated).map (·.member.id) = closure
  children : ∀ before l after, lines = before ++ l :: after → l.repeated = false →
    (Outline.children TreeLine.depth l after).map (fun c => some c.member.id) =
      l.member.deps.map r.resolve
  marked : ∀ before l after, lines = before ++ l :: after → l.repeated = true →
    Outline.beneath TreeLine.depth l after = []
  length : lines.length = 1 + (closure.map s.depCount).sum

/-- Every recorded dependency leads to something. -/
theorem Consistent.map_leads (hs : Consistent r s) {m : Member} (hm : s.member? id = some m) :
    (m.leads r).map some = m.deps.map r.resolve := by
  have answered : ∀ d ∈ m.deps, (r.resolve d).isSome := fun d hd =>
    hs.resolve_isSome (mem_of_member? hm) hd
  rw [Member.leads]
  generalize m.deps = deps at answered
  induction deps with
  | nil => rfl
  | cons d deps ih =>
    obtain ⟨first, rest⟩ := List.forall_mem_cons.1 answered
    obtain ⟨x, hx⟩ := Option.isSome_iff_exists.1 first
    rw [List.filterMap_cons_some hx, List.map_cons, List.map_cons, hx, ih rest]

theorem Unfolds.showsAll (hs : Consistent r s) (h : Unfolds r s [] 0 [id] lines) :
    ShowsAll r s (followed lines) lines where
  member _ hl := h.shows.member_eq hl
  unmarked := rfl
  children before l after split unmarked := by
    have hl : s.member? l.member.id = some l.member := h.shows.member_eq (by simp [split])
    rw [← hs.map_leads hl, ← (h.beneath split).2 unmarked, List.map_map]
    rfl
  marked before l after split marked := (h.beneath split).1 marked
  length := by
    rw [h.length, List.length_singleton, followed, List.map_map]
    congr 2
    refine List.map_congr_left fun l hl => ?_
    have hl := h.shows.member_eq (List.mem_filter.1 hl).1
    have counts := congrArg List.length (hs.map_leads hl)
    simpa [depCount, hl] using counts

/-- Where every registered identity has its member, closures are found and trees show all of them. -/
theorem exists_showsAll (hs : Consistent r s) (made : s.Made) (hid : s.isRegistered id = true) :
    ∃ closure, collectDeps r s id = .ok closure ∧ closure.Nodup ∧
      ShowsAll r s closure (tree r s id none) := by
  obtain ⟨m, hm⟩ := Option.isSome_iff_exists.1 hid
  have unfolds : Unfolds r s [] 0 [id] (tree r s id none) :=
    (shows_iff.2 rfl).unfolds (populated_of_made hs made) (by simpa using ⟨m, hm⟩)
  rcases collectDeps_cases hs id with ⟨closure, found, isClosure⟩ | ⟨x, -, reached, absent⟩
  · obtain rfl := (isClosure.preorder _).1 unfolds.discovers
    exact ⟨_, found, isClosure.nodup, unfolds.showsAll hs⟩
  · -- whatever is reached from a registered package is registered, and so has a member
    have registered : x ∈ s.order := by
      refine reached.mem (Q := {y | y ∈ s.order}) ?_ fun y _ d hd z hz => hs.mem_order_of_dep hd hz
      rintro y rfl
      exact (hs.of_member? hm).1
    obtain ⟨m', hm'⟩ := made x registered
    simp [isRegistered, hm'] at absent

/-! ## The tree as it is printed -/

/-- What is printed for an identity. -/
def shown? (s : Session) (id : PackageId) : Option String := (s.member? id).map Member.display

/-- A text that prints all of a closure: its lines without a mark name the packages of the closure,
each once and in order, beneath each of them and one level deeper stand the names of its recorded
dependencies, and beneath the marked ones nothing. -/
structure PrintsAll (r : Registry) (s : Session) (closure : List PackageId) (text : String) :
    Prop where
  unmarked : ((PrintedLine.readAll text).filter fun l => !l.marked).map (fun l => some l.name) =
    closure.map s.shown?
  apart : (closure.map s.shown?).Nodup
  children : ∀ before l after, PrintedLine.readAll text = before ++ l :: after → l.marked = false →
    ∃ m, m.id ∈ closure ∧ s.member? m.id = some m ∧ m.display = l.name ∧
      (Outline.children PrintedLine.depth l after).map (fun c => some c.name) =
        m.deps.map fun d => (r.resolve d).bind s.shown?
  marked : ∀ before l after, PrintedLine.readAll text = before ++ l :: after → l.marked = true →
    Outline.beneath PrintedLine.depth l after = []
  length : (PrintedLine.readAll text).length = 1 + (closure.map s.depCount).sum

namespace ShowsAll

variable {closure : List PackageId}

theorem shown?_eq (h : ShowsAll r s closure lines) {l : TreeLine} (hl : l ∈ lines) :
    s.shown? l.member.id = some l.member.display := by
  rw [shown?, h.member l hl, Option.map_some]

theorem mem_closure (h : ShowsAll r s closure lines) {l : TreeLine} (hl : l ∈ lines)
    (fresh : l.repeated = false) : l.member.id ∈ closure := by
  rw [← h.unmarked]
  exact List.mem_map.2 ⟨l, List.mem_filter.2 ⟨hl, by simp [fresh]⟩, rfl⟩

theorem exists_member (h : ShowsAll r s closure lines) (hid : id ∈ closure) :
    ∃ m, s.member? id = some m := by
  rw [← h.unmarked] at hid
  obtain ⟨l, hl, rfl⟩ := List.mem_map.1 hid
  exact ⟨_, h.member l (List.mem_filter.1 hl).1⟩

theorem nodup_shown? (h : ShowsAll r s closure lines) (nodup : closure.Nodup) (legible : s.Legible) :
    (closure.map s.shown?).Nodup := by
  refine nodup.map_on fun x hx y hy same => ?_
  obtain ⟨m, hm⟩ := h.exists_member hx
  obtain ⟨m', hm'⟩ := h.exists_member hy
  rw [shown?, shown?, hm, hm'] at same
  rw [← id_of_member? hm, ← id_of_member? hm']
  exact legible.id_eq (mem_of_member? hm) (mem_of_member? hm') (Option.some.inj same)

/-- The lines beneath a line name what its package depends on. -/
theorem shown_children (h : ShowsAll r s closure lines) {before after : List TreeLine} {l : TreeLine}
    (split : lines = before ++ l :: after) (fresh : l.repeated = false) :
    (Outline.children TreeLine.depth l after).map (fun c => some c.member.display) =
      l.member.deps.map fun d => (r.resolve d).bind s.shown? := by
  have deps := congrArg (List.map fun x : Option PackageId => x.bind s.shown?)
    (h.children before l after split fresh)
  rw [List.map_map, List.map_map] at deps
  refine Eq.trans (List.map_congr_left fun c hc => ?_) deps
  have later : c ∈ after := (List.takeWhile_sublist _).subset (List.mem_filter.1 hc).1
  exact (h.shown?_eq (by simp [split, later])).symm

/-- What the lines of a tree show is what is read of its text. -/
theorem printsAll (h : ShowsAll r s closure (tree r s id none)) (nodup : closure.Nodup)
    (legible : s.Legible) :
    PrintsAll r s closure (Commands.lines ((tree r s id none).map TreeLine.text)) := by
  have read : PrintedLine.readAll (Commands.lines ((tree r s id none).map TreeLine.text)) =
      (tree r s id none).map TreeLine.printed := legible.readAll_tree
  generalize Commands.lines ((tree r s id none).map TreeLine.text) = text at read
  generalize tree r s id none = lines at h read
  have same (l : TreeLine) : PrintedLine.depth l.printed = TreeLine.depth l := rfl
  refine ⟨?_, h.nodup_shown? nodup legible, ?_, ?_, ?_⟩
  · rw [read, List.filter_map, List.map_map, ← h.unmarked, List.map_map]
    exact List.map_congr_left fun l hl => (h.shown?_eq (List.mem_filter.1 hl).1).symm
  · intro before p after e unmarked
    obtain ⟨front, l, back, split, rfl, rfl⟩ := exists_split_of_map (read ▸ e)
    have hl : l ∈ lines := by simp [split]
    refine ⟨l.member, h.mem_closure hl unmarked, h.member l hl, rfl, ?_⟩
    rw [Outline.children_map same, List.map_map]
    exact h.shown_children split unmarked
  · intro before p after e marked
    obtain ⟨front, l, back, split, rfl, rfl⟩ := exists_split_of_map (read ▸ e)
    rw [Outline.beneath_map same, h.marked front l back split marked, List.map_nil]
  · rw [read, List.length_map, h.length]

end ShowsAll

/-- **`tree_agrees_with_closure`**: after operations and a resolution that succeeds, the closure of a
registered package is found, and the tree of the package shows all of it, each package once without
a mark and in the same order. Printing the tree comes to an end however the dependencies run, and
where the packages' names can be told apart its text says the same. So it does for each run from
files: what is printed for its first root prints all of the closure. -/
theorem tree_agrees_with_closure :
    (∀ (r : Registry) (t : Target) (ops : List Operation) (a : Summary) (s : Session)
      (id : PackageId), resolve r (run r t ops) = (.ok a, s) → s.isRegistered id = true →
        (∃ closure, collectDeps r s id = .ok closure ∧ closure.Nodup ∧
          ShowsAll r s closure (tree r s id none) ∧
          (s.Legible →
            PrintsAll r s closure (Commands.lines ((tree r s id none).map TreeLine.text)))) ∧
        ∀ lines, Shows r s none [] 0 [id] lines ↔ lines = tree r s id none) ∧
    ∀ t c root opts (res : Resolution) (id : PackageId),
      (Resolution.resolveAt t c root opts).1 = .ok res → res.roots.head? = some id →
        res.project.packages.length ≤ 2 ^ 32 →
        ∃ closure, collectDeps res.project.registry res.session id = .ok closure ∧ closure.Nodup ∧
          PrintsAll res.project.registry res.session closure (Commands.printTree none res) := by
  refine ⟨fun r t ops a s id h hid => ⟨?_, fun lines => shows_iff⟩, ?_⟩
  · have hs := (steps_run_resolve h).consistent (.start r t)
    have made := (finished_of_resolve (run_consistent r t ops) h).made
    obtain ⟨closure, found, nodup, all⟩ := exists_showsAll hs made hid
    exact ⟨closure, found, nodup, all, fun legible => all.printsAll nodup legible⟩
  · intro t c root opts res id h first few
    have rooted := Resolution.rooted_of_resolveAt h first
    obtain ⟨closure, found, nodup, all⟩ :=
      exists_showsAll rooted.consistent rooted.made rooted.registered
    rw [Resolution.printTree_eq first]
    exact ⟨closure, found, nodup, all.printsAll nodup (rooted.legible few)⟩

/-- The session of `circle` after `a` was added and resolution succeeded. -/
def circleResolved : Session := (resolve Project.circle.registry (runOn .circle [.addRoot "a"])).2

/-- What is printed for `a`. -/
def circleText : List String :=
  ["@local/a", "├── @local/b", "│   ├── @local/d", "├── @local/c", "│   ├── @local/d (*)",
    "│   ├── @local/a (*)"]

/-- The packages `a`, `b`, `c` and `d` in that session. -/
def circleMember (index : Fin 4) : Member :=
  ⟨.ofIndex index, Project.circle.packages[index], #[[⟨"local", "b"⟩, ⟨"local", "c"⟩],
    [⟨"local", "d"⟩], [⟨"local", "d"⟩, ⟨"local", "a"⟩], []][index], .loaded [] [] none⟩

/-- What `c` depends on stands above it, so both lines are marked. -/
theorem tree_circle : tree Project.circle.registry circleResolved (.ofIndex 0) none =
    [⟨0, circleMember 0, false⟩, ⟨1, circleMember 1, false⟩, ⟨2, circleMember 3, false⟩,
      ⟨1, circleMember 2, false⟩, ⟨2, circleMember 3, true⟩, ⟨2, circleMember 0, true⟩] := by
  refine .symm (shows_iff.1 ?_)
  exact .expand [.ofIndex 1, .ofIndex 2] rfl (by decide) (by decide) (by decide)
    (.expand [.ofIndex 3] rfl (by decide) (by decide) (by decide)
      (.expand [] rfl (by decide) (by decide) (by decide) .done .done)
      (.expand [.ofIndex 3, .ofIndex 0] rfl (by decide) (by decide) (by decide)
        (.again rfl (by decide) (by decide) (.again rfl (by decide) (by decide) .done)) .done)) .done

theorem tree_agrees_with_closure_circle :
    ((resolve Project.circle.registry (runOn .circle [.addRoot "a"])).1 = .ok ⟨3, 4, 0⟩ ∧
      circleResolved.isRegistered (.ofIndex 0) = true ∧ circleResolved.Legible ∧
      (tree Project.circle.registry circleResolved (.ofIndex 0) none).map TreeLine.text =
        circleText ∧
      ShowsAll Project.circle.registry circleResolved
        [.ofIndex 0, .ofIndex 1, .ofIndex 3, .ofIndex 2]
        (tree Project.circle.registry circleResolved (.ofIndex 0) none) ∧
      PrintsAll Project.circle.registry circleResolved
        [.ofIndex 0, .ofIndex 1, .ofIndex 3, .ofIndex 2] (Commands.lines circleText)) ∧
    ∃ res, Resolution.runKnotted = .ok res ∧ res.project.packages.length = 2 ∧
      ∃ closure, collectDeps res.project.registry res.session (.ofIndex 0) = .ok closure ∧
        closure.Nodup ∧
        PrintsAll res.project.registry res.session closure (Commands.printTree none res) := by
  have ok : (resolve Project.circle.registry (runOn .circle [.addRoot "a"])).1 =
      .ok ⟨3, 4, 0⟩ := by
    decide
  have registered : circleResolved.isRegistered (.ofIndex 0) = true := by decide
  have readable : ∀ m ∈ circleResolved.members,
      Descriptor.parse m.package.descriptor.display "" = .ok m.package.descriptor := by
    decide +kernel
  have legible : circleResolved.Legible :=
    ⟨fun m hm => Descriptor.parse_display_iff_isPrintable.1 (readable m hm), by decide +kernel⟩
  have texts : (tree Project.circle.registry circleResolved (.ofIndex 0) none).map TreeLine.text =
      circleText := by
    rw [tree_circle]
    decide
  obtain ⟨sessions, files⟩ := tree_agrees_with_closure
  obtain ⟨⟨closure, found, -, all, prints⟩, -⟩ :=
    sessions Project.circle.registry ⟨"t", "arm", [], []⟩ [.addRoot "a"] _ circleResolved _
      (Prod.ext ok rfl) registered
  obtain rfl : [.ofIndex 0, .ofIndex 1, .ofIndex 3, .ofIndex 2] = closure := by
    rw [← all.unmarked, tree_circle]
    rfl
  obtain ⟨res, run, first, two⟩ := Resolution.exists_runKnotted
  exact ⟨⟨ok, registered, legible, texts, all, texts ▸ prints legible⟩, res, run, two,
    files _ _ _ _ res _ run first (by rw [two]; decide)⟩

end Session
end PackageResolution

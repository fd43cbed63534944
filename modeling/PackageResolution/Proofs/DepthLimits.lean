import PackageResolution.Proofs.PrintedTrees
import PackageResolution.Proofs.Quiescence
import PackageResolution.Proofs.Trees
/-!
# Trees down to a depth

A tree that is shown down to a depth names nothing that is farther from its root. It need not name
all that is near enough. Printing goes depth first and can meet a package at the limit, where nothing
is shown beneath it, and from then on the package counts as shown. Met once more on a shorter way, it
is marked, and what lies beneath it is left out although it is within the limit.

Main statement: `names_near_iff`.
-/
namespace PackageResolution

/-- A project of four packages in which a longer way to `c` comes first: `a` depends on `b` and `c`,
`b` on `c`, and `c` on `d`. -/
def Project.detour : Project := .holding "detour" "detour" [
  ⟨"a", Descriptor.localRepo, "detour/a", none, ({} : Settings).add .deps ["b", "c"]⟩,
  ⟨"b", Descriptor.localRepo, "detour/b", none, ({} : Settings).add .deps ["c"]⟩,
  ⟨"c", Descriptor.localRepo, "detour/c", none, ({} : Settings).add .deps ["d"]⟩,
  ⟨"d", Descriptor.localRepo, "detour/d", none, {}⟩]

namespace Session

variable {r : Registry} {s s' : Session} {limit : Option Nat} {shown ids : List PackageId}
  {root id : PackageId} {depth d : Nat} {lines : List TreeLine}

/-! ## Distances -/

/-- Recorded dependencies lead from `root` to an identity in a number of steps. -/
inductive Walk (r : Registry) (s : Session) (root : PackageId) : Nat → PackageId → Prop
  | start : Walk r s root 0 root
  | step {n : Nat} {x y : PackageId} {d : Descriptor} (h : Walk r s root n x)
      (hd : s.records x d = true) (hr : r.resolve d = some y) : Walk r s root (n + 1) y

/-- The number of steps of a shortest way. -/
def IsDistance (r : Registry) (s : Session) (root id : PackageId) (n : Nat) : Prop :=
  Walk r s root n id ∧ ∀ k, Walk r s root k id → n ≤ k

/-- What is at most `d` steps away. -/
def Near (r : Registry) (s : Session) (root : PackageId) (d : Nat) (id : PackageId) : Prop :=
  ∃ n ≤ d, IsDistance r s root id n

theorem exists_isDistance {k : Nat} (h : Walk r s root k id) :
    ∃ n ≤ k, IsDistance r s root id n := by
  induction k using Nat.strong_induction_on with
  | _ k shorter =>
    by_cases shortest : ∀ j, Walk r s root j id → k ≤ j
    · exact ⟨k, le_rfl, h, shortest⟩
    · push Not at shortest
      obtain ⟨j, hj, less⟩ := shortest
      obtain ⟨n, hn, distance⟩ := shorter j less hj
      exact ⟨n, by omega, distance⟩

theorem near_of_walk {k : Nat} (h : Walk r s root k id) (hk : k ≤ d) : Near r s root d id := by
  obtain ⟨n, hn, distance⟩ := exists_isDistance h
  exact ⟨n, by omega, distance⟩

theorem Walk.leads {n : Nat} {x : PackageId} {m : Member} (h : Walk r s root n x)
    (hm : s.member? x = some m) {y : PackageId} (hy : y ∈ m.leads r) : Walk r s root (n + 1) y := by
  obtain ⟨dep, hd, hr⟩ := (mem_leads_iff hm).1 hy
  exact .step h hd hr

/-! ## What lines name -/

/-- A line stands for the package. -/
def Names (lines : List TreeLine) (id : PackageId) : Prop := ∃ l ∈ lines, l.member.id = id

theorem Names.append_left (more : List TreeLine) (h : Names lines id) : Names (more ++ lines) id := by
  obtain ⟨l, hl, e⟩ := h
  exact ⟨l, List.mem_append_right more hl, e⟩

theorem Names.append_right (more : List TreeLine) (h : Names lines id) : Names (lines ++ more) id := by
  obtain ⟨l, hl, e⟩ := h
  exact ⟨l, List.mem_append_left more hl, e⟩

theorem Names.cons (l : TreeLine) (h : Names lines id) : Names (l :: lines) id :=
  h.append_left [l]

namespace Shows

/-- The depth of a line is the number of steps on the way by which its package was met. -/
theorem walk (h : Shows r s limit shown depth ids lines)
    (walks : ∀ x ∈ ids, Walk r s root depth x) : ∀ l ∈ lines, Walk r s root l.depth l.member.id := by
  induction h with
  | done => simp
  | tooDeep _ _ ih => exact ih (List.forall_mem_cons.1 walks).2
  | absent _ _ _ ih => exact ih (List.forall_mem_cons.1 walks).2
  | again _ hm _ _ ih =>
    obtain ⟨here, rest⟩ := List.forall_mem_cons.1 walks
    exact List.forall_mem_cons.2 ⟨id_of_member? hm ▸ here, ih rest⟩
  | fresh _ hm _ _ _ under_ih beside_ih =>
    obtain ⟨here, rest⟩ := List.forall_mem_cons.1 walks
    rw [List.cons_append, List.forall_mem_cons, List.forall_mem_append]
    exact ⟨id_of_member? hm ▸ here, under_ih fun y hy => here.leads hm hy, beside_ih rest⟩

/-- Within the limit whatever has a member is named. -/
theorem names (h : Shows r s limit shown depth ids lines) (near : limit.any (· < depth) = false) :
    ∀ x ∈ ids, (∃ m, s.member? x = some m) → Names lines x := by
  induction h with
  | done => simp
  | tooDeep deep _ _ => rw [near] at deep; cases deep
  | absent _ hm _ ih =>
    refine List.forall_mem_cons.2 ⟨?_, ih near⟩
    rintro ⟨m, hm'⟩
    rw [hm] at hm'
    cases hm'
  | again _ hm _ _ ih =>
    refine List.forall_mem_cons.2 ⟨fun _ => ?_, fun x hx made => (ih near x hx made).cons _⟩
    exact ⟨_, List.mem_cons_self, id_of_member? hm⟩
  | fresh _ hm _ _ _ _ ih =>
    refine List.forall_mem_cons.2 ⟨fun _ => ?_, fun x hx made => (ih near x hx made).append_left _⟩
    exact ⟨_, List.mem_cons_self, id_of_member? hm⟩

/-- A package that is named was shown before, or one of the lines is not marked. -/
theorem mem_followed (h : Shows r s limit shown depth ids lines) :
    ∀ l ∈ lines, l.member.id ∈ shown ++ followed lines := by
  induction h with
  | done => simp
  | tooDeep _ _ ih => exact ih
  | absent _ _ _ ih => exact ih
  | again _ hm old _ ih =>
    refine List.forall_mem_cons.2 ⟨?_, ih⟩
    rw [id_of_member? hm]
    exact List.mem_append_left _ old
  | @fresh shown rest depth id m below lines _ hm _ _ _ under_ih beside_ih =>
    obtain rfl := id_of_member? hm
    have all : shown ++ followed (⟨depth, m, false⟩ :: (below ++ lines)) =
        shown ++ m.id :: followed below ++ followed lines := by simp
    rw [List.cons_append, all, List.forall_mem_cons, List.forall_mem_append]
    refine ⟨by simp, fun l hl => ?_, beside_ih⟩
    have := under_ih l hl
    rw [List.append_assoc, List.singleton_append] at this
    exact List.mem_append_left _ this

/-- What a package leads to is named if the package is shown for the first time above the limit. -/
theorem names_leads (h : Shows r s (some d) shown depth ids lines) :
    ∀ l ∈ lines, l.repeated = false → l.depth < d →
      ∀ y ∈ l.member.leads r, (∃ m, s.member? y = some m) → Names lines y := by
  induction h with
  | done => simp
  | tooDeep _ _ ih => exact ih
  | absent _ _ _ ih => exact ih
  | again _ _ _ _ ih =>
    refine List.forall_mem_cons.2 ⟨nofun, fun l hl first above y hy made => ?_⟩
    exact (ih l hl first above y hy made).cons _
  | @fresh shown rest depth id m below lines _ hm _ under _ under_ih beside_ih =>
    rw [List.cons_append, List.forall_mem_cons, List.forall_mem_append]
    refine ⟨fun _ above y hy made => ?_, fun l hl first above y hy made => ?_,
      fun l hl first above y hy made => ?_⟩
    · have near : (some d).any (· < depth + 1) = false := by simpa [Nat.succ_le_iff] using above
      exact ((under.names near y hy made).append_right _).cons _
    · exact ((under_ih l hl first above y hy made).append_right _).cons _
    · exact ((beside_ih l hl first above y hy made).append_left _).cons _

end Shows

/-! ## What is left out -/

/-- Whatever is shown for the first time at the limit, although it is nearer, leads only to packages
that are named. -/
def NothingHidden (r : Registry) (s : Session) (root : PackageId) (d : Nat)
    (lines : List TreeLine) : Prop :=
  ∀ l ∈ lines, l.repeated = false → l.depth = d →
    (∃ n < d, IsDistance r s root l.member.id n) → ∀ y ∈ l.member.leads r, Names lines y

theorem Shows.near (h : Shows r s (some d) [] 0 [root] lines) (hid : Names lines id) :
    Near r s root d id := by
  obtain ⟨l, hl, rfl⟩ := hid
  have start : ∀ x ∈ [root], Walk r s root 0 x := by
    intro x hx
    rw [List.mem_singleton.1 hx]
    exact .start
  exact near_of_walk (h.walk start l hl) (h.depth_le_limit hl)

/-- Where nothing is hidden, all that is near enough is named: on the way to it each package is
shown for the first time above the limit, or at the limit and hides nothing. -/
theorem Shows.names_of_walk (populated : Populated r s)
    (h : Shows r s (some d) [] 0 [root] lines) (hm : ∃ m, s.member? root = some m)
    (nothing : NothingHidden r s root d lines) {n : Nat} (walk : Walk r s root n id) (hn : n ≤ d) :
    Names lines id := by
  induction walk with
  | start => exact h.names (by simp) root List.mem_cons_self hm
  | @step n x y dep before hd hr ih =>
    obtain ⟨l, hl, rfl⟩ := ih (by omega)
    obtain ⟨first, hfirst, fresh, same⟩ := mem_followed_iff.1 (h.mem_followed l hl)
    have hx := h.member_eq hfirst
    have leads : y ∈ first.member.leads r := (mem_leads_iff hx).2 ⟨dep, same ▸ hd, hr⟩
    have limit := h.depth_le_limit hfirst
    by_cases above : first.depth < d
    · exact h.names_leads first hfirst fresh above y leads (populated _ _ hx y leads)
    · obtain ⟨k, hk, distance⟩ := exists_isDistance before
      exact nothing first hfirst fresh (by omega) ⟨k, by omega, same ▸ distance⟩ y leads

/-- A tree names nothing that is too far away, and all that is near exactly if nothing is hidden. -/
theorem names_near_of_made (hs : Consistent r s) (made : s.Made) (hid : s.isRegistered root = true)
    (d : Nat) : (∀ id, Names (tree r s root (some d)) id → Near r s root d id) ∧
      ((∀ id, Names (tree r s root (some d)) id ↔ Near r s root d id) ↔
        NothingHidden r s root d (tree r s root (some d))) := by
  have shows : Shows r s (some d) [] 0 [root] (tree r s root (some d)) := shows_iff.2 rfl
  refine ⟨fun id => shows.near, ?_, fun nothing id => ⟨shows.near, ?_⟩⟩
  · rintro all l hl - - ⟨n, hn, distance⟩ y hy
    have further := distance.1.leads (shows.member_eq hl) hy
    exact (all y).2 (near_of_walk further hn)
  · rintro ⟨n, hn, walk, -⟩
    exact shows.names_of_walk (populated_of_made hs made) (Option.isSome_iff_exists.1 hid) nothing
      walk hn

/-! ## The tree as it is printed -/

/-- The names that are read in a text. -/
def printedNames (text : String) : List String := (PrintedLine.readAll text).map PrintedLine.name

/-- A package is named in the text of a tree if a line of the tree stands for it. -/
theorem mem_printedNames_iff (legible : s.Legible) {m : Member} (hm : s.member? m.id = some m) :
    m.display ∈ printedNames (Commands.lines ((tree r s root limit).map TreeLine.text)) ↔
      Names (tree r s root limit) m.id := by
  have shows : Shows r s limit [] 0 [root] (tree r s root limit) := shows_iff.2 rfl
  rw [printedNames, legible.readAll_tree, List.map_map, List.mem_map]
  constructor
  · rintro ⟨l, hl, same⟩
    exact ⟨l, hl, legible.id_eq (mem_of_member? (shows.member_eq hl)) (mem_of_member? hm) same⟩
  · rintro ⟨l, hl, same⟩
    have own := shows.member_eq hl
    rw [same, hm] at own
    obtain rfl := Option.some.inj own
    exact ⟨l, hl, rfl⟩

/-- What is near has a member. -/
theorem Near.exists_member (hs : Consistent r s) (made : s.Made) (hid : s.isRegistered root = true)
    (h : Near r s root d id) : ∃ m, s.member? id = some m := by
  obtain ⟨n, -, walk, -⟩ := h
  induction walk with
  | start => exact Option.isSome_iff_exists.1 hid
  | @step n x y dep before hd hr ih =>
    obtain ⟨m, hm⟩ := ih
    exact populated_of_made hs made x m hm y ((mem_leads_iff hm).2 ⟨dep, hd, hr⟩)

/-- To ask for the members alone is to ask for all. -/
theorem forall_member_iff (hs : Consistent r s) (made : s.Made) (hid : s.isRegistered root = true) :
    (∀ m, s.member? m.id = some m → (Names (tree r s root (some d)) m.id ↔ Near r s root d m.id)) ↔
      ∀ id, Names (tree r s root (some d)) id ↔ Near r s root d id := by
  have shows : Shows r s (some d) [] 0 [root] (tree r s root (some d)) := shows_iff.2 rfl
  refine ⟨fun each id => ⟨shows.near, fun near => ?_⟩, fun all m _ => all m.id⟩
  obtain ⟨m, hm⟩ := near.exists_member hs made hid
  obtain rfl := id_of_member? hm
  exact (each m hm).2 near

/-- **`names_near_iff`**: after operations and a resolution that succeeds, the tree of a registered
package down to the depth `d` names nothing that is more than `d` steps away. It names all that is at
most `d` steps away exactly if nothing is hidden behind what is met at the limit first. Where the
packages' names can be told apart the text of the tree names the same, and so does what a run from
files prints for its first root. -/
theorem names_near_iff (d : Nat) :
    (∀ (r : Registry) (t : Target) (ops : List Operation) (a : Summary) (s : Session)
      (root : PackageId), resolve r (run r t ops) = (.ok a, s) → s.isRegistered root = true →
        (∀ id, Names (tree r s root (some d)) id → Near r s root d id) ∧
        ((∀ id, Names (tree r s root (some d)) id ↔ Near r s root d id) ↔
          NothingHidden r s root d (tree r s root (some d))) ∧
        (s.Legible → ∀ m, s.member? m.id = some m →
          (m.display ∈ printedNames (Commands.lines ((tree r s root (some d)).map TreeLine.text)) ↔
            Names (tree r s root (some d)) m.id))) ∧
    ∀ t c dir opts (res : Resolution) (root : PackageId),
      (Resolution.resolveAt t c dir opts).1 = .ok res → res.roots.head? = some root →
        res.project.packages.length ≤ 2 ^ 32 →
        let names := printedNames (Commands.printTree (some d) res)
        (∀ m, res.session.member? m.id = some m → m.display ∈ names →
          Near res.project.registry res.session root d m.id) ∧
        ((∀ m, res.session.member? m.id = some m →
            (m.display ∈ names ↔ Near res.project.registry res.session root d m.id)) ↔
          NothingHidden res.project.registry res.session root d
            (tree res.project.registry res.session root (some d))) := by
  constructor
  · intro r t ops a s root h hid
    have hs := (steps_run_resolve h).consistent (.start r t)
    have made := (finished_of_resolve (run_consistent r t ops) h).made
    obtain ⟨near, iff⟩ := names_near_of_made hs made hid d
    exact ⟨near, iff, fun legible m hm => mem_printedNames_iff legible hm⟩
  · intro t c dir opts res root h first few
    obtain ⟨hs, made, hid, legible⟩ := Resolution.rooted_of_resolveAt h first
    obtain ⟨near, iff⟩ := names_near_of_made hs made hid d
    have named {m : Member} (hm : res.session.member? m.id = some m) :
        m.display ∈ printedNames (Commands.printTree (some d) res) ↔
          Names (tree res.project.registry res.session root (some d)) m.id := by
      rw [Resolution.printTree_eq first]
      exact mem_printedNames_iff (legible few) hm
    refine ⟨fun m hm printed => near m.id ((named hm).1 printed), ?_⟩
    rw [← iff, ← forall_member_iff hs made hid]
    exact forall₂_congr fun m hm => by rw [named hm]

/-- The session of `detour` after `a` was added and resolution succeeded. -/
def detourResolved : Session := (resolve Project.detour.registry (runOn .detour [.addRoot "a"])).2

/-- The tree of `a` down to a depth. -/
def detourTree (d : Nat) : List TreeLine :=
  tree Project.detour.registry detourResolved (.ofIndex 0) (some d)

/-- The packages `a`, `b`, `c` and `d` in that session. -/
def detourMember (index : Fin 4) : Member :=
  ⟨.ofIndex index, Project.detour.packages[index], #[[⟨"local", "b"⟩, ⟨"local", "c"⟩],
    [⟨"local", "c"⟩], [⟨"local", "d"⟩], []][index], .loaded [] [] none⟩

/-- Down to the depth 3 the package at the limit is `d`, which has no dependencies. -/
theorem detourTree_three : detourTree 3 =
    [⟨0, detourMember 0, false⟩, ⟨1, detourMember 1, false⟩, ⟨2, detourMember 2, false⟩,
      ⟨3, detourMember 3, false⟩, ⟨1, detourMember 2, true⟩] := by
  refine .symm (shows_iff.1 ?_)
  exact .expand [.ofIndex 1, .ofIndex 2] rfl (by decide) (by decide) (by decide)
    (.expand [.ofIndex 2] rfl (by decide) (by decide) (by decide)
      (.expand [.ofIndex 3] rfl (by decide) (by decide) (by decide)
        (.expand [] rfl (by decide) (by decide) (by decide) .done .done) .done)
      (.again rfl (by decide) (by decide) .done)) .done

/-- Down to the depth 2 what is beneath `c` is cut off where `c` is met first, under `b`, and passed
over where it is met once more, under `a`. -/
theorem detourTree_two : detourTree 2 =
    [⟨0, detourMember 0, false⟩, ⟨1, detourMember 1, false⟩, ⟨2, detourMember 2, false⟩,
      ⟨1, detourMember 2, true⟩] := by
  refine .symm (shows_iff.1 ?_)
  exact .expand [.ofIndex 1, .ofIndex 2] rfl (by decide) (by decide) (by decide)
    (.expand [.ofIndex 2] rfl (by decide) (by decide) (by decide)
      (.expand [.ofIndex 3] rfl (by decide) (by decide) (by decide) (.tooDeep rfl .done) .done)
      (.again rfl (by decide) (by decide) .done)) .done

theorem names_near_iff_detour :
    ((resolve Project.detour.registry (runOn .detour [.addRoot "a"])).1 = .ok ⟨3, 4, 0⟩ ∧
      detourResolved.isRegistered (.ofIndex 0) = true ∧
      NothingHidden Project.detour.registry detourResolved (.ofIndex 0) 3 (detourTree 3) ∧
      ∀ id, Names (detourTree 3) id ↔
        Near Project.detour.registry detourResolved (.ofIndex 0) 3 id) ∧
    ∃ res, Resolution.runKnotted = .ok res ∧ res.project.packages.length = 2 ∧
      ∀ m, res.session.member? m.id = some m →
        m.display ∈ printedNames (Commands.printTree (some 1) res) →
          Near res.project.registry res.session (.ofIndex 0) 1 m.id := by
  have ok : (resolve Project.detour.registry (runOn .detour [.addRoot "a"])).1 = .ok ⟨3, 4, 0⟩ := by
    decide
  have registered : detourResolved.isRegistered (.ofIndex 0) = true := by decide
  have last : ∀ l ∈ detourTree 3, l.depth = 3 → l.member.deps = [] := by
    rw [detourTree_three]
    decide
  have nothing :
      NothingHidden Project.detour.registry detourResolved (.ofIndex 0) 3 (detourTree 3) := by
    intro l hl _ limit _ y hy
    simp [Member.leads, last l hl limit] at hy
  have all := ((names_near_iff 3).1 Project.detour.registry ⟨"t", "arm", [], []⟩ [.addRoot "a"] _
    detourResolved _ (Prod.ext ok rfl) registered).2.1.2 nothing
  obtain ⟨res, run, first, two⟩ := Resolution.exists_runKnotted
  exact ⟨⟨ok, registered, nothing, all⟩, res, run, two,
    ((names_near_iff 1).2 _ _ _ _ res _ run first (by rw [two]; decide)).1⟩

/-- The package `d` is two steps from `a`, and down to the depth 2 no line names it. -/
theorem not_names_near_detour :
    (resolve Project.detour.registry (runOn .detour [.addRoot "a"])).1 = .ok ⟨3, 4, 0⟩ ∧
      detourResolved.isRegistered (.ofIndex 0) = true ∧
      (detourTree 2).map TreeLine.text =
        ["@local/a", "├── @local/b", "│   ├── @local/c", "├── @local/c (*)"] ∧
      ¬ ∀ id, Names (detourTree 2) id ↔
        Near Project.detour.registry detourResolved (.ofIndex 0) 2 id := by
  have texts : (detourTree 2).map TreeLine.text =
      ["@local/a", "├── @local/b", "│   ├── @local/c", "├── @local/c (*)"] := by
    rw [detourTree_two]
    decide
  have others : ∀ l ∈ detourTree 2, l.member.id ≠ .ofIndex 3 := by
    rw [detourTree_two]
    decide
  have near : Near Project.detour.registry detourResolved (.ofIndex 0) 2 (.ofIndex 3) := by
    have first : Walk Project.detour.registry detourResolved (.ofIndex 0) 1 (.ofIndex 2) :=
      .step (d := ⟨"local", "c"⟩) .start (by decide) (by decide)
    have second : Walk Project.detour.registry detourResolved (.ofIndex 0) 2 (.ofIndex 3) :=
      .step (d := ⟨"local", "d"⟩) first (by decide) (by decide)
    exact near_of_walk second le_rfl
  refine ⟨by decide, by decide, texts, fun all => ?_⟩
  obtain ⟨l, hl, e⟩ := (all (.ofIndex 3)).2 near
  exact others l hl e

end Session
end PackageResolution

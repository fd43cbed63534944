import PackageResolution.Proofs.Reached
import PackageResolution.Proofs.Registration
import Mathlib.Data.List.Basic
/-!
# Dependency closures

The closure of a package is found by following recorded dependencies depth first. `Discovers` says
what that means without a list of things to do: a package is discovered, then all that is below it,
dependency by dependency, and only then what stands beside it. Circles end because nothing is
discovered twice.

Following dependencies can stop only at an identity that was registered and has no member: whatever
is recorded was answered by the registry when it was recorded.

Main statement: `collectDeps_closure`.
-/
namespace PackageResolution

/-- What the recorded dependencies lead to, in the order in which they are recorded. -/
def Member.leads (r : Registry) (m : Member) : List PackageId := m.deps.filterMap r.resolve

/-- A project of four packages that depend on each other: `a` on `b` and `c`, `b` on `d`, and `c` on
`d` and back on `a`. -/
def Project.circle : Project := .holding "circle" "circle" [
  ⟨"a", Descriptor.localRepo, "circle/a", none, ({} : Settings).add .deps ["b", "c"]⟩,
  ⟨"b", Descriptor.localRepo, "circle/b", none, ({} : Settings).add .deps ["d"]⟩,
  ⟨"c", Descriptor.localRepo, "circle/c", none, ({} : Settings).add .deps ["d", "a"]⟩,
  ⟨"d", Descriptor.localRepo, "circle/d", none, {}⟩]

namespace Session

variable {r : Registry} {F : Set String} {P Q : Set PackageId} {s s' : Session} {id : PackageId}

/-- Depth first, the identities of the second list and what is below them lead past the seen ones to
those of the third, in this order. -/
inductive Discovers (r : Registry) (s : Session) :
    List PackageId → List PackageId → List PackageId → Prop
  | done {seen : List PackageId} : Discovers r s seen [] []
  | again {seen rest found : List PackageId} {id : PackageId} (h : id ∈ seen)
      (beside : Discovers r s seen rest found) : Discovers r s seen (id :: rest) found
  | fresh {seen rest below found : List PackageId} {id : PackageId} {m : Member} (h : id ∉ seen)
      (hm : s.member? id = some m) (under : Discovers r s (seen ++ [id]) (m.leads r) below)
      (beside : Discovers r s (seen ++ id :: below) rest found) :
      Discovers r s seen (id :: rest) (id :: below ++ found)

namespace Discovers

variable {seen ids found : List PackageId}

theorem unique {found' : List PackageId} (h : Discovers r s seen ids found)
    (h' : Discovers r s seen ids found') : found = found' := by
  induction h generalizing found' with
  | done =>
    cases h'
    rfl
  | again h _ ih =>
    cases h' with
    | again _ beside' => exact ih beside'
    | fresh new _ _ _ => exact absurd h new
  | fresh h hm _ _ under_ih beside_ih =>
    cases h' with
    | again old _ => exact absurd old h
    | fresh _ hm' under' beside' =>
      obtain rfl := Option.some.inj (hm.symm.trans hm')
      obtain rfl := under_ih under'
      obtain rfl := beside_ih beside'
      rfl

/-- What stands at the front of the list is discovered before the rest. -/
theorem split {front back : List PackageId} (h : Discovers r s seen (front ++ back) found) :
    ∃ first later, found = first ++ later ∧ Discovers r s seen front first ∧
      Discovers r s (seen ++ first) back later := by
  induction front generalizing seen found with
  | nil => exact ⟨[], found, rfl, .done, by simpa using h⟩
  | cons id front ih =>
    cases h with
    | again old beside =>
      obtain ⟨first, later, rfl, hfirst, hlater⟩ := ih beside
      exact ⟨first, later, rfl, .again old hfirst, hlater⟩
    | @fresh _ _ below _ _ m new hm under beside =>
      obtain ⟨first, later, rfl, hfirst, hlater⟩ := ih beside
      exact ⟨id :: below ++ first, later, by simp, .fresh new hm under hfirst, by simpa using hlater⟩

theorem nodup (h : Discovers r s seen ids found) : found.Nodup ∧ ∀ x ∈ found, x ∉ seen := by
  induction h with
  | done => simp
  | again _ _ ih => exact ih
  | @fresh seen rest below found id m new _ _ _ under_ih beside_ih =>
    obtain ⟨below_nodup, below_new⟩ := under_ih
    obtain ⟨found_nodup, found_new⟩ := beside_ih
    simp only [List.mem_append, List.mem_cons, not_or] at below_new found_new
    refine ⟨List.nodup_append.2 ⟨List.nodup_cons.2 ⟨?_, below_nodup⟩, found_nodup, ?_⟩, ?_⟩
    · exact fun hid => (below_new id hid).2.1 rfl
    · rintro x hx y hy rfl
      rcases List.mem_cons.1 hx with rfl | hx
      · exact (found_new x hy).2.1 rfl
      · exact (found_new x hy).2.2 hx
    · intro x hx
      rcases List.mem_append.1 hx with hx | hx
      · rcases List.mem_cons.1 hx with rfl | hx
        · exact new
        · exact (below_new x hx).1
      · exact (found_new x hx).1

/-- Nothing of the list is left out. -/
theorem covers (h : Discovers r s seen ids found) : ∀ x ∈ ids, x ∈ seen ++ found := by
  induction h with
  | done => simp
  | again old _ ih => exact List.forall_mem_cons.2 ⟨List.mem_append_left _ old, ih⟩
  | fresh _ _ _ _ _ beside_ih =>
    refine List.forall_mem_cons.2 ⟨by simp, fun x hx => ?_⟩
    have := beside_ih x hx
    simp only [List.mem_append, List.mem_cons] at this ⊢
    tauto

/-- What is discovered has a member, and all that the member leads to is discovered. -/
theorem closed (h : Discovers r s seen ids found) :
    ∀ x ∈ found, ∃ m, s.member? x = some m ∧ ∀ y ∈ m.leads r, y ∈ seen ++ found := by
  induction h with
  | done => simp
  | again _ _ ih => exact ih
  | @fresh seen rest below found id m new hm under _ under_ih beside_ih =>
    have wider : ∀ y, y ∈ seen ++ [id] ++ below → y ∈ seen ++ (id :: below ++ found) := by
      intro y hy
      simp only [List.mem_append, List.mem_cons, List.not_mem_nil, or_false] at hy ⊢
      tauto
    intro x hx
    rcases List.mem_append.1 hx with hx | hx
    · rcases List.mem_cons.1 hx with rfl | hx
      · exact ⟨m, hm, fun y hy => wider y (under.covers y hy)⟩
      · obtain ⟨m', hm', leads⟩ := under_ih x hx
        exact ⟨m', hm', fun y hy => wider y (leads y hy)⟩
    · obtain ⟨m', hm', leads⟩ := beside_ih x hx
      exact ⟨m', hm', fun y hy => by simpa using leads y hy⟩

end Discovers

theorem Discovers.expand {seen rest below found : List PackageId} (next : List PackageId)
    (h : id ∉ seen) (leads : (s.member? id).map (·.leads r) = some next)
    (under : Discovers r s (seen ++ [id]) next below)
    (beside : Discovers r s (seen ++ id :: below) rest found) :
    Discovers r s seen (id :: rest) (id :: below ++ found) := by
  obtain ⟨m, hm, rfl⟩ := Option.map_eq_some_iff.1 leads
  exact .fresh h hm under beside

/-! ## Discovered and reached -/

theorem Reached.trans (h : Reached r s P id) (roots : ∀ x ∈ P, Reached r s Q x) :
    Reached r s Q id := by
  induction h with
  | root h => exact roots _ h
  | dep _ hd hr ih => exact .dep ih hd hr

theorem mem_leads_iff {m : Member} (hm : s.member? id = some m) {x : PackageId} :
    x ∈ m.leads r ↔ ∃ d, s.records id d = true ∧ r.resolve d = some x := by
  simp only [Member.leads, List.mem_filterMap, records_of_member? hm]

theorem reached_of_leads {m : Member} (hm : s.member? id = some m) {x : PackageId}
    (hx : x ∈ m.leads r) : Reached r s {id} x := by
  obtain ⟨d, hd, hr⟩ := (mem_leads_iff hm).1 hx
  exact .dep (.root rfl) hd hr

theorem Discovers.reached {seen ids found : List PackageId} (h : Discovers r s seen ids found) :
    ∀ x ∈ found, Reached r s {y | y ∈ ids} x := by
  induction h with
  | done => simp
  | again _ _ ih => exact fun x hx => (ih x hx).trans fun y hy => .root (List.mem_cons_of_mem _ hy)
  | @fresh seen rest below found id m _ hm _ _ under_ih beside_ih =>
    have here : ∀ y ∈ ({id} : Set PackageId), Reached r s {z | z ∈ id :: rest} y := by
      rintro y rfl
      exact .root List.mem_cons_self
    intro x hx
    rcases List.mem_append.1 hx with hx | hx
    · rcases List.mem_cons.1 hx with rfl | hx
      · exact here x rfl
      · exact (under_ih x hx).trans fun y hy => (reached_of_leads hm hy).trans here
    · exact (beside_ih x hx).trans fun y hy => .root (List.mem_cons_of_mem _ hy)

/-! ## The search -/

section

variable {seen ids : List PackageId} {owner : String} {d : Descriptor}
  {rest : List (String × Descriptor)}

theorem explore_of_seen (hid : r.resolve d = some id) (h : id ∈ seen) :
    explore r s seen ((owner, d) :: rest) = explore r s seen rest := by
  rw [explore]
  simp only [hid, h, if_true]

theorem explore_of_absent (hid : r.resolve d = some id) (h : id ∉ seen) (hm : s.member? id = none) :
    explore r s seen ((owner, d) :: rest) = .error (.notRegistered (r.describe id)) := by
  rw [explore]
  simp only [hid, h, if_false]
  split
  · rfl
  · next m hm' => rw [hm] at hm'; cases hm'

theorem explore_of_member {m : Member} (hid : r.resolve d = some id) (h : id ∉ seen)
    (hm : s.member? id = some m) :
    explore r s seen ((owner, d) :: rest) =
      explore r s (seen ++ [id]) (m.deps.map (m.display, ·) ++ rest) := by
  rw [explore]
  simp only [hid, h, if_false]
  split
  · next hm' => rw [hm] at hm'; cases hm'
  · next m' hm' =>
    obtain rfl := Option.some.inj (hm.symm.trans hm')
    rfl

/-- The search discovers what there is to discover, or stops at something reached that has no
member. -/
inductive Explores (r : Registry) (s : Session) (seen ids : List PackageId) :
    Except ResolutionError (List PackageId) → Prop
  | found {l : List PackageId} (h : Discovers r s seen ids l) : Explores r s seen ids (.ok (seen ++ l))
  | missing {x : PackageId} (h : Reached r s {y | y ∈ ids} x) (hx : s.member? x = none) :
      Explores r s seen ids (.error (.notRegistered (r.describe x)))

theorem Explores.again {out : Except ResolutionError (List PackageId)} (h : id ∈ seen)
    (beside : Explores r s seen ids out) : Explores r s seen (id :: ids) out := by
  cases beside with
  | found found => exact .found (.again h found)
  | missing reached hx =>
    exact .missing (reached.trans fun y hy => .root (List.mem_cons_of_mem _ hy)) hx

theorem Explores.fresh {m : Member} {out : Except ResolutionError (List PackageId)} (h : id ∉ seen)
    (hm : s.member? id = some m) (further : Explores r s (seen ++ [id]) (m.leads r ++ ids) out) :
    Explores r s seen (id :: ids) out := by
  cases further with
  | found found =>
    obtain ⟨below, later, rfl, under, beside⟩ := found.split
    have := Explores.found (.fresh h hm under (by simpa using beside))
    simpa using this
  | missing reached hx =>
    refine .missing (reached.trans fun y hy => ?_) hx
    rcases List.mem_append.1 hy with hy | hy
    · refine (reached_of_leads hm hy).trans ?_
      rintro z rfl
      exact .root List.mem_cons_self
    · exact .root (List.mem_cons_of_mem _ hy)

end

theorem Consistent.resolve_isSome (hs : Consistent r s) {m : Member} (hm : m ∈ s.members)
    {d : Descriptor} (hd : d ∈ m.deps) : (r.resolve d).isSome := by
  obtain ⟨entry, -, dep, -, -, answered⟩ := hs.found m hm d hd
  rw [answered]
  rfl

theorem explores (hs : Consistent r s) (seen : List PackageId) (todo : List (String × Descriptor))
    (answered : ∀ x ∈ todo, (r.resolve x.2).isSome) :
    Explores r s seen (todo.filterMap (r.resolve ·.2)) (explore r s seen todo) := by
  induction seen, todo using explore.induct r s with
  | case1 seen =>
    rw [explore]
    have nothing : Discovers r s seen [] [] := .done
    simpa using Explores.found nothing
  | case2 seen owner d rest none =>
    have := answered (owner, d) List.mem_cons_self
    simp [none] at this
  | case3 seen owner d rest id hid old ih =>
    rw [explore_of_seen hid old, List.filterMap_cons_some (by exact hid)]
    exact .again old (ih (List.forall_mem_cons.1 answered).2)
  | case4 seen owner d rest id hid new none =>
    rw [explore_of_absent hid new none, List.filterMap_cons_some (by exact hid)]
    exact .missing (.root List.mem_cons_self) none
  | case5 seen owner d rest id hid new m hm ih =>
    rw [explore_of_member hid new hm, List.filterMap_cons_some (by exact hid)]
    refine .fresh new hm ?_
    have known : ∀ x ∈ m.deps.map (m.display, ·) ++ rest, (r.resolve x.2).isSome := by
      intro x hx
      rcases List.mem_append.1 hx with hx | hx
      · obtain ⟨dep, hdep, rfl⟩ := List.mem_map.1 hx
        exact hs.resolve_isSome (mem_of_member? hm) hdep
      · exact answered x (List.mem_cons_of_mem _ hx)
    simpa [Member.leads, List.filterMap_append, List.filterMap_map, Function.comp_def] using ih known

/-! ## Closures -/

/-- A list is the closure of an identity: the depth-first order of what is below it, which holds
exactly what recorded dependencies lead to, each once, and the identity itself first. -/
structure IsClosure (r : Registry) (s : Session) (id : PackageId) (l : List PackageId) : Prop where
  preorder : ∀ l', Discovers r s [] [id] l' ↔ l' = l
  first : l.head? = some id
  nodup : l.Nodup
  mem_iff : ∀ x, x ∈ l ↔ Reached r s {id} x
  members : ∀ x ∈ l, ∃ m, s.member? x = some m

theorem Discovers.isClosure {l : List PackageId} (h : Discovers r s [] [id] l) :
    IsClosure r s id l where
  preorder l' := ⟨fun h' => h'.unique h, fun e => e ▸ h⟩
  first := by
    cases h with
    | again old _ => cases old
    | fresh _ _ _ _ => rfl
  nodup := h.nodup.1
  mem_iff x := by
    refine ⟨fun hx => by simpa using h.reached x hx, fun reached => ?_⟩
    refine reached.mem (Q := {y | y ∈ l}) ?_ ?_
    · rintro y rfl
      simpa using h.covers y List.mem_cons_self
    · intro y hy d hd z hz
      obtain ⟨m, hm, leads⟩ := h.closed y hy
      simpa using leads z ((mem_leads_iff hm).2 ⟨d, hd, hz⟩)
  members x hx := by
    obtain ⟨m, hm, -⟩ := h.closed x hx
    exact ⟨m, hm⟩

theorem collectDeps_of_member {m : Member} (hm : s.member? id = some m) :
    collectDeps r s id = explore r s [id] (m.deps.map (m.display, ·)) := by
  rw [collectDeps, requireMember, hm]
  rfl

theorem collectDeps_of_absent (hm : s.member? id = none) :
    collectDeps r s id = .error (.notRegistered (r.describe id)) := by
  rw [collectDeps, requireMember, hm]
  rfl

theorem collectDeps_explores (hs : Consistent r s) (id : PackageId) :
    Explores r s [] [id] (collectDeps r s id) := by
  cases hm : s.member? id with
  | none =>
    rw [collectDeps_of_absent hm]
    exact .missing (.root List.mem_cons_self) hm
  | some m =>
    have known : ∀ x ∈ m.deps.map (m.display, ·), (r.resolve x.2).isSome := by
      intro x hx
      obtain ⟨d, hd, rfl⟩ := List.mem_map.1 hx
      exact hs.resolve_isSome (mem_of_member? hm) hd
    have below := explores hs [id] _ known
    rw [collectDeps_of_member hm]
    refine .fresh List.not_mem_nil hm ?_
    simpa [Member.leads, List.filterMap_map, Function.comp_def] using below

/-- What can be discovered is what is collected. -/
theorem Discovers.collectDeps_eq {l : List PackageId} (h : Discovers r s [] [id] l)
    (hs : Consistent r s) : collectDeps r s id = .ok l := by
  have search := collectDeps_explores hs id
  generalize collectDeps r s id = out at search ⊢
  cases search with
  | found found => rw [found.unique h, List.nil_append]
  | @missing x reached absent =>
    obtain ⟨m, hm⟩ := h.isClosure.members x ((h.isClosure.mem_iff x).2 (by simpa using reached))
    rw [absent] at hm
    cases hm

theorem collectDeps_cases (hs : Consistent r s) (id : PackageId) :
    (∃ l, collectDeps r s id = .ok l ∧ IsClosure r s id l) ∨
      ∃ x, collectDeps r s id = .error (.notRegistered (r.describe x)) ∧ Reached r s {id} x ∧
        s.isRegistered x = false := by
  have search := collectDeps_explores hs id
  generalize collectDeps r s id = out at search ⊢
  cases search with
  | @found l found => exact .inl ⟨l, rfl, found.isClosure⟩
  | @missing x reached hx => exact .inr ⟨x, rfl, by simpa using reached, by simp [isRegistered, hx]⟩

/-- **`collectDeps_closure`**: in every session that operations can lead to, asking for the
dependency closure of an identity answers with it if all that recorded dependencies lead to has a
member. Otherwise the answer names something reached that has none. It is never that the registry
knows no answer to a recorded dependency. -/
theorem collectDeps_closure (r : Registry) (t : Target) (ops : List Operation) (id : PackageId) :
    ((∀ x, Reached r (run r t ops) {id} x → (run r t ops).isRegistered x = true) →
      ∃ l, collectDeps r (run r t ops) id = .ok l ∧ IsClosure r (run r t ops) id l) ∧
    ((∃ x, Reached r (run r t ops) {id} x ∧ (run r t ops).isRegistered x = false) →
      ∃ x, collectDeps r (run r t ops) id = .error (.notRegistered (r.describe x)) ∧
        Reached r (run r t ops) {id} x ∧ (run r t ops).isRegistered x = false) ∧
    ∀ owner d, collectDeps r (run r t ops) id ≠ .error (.unresolvedDependency owner d) := by
  rcases collectDeps_cases (run_consistent r t ops) id with ⟨l, ok, closure⟩ | ⟨x, stop, lost⟩
  · refine ⟨fun _ => ⟨l, ok, closure⟩, ?_, fun owner d h => ?_⟩
    · rintro ⟨x, reached, absent⟩
      obtain ⟨m, hm⟩ := closure.members x ((closure.mem_iff x).2 reached)
      simp [isRegistered, hm] at absent
    · rw [ok] at h
      cases h
  · refine ⟨fun all => ?_, fun _ => ⟨x, stop, lost⟩, fun owner d h => ?_⟩
    · rw [all x lost.1] at lost
      cases lost.2
    · rw [stop] at h
      cases h

/-- From `a`, all that is below `b` comes before `c`, and nothing comes twice. After a failed attempt
for `a` that registered `b`, the closure of `a` stops at `b`, which has no member. -/
theorem collectDeps_closure_circle :
    ((∀ x, Reached Project.circle.registry (runOn .circle [.addRoot "a", .resolve]) {.ofIndex 0} x →
        (runOn .circle [.addRoot "a", .resolve]).isRegistered x = true) ∧
      IsClosure Project.circle.registry (runOn .circle [.addRoot "a", .resolve]) (.ofIndex 0)
        [.ofIndex 0, .ofIndex 1, .ofIndex 3, .ofIndex 2]) ∧
    (∃ x, Reached Project.missingDep.registry
        (runOn .missingDep [.addRoot "a", .loadPackage (.ofIndex 0)]) {.ofIndex 0} x ∧
      (runOn .missingDep [.addRoot "a", .loadPackage (.ofIndex 0)]).isRegistered x = false) ∧
    ∃ x, collectDeps Project.missingDep.registry
      (runOn .missingDep [.addRoot "a", .loadPackage (.ofIndex 0)]) (.ofIndex 0) =
        .error (.notRegistered (Project.missingDep.registry.describe x)) := by
  have order : (runOn .circle [.addRoot "a", .resolve]).order =
      [.ofIndex 0, .ofIndex 1, .ofIndex 2, .ofIndex 3] := by
    decide
  have members : ∀ x ∈ [PackageId.ofIndex 0, .ofIndex 1, .ofIndex 2, .ofIndex 3],
      (runOn .circle [.addRoot "a", .resolve]).isRegistered x = true := by
    decide
  have all : ∀ x, Reached Project.circle.registry (runOn .circle [.addRoot "a", .resolve])
      {.ofIndex 0} x → (runOn .circle [.addRoot "a", .resolve]).isRegistered x = true := by
    intro x reached
    have hs := run_consistent Project.circle.registry ⟨"t", "arm", [], []⟩ [.addRoot "a", .resolve]
    refine members x (order ▸ reached.mem (Q := {y | y ∈ (runOn .circle _).order}) ?_ ?_)
    · rintro y rfl
      rw [Set.mem_ofPred_eq, order]
      decide
    · exact fun y _ d hd z hz => hs.mem_order_of_dep hd hz
  have lost : ∃ x, Reached Project.missingDep.registry
      (runOn .missingDep [.addRoot "a", .loadPackage (.ofIndex 0)]) {.ofIndex 0} x ∧
        (runOn .missingDep [.addRoot "a", .loadPackage (.ofIndex 0)]).isRegistered x = false := by
    refine ⟨.ofIndex 1, .dep (d := ⟨"local", "b"⟩) (.root rfl) ?_ ?_, ?_⟩ <;> decide
  obtain ⟨l, ok, closure⟩ := (collectDeps_closure Project.circle.registry ⟨"t", "arm", [], []⟩
    [.addRoot "a", .resolve] (.ofIndex 0)).1 all
  obtain ⟨x, stop, -⟩ := (collectDeps_closure Project.missingDep.registry ⟨"t", "arm", [], []⟩
    [.addRoot "a", .loadPackage (.ofIndex 0)] (.ofIndex 0)).2.1 lost
  have a_b_d_c : Discovers Project.circle.registry (runOn .circle [.addRoot "a", .resolve]) []
      [.ofIndex 0] [.ofIndex 0, .ofIndex 1, .ofIndex 3, .ofIndex 2] :=
    .expand [.ofIndex 1, .ofIndex 2] (by decide) (by decide)
      (.expand [.ofIndex 3] (by decide) (by decide)
        (.expand [] (by decide) (by decide) .done .done)
        (.expand [.ofIndex 3, .ofIndex 0] (by decide) (by decide)
          (.again (by decide) (.again (by decide) .done)) .done)) .done
  have depth_first := a_b_d_c.collectDeps_eq (run_consistent _ _ _)
  obtain rfl := Except.ok.inj (depth_first.symm.trans ok)
  exact ⟨⟨all, closure⟩, lost, x, stop⟩

end Session
end PackageResolution

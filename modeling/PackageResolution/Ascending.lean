/-!
# Ascending lists of names

Names are ordered by code points, first difference first. A list that ascends strictly holds each
name once, and inserting keeps it so. Sorting makes a list ascend strictly if no name repeats.

Main statements: `mem_insertName`, `insertName_ascending`, `ascending_ext` (an ascending list is
known by its members), and `pairwise_lt_mergeSort`.
-/
namespace PackageResolution

/-- Every name is below all names after it. -/
def Ascending (names : List String) : Prop := names.Pairwise (· < ·)

instance (names : List String) : Decidable (Ascending names) :=
  inferInstanceAs (Decidable (names.Pairwise (· < ·)))

theorem ascending_nil : Ascending [] := List.Pairwise.nil

theorem Ascending.nodup {names : List String} (h : Ascending names) : names.Nodup :=
  h.imp fun lt => by
    rintro rfl
    exact String.lt_irrefl _ lt

/-- Puts a name at its place; a name that is there already stays as it is. -/
def insertName (name : String) : List String → List String
  | [] => [name]
  | n :: ns =>
    if name < n then name :: n :: ns
    else if name = n then n :: ns
    else n :: insertName name ns

@[simp] theorem mem_insertName (name x : String) (ns : List String) :
    x ∈ insertName name ns ↔ x = name ∨ x ∈ ns := by
  induction ns with
  | nil => simp [insertName]
  | cons n ns ih =>
    rw [insertName]
    split
    · simp
    · split
      · next h => subst h; simp
      · simp [ih, or_left_comm]

/-- Of two different names one is below the other. -/
theorem name_lt_or_gt {a b : String} (h : a ≠ b) : a < b ∨ b < a := by
  by_cases hab : a < b
  · exact .inl hab
  · by_cases hba : b < a
    · exact .inr hba
    · exact absurd (String.le_antisymm (String.not_lt.1 hba) (String.not_lt.1 hab)) h

theorem insertName_ascending {name : String} {ns : List String} (h : Ascending ns) :
    Ascending (insertName name ns) := by
  induction ns with
  | nil => simp [insertName, Ascending]
  | cons n ns ih =>
    have ⟨hn, hns⟩ := List.pairwise_cons.1 h
    rw [insertName]
    split
    · next lt =>
      refine List.pairwise_cons.2 ⟨?_, h⟩
      intro x hx
      rcases List.mem_cons.1 hx with rfl | hx
      · exact lt
      · exact String.lt_trans lt (hn x hx)
    · next nlt =>
      split
      · exact h
      · next ne =>
        refine List.pairwise_cons.2 ⟨?_, ih hns⟩
        intro x hx
        rcases (mem_insertName name x ns).1 hx with rfl | hx
        · exact (name_lt_or_gt ne).resolve_left nlt
        · exact hn x hx

/-- Two ascending lists with the same members are equal. -/
theorem ascending_ext {a b : List String} (ha : Ascending a) (hb : Ascending b)
    (h : ∀ x, x ∈ a ↔ x ∈ b) : a = b := by
  induction a generalizing b with
  | nil =>
    cases b with
    | nil => rfl
    | cons y ys => exact absurd ((h y).2 List.mem_cons_self) List.not_mem_nil
  | cons x xs ih =>
    cases b with
    | nil => exact absurd ((h x).1 List.mem_cons_self) List.not_mem_nil
    | cons y ys =>
      have ⟨hx, hxs⟩ := List.pairwise_cons.1 ha
      have ⟨hy, hys⟩ := List.pairwise_cons.1 hb
      have heads : x = y := by
        rcases List.mem_cons.1 ((h x).1 List.mem_cons_self) with e | mx
        · exact e
        · rcases List.mem_cons.1 ((h y).2 List.mem_cons_self) with e | my
          · exact e.symm
          · exact absurd (hx y my) (String.lt_asymm (hy x mx))
      subst heads
      congr 1
      refine ih hxs hys fun z => ⟨fun hz => ?_, fun hz => ?_⟩
      · rcases List.mem_cons.1 ((h z).1 (List.mem_cons_of_mem _ hz)) with e | m
        · exact absurd (hx z hz) (e ▸ String.lt_irrefl _)
        · exact m
      · rcases List.mem_cons.1 ((h z).2 (List.mem_cons_of_mem _ hz)) with e | m
        · exact absurd (hy z hz) (e ▸ String.lt_irrefl _)
        · exact m

/-- Sorted by names that are all different, a list ascends strictly. -/
theorem pairwise_lt_mergeSort {α κ : Type} [LT κ] [LE κ] [DecidableLE κ] [Std.IsLinearOrder κ]
    [Std.LawfulOrderLT κ] {name : α → κ} {xs : List α} (distinct : (xs.map name).Nodup) :
    (xs.mergeSort fun a b => name a ≤ name b).Pairwise (name · < name ·) := by
  have sorted : (xs.mergeSort fun a b => name a ≤ name b).Pairwise (name · ≤ name ·) := by
    refine (List.pairwise_mergeSort ?_ ?_ xs).imp (by simp)
    · intro a b c hab hbc
      simp only [decide_eq_true_eq] at hab hbc ⊢
      exact Std.le_trans hab hbc
    · intro a b
      simpa using Std.le_total
  have apart : ((xs.mergeSort fun a b => name a ≤ name b).map name).Nodup := by
    rw [((List.mergeSort_perm _ _).map _).nodup_iff]
    exact distinct
  exact (sorted.and (List.pairwise_map.1 apart)).imp fun h => Std.lt_of_le_of_ne h.1 h.2

end PackageResolution

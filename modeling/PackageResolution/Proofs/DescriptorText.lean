import PackageResolution.Descriptor
import Mathlib.Data.List.TakeWhile
/-!
# The texts of descriptors

A text is read as a descriptor exactly if it is written as one: as its name, where the repository is
understood, or in the qualified form, where the repository can be told from the name behind it.

Main statements: `parse_eq_ok_iff`, `parse_display_iff`.
-/
namespace PackageResolution

namespace Descriptor

variable {text repo name r : String} {rest : List Char} {d d' : Descriptor}

/-- A text without blanks. -/
def IsSolid (text : String) : Prop := ∀ c ∈ text.toList, Text.isBlank c = false

/-- A text of blanks only, which the empty one is. -/
def IsBlank (text : String) : Prop := ∀ c ∈ text.toList, Text.isBlank c = true

/-- A repository that qualified texts can name. -/
structure IsRepo (repo : String) : Prop where
  nonempty : repo ≠ ""
  solid : IsSolid repo
  unslashed : '/' ∉ repo.toList

/-- A name that texts can have in them. -/
structure IsName (name : String) : Prop where
  solid : IsSolid name
  segments : Text.hasEmptySegment name = false

theorem toList_display (d : Descriptor) :
    d.display.toList = '@' :: (d.repo.toList ++ '/' :: d.name.toList) := by
  simp [display]

theorem isSolid_display : IsSolid d.display ↔ IsSolid d.repo ∧ IsSolid d.name := by
  have marks : Text.isBlank '@' = false ∧ Text.isBlank '/' = false := by decide
  simp [IsSolid, toList_display, marks, or_imp, forall_and]

theorem checked_eq_ok_iff :
    checked text repo name = .ok d ↔ Text.hasEmptySegment name = false ∧ d = ⟨repo, name⟩ := by
  unfold checked
  cases Text.hasEmptySegment name <;> simp [eq_comm]

/-- A text with a slash in it falls into what stands before the first one and what stands after. -/
theorem eq_of_dropWhile_slash {cs after : List Char} {c : Char}
    (h : cs.dropWhile (· != '/') = c :: after) :
    cs = cs.takeWhile (· != '/') ++ '/' :: after ∧ '/' ∉ cs.takeWhile (· != '/') := by
  have slash := List.head?_dropWhile_not (· != '/') cs
  rw [h] at slash
  obtain rfl : c = '/' := by simpa using slash
  refine ⟨?_, fun hmem => by simpa using List.mem_takeWhile_imp hmem⟩
  rw [← h, List.takeWhile_append_dropWhile]

theorem takeWhile_dropWhile_slash {before : List Char} (h : '/' ∉ before) (after : List Char) :
    (before ++ '/' :: after).takeWhile (· != '/') = before ∧
      (before ++ '/' :: after).dropWhile (· != '/') = '/' :: after := by
  have run : ∀ c ∈ before, (c != '/') = true := fun c hc => by
    simpa using ne_of_mem_of_not_mem hc h
  rw [List.takeWhile_append_of_pos run, List.dropWhile_append_of_pos run]
  simp

theorem parseQualified_eq_ok_iff : parseQualified text rest = .ok d ↔
    rest = d.repo.toList ++ '/' :: d.name.toList ∧ d.repo ≠ "" ∧ '/' ∉ d.repo.toList ∧
      Text.hasEmptySegment d.name = false := by
  constructor
  · intro h
    unfold parseQualified at h
    cases hdrop : rest.dropWhile (· != '/') with
    | nil => simp [hdrop] at h
    | cons slash name =>
      obtain ⟨hrest, unslashed⟩ := eq_of_dropWhile_slash hdrop
      simp only [hdrop] at h
      split at h
      · cases h
      · next nonempty =>
        split at h
        · cases h
        · obtain ⟨segments, rfl⟩ := checked_eq_ok_iff.1 h
          exact ⟨by simpa using hrest, by simpa using nonempty, by simpa using unslashed, segments⟩
  · rintro ⟨rfl, repo, unslashed, segments⟩
    obtain ⟨htake, hdrop⟩ := takeWhile_dropWhile_slash unslashed d.name.toList
    have name : d.name ≠ "" := by
      intro e
      rw [e] at segments
      exact absurd segments (by decide)
    simp [parseQualified, htake, hdrop, repo, name, checked_eq_ok_iff, segments]

theorem parse_of_isBlank (h : IsBlank text) : parse text r = .error .empty := by
  have all : text.toList.all Text.isBlank = true := by simpa [IsBlank] using h
  rw [parse, if_pos all]

theorem parse_of_not_isSolid (other : ¬ IsBlank text) (blank : ¬ IsSolid text) :
    parse text r = .error (.whitespace text) := by
  have all : ¬ text.toList.all Text.isBlank = true := by simpa [IsBlank] using other
  have any : text.toList.any Text.isBlank = true := by simpa [IsSolid] using blank
  rw [parse, if_neg all, if_pos any]

theorem parse_of_unmarked (other : ¬ IsBlank text) (solid : IsSolid text)
    (unmarked : text.toList.head? ≠ some '@') : parse text r = checked text r text := by
  have all : ¬ text.toList.all Text.isBlank = true := by simpa [IsBlank] using other
  have any : ¬ text.toList.any Text.isBlank = true := by simpa [IsSolid] using solid
  rw [parse, if_neg all, if_neg any]
  split
  · next rest marked => exact absurd (by simp [marked]) unmarked
  · rfl

theorem eq_empty_of_isBlank (blank : IsBlank text) (solid : IsSolid text) : text = "" := by
  rw [← String.toList_eq_nil_iff, List.eq_nil_iff_forall_not_mem]
  intro c hc
  have := blank c hc
  rw [solid c hc] at this
  cases this

/-- Without a mark in front a text is a name. -/
theorem parse_of_plain (solid : IsSolid text) (plain : text.toList.head? ≠ some '@') :
    parse text r = .ok d ↔ Text.hasEmptySegment d.name = false ∧ text = d.name ∧ d.repo = r := by
  have named : checked text r text = .ok d ↔
      Text.hasEmptySegment d.name = false ∧ text = d.name ∧ d.repo = r := by
    rw [checked_eq_ok_iff]
    constructor
    · rintro ⟨segments, rfl⟩
      exact ⟨segments, rfl, rfl⟩
    · rintro ⟨segments, rfl, rfl⟩
      exact ⟨segments, rfl⟩
  rw [← named]
  by_cases blank : IsBlank text
  · obtain rfl := eq_empty_of_isBlank blank solid
    simp [parse_of_isBlank blank, checked, show Text.hasEmptySegment "" = true by decide]
  · rw [parse_of_unmarked blank solid plain]

/-- With the mark in front a text is a qualified one. -/
theorem parse_of_marked (solid : IsSolid text) (marked : text.toList = '@' :: rest) :
    parse text r = parseQualified text rest := by
  have mark : Text.isBlank '@' = false := by decide
  have noBlank : rest.any Text.isBlank = false := by simpa [IsSolid, marked, mark] using solid
  simp [parse, marked, mark, noBlank]

/-- A text is read as a descriptor if it has no blanks, the name has no empty segment, and it is the
name of a package of the default repository or the qualified form. -/
theorem parse_eq_ok_iff : parse text r = .ok d ↔
    IsSolid text ∧ Text.hasEmptySegment d.name = false ∧
      (text = d.name ∧ d.repo = r ∧ text.toList.head? ≠ some '@' ∨
        text = d.display ∧ d.repo ≠ "" ∧ '/' ∉ d.repo.toList) := by
  by_cases solid : IsSolid text
  case neg =>
    simp only [solid, false_and, iff_false]
    by_cases blank : IsBlank text
    · simp [parse_of_isBlank blank]
    · simp [parse_of_not_isSolid blank solid]
  by_cases marked : text.toList.head? = some '@'
  · obtain ⟨rest, hrest⟩ := List.head?_eq_some_iff.1 marked
    have qualified : text = d.display ↔ rest = d.repo.toList ++ '/' :: d.name.toList := by
      rw [← String.toList_inj, hrest, toList_display, List.cons_inj_right]
    rw [parse_of_marked solid hrest, parseQualified_eq_ok_iff, ← qualified]
    constructor
    · rintro ⟨hd, nonempty, unslashed, segments⟩
      exact ⟨solid, segments, .inr ⟨hd, nonempty, unslashed⟩⟩
    · rintro ⟨-, segments, ⟨-, -, plain⟩ | ⟨hd, nonempty, unslashed⟩⟩
      · exact absurd marked plain
      · exact ⟨hd, nonempty, unslashed, segments⟩
  · rw [parse_of_plain solid marked]
    constructor
    · rintro ⟨segments, hname, hrepo⟩
      exact ⟨solid, segments, .inl ⟨hname, hrepo, marked⟩⟩
    · rintro ⟨-, segments, ⟨hname, hrepo, -⟩ | ⟨rfl, -⟩⟩
      · exact ⟨segments, hname, hrepo⟩
      · exact absurd (by simp [toList_display]) marked

/-- The qualified form is read back, whatever the default repository, if repository and name can stand
in a text. -/
theorem parse_display_iff : parse d.display r = .ok d ↔ IsRepo d.repo ∧ IsName d.name := by
  rw [parse_eq_ok_iff, isSolid_display]
  have qualified : d.display.toList.head? = some '@' := by simp [toList_display]
  constructor
  · rintro ⟨⟨hrepo, hname⟩, segments, ⟨-, -, plain⟩ | ⟨-, nonempty, unslashed⟩⟩
    · exact absurd qualified plain
    · exact ⟨⟨nonempty, hrepo, unslashed⟩, ⟨hname, segments⟩⟩
  · rintro ⟨hrepo, hname⟩
    exact ⟨⟨hrepo.solid, hname.solid⟩, hname.segments,
      .inr ⟨rfl, hrepo.nonempty, hrepo.unslashed⟩⟩

/-- Descriptors that are read back are told apart by what is printed. -/
theorem eq_of_display_eq (h : IsRepo d.repo ∧ IsName d.name) (h' : IsRepo d'.repo ∧ IsName d'.name)
    (same : d.display = d'.display) : d = d' := by
  have back : parse d.display "" = .ok d := parse_display_iff.2 h
  have back' : parse d'.display "" = .ok d' := parse_display_iff.2 h'
  rw [← same, back] at back'
  exact Except.ok.inj back'

end Descriptor
end PackageResolution

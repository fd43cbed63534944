import PackageResolution.Proofs.Components
import PackageResolution.Proofs.DescriptorText
/-!
# The grammar of descriptors

What the texts of descriptors look like, without regard to how they are read: a name is a list of
segments with slashes between them, and a qualified text has a mark and a repository in front. Every
other text is refused for one cause. Several can apply to one text, and they are ranked: a text of
blanks only is empty, then blanks anywhere count, then what a qualified text lacks, and an empty
segment is what is left.

Main statement: `parse_follows_grammar`.
-/
namespace PackageResolution

namespace Descriptor

variable {text name r : String} {rest before after : List Char} {d : Descriptor}
  {e : ParseError}

/-- Segments with a slash between them, none of them empty. -/
def IsSegmented (name : String) : Prop :=
  ∃ segments : List String, segments ≠ [] ∧
    (∀ segment ∈ segments, segment ≠ "" ∧ '/' ∉ segment.toList) ∧ name = "/".intercalate segments

/-- The texts that are written for a descriptor where the repository `r` is understood. -/
inductive Written (r : String) : String → Descriptor → Prop
  | plain {name : String} (solid : IsSolid name) (unmarked : name.toList.head? ≠ some '@')
      (segments : IsSegmented name) : Written r name ⟨r, name⟩
  | qualified {repo name : String} (solid : IsSolid ("@" ++ repo ++ "/" ++ name))
      (nonempty : repo ≠ "") (unslashed : '/' ∉ repo.toList) (segments : IsSegmented name) :
      Written r ("@" ++ repo ++ "/" ++ name) ⟨repo, name⟩

/-- A qualified text without a slash, or with nothing behind the one that ends its repository. -/
def LacksName (text : String) : Prop :=
  (∃ rest, text = "@" ++ rest ∧ '/' ∉ rest.toList) ∨
    ∃ repo, text = "@" ++ repo ++ "/" ∧ repo ≠ "" ∧ '/' ∉ repo.toList

/-- A qualified text with nothing in front of its first slash. -/
def LacksRepo (text : String) : Prop := ∃ rest, text = "@/" ++ rest

/-- The cause for which a text that is written for no descriptor is refused. -/
inductive RefusedFor (text : String) : ParseError → Prop
  | empty (blank : IsBlank text) : RefusedFor text .empty
  | whitespace (other : ¬ IsBlank text) (blank : ¬ IsSolid text) :
      RefusedFor text (.whitespace text)
  | missingName (solid : IsSolid text) (lacks : LacksName text) :
      RefusedFor text (.missingName text)
  | emptyRepo (solid : IsSolid text) (lacks : LacksRepo text) : RefusedFor text (.emptyRepo text)
  | emptySegment (other : ¬ IsBlank text) (solid : IsSolid text) (named : ¬ LacksName text)
      (placed : ¬ LacksRepo text) : RefusedFor text (.emptySegment text)

/-! ## Segments -/

theorem isSegmented_iff : IsSegmented name ↔ Text.hasEmptySegment name = false := by
  constructor
  · rintro ⟨segments, ne, each, rfl⟩
    have cut : Text.segments ("/".intercalate segments) = segments.map String.toList := by
      rw [Text.segments, String.toList_intercalate]
      refine List.splitOn_intercalate '/' ?_ (by simpa using ne)
      intro l hl
      obtain ⟨segment, hmem, rfl⟩ := List.mem_map.1 hl
      exact (each segment hmem).2
    rw [Text.hasEmptySegment, cut, List.any_map, List.any_eq_false]
    intro segment hmem
    simpa using (each segment hmem).1
  · intro h
    rw [Text.hasEmptySegment, List.any_eq_false] at h
    refine ⟨(Text.segments name).map String.ofList, ?_, ?_, ?_⟩
    · simpa using Text.segments_ne_nil name
    · intro segment hmem
      obtain ⟨l, hl, rfl⟩ := List.mem_map.1 hmem
      have unslashed := Path.not_mem_of_mem_splitOn hl
      exact ⟨by simpa using h l hl, by simpa using unslashed⟩
    · apply String.toList_inj.1
      rw [String.toList_intercalate, List.map_map]
      simp [Function.comp_def, Text.segments, List.intercalate_splitOn]

/-- Reading accepts what is written for descriptors. -/
theorem parse_eq_ok_iff_written : parse text r = .ok d ↔ Written r text d := by
  rw [parse_eq_ok_iff]
  constructor
  · rintro ⟨solid, segments, ⟨rfl, rfl, unmarked⟩ | ⟨rfl, nonempty, unslashed⟩⟩
    · exact .plain solid unmarked (isSegmented_iff.2 segments)
    · exact .qualified solid nonempty unslashed (isSegmented_iff.2 segments)
  · intro h
    cases h with
    | plain solid unmarked segments =>
      exact ⟨solid, isSegmented_iff.1 segments, .inl ⟨rfl, rfl, unmarked⟩⟩
    | qualified solid nonempty unslashed segments =>
      exact ⟨solid, isSegmented_iff.1 segments, .inr ⟨rfl, nonempty, unslashed⟩⟩

/-! ## Causes -/

theorem parse_of_unslashed (solid : IsSolid text) (marked : text.toList = '@' :: rest)
    (unslashed : '/' ∉ rest) : parse text r = .error (.missingName text) := by
  have nothing : rest.dropWhile (· != '/') = [] := by
    rw [List.dropWhile_eq_nil_iff]
    intro c hc
    simpa using ne_of_mem_of_not_mem hc unslashed
  rw [parse_of_marked solid marked, parseQualified, nothing]

/-- What a qualified text lacks is looked for in this order. -/
theorem parse_of_slashed (solid : IsSolid text)
    (marked : text.toList = '@' :: (before ++ '/' :: after)) (unslashed : '/' ∉ before) :
    parse text r =
      if before = [] then .error (.emptyRepo text)
      else if after = [] then .error (.missingName text)
      else checked text (String.ofList before) (String.ofList after) := by
  obtain ⟨htake, hdrop⟩ := takeWhile_dropWhile_slash unslashed after
  rw [parse_of_marked solid marked, parseQualified, hdrop, htake]

theorem parse_of_lacksName (solid : IsSolid text) (h : LacksName text) :
    parse text r = .error (.missingName text) := by
  rcases h with ⟨rest, e, unslashed⟩ | ⟨repo, e, nonempty, unslashed⟩
  · have marked : text.toList = '@' :: rest.toList := by simp [e]
    exact parse_of_unslashed solid marked unslashed
  · have marked : text.toList = '@' :: (repo.toList ++ '/' :: []) := by simp [e]
    have repo_ne : repo.toList ≠ [] := by simpa using nonempty
    rw [parse_of_slashed solid marked unslashed, if_neg repo_ne, if_pos rfl]

theorem parse_of_lacksRepo (solid : IsSolid text) (h : LacksRepo text) :
    parse text r = .error (.emptyRepo text) := by
  obtain ⟨rest, e⟩ := h
  have marked : text.toList = '@' :: ([] ++ '/' :: rest.toList) := by simp [e]
  rw [parse_of_slashed solid marked List.not_mem_nil, if_pos rfl]

/-- A text that lacks nothing is judged by the segments of its name. -/
theorem exists_checked (other : ¬ IsBlank text) (solid : IsSolid text) (named : ¬ LacksName text)
    (placed : ¬ LacksRepo text) : ∃ repo name, parse text r = checked text repo name := by
  by_cases marked : text.toList.head? = some '@'
  · obtain ⟨rest, hrest⟩ := List.head?_eq_some_iff.1 marked
    cases hdrop : rest.dropWhile (· != '/') with
    | nil =>
      have unslashed : '/' ∉ rest := by
        intro slash
        simpa using List.dropWhile_eq_nil_iff.1 hdrop '/' slash
      refine absurd (.inl ⟨String.ofList rest, ?_, by simpa using unslashed⟩) named
      apply String.toList_inj.1
      simp [hrest]
    | cons c after =>
      obtain ⟨split, unslashed⟩ := eq_of_dropWhile_slash hdrop
      generalize rest.takeWhile (· != '/') = before at split unslashed
      subst split
      rw [parse_of_slashed solid hrest unslashed]
      by_cases hbefore : before = []
      · refine absurd ⟨String.ofList after, ?_⟩ placed
        apply String.toList_inj.1
        simp [hrest, hbefore]
      by_cases hafter : after = []
      · refine absurd (.inr ⟨String.ofList before, ?_, ?_, by simpa using unslashed⟩) named
        · apply String.toList_inj.1
          simp [hrest, hafter]
        · simpa using hbefore
      · rw [if_neg hbefore, if_neg hafter]
        exact ⟨_, _, rfl⟩
  · exact ⟨r, text, parse_of_unmarked other solid marked⟩

theorem parse_of_refusedFor (unwritten : ∀ d, ¬ Written r text d) (h : RefusedFor text e) :
    parse text r = .error e := by
  cases h with
  | empty blank => exact parse_of_isBlank blank
  | whitespace other blank => exact parse_of_not_isSolid other blank
  | missingName solid lacks => exact parse_of_lacksName solid lacks
  | emptyRepo solid lacks => exact parse_of_lacksRepo solid lacks
  | emptySegment other solid named placed =>
    obtain ⟨repo, name, judged⟩ := exists_checked (r := r) other solid named placed
    have refused : parse text r ≠ .ok ⟨repo, name⟩ :=
      fun accepted => unwritten _ (parse_eq_ok_iff_written.1 accepted)
    rw [judged, checked] at refused ⊢
    split
    · rfl
    · next h => exact absurd (if_neg h) refused

theorem exists_refusedFor (text : String) : ∃ e, RefusedFor text e := by
  by_cases blank : IsBlank text
  · exact ⟨_, .empty blank⟩
  by_cases solid : IsSolid text
  case neg => exact ⟨_, .whitespace blank solid⟩
  by_cases named : LacksName text
  · exact ⟨_, .missingName solid named⟩
  by_cases placed : LacksRepo text
  · exact ⟨_, .emptyRepo solid placed⟩
  · exact ⟨_, .emptySegment blank solid named placed⟩

/-- **`parse_follows_grammar`**: a text is read as a descriptor exactly if it is written for that
descriptor where the default repository is understood. Every other text is refused, for the cause
that its shape gives. -/
theorem parse_follows_grammar (text r : String) :
    (∀ d, parse text r = .ok d ↔ Written r text d) ∧
      ∀ e, parse text r = .error e ↔ (∀ d, ¬ Written r text d) ∧ RefusedFor text e := by
  refine ⟨fun d => parse_eq_ok_iff_written, fun e => ⟨fun refused => ?_, ?_⟩⟩
  · have unwritten : ∀ d, ¬ Written r text d := by
      intro d written
      rw [parse_eq_ok_iff_written.2 written] at refused
      cases refused
    obtain ⟨e', cause⟩ := exists_refusedFor text
    obtain rfl : e' = e := by
      rw [parse_of_refusedFor unwritten cause] at refused
      exact Except.error.inj refused
    exact ⟨unwritten, cause⟩
  · rintro ⟨unwritten, cause⟩
    exact parse_of_refusedFor unwritten cause

end Descriptor
end PackageResolution

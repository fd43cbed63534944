import PackageResolution.Fingerprint
import PackageResolution.Proofs.Components
import PackageResolution.Proofs.FingerprintBytes
/-!
# Components of fingerprints

A fingerprint is fed part by part, and leaves no trace of which components came in one part. The
components themselves can be read back from the bytes, down to empty ones and to their order, as long as
none holds the NUL character that closes them; one that does is fed as the components around it. A path
that is a text is the component that it spells.

Main statements: `bytes_eq_iff`, `fed_iff_same_components`.
-/
namespace PackageResolution

namespace Fingerprint

variable {part : Part} {parts parts' : List Part} {a b ss : List String}

/-! ## Feeding -/

/-- What has been fed after a component: its bytes come in, and a NUL byte. -/
def feedText (fed : List UInt8) (s : String) : List UInt8 := fed ++ Text.utf8 s ++ [0]

/-- What has been fed after a part. -/
def feed (fed : List UInt8) : Part → List UInt8
  | .text s => feedText fed s
  | .texts ss => ss.foldl feedText fed
  | .path p => feedText fed p.text

theorem bytes_singleton (s : String) : bytes [s] = Text.utf8 s ++ [0] := by simp [bytes]

theorem foldl_feedText (fed : List UInt8) (ss : List String) :
    ss.foldl feedText fed = fed ++ bytes ss := by
  induction ss generalizing fed with
  | nil => simp [bytes]
  | cons s ss ih => rw [List.foldl_cons, ih, feedText]; simp [bytes]

theorem feed_eq (fed : List UInt8) (part : Part) : feed fed part = fed ++ bytes part.components := by
  cases part with
  | texts ss => exact foldl_feedText fed ss
  | _ => exact foldl_feedText fed [_]

/-- Parts that are fed one after another are fed as their components. -/
theorem foldl_feed (fed : List UInt8) (parts : List Part) :
    parts.foldl feed fed = fed ++ bytesOfParts parts := by
  induction parts generalizing fed with
  | nil => simp [bytesOfParts, bytes]
  | cons part parts ih => rw [List.foldl_cons, ih, feed_eq]; simp [bytesOfParts]

/-! ## Components -/

/-- The components that come in one part. -/
inductive Gives : Part → List String → Prop
  | text (s : String) : Gives (.text s) [s]
  | texts (ss : List String) : Gives (.texts ss) ss
  | path (s : String) : Gives (.path s) [s]

/-- The components that come in some parts, in their order. -/
inductive Flattens : List Part → List String → Prop
  | nil : Flattens [] []
  | cons {part : Part} {ss : List String} {parts : List Part} {rest : List String}
      (h : Gives part ss) (later : Flattens parts rest) : Flattens (part :: parts) (ss ++ rest)

theorem Gives.components (h : Gives part ss) : part.components = ss := by
  cases h with
  | path s => rw [Part.components, Path.text_ofText]
  | _ => rfl

theorem Flattens.components (h : Flattens parts ss) : parts.flatMap Part.components = ss := by
  induction h with
  | nil => rfl
  | cons h _ ih => rw [List.flatMap_cons, h.components, ih]

/-- What stands between the NUL characters of a component. -/
def nulPieces (s : String) : List String := (s.toList.splitOn '\x00').map String.ofList

theorem free_of_mem_nulPieces {s piece : String} (h : piece ∈ nulPieces s) : '\x00' ∉ piece.toList := by
  obtain ⟨cs, hcs, rfl⟩ := List.mem_map.1 h
  rw [String.toList_ofList]
  exact Path.not_mem_of_mem_splitOn hcs

/-- A component is fed as what stands between its NUL characters. -/
theorem bytes_nulPieces (s : String) : bytes (nulPieces s) = bytes [s] := by
  have cut : ∀ pieces : List (List Char), pieces ≠ [] →
      pieces.flatMap (fun cs => cs.flatMap String.utf8EncodeChar ++ [0]) =
        (['\x00'].intercalate pieces).flatMap String.utf8EncodeChar ++ [0] := by
    intro pieces
    induction pieces with
    | nil => exact fun h => absurd rfl h
    | cons cs pieces ih =>
      intro _
      cases pieces with
      | nil => simp
      | cons next pieces =>
        have nul : String.utf8EncodeChar '\x00' = [0] := by decide
        rw [List.flatMap_cons, ih (List.cons_ne_nil _ _), List.intercalate_cons_cons]
        simp [nul]
  have pieces := cut (s.toList.splitOn '\x00') (List.splitOn_ne_nil _ _)
  rw [List.intercalate_splitOn] at pieces
  rw [bytes_singleton, Text.utf8, ← pieces, nulPieces, bytes, List.flatMap_map]
  simp [Text.utf8]

theorem bytes_flatMap_nulPieces (a : List String) : bytes (a.flatMap nulPieces) = bytes a := by
  induction a with
  | nil => rfl
  | cons s a ih => rw [List.flatMap_cons, bytes_append, ih, bytes_nulPieces, ← bytes_append]; rfl

/-- **`bytes_eq_iff`**: components are fed alike exactly if the same stands between their ends and
their NUL characters. -/
theorem bytes_eq_iff : bytes a = bytes b ↔ a.flatMap nulPieces = b.flatMap nulPieces := by
  have free : ∀ ss : List String, ∀ c ∈ ss.flatMap nulPieces, '\x00' ∉ c.toList := by
    intro ss c hc
    obtain ⟨s, -, hc⟩ := List.mem_flatMap.1 hc
    exact free_of_mem_nulPieces hc
  rw [← bytes_flatMap_nulPieces a, ← bytes_flatMap_nulPieces b, bytes_inj (free a) (free b)]

/-- No component holds the character that closes them. -/
def NulFree (ss : List String) : Prop := ∀ s ∈ ss, '\x00' ∉ s.toList

instance (ss : List String) : Decidable (NulFree ss) := inferInstanceAs (Decidable (∀ _ ∈ _, _))

/-- **`fed_iff_same_components`**: parts are fed as their components are, one after another. Two series
of parts without NUL are fed alike exactly if they give the same components in the same order, however
these come in parts; with NUL, exactly if the components fall into the same pieces. -/
theorem fed_iff_same_components :
    (∀ parts, parts.foldl feed [] = bytesOfParts parts) ∧
    (∀ parts parts' a b, Flattens parts a → Flattens parts' b → NulFree a → NulFree b →
      (bytesOfParts parts = bytesOfParts parts' ↔ a = b)) ∧
    ∀ parts parts' a b, Flattens parts a → Flattens parts' b →
      (bytesOfParts parts = bytesOfParts parts' ↔ a.flatMap nulPieces = b.flatMap nulPieces) := by
  refine ⟨fun parts => foldl_feed [] parts, ?_, ?_⟩
  · intro parts parts' a b ha hb freeA freeB
    rw [bytesOfParts, bytesOfParts, ha.components, hb.components, bytes_inj freeA freeB]
  · intro parts parts' a b ha hb
    rw [bytesOfParts, bytesOfParts, ha.components, hb.components, bytes_eq_iff]

/-- A flag, an empty text and a directory. -/
def grouped : List Part := [.texts ["-DA", ""], .path "é/src"]

/-- The same components, each for itself but for a part without any. -/
def apart : List Part := [.text "-DA", .texts [], .text "", .text "é/src"]

theorem fed_iff_same_components_grouped :
    (Flattens grouped ["-DA", "", "é/src"] ∧ Flattens apart ["-DA", "", "é/src"] ∧
      NulFree ["-DA", "", "é/src"] ∧ bytesOfParts grouped = bytesOfParts apart) ∧
    (Flattens (apart.take 2) ["-DA"] ∧ bytesOfParts grouped ≠ bytesOfParts (apart.take 2)) ∧
    bytesOfParts [.text "-D\x00A"] = bytesOfParts [.text "-D", .text "A"] := by
  obtain ⟨-, free, any⟩ := fed_iff_same_components
  have first : Flattens grouped ["-DA", "", "é/src"] :=
    .cons (.texts ["-DA", ""]) (.cons (.path "é/src") .nil)
  have second : Flattens apart ["-DA", "", "é/src"] :=
    .cons (.text _) (.cons (.texts []) (.cons (.text _) (.cons (.text _) .nil)))
  have short : Flattens (apart.take 2) ["-DA"] := .cons (.text _) (.cons (.texts []) .nil)
  have whole : Flattens [.text "-D\x00A"] ["-D\x00A"] := .cons (.text _) .nil
  have cut : Flattens [.text "-D", .text "A"] ["-D", "A"] := .cons (.text _) (.cons (.text _) .nil)
  refine ⟨⟨first, second, by decide, ?_⟩, ⟨short, ?_⟩, ?_⟩
  · exact (free _ _ _ _ first second (by decide) (by decide)).2 rfl
  · exact mt (free _ _ _ _ first short (by decide) (by decide)).1 (by decide)
  · exact (any _ _ _ _ whole cut).2 (by decide +kernel)

end Fingerprint
end PackageResolution

import PackageResolution.Path
import Mathlib.Data.List.Basic
/-!
# Texts and their bytes

What begins with the bytes of a character has that character first, so the bytes of a text are read
back as the text, and no two texts have the same bytes. The byte of a character below 128 stands for
that character wherever it stands: all bytes of longer ones are above. So a path that a text spells
spells that text alone.

Main statements: `lossy_utf8`, `ofUtf8?_eq_some_iff` and `mem_utf8_iff`.
-/
namespace PackageResolution

namespace Text

variable {a b c d : UInt8} {n v : Nat}

theorem isTail_of_toNat (h : b.toNat = n % 64 + 128) : isTail b = true ∧ tailBits b = n % 64 := by
  have range : 128 ≤ b.toNat ∧ b.toNat ≤ 191 := by omega
  refine ⟨?_, ?_⟩
  · simpa [isTail, UInt8.le_iff_toNat_le] using range
  · rw [tailBits]
    omega

theorem followsLead3_of_toNat (ha : a.toNat = v / 4096 + 224) (hb : b.toNat = v / 64 % 64 + 128)
    (low : 0x800 ≤ v) (scalar : v < 0xD800 ∨ 0xDFFF < v) : followsLead3 a b = true := by
  have tail := (isTail_of_toNat hb).1
  unfold followsLead3
  split
  · next e =>
    have lead : v / 4096 + 224 = 224 := by rw [← ha, e]; rfl
    have range : 160 ≤ b.toNat ∧ b.toNat ≤ 191 := by omega
    simpa [UInt8.le_iff_toNat_le] using range
  · split
    · next e =>
      have lead : v / 4096 + 224 = 237 := by rw [← ha, e]; rfl
      have range : 128 ≤ b.toNat ∧ b.toNat ≤ 159 := by omega
      simpa [UInt8.le_iff_toNat_le] using range
    · exact tail

theorem followsLead4_of_toNat (ha : a.toNat = v / 262144 + 240)
    (hb : b.toNat = v / 4096 % 64 + 128) (low : 0x10000 ≤ v) (high : v < 0x110000) :
    followsLead4 a b = true := by
  have tail := (isTail_of_toNat hb).1
  unfold followsLead4
  split
  · next e =>
    have lead : v / 262144 + 240 = 240 := by rw [← ha, e]; rfl
    have range : 144 ≤ b.toNat ∧ b.toNat ≤ 191 := by omega
    simpa [UInt8.le_iff_toNat_le] using range
  · split
    · next e =>
      have lead : v / 262144 + 240 = 244 := by rw [← ha, e]; rfl
      have range : 128 ≤ b.toNat ∧ b.toNat ≤ 143 := by omega
      simpa [UInt8.le_iff_toNat_le] using range
    · exact tail

theorem firstChar_of_one (ha : a.toNat = v) (high : v < 0x80) (rest : List UInt8) :
    firstChar a rest = (Char.ofNat v, 0) := by
  simp only [firstChar, UInt8.lt_iff_toNat_lt, UInt8.reduceToNat, ha]
  rw [if_pos high]

theorem firstChar_of_two (ha : a.toNat = v / 64 + 192) (hb : b.toNat = v % 64 + 128)
    (low : 0x80 ≤ v) (high : v < 0x800) (rest : List UInt8) :
    firstChar a (b :: rest) = (Char.ofNat v, 1) := by
  obtain ⟨tail, bits⟩ := isTail_of_toNat hb
  simp only [firstChar, UInt8.lt_iff_toNat_lt, UInt8.le_iff_toNat_le, UInt8.reduceToNat,
    Bool.and_eq_true, decide_eq_true_eq, ha, tail, bits, if_true]
  rw [if_neg (by omega), if_pos (by omega)]
  congr 2
  omega

theorem firstChar_of_three (ha : a.toNat = v / 4096 + 224) (hb : b.toNat = v / 64 % 64 + 128)
    (hc : c.toNat = v % 64 + 128) (low : 0x800 ≤ v) (high : v < 0x10000)
    (scalar : v < 0xD800 ∨ 0xDFFF < v) (rest : List UInt8) :
    firstChar a (b :: c :: rest) = (Char.ofNat v, 2) := by
  obtain ⟨-, bitsB⟩ := isTail_of_toNat hb
  obtain ⟨tail, bitsC⟩ := isTail_of_toNat hc
  have follows := followsLead3_of_toNat ha hb low scalar
  simp only [firstChar, UInt8.lt_iff_toNat_lt, UInt8.le_iff_toNat_le, UInt8.reduceToNat,
    Bool.and_eq_true, decide_eq_true_eq, ha, follows, tail, bitsB, bitsC, if_true]
  rw [if_neg (by omega), if_neg (by omega), if_pos (by omega)]
  congr 2
  omega

theorem firstChar_of_four (ha : a.toNat = v / 262144 + 240) (hb : b.toNat = v / 4096 % 64 + 128)
    (hc : c.toNat = v / 64 % 64 + 128) (hd : d.toNat = v % 64 + 128) (low : 0x10000 ≤ v)
    (high : v < 0x110000) (rest : List UInt8) :
    firstChar a (b :: c :: d :: rest) = (Char.ofNat v, 3) := by
  obtain ⟨-, bitsB⟩ := isTail_of_toNat hb
  obtain ⟨tailC, bitsC⟩ := isTail_of_toNat hc
  obtain ⟨tailD, bitsD⟩ := isTail_of_toNat hd
  have follows := followsLead4_of_toNat ha hb low high
  simp only [firstChar, UInt8.lt_iff_toNat_lt, UInt8.le_iff_toNat_le, UInt8.reduceToNat,
    Bool.and_eq_true, decide_eq_true_eq, ha, follows, tailC, tailD, bitsB, bitsC, bitsD, if_true]
  rw [if_neg (by omega), if_neg (by omega), if_neg (by omega), if_pos (by omega)]
  congr 2
  omega

/-- What begins with the bytes of a character has that character first. -/
theorem firstChar_utf8EncodeChar (x : Char) (rest : List UInt8) : ∃ a tail,
    String.utf8EncodeChar x = a :: tail ∧ firstChar a (tail ++ rest) = (x, tail.length) := by
  have scalar : x.toNat < 0xD800 ∨ 0xDFFF < x.toNat ∧ x.toNat < 0x110000 := x.valid
  have same : Char.ofNat x.toNat = x := Char.ofNat_toNat x
  have byte : ∀ {n : Nat}, n < 256 → (UInt8.ofNat n).toNat = n := UInt8.toNat_ofNat_of_lt'
  simp only [String.utf8EncodeChar, show x.val.toNat = x.toNat from rfl]
  generalize x.toNat = v at *
  subst same
  split
  · next high => exact ⟨_, [], rfl, firstChar_of_one (byte (by omega)) (by omega) rest⟩
  · split
    · next low high =>
      have ha : (UInt8.ofNat (v / 64 % 32 + 192)).toNat = v / 64 + 192 := by
        rw [byte (by omega)]
        omega
      exact ⟨_, [_], rfl, firstChar_of_two ha (byte (by omega)) (by omega) (by omega) rest⟩
    · split
      · next low high =>
        have ha : (UInt8.ofNat (v / 4096 % 16 + 224)).toNat = v / 4096 + 224 := by
          rw [byte (by omega)]
          omega
        exact ⟨_, [_, _], rfl, firstChar_of_three ha (byte (by omega)) (byte (by omega)) (by omega)
          (by omega) (by omega) rest⟩
      · next low =>
        have ha : (UInt8.ofNat (v / 262144 % 8 + 240)).toNat = v / 262144 + 240 := by
          rw [byte (by omega)]
          omega
        exact ⟨_, [_, _, _], rfl, firstChar_of_four ha (byte (by omega)) (byte (by omega))
          (byte (by omega)) (by omega) (by omega) rest⟩

/-! ## Bytes of texts -/

@[simp] theorem utf8_empty : utf8 "" = [] := rfl

/-- The bytes of a character behind its first are passed over. -/
theorem lossyFrom_append (tail rest : List UInt8) :
    lossyFrom tail.length (tail ++ rest) = lossyFrom 0 rest := by
  induction tail with
  | nil => rfl
  | cons b tail ih => exact ih

theorem lossyFrom_flatMap (cs : List Char) :
    lossyFrom 0 (cs.flatMap String.utf8EncodeChar) = cs := by
  induction cs with
  | nil => rfl
  | cons c cs ih =>
    obtain ⟨a, tail, encoded, first⟩ :=
      firstChar_utf8EncodeChar c (cs.flatMap String.utf8EncodeChar)
    rw [List.flatMap_cons, encoded, List.cons_append, lossyFrom, first, lossyFrom_append, ih]

/-- **`lossy_utf8`**: nothing is lost of the bytes of a text. -/
theorem lossy_utf8 (s : String) : lossy (utf8 s) = s := by
  rw [lossy, utf8, lossyFrom_flatMap, String.ofList_toList]

theorem utf8_injective : Function.Injective utf8 :=
  Function.LeftInverse.injective lossy_utf8

theorem utf8_eq_nil_iff {s : String} : utf8 s = [] ↔ s = "" :=
  ⟨fun h => utf8_injective (h.trans utf8_empty.symm), fun h => h ▸ utf8_empty⟩

/-- **`ofUtf8?_eq_some_iff`**: bytes are the text that has them. -/
theorem ofUtf8?_eq_some_iff {bytes : List UInt8} {s : String} :
    ofUtf8? bytes = some s ↔ bytes = utf8 s := by
  unfold ofUtf8?
  constructor
  · intro h
    split at h
    · next same => rw [← Option.some.inj h, same]
    · cases h
  · rintro rfl
    rw [lossy_utf8, if_pos rfl]

/-! ## Characters of one byte -/

/-- The byte of a character below 128 is among the bytes of no other character. -/
theorem mem_utf8EncodeChar_iff {x : Char} (hx : x.toNat < 128) (c : Char) :
    UInt8.ofNat x.toNat ∈ String.utf8EncodeChar c ↔ c = x := by
  have byte : ∀ {n : Nat}, UInt8.ofNat x.toNat = UInt8.ofNat n → x.toNat = n % 256 := by
    intro n h
    have := congrArg UInt8.toNat h
    simp only [UInt8.toNat_ofNat'] at this
    omega
  constructor
  · intro h
    rw [String.utf8EncodeChar] at h
    apply Char.toNat_inj.1
    show c.val.toNat = x.toNat
    split at h
    · have := byte (List.mem_singleton.1 h)
      omega
    · -- all bytes of a longer character have their highest bit set
      exfalso
      split at h
      · simp only [List.mem_cons, List.not_mem_nil, or_false] at h
        rcases h with h | h <;> have := byte h <;> omega
      · split at h
        · simp only [List.mem_cons, List.not_mem_nil, or_false] at h
          rcases h with h | h | h <;> have := byte h <;> omega
        · simp only [List.mem_cons, List.not_mem_nil, or_false] at h
          rcases h with h | h | h | h <;> have := byte h <;> omega
  · rintro rfl
    rw [String.utf8EncodeChar, if_pos (show c.val.toNat ≤ 127 by exact Nat.le_of_lt_succ hx)]
    exact List.mem_singleton.2 rfl

/-- **`mem_utf8_iff`**: the byte of a character below 128 is among the bytes of the texts that have
the character. -/
theorem mem_utf8_iff {x : Char} (hx : x.toNat < 128) {s : String} :
    UInt8.ofNat x.toNat ∈ utf8 s ↔ x ∈ s.toList := by
  simp only [utf8, List.mem_flatMap, mem_utf8EncodeChar_iff hx, exists_eq_right]

theorem zero_mem_utf8_iff {s : String} : 0 ∈ utf8 s ↔ '\x00' ∈ s.toList :=
  mem_utf8_iff (x := '\x00') (by decide)

end Text

/-! ## Paths that are texts -/

namespace Path

variable {p : Path} {s : String}

@[simp] theorem text_ofText (s : String) : (ofText s).text = s := Text.lossy_utf8 s

theorem text?_eq_some_iff : p.text? = some s ↔ p = ofText s := by
  rw [text?, Text.ofUtf8?_eq_some_iff, ofText]
  exact ⟨congrArg Path.mk, congrArg Path.bytes⟩

theorem isSome_text?_iff : p.text?.isSome = true ↔ p = ofText p.text := by
  simp only [Option.isSome_iff_exists, text?_eq_some_iff]
  constructor
  · rintro ⟨s, rfl⟩
    rw [text_ofText]
  · exact fun h => ⟨_, h⟩

end Path
end PackageResolution

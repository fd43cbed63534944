/-!
# UTF-8

The bytes of a text, and the text of bytes that need not be well formed: there each longest run of
bytes that begins a character without completing one is read as the replacement character.
-/
namespace PackageResolution.Text

def utf8 (s : String) : List UInt8 := s.toList.flatMap String.utf8EncodeChar

def replacement : Char := '\uFFFD'

/-- Whether a byte continues a character. -/
def isTail (b : UInt8) : Bool := 0x80 ≤ b && b ≤ 0xBF

/-- Whether `b` may follow the first byte `a` of a character of three bytes. -/
def followsLead3 (a b : UInt8) : Bool :=
  if a = 0xE0 then 0xA0 ≤ b && b ≤ 0xBF
  else if a = 0xED then 0x80 ≤ b && b ≤ 0x9F
  else isTail b

/-- Whether `b` may follow the first byte `a` of a character of four bytes. -/
def followsLead4 (a b : UInt8) : Bool :=
  if a = 0xF0 then 0x90 ≤ b && b ≤ 0xBF
  else if a = 0xF4 then 0x80 ≤ b && b ≤ 0x8F
  else isTail b

def tailBits (b : UInt8) : Nat := b.toNat % 64

/-- One character of at most four bytes, or a replacement, and the number of bytes it takes after
the first. -/
def firstChar (a : UInt8) (rest : List UInt8) : Char × Nat :=
  if a < 0x80 then (Char.ofNat a.toNat, 0)
  else if 0xC2 ≤ a && a ≤ 0xDF then
    match rest with
    | b :: _ =>
      if isTail b then (Char.ofNat (a.toNat % 32 * 64 + tailBits b), 1) else (replacement, 0)
    | [] => (replacement, 0)
  else if 0xE0 ≤ a && a ≤ 0xEF then
    match rest with
    | b :: c :: _ =>
      if followsLead3 a b then
        if isTail c then (Char.ofNat (a.toNat % 16 * 4096 + tailBits b * 64 + tailBits c), 2)
        else (replacement, 1)
      else (replacement, 0)
    | [b] => (replacement, if followsLead3 a b then 1 else 0)
    | [] => (replacement, 0)
  else if 0xF0 ≤ a && a ≤ 0xF4 then
    match rest with
    | b :: c :: d :: _ =>
      if followsLead4 a b then
        if isTail c then
          if isTail d then
            (Char.ofNat
              (a.toNat % 8 * 262144 + tailBits b * 4096 + tailBits c * 64 + tailBits d), 3)
          else (replacement, 2)
        else (replacement, 1)
      else (replacement, 0)
    | [b, c] => (replacement, if followsLead4 a b then (if isTail c then 2 else 1) else 0)
    | [b] => (replacement, if followsLead4 a b then 1 else 0)
    | [] => (replacement, 0)
  else (replacement, 0)

/-- The characters of bytes, the first `skip` of which belong to the character before. -/
def lossyFrom : Nat → List UInt8 → List Char
  | _, [] => []
  | skip + 1, _ :: rest => lossyFrom skip rest
  | 0, a :: rest => (firstChar a rest).1 :: lossyFrom (firstChar a rest).2 rest

def lossy (bytes : List UInt8) : String := String.ofList (lossyFrom 0 bytes)

/-- The text of bytes that are one. -/
def ofUtf8? (bytes : List UInt8) : Option String :=
  if utf8 (lossy bytes) = bytes then some (lossy bytes) else none

end PackageResolution.Text

import PackageResolution.Text.Utf8
/-!
# SHA-256

The digest of a list of bytes: the message is padded to whole blocks of sixteen
words, each block is spread over a schedule of sixty-four words, and a state of eight words is
mixed with the schedule and added to itself.
-/
namespace PackageResolution.Digest

/-- The eight words that a digest is computed in. -/
abbrev State := Vector UInt32 8

/-- The first 32 bits of the fractional parts of the square roots of the first eight primes. -/
def initial : State := #v[
  0x6a09e667, 0xbb67ae85, 0x3c6ef372, 0xa54ff53a, 0x510e527f, 0x9b05688c, 0x1f83d9ab, 0x5be0cd19]

/-- The first 32 bits of the fractional parts of the cube roots of the first 64 primes. -/
def roundConstants : List UInt32 := [
  0x428a2f98, 0x71374491, 0xb5c0fbcf, 0xe9b5dba5, 0x3956c25b, 0x59f111f1, 0x923f82a4, 0xab1c5ed5,
  0xd807aa98, 0x12835b01, 0x243185be, 0x550c7dc3, 0x72be5d74, 0x80deb1fe, 0x9bdc06a7, 0xc19bf174,
  0xe49b69c1, 0xefbe4786, 0x0fc19dc6, 0x240ca1cc, 0x2de92c6f, 0x4a7484aa, 0x5cb0a9dc, 0x76f988da,
  0x983e5152, 0xa831c66d, 0xb00327c8, 0xbf597fc7, 0xc6e00bf3, 0xd5a79147, 0x06ca6351, 0x14292967,
  0x27b70a85, 0x2e1b2138, 0x4d2c6dfc, 0x53380d13, 0x650a7354, 0x766a0abb, 0x81c2c92e, 0x92722c85,
  0xa2bfe8a1, 0xa81a664b, 0xc24b8b70, 0xc76c51a3, 0xd192e819, 0xd6990624, 0xf40e3585, 0x106aa070,
  0x19a4c116, 0x1e376c08, 0x2748774c, 0x34b0bcb5, 0x391c0cb3, 0x4ed8aa4a, 0x5b9cca4f, 0x682e6ff3,
  0x748f82ee, 0x78a5636f, 0x84c87814, 0x8cc70208, 0x90befffa, 0xa4506ceb, 0xbef9a3f7, 0xc67178f2]

def rotate (x : UInt32) (n : UInt32) : UInt32 := (x >>> n) ||| (x <<< (32 - n))

/-- The next word of a schedule whose last sixteen words are given, the oldest first. -/
def nextWord (w : Array UInt32) (i : Nat) : UInt32 :=
  let a := w.getD (i - 15) 0
  let b := w.getD (i - 2) 0
  let s0 := rotate a 7 ^^^ rotate a 18 ^^^ (a >>> 3)
  let s1 := rotate b 17 ^^^ rotate b 19 ^^^ (b >>> 10)
  w.getD (i - 16) 0 + s0 + w.getD (i - 7) 0 + s1

/-- A block of sixteen words spread over sixty-four. -/
def schedule (block : List UInt32) : List UInt32 :=
  ((List.range' 16 48).foldl (fun w i => w.push (nextWord w i)) block.toArray).toList

/-- One round: the state mixed with a round constant and a word of the schedule. -/
def round (s : State) (constant word : UInt32) : State :=
  let a := s[0]; let b := s[1]; let c := s[2]; let d := s[3]
  let e := s[4]; let f := s[5]; let g := s[6]; let h := s[7]
  let s1 := rotate e 6 ^^^ rotate e 11 ^^^ rotate e 25
  let choice := (e &&& f) ^^^ ((~~~e) &&& g)
  let t1 := h + s1 + choice + constant + word
  let s0 := rotate a 2 ^^^ rotate a 13 ^^^ rotate a 22
  let majority := (a &&& b) ^^^ (a &&& c) ^^^ (b &&& c)
  #v[t1 + (s0 + majority), a, b, c, d + t1, e, f, g]

/-- The state after a block. -/
def compress (s : State) (block : List UInt32) : State :=
  let mixed := (roundConstants.zip (schedule block)).foldl (fun s kw => round s kw.1 kw.2) s
  s.zipWith (· + ·) mixed

def wordBytes (w : UInt32) : List UInt8 :=
  [(w >>> 24).toUInt8, (w >>> 16).toUInt8, (w >>> 8).toUInt8, w.toUInt8]

/-- The message followed by a one bit, zeros up to the length of whole blocks less eight bytes, and
the number of its bits. -/
def pad (bytes : List UInt8) : List UInt8 :=
  let bits := UInt64.ofNat (8 * bytes.length)
  let zeros : List UInt8 := List.replicate ((119 - bytes.length % 64) % 64) 0
  bytes ++ 0x80 :: zeros ++ wordBytes (bits >>> 32).toUInt32 ++ wordBytes bits.toUInt32

def wordOf (a b c d : UInt8) : UInt32 :=
  (a.toUInt32 <<< 24) ||| (b.toUInt32 <<< 16) ||| (c.toUInt32 <<< 8) ||| d.toUInt32

/-- Takes bytes by four into words and words by sixteen into the state. The words of the block that
is not yet full come last first. -/
def absorb (s : State) (block : List UInt32) : List UInt8 → State
  | a :: b :: c :: d :: rest =>
    let block := wordOf a b c d :: block
    if block.length = 16 then absorb (compress s block.reverse) [] rest
    else absorb s block rest
  | _ => s

/-- The digest of a message (`sha256_bytes`). -/
def sha256 (bytes : List UInt8) : List UInt8 :=
  (absorb initial [] (pad bytes)).toList.flatMap wordBytes

def hexByte (b : UInt8) : List Char :=
  [Nat.digitChar (b.toNat / 16), Nat.digitChar (b.toNat % 16)]

def hex (bytes : List UInt8) : String := String.ofList (bytes.flatMap hexByte)

def sha256Hex (bytes : List UInt8) : String := hex (sha256 bytes)

end PackageResolution.Digest

import PackageResolution.Decimal.Binary64
/-!
# Shortest decimals

The decimal text of a floating point number: the fewest digits that are read back as the number, and
of two such texts the nearer one. They are written out with at least one place after the point, or
with an exponent where a number is very large or very small. Two texts can be equally near, and the
two ways to write a number differ there: one takes the greater, the other the even one.
-/
namespace PackageResolution

namespace Binary64

/-- The reals that are read as a positive number, in quarters of its last place: the ends, and
whether these belong to it. Below a power of two the numbers lie twice as dense. -/
def interval (mantissa : Nat) (exponent : Int) : Nat × Nat × Bool :=
  (4 * mantissa - (if mantissa = leastMantissa ∧ exponent ≠ -1074 then 1 else 2), 4 * mantissa + 2,
    mantissa % 2 = 0)

/-- Whether `digits · 10 ^ place` is read as the number. -/
def readsBack (mantissa : Nat) (exponent : Int) (digits : Nat) (place : Int) : Bool :=
  let (low, high, closed) := interval mantissa exponent
  let quarter := exponent - 2
  let up := Nat.pow 2 quarter.toNat * Nat.pow 10 (-place).toNat
  let given := digits * Nat.pow 10 place.toNat * Nat.pow 2 (-quarter).toNat
  if closed then low * up ≤ given && given ≤ high * up else low * up < given && given < high * up

def leadingPlace (num den : Nat) : Int :=
  if den ≤ num then ((Nat.toDigits 10 (num / den)).length : Int) - 1
  else
    let n := (Nat.toDigits 10 (den / num)).length
    if den ≤ num * Nat.pow 10 (n - 1) then -((n : Int) - 1) else -(n : Int)

/-- Which of two equally near decimals is taken. -/
inductive Tie where
  /-- The greater one. -/
  | up
  /-- The one whose last digit is even. -/
  | even
  deriving DecidableEq

def Tie.takesBelow : Tie → Nat → Bool
  | up, _ => false
  | even, below => below % 2 = 0

/-- The decimal with the digits up to a place that is nearest to a positive number among those that
are read back. -/
def decimalAt? (tie : Tie) (mantissa : Nat) (exponent place : Int) : Option (Nat × Int) :=
  let num := mantissa * Nat.pow 2 exponent.toNat * Nat.pow 10 (-place).toNat
  let den := Nat.pow 2 (-exponent).toNat * Nat.pow 10 place.toNat
  let below := num / den
  let hitBelow := readsBack mantissa exponent below place
  let hitAbove := readsBack mantissa exponent (below + 1) place
  let isNearer := 2 * (num % den) < den || (2 * (num % den) = den && tie.takesBelow below)
  if hitBelow && (!hitAbove || isNearer) then some (below, place)
  else if hitAbove then some (below + 1, place)
  else none

/-- The fewest digits of a positive number, and the place of the last of them. -/
def shortest (tie : Tie) (mantissa : Nat) (exponent : Int) : Nat × Int :=
  let first := leadingPlace (mantissa * Nat.pow 2 exponent.toNat) (Nat.pow 2 (-exponent).toNat)
  ((List.range 17).findSome? fun n : Nat =>
    decimalAt? tie mantissa exponent (first - (n : Int))).getD (0, 0)

def trimZeros (digits : List Char) (place : Int) : List Char × Int :=
  let zeros := (digits.reverse.takeWhile (· == '0')).length
  (digits.take (digits.length - zeros), place + zeros)

/-- A decimal written out, with at least one place after the point. -/
def positional (digits : List Char) (place : Int) : List Char :=
  if 0 ≤ place then digits ++ List.replicate place.toNat '0' ++ ['.', '0']
  else
    let places := (-place).toNat
    let padded := List.replicate (places + 1 - digits.length) '0' ++ digits
    padded.take (padded.length - places) ++ '.' :: padded.drop (padded.length - places)

/-- A decimal with one digit before the point and an exponent with its sign. The point stands only
before places. -/
def scientific (digits : List Char) (place : Int) : List Char :=
  let lead := match digits with
    | d :: e :: rest => d :: '.' :: e :: rest
    | digits => digits
  let power := place + digits.length - 1
  lead ++ 'e' :: ((if 0 ≤ power then "+" else "") ++ toString power).toList

/-- A decimal written out from a hundred-thousandth up to below `10 ^ 16`, and with an exponent
elsewhere. -/
def compact (digits : List Char) (place : Int) : List Char :=
  let size := digits.length + place
  if -5 < size ∧ size ≤ 16 then positional digits place else scientific digits place

/-- The text of a number whose digits are found and laid out in a given way. -/
def textBy (tie : Tie) (layout : List Char → Int → List Char) : Binary64 → String
  | nan => "NaN"
  | infinite negative => if negative then "-inf" else "inf"
  | finite negative mantissa exponent =>
    let sign := if negative then "-" else ""
    if mantissa = 0 then sign ++ "0.0"
    else
      let (digits, place) := shortest tie mantissa exponent
      let (digits, place) := trimZeros (Nat.toDigits 10 digits) place
      sign ++ String.ofList (layout digits place)

/-- The text of a number, always written out. -/
def display : Binary64 → String := textBy .up positional

/-- The text of a number, very large and very small ones with an exponent. -/
def displayCompact : Binary64 → String := textBy .even compact

example : (ofDecimal false 15 (-1)).display = "1.5" := by decide +kernel
example : (ofDecimal false 1 16).displayCompact = "1e+16" := by decide +kernel
example : (ofDecimal false 112589990684262425 (-2)).display = "1125899906842624.3" := by
  decide +kernel
example : (ofDecimal false 112589990684262425 (-2)).displayCompact = "1125899906842624.2" := by
  decide +kernel
example : (ofDecimal true 125 (-9)).displayCompact = "-1.25e-7" := by decide +kernel

end Binary64
end PackageResolution

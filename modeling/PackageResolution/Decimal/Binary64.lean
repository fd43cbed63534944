/-!
# Binary floating point

Numbers of the binary64 format, and the number that a decimal is read as: the nearest one, and of
two equally near ones the one with the even mantissa.
-/
namespace PackageResolution

/-- A number of the binary64 format. A finite one is `mantissa · 2 ^ exponent`, with a mantissa of
53 bits unless the exponent is the least one, -1074. -/
inductive Binary64 where
  | nan
  | infinite (negative : Bool)
  | finite (negative : Bool) (mantissa : Nat) (exponent : Int)
  deriving DecidableEq

namespace Binary64

/-- A quotient rounded to a natural number; a half goes to the even neighbour. -/
def roundDiv (num den : Nat) : Nat :=
  let q := num / den
  let twice := 2 * (num % den)
  if twice < den then q
  else if twice = den then q + q % 2
  else q + 1

/-- `num / den · 2 ^ (-exponent)` as a quotient. -/
def scale (num den : Nat) (exponent : Int) : Nat × Nat :=
  (num * Nat.pow 2 (-exponent).toNat, den * Nat.pow 2 exponent.toNat)

def leastMantissa : Nat := 4503599627370496

/-- The exponent with which a positive quotient has a mantissa of 53 bits, or the least one. -/
def exponentFor (num den : Nat) : Int :=
  let guess := max ((num.log2 : Int) - den.log2 - 53) (-1074)
  let (n, d) := scale num den guess
  if n / d < 2 * leastMantissa then guess else guess + 1

def ofQuotient (negative : Bool) (num den : Nat) : Binary64 :=
  let exponent := exponentFor num den
  let (n, d) := scale num den exponent
  let mantissa := roundDiv n d
  let (mantissa, exponent) :=
    if mantissa = 2 * leastMantissa then (leastMantissa, exponent + 1) else (mantissa, exponent)
  if 971 < exponent then .infinite negative else .finite negative mantissa exponent

/-- The number nearest to `digits · 10 ^ exponent`. Beyond 400 places nothing is finite, or nothing
is left. -/
def ofDecimal (negative : Bool) (digits : Nat) (exponent : Int) : Binary64 :=
  let places := ((Nat.toDigits 10 digits).length : Int) + exponent
  if digits = 0 ∨ places < -400 then .finite negative 0 0
  else if 400 < places then .infinite negative
  else ofQuotient negative (digits * Nat.pow 10 exponent.toNat) (Nat.pow 10 (-exponent).toNat)

example : ofDecimal false 5 (-1) = .finite false leastMantissa (-53) := by decide +kernel
example : ofDecimal true 1 400 = .infinite true := by decide +kernel

end Binary64
end PackageResolution

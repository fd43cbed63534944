import PackageResolution.Document
import PackageResolution.Toml.Scan
/-!
# Numbers

Integers of 64 bits, to base ten with a sign or to base sixteen, eight or two without one, and
floating point numbers. A single underscore may stand between two digits. A number to base ten has
no leading zero.
-/
namespace PackageResolution.Toml

def isOctal (c : Char) : Bool := '0' ≤ c && c ≤ '7'

def isBinary (c : Char) : Bool := c == '0' || c == '1'

def isHexadecimal (c : Char) : Bool :=
  c.isDigit || ('a' ≤ c && c ≤ 'f') || ('A' ≤ c && c ≤ 'F')

def digitValue (c : Char) : Nat :=
  if c.isDigit then c.toNat - '0'.toNat
  else if 'a' ≤ c then c.toNat - 'a'.toNat + 10
  else c.toNat - 'A'.toNat + 10

def digitsValue (base : Nat) (digits : List Char) : Nat :=
  digits.foldl (fun n d => base * n + digitValue d) 0

/-- The digits that follow a digit, without the underscores between them. -/
def moreDigits (isDigit : Char → Bool) : List Char → List Char × List Char
  | [] => ([], [])
  | [c] => if isDigit c then ([c], []) else ([], [c])
  | c :: d :: rest =>
    if isDigit c then
      let (digits, rest) := moreDigits isDigit (d :: rest)
      (c :: digits, rest)
    else if c == '_' && isDigit d then
      let (digits, rest) := moreDigits isDigit rest
      (d :: digits, rest)
    else ([], c :: d :: rest)

/-- One digit and those that follow it. -/
def digits? (isDigit : Char → Bool) : Scan (List Char)
  | c :: rest =>
    if isDigit c then
      let (digits, rest) := moreDigits isDigit rest
      some (c :: digits, rest)
    else none
  | [] => none

/-- Whether there is a minus sign, and the text after the sign. -/
def sign : List Char → Bool × List Char
  | '-' :: rest => (true, rest)
  | '+' :: rest => (false, rest)
  | cs => (false, cs)

/-- Digits to base ten; a zero in front stands alone. -/
def decimal? : Scan (List Char)
  | '0' :: rest => some (['0'], rest)
  | cs => digits? Char.isDigit cs

def fraction? : Scan (List Char)
  | '.' :: rest => digits? Char.isDigit rest
  | _ => none

def exponent? : Scan Int
  | c :: rest =>
    if c == 'e' || c == 'E' then
      let (negative, rest) := sign rest
      (digits? Char.isDigit rest).map fun (digits, rest) =>
        let n : Int := digitsValue 10 digits
        (if negative then -n else n, rest)
    else none
  | [] => none

/-- The number nearest to a decimal. Above the range only a negative one is accepted, as infinity. -/
def nearest? (negative : Bool) (digits : Nat) (exponent : Int) : Option Value :=
  match Binary64.ofDecimal negative digits exponent with
  | .infinite false => none
  | x => some (.float x)

/-- A floating point number with places, an exponent or both. -/
def plainFloat? : Scan Value := fun cs => do
  let (negative, cs) := sign cs
  let (whole, cs) ← decimal? cs
  match fraction? cs with
  | some (places, cs) =>
    let (exponent, cs) := (exponent? cs).getD (0, cs)
    let x ← nearest? negative (digitsValue 10 (whole ++ places)) (exponent - places.length)
    return (x, cs)
  | none =>
    let (exponent, cs) ← exponent? cs
    return (← nearest? negative (digitsValue 10 whole) exponent, cs)

def specialFloat? : Scan Value := fun cs =>
  let (negative, cs) := sign cs
  match cs with
  | 'i' :: 'n' :: 'f' :: rest => some (.float (.infinite negative), rest)
  | 'n' :: 'a' :: 'n' :: rest => some (.float .nan, rest)
  | _ => none

/-- Whether a number has a place among those of 64 bits with a sign. -/
def fitsWord (n : Int) : Bool := -9223372036854775808 ≤ n && n ≤ 9223372036854775807

/-- Digits to a base other than ten. -/
def based? (base : Nat) (isDigit : Char → Bool) : Scan Value := fun cs => do
  let (digits, cs) ← digits? isDigit cs
  let n : Int := digitsValue base digits
  if fitsWord n then some (.integer n, cs) else none

def integer? : Scan Value
  | '0' :: 'x' :: rest => based? 16 isHexadecimal rest
  | '0' :: 'o' :: rest => based? 8 isOctal rest
  | '0' :: 'b' :: rest => based? 2 isBinary rest
  | cs => do
    let (negative, cs) := sign cs
    let (digits, cs) ← decimal? cs
    let n : Int := digitsValue 10 digits
    let n := if negative then -n else n
    if fitsWord n then some (.integer n, cs) else none

def number? : Scan Value := fun cs => plainFloat? cs <|> specialFloat? cs <|> integer? cs

end PackageResolution.Toml

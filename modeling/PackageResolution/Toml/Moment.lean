import PackageResolution.Document
import PackageResolution.Toml.Number
/-!
# Dates and times

A date, a time of day, or a date with a time of day and perhaps an offset. What is read is the
moment's usual text: a `T` between date and time, no zeros at the end of a fraction of a second and
at most nine places of it, `Z` or hours and minutes for the offset.
-/
namespace PackageResolution.Toml

/-- A number of exactly `n` digits within bounds. -/
def fixed? (n low high : Nat) : Scan Nat := fun cs =>
  let digits := cs.take n
  let value := digitsValue 10 digits
  if digits.length = n ∧ digits.all Char.isDigit ∧ low ≤ value ∧ value ≤ high then
    some (value, cs.drop n)
  else none

def padded (width n : Nat) : String :=
  let digits := Nat.toDigits 10 n
  String.ofList (List.replicate (width - digits.length) '0' ++ digits)

def daysIn (year month : Nat) : Nat :=
  if month = 2 then
    if year % 4 = 0 ∧ (year % 100 ≠ 0 ∨ year % 400 = 0) then 29 else 28
  else if month = 4 ∨ month = 6 ∨ month = 9 ∨ month = 11 then 30
  else 31

def date? : Scan String := fun cs => do
  let (year, cs) ← fixed? 4 0 9999 cs
  let (month, cs) ← fixed? 2 1 12 (← after? ['-'] cs)
  let (day, cs) ← fixed? 2 1 (daysIn year month) (← after? ['-'] cs)
  return (padded 4 year ++ "-" ++ padded 2 month ++ "-" ++ padded 2 day, cs)

/-- The text of the places of a fraction of a second. -/
def fractionText (digits : List Char) : String :=
  match ((digits.take 9).reverse.dropWhile (· == '0')).reverse with
  | [] => ""
  | digits => "." ++ String.ofList digits

/-- A fraction of a second, if there is one. -/
def secondFraction (cs : List Char) : String × List Char :=
  match cs with
  | '.' :: rest =>
    match rest.takeWhile Char.isDigit with
    | [] => ("", cs)
    | digits => (fractionText digits, rest.dropWhile Char.isDigit)
  | _ => ("", cs)

def time? : Scan String := fun cs => do
  let (hour, cs) ← fixed? 2 0 23 cs
  let (minute, cs) ← fixed? 2 0 59 (← after? [':'] cs)
  let (second, cs) ← fixed? 2 0 60 (← after? [':'] cs)
  let (fraction, cs) := secondFraction cs
  return (padded 2 hour ++ ":" ++ padded 2 minute ++ ":" ++ padded 2 second ++ fraction, cs)

/-- An offset from universal time. -/
def offset? : Scan String
  | c :: rest =>
    if c == 'Z' || c == 'z' then some ("Z", rest)
    else if c == '+' || c == '-' then do
      let (hour, rest) ← fixed? 2 0 23 rest
      let (minute, rest) ← fixed? 2 0 59 (← after? [':'] rest)
      let mark := if c == '-' && (hour ≠ 0 || minute ≠ 0) then "-" else "+"
      return (mark ++ padded 2 hour ++ ":" ++ padded 2 minute, rest)
    else none
  | [] => none

/-- The time that follows a date, with its offset. -/
def timeOfDate? : Scan String
  | c :: rest =>
    if c == 'T' || c == 't' || c == ' ' then do
      let (time, rest) ← time? rest
      let (offset, rest) := (offset? rest).getD ("", rest)
      return ("T" ++ time ++ offset, rest)
    else none
  | [] => none

/-- A date, a time, or both. -/
def moment? : Scan Value := fun cs =>
  match date? cs with
  | some (date, cs) =>
    let (time, cs) := (timeOfDate? cs).getD ("", cs)
    some (.moment (date ++ time), cs)
  | none => (time? cs).map fun (time, cs) => (.moment time, cs)

end PackageResolution.Toml

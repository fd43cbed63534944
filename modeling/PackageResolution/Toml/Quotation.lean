import PackageResolution.Toml.Number
/-!
# Quoted texts

Texts between double quotes know escapes, texts between single quotes stand as they are. Either kind
goes over one line, or over several between threefold quotes. There the line end right after the
opening quotes does not count, a line end is one line feed however it is written, and one or two
quotes may stand inside, also right before the closing ones; a backslash at the end of a line joins
it to the next text.
-/
namespace PackageResolution.Toml

/-- The character of a hexadecimal number of `n` digits, if it is one. -/
def codePoint? (n : Nat) (cs : List Char) : Option (Char × List Char) :=
  let digits := cs.take n
  let value := digitsValue 16 digits
  if digits.length = n ∧ digits.all isHexadecimal ∧ value.isValidChar then
    some (Char.ofNat value, cs.drop n)
  else none

def escape? : Scan Char
  | 'b' :: rest => some ('\x08', rest)
  | 't' :: rest => some ('\t', rest)
  | 'n' :: rest => some ('\n', rest)
  | 'f' :: rest => some ('\x0c', rest)
  | 'r' :: rest => some ('\r', rest)
  | '"' :: rest => some ('"', rest)
  | '\\' :: rest => some ('\\', rest)
  | 'u' :: rest => codePoint? 4 rest
  | 'U' :: rest => codePoint? 8 rest
  | _ => none

/-- The rest of a text on one line, after its opening quote and within a number of steps. The
characters read so far come last first. -/
def lineText (quote : Char) (sofar : List Char) : Nat → List Char → Option (String × List Char)
  | 0, _ => none
  | _ + 1, [] => none
  | fuel + 1, c :: rest =>
    if c = quote then some (String.ofList sofar.reverse, rest)
    else if c = '\\' ∧ quote = '"' then do
      let (e, rest) ← escape? rest
      lineText quote (e :: sofar) fuel rest
    else if isPrinted c then lineText quote (c :: sofar) fuel rest
    else none

/-- The text after a backslash that joins lines: blanks, an end of line, and all blanks and ends of
lines after it. -/
def joinedLine? (cs : List Char) : Option (List Char) := do
  return skipBlank (← newline? (skipSpace cs))

/-- The rest of a text over several lines, after its opening quotes and within a number of steps. -/
def blockText (quote : Char) (sofar : List Char) : Nat → List Char → Option (String × List Char)
  | 0, _ => none
  | _ + 1, [] => none
  | fuel + 1, c :: rest =>
    if c = quote then
      let run := 1 + (rest.takeWhile (· == quote)).length
      if run < 3 then
        blockText quote (List.replicate run quote ++ sofar) fuel ((c :: rest).drop run)
      else
        let inside := min (run - 3) 2
        some (String.ofList (List.replicate inside quote ++ sofar).reverse,
          (c :: rest).drop (inside + 3))
    else if c = '\\' ∧ quote = '"' then
      match escape? rest with
      | some (e, rest) => blockText quote (e :: sofar) fuel rest
      | none => do blockText quote sofar fuel (← joinedLine? rest)
    else if isPrinted c then blockText quote (c :: sofar) fuel rest
    else do
      let rest ← newline? (c :: rest)
      blockText quote ('\n' :: sofar) fuel rest

/-- A text between single quotes of either kind. -/
def lineQuotation? : Scan String
  | c :: rest => if c = '"' ∨ c = '\'' then lineText c [] rest.length rest else none
  | [] => none

def quotation? : Scan String := fun cs =>
  match cs with
  | c :: d :: e :: rest =>
    if (c = '"' ∨ c = '\'') ∧ c = d ∧ d = e then
      blockText c [] (rest.length + 1) ((newline? rest).getD rest)
    else lineQuotation? cs
  | _ => lineQuotation? cs

end PackageResolution.Toml

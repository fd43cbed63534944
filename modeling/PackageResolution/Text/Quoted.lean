import PackageResolution.Text.Hidden
/-!
# Quoted text in messages

A message that shows a string or a character shows it quoted: tab, carriage return, line feed,
NUL, the backslash and the quote in use are escaped by a letter, hidden characters by their
number in lower-case hexadecimal (`\u{7f}`), and all else stands for itself. The other quote is
not escaped.
-/
namespace PackageResolution.Text

def hexadecimal (n : Nat) : List Char := Nat.toDigits 16 n

/-- One character as it stands between the quotes `quote`. -/
def quotedChar (quote c : Char) : List Char :=
  if c = '\t' then ['\\', 't']
  else if c = '\r' then ['\\', 'r']
  else if c = '\n' then ['\\', 'n']
  else if c.toNat = 0 then ['\\', '0']
  else if c = '\\' then ['\\', '\\']
  else if c = quote then ['\\', c]
  else if isHidden c then ['\\', 'u', '\x7b'] ++ hexadecimal c.toNat ++ ['\x7d']
  else [c]

def quoted (s : String) : String :=
  String.ofList ('"' :: s.toList.flatMap (quotedChar '"') ++ ['"'])

def quotedLetter (c : Char) : String :=
  String.ofList ('\'' :: quotedChar '\'' c ++ ['\''])

end PackageResolution.Text

import ImplicitGlobals.Text.Printable

/-!
# Escaped literals

A text as it is shown in an outline: between double quotes, with every character
that would not show for itself written as an escape. Single quotes stay.
-/

namespace ImplicitGlobals.Text.Escaped

/-- The lower-case hexadecimal digits of `n`, without leading zeros. -/
def hex (n : Nat) : List Char := Nat.toDigits 16 n

/-- `\u{…}` around the code point of `c`. -/
def codePoint (c : Char) : List Char :=
  ['\\', 'u', '\x7b'] ++ hex c.toNat ++ ['\x7d']

def encodeChar (c : Char) : List Char :=
  if c = '\x00' then ['\\', '0']
  else if c = '\t' then ['\\', 't']
  else if c = '\r' then ['\\', 'r']
  else if c = '\n' then ['\\', 'n']
  else if c = '"' then ['\\', '"']
  else if c = '\\' then ['\\', '\\']
  else if ' ' ≤ c && c ≤ '~' then [c]
  else if extendsPrevious c || !isPrintable c then codePoint c
  else [c]

/-- `s` between double quotes, escaped. -/
def quote (s : String) : String :=
  String.ofList ('"' :: s.toList.flatMap encodeChar ++ ['"'])

end ImplicitGlobals.Text.Escaped

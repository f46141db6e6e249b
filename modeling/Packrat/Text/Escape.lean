/-! # Escaped text

Characters that cannot stand for themselves inside quotes are written with a backslash: the
backslash, the quote, the usual blanks by a letter, and the other control characters by four
hexadecimal digits.
-/

namespace Packrat.Escape

/-- The control characters, U+0000 to U+001F and U+007F to U+009F. -/
def isControl (c : Char) : Bool :=
  c.toNat < 0x20 || (0x7F ≤ c.toNat && c.toNat < 0xA0)

/-- The upper-case hexadecimal digit of a number below 16. -/
def upperDigit (n : Nat) : Char :=
  if n < 10 then Char.ofNat (48 + n) else Char.ofNat (55 + n)

/-- The last four hexadecimal digits of a number. -/
def fourDigits (n : Nat) : List Char :=
  [n / 4096 % 16, n / 256 % 16, n / 16 % 16, n % 16].map upperDigit

/-- One character as it is written inside a text delimited by `quote`. -/
def char (quote c : Char) : List Char :=
  if c = '\\' then ['\\', '\\']
  else if c = '\n' then ['\\', 'n']
  else if c = '\r' then ['\\', 'r']
  else if c = '\t' then ['\\', 't']
  else if c = '\x0c' then ['\\', 'f']
  else if c = '\x08' then ['\\', 'b']
  else if c = quote then ['\\', c]
  else if isControl c then '\\' :: 'u' :: fourDigits c.toNat
  else [c]

/-- A text as it is written between two `quote`s, without them. -/
def text (quote : Char) (s : String) : String :=
  String.ofList (s.toList.flatMap (char quote))

end Packrat.Escape

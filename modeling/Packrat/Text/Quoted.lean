import Packrat.Unicode.Display

/-! # Quoted names

Names in double quotes, for messages that have to show every character: characters without a shape
of their own are written by their code point.
-/

namespace Packrat.Quoted

/-- One character inside double quotes. -/
def char (c : Char) : List Char :=
  if c = Char.ofNat 0 then ['\\', '0']
  else if c = '\t' then ['\\', 't']
  else if c = '\r' then ['\\', 'r']
  else if c = '\n' then ['\\', 'n']
  else if c = '\\' ∨ c = '"' then ['\\', c]
  else if Unicode.shapeless c then
    "\\u\x7b".toList ++ Nat.toDigits 16 c.toNat ++ ['\x7d']
  else [c]

/-- A name in double quotes. -/
def name (s : String) : String :=
  "\"" ++ String.ofList (s.toList.flatMap char) ++ "\""

/-- Names in double quotes, separated by commas, in brackets. -/
def names (list : List String) : String :=
  "[" ++ ", ".intercalate (list.map name) ++ "]"

end Packrat.Quoted

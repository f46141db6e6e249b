import Packrat.Unicode.Letter
import Packrat.Unicode.Lowercase
import Packrat.Unicode.Number
import Packrat.Unicode.Uppercase

/-! # Named classes of characters

Grammars name a few classes of characters, without regard to the case of the name. Any other name
is that of a class that is not defined and holds no character.
-/

namespace Packrat

inductive CharClass where
  | lower
  | upper
  | title
  | alpha
  | digit
  | alnum
  | space
  | undefined (name : String)
deriving DecidableEq, Repr

namespace CharClass

def named (name : String) : CharClass :=
  match String.ofList (name.toList.map Char.toLower) with
  | "lower" => lower
  | "upper" => upper
  | "title" => title
  | "alpha" => alpha
  | "digit" => digit
  | "alnum" => alnum
  | "space" => space
  | _ => undefined name

def name : CharClass → String
  | lower => "Lower"
  | upper => "Upper"
  | title => "Title"
  | alpha => "Alpha"
  | digit => "Digit"
  | alnum => "Alnum"
  | space => "Space"
  | undefined name => name

def isUndefined : CharClass → Bool
  | undefined _ => true
  | _ => false

/-- A class that is defined has the name it is called by. -/
theorem named_name {k : CharClass} (defined : k.isUndefined = false) : named k.name = k := by
  cases k with
  | undefined name => simp [isUndefined] at defined
  | _ => rfl

/-- Separators, except the spaces that forbid a line break, and the control characters used as
separators. -/
def isSpace (c : Char) : Bool :=
  if c.toNat = 0xA0 ∨ c.toNat = 0x2007 ∨ c.toNat = 0x202F then false
  else if 0x09 ≤ c.toNat ∧ c.toNat ≤ 0x0D ∨ 0x1C ≤ c.toNat ∧ c.toNat ≤ 0x1F then true
  else Unicode.separator.contains c

def contains : CharClass → Char → Bool
  | lower, c => Unicode.lowercase.contains c
  | upper, c => Unicode.uppercase.contains c
  | title, c => Unicode.titlecase.contains c
  | alpha, c => Unicode.letter.contains c
  | digit, c => Unicode.decimal.contains c
  | alnum, c => Unicode.letter.contains c || Unicode.decimal.contains c
  | space, c => isSpace c
  | undefined _, _ => false

end CharClass

end Packrat

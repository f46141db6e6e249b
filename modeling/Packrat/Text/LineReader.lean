import Packrat.Text.Source

/-! # Decoding bytes on demand

A reader decodes a line of its bytes when the characters of the line before are used up, and hands them out one at a
time. What it delivers until it ends or fails is a source.
-/

namespace Packrat

/-- Characters of the line read last that have not been asked for, and the bytes behind that line. -/
structure LineReader where
  pending : List Char
  bytes : List UInt8
deriving DecidableEq, Repr

namespace LineReader

/-- At the beginning of the bytes. -/
def ofBytes (bytes : List UInt8) : LineReader := ⟨[], bytes⟩

/-- Reading a line takes the bytes up to the next `0x0A` and that one too, or all there are. -/
def lineLength (bytes : List UInt8) : Nat := (bytes.takeWhile (· ≠ 0x0A)).length + 1

def decode (line : List UInt8) : Except String (List Char) :=
  match (ByteArray.mk line.toArray).utf8Decode? with
  | none => .error Source.invalidBytes
  | some decoded => .ok decoded.toList

/-- The next character, or the failure of a line that is not UTF-8. `none` behind the last line. -/
def next : LineReader → Option (Except String Char) × LineReader
  | ⟨c :: pending, bytes⟩ => (some (.ok c), ⟨pending, bytes⟩)
  | ⟨[], []⟩ => (none, ⟨[], []⟩)
  | ⟨[], b :: bytes⟩ =>
    let rest := (b :: bytes).drop (lineLength (b :: bytes))
    match decode ((b :: bytes).take (lineLength (b :: bytes))) with
    | .error message => (some (.error message), ⟨[], rest⟩)
    | .ok line => next ⟨line, rest⟩
termination_by r => r.bytes.length
decreasing_by
  simp only [List.length_drop, List.length_cons, lineLength]
  omega

/-- Asked for one character after the other, the reader delivers those of the source, and fails or ends as the source
does. -/
inductive Delivers : LineReader → Source → Prop
  | ended {r r' : LineReader} (asked : r.next = (none, r')) : Delivers r { chars := [] }
  | failed {r r' : LineReader} {message : String} (asked : r.next = (some (.error message), r')) :
    Delivers r { chars := [], failure := some message }
  | char {r r' : LineReader} {c : Char} {tail : Source} (asked : r.next = (some (.ok c), r')) (rest : Delivers r' tail) :
    Delivers r { tail with chars := c :: tail.chars }

end LineReader

end Packrat

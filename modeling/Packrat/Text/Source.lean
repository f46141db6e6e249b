/-! # Where characters come from

A source delivers characters, and may end with a failure instead of an ordinary end. Bytes are
decoded line by line, so that a line with bytes that are not UTF-8 is lost as a whole and ends the
source.
-/

namespace Packrat

/-- The characters a source delivers and the failure it ends with, if any. -/
structure Source where
  chars : List Char
  failure : Option String := none
deriving DecidableEq, Repr

namespace Source

def ofString (text : String) : Source := { chars := text.toList }

/-- Pieces one after the other, up to the first failure. -/
def ofParts : List (Except String String) → Source
  | [] => { chars := [] }
  | .error message :: _ => { chars := [], failure := some message }
  | .ok text :: rest =>
    let tail := ofParts rest
    { tail with chars := text.toList ++ tail.chars }

/-- The byte lines of `bytes`, each with the byte `0x0A` that ends it. -/
def byteLines : List UInt8 → List (List UInt8)
  | [] => []
  | b :: rest =>
    if b = 0x0A then [b] :: byteLines rest
    else match byteLines rest with
      | [] => [[b]]
      | line :: lines => (b :: line) :: lines

/-- The failure of a byte source with bytes that are not UTF-8. -/
def invalidBytes : String := "stream did not contain valid UTF-8"

/-- Decodes lines one at a time and ends at the first one that is not UTF-8. -/
def ofLines : List (List UInt8) → Source
  | [] => { chars := [] }
  | line :: rest =>
    match (ByteArray.mk line.toArray).utf8Decode? with
    | none => { chars := [], failure := some invalidBytes }
    | some decoded =>
      let tail := ofLines rest
      { tail with chars := decoded.toList ++ tail.chars }

def ofBytes (bytes : List UInt8) : Source := ofLines (byteLines bytes)

end Source

end Packrat

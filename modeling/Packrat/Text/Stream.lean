import Packrat.Text.Newline
import Packrat.Text.Position
import Packrat.Text.Source

/-! # Character stream with unlimited backtracking

A stream takes characters from its source when something looks at them, normalizes the line ends,
and keeps them in a buffer as long as a mark can lead back to them. Operations that look at the
text return their answer with the stream after the look: the answers depend on the text alone, the
stream also records how far the source has been read.
-/

namespace Packrat

/-- `release` or `reset` without a mark to close. -/
inductive MarkError where
  | release
  | reset
deriving DecidableEq, Repr

def MarkError.message : MarkError → String
  | .release => "`release` called on a stream without outstanding mark."
  | .reset => "`reset` called on a stream without outstanding mark."

structure Stream where
  /-- Characters not yet taken from the source. -/
  source : List Char
  /-- The failure behind the last character of the source. -/
  failure : Option String
  /-- The last character taken was a `\r`. -/
  afterReturn : Bool
  /-- Normalized characters from the offset `base` on. -/
  buffer : Array Char
  base : Nat
  position : Position
  /-- Where the matched text starts while no mark is outstanding. -/
  origin : Position
  /-- Outstanding marks, the innermost first. -/
  marks : List Position
  /-- The failure met at the end of the source, until it is asked for. -/
  error : Option String
deriving Repr

/-- The text under the innermost mark, with its place. -/
structure Context where
  chars : List Char
  span : Span
deriving DecidableEq, Repr

namespace Context

def text (context : Context) : String := String.ofList context.chars

def length (context : Context) : Nat := context.chars.length

end Context

namespace Stream

/-- A stream at the beginning of `source`, nothing read yet. -/
def ofSource (source : Source) : Stream where
  source := source.chars
  failure := source.failure
  afterReturn := false
  buffer := #[]
  base := 0
  position := .origin
  origin := .origin
  marks := []
  error := none

def ofString (text : String) : Stream := ofSource (.ofString text)

/-- Moves one normalized character into the buffer. At the end of the source the answer is
`false`, and the failure waiting there becomes the error of the stream. -/
def fetch (s : Stream) : Bool × Stream :=
  match Newline.next s.afterReturn s.source with
  | some (c, afterReturn, rest) =>
    (true, { s with source := rest, afterReturn, buffer := s.buffer.push c })
  | none =>
    match s.failure with
    | none => (false, { s with source := [] })
    | some message => (false, { s with source := [], failure := none, error := some message })

/-- Fetches `count` characters, fewer at the end of the source. -/
def fill : Nat → Stream → Stream
  | 0, s => s
  | count + 1, s =>
    match s.fetch with
    | (true, s) => fill count s
    | (false, s) => s

/-- Index of the current position in the buffer. -/
def index (s : Stream) : Nat := s.position.offset - s.base

/-- The character `n` places ahead, without moving. -/
def peekNth (s : Stream) (n : Nat) : Option Char × Stream :=
  let i := s.index + n
  let s := s.fill (i + 1 - s.buffer.size)
  (s.buffer[i]?, s)

def peek (s : Stream) : Option Char × Stream := s.peekNth 0

def read (s : Stream) : Option Char × Stream :=
  match s.peek with
  | (some c, s) => (some c, { s with position := s.position.next c })
  | (none, s) => (none, s)

/-- Reads `count` characters, fewer at the end of the text. -/
def take : Nat → Stream → List Char × Stream
  | 0, s => ([], s)
  | count + 1, s =>
    match s.read with
    | (none, s) => ([], s)
    | (some c, s) =>
      let (rest, s) := take count s
      (c :: rest, s)

/-- Passes over `count` characters, fewer at the end of the text, and counts them. -/
def skip (s : Stream) (count : Nat) : Nat × Stream :=
  let (passed, s) := s.take count
  (passed.length, s)

/-- No more than this many characters can still be read. -/
def reach (s : Stream) : Nat := s.buffer.size - s.index + s.source.length

/-- Reads up to a newline, which is read too but not answered, or to the end of the text. `none`
when there was nothing to read. -/
def readLine (s : Stream) : Option (List Char) × Stream :=
  go (s.reach + 1) s
where
  go : Nat → Stream → Option (List Char) × Stream
    | 0, s => (none, s)
    | limit + 1, s =>
      match s.read with
      | (none, s) => (none, s)
      | (some c, s) =>
        if c = '\n' then (some [], s)
        else
          let (rest, s) := go limit s
          (some (c :: rest.getD []), s)

/-- Reads `text` if the stream continues with it, comparing characters by `same`. Otherwise the
position is unchanged. -/
def accept (s : Stream) (same : Char → Char → Bool) (text : List Char) : Bool × Stream :=
  go s.position text s
where
  /-- Reads on, and goes back to `start` at the first difference. -/
  go (start : Position) : List Char → Stream → Bool × Stream
    | [], s => (true, s)
    | expected :: rest, s =>
      match s.read with
      | (some c, s) =>
        if same c expected then go start rest s else (false, { s with position := start })
      | (none, s) => (false, { s with position := start })

def atEnd (s : Stream) : Bool × Stream :=
  let (next, s) := s.peek
  (next.isNone, s)

/-- Remembers the current position. -/
def mark (s : Stream) : Stream := { s with marks := s.position :: s.marks }

/-- Drops the innermost mark and stays. -/
def release (s : Stream) : Except MarkError Stream :=
  match s.marks with
  | [] => .error .release
  | _ :: marks => .ok { s with marks }

/-- Drops the innermost mark and goes back to it. -/
def reset (s : Stream) : Except MarkError Stream :=
  match s.marks with
  | [] => .error .reset
  | position :: marks => .ok { s with position, marks }

/-- Number of outstanding marks. -/
def depth (s : Stream) : Nat := s.marks.length

/-- The innermost mark, or the origin without marks. -/
def start (s : Stream) : Position := s.marks.headD s.origin

@[simp] theorem release_mark (s : Stream) : s.mark.release = .ok s := rfl

@[simp] theorem reset_mark (s : Stream) : s.mark.reset = .ok s := rfl

@[simp] theorem depth_mark (s : Stream) : s.mark.depth = s.depth + 1 := rfl

@[simp] theorem start_mark (s : Stream) : s.mark.start = s.position := rfl

/-- From the innermost mark to the current position. -/
def span (s : Stream) : Span := ⟨s.start, s.position⟩

/-- Number of characters under the innermost mark. -/
def length (s : Stream) : Nat := s.position.offset - s.start.offset

/-- The characters under the innermost mark. -/
def chars (s : Stream) : List Char :=
  (s.buffer.extract (s.start.offset - s.base) s.index).toList

def text (s : Stream) : String := String.ofList s.chars

def context (s : Stream) : Context := ⟨s.chars, s.span⟩

/-- At most `count` of the characters ahead, up to the end of the line. -/
def snippet (s : Stream) (count : Nat) : List Char × Stream :=
  go count 0 s
where
  go : Nat → Nat → Stream → List Char × Stream
    | 0, _, s => ([], s)
    | count + 1, n, s =>
      match s.peekNth n with
      | (none, s) => ([], s)
      | (some c, s) =>
        if c = '\n' then ([], s)
        else
          let (rest, s) := go count (n + 1) s
          (c :: rest, s)

/-- Forgets the characters that no mark leads back to. The matched text starts anew at the
outermost mark, or at the current position without marks. -/
def consume (s : Stream) : Stream :=
  let floor := s.marks.getLastD s.position
  let dropped := min (floor.offset - s.base) s.buffer.size
  { s with
    buffer := s.buffer.extract dropped s.buffer.size
    base := s.base + dropped
    origin := floor }

/-- Number of characters held in the buffer. -/
def buffered (s : Stream) : Nat := s.buffer.size

/-- The failure met at the end of the source, answered once. -/
def takeError (s : Stream) : Option String × Stream := (s.error, { s with error := none })

end Stream

end Packrat

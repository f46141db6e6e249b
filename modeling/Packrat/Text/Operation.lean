import Packrat.Terminal

/-! # Operations on a stream as data

Everything a client can ask of a stream about its text, so that sequences of questions can be run and
compared.
-/

namespace Packrat

inductive Operation where
  | peek
  | peekNth (n : Nat)
  | read
  /-- Reads into a buffer from its beginning, as far as buffer and text reach. -/
  | readInto (buffer : List Char)
  | readLine
  | skip (count : Nat)
  | consumePrefix (text : String) (caseSensitive : Bool)
  | atEnd
  | mark
  | release
  | reset
  | consume
  /-- Like `consume`. That it also returns unused memory cannot be seen. -/
  | flush
  | start
  | stop
  | span
  | length
  | chars
  | text
  | snippet (count : Nat)
deriving DecidableEq, Repr

/-- What an operation answers. -/
inductive Answer where
  | nothing
  | char (found : Option Char)
  /-- How many characters of the buffer were read, and the whole buffer. -/
  | filled (count : Nat) (buffer : List Char)
  | line (found : Option (List Char))
  | count (n : Nat)
  | flag (holds : Bool)
  | place (position : Position)
  | span (span : Span)
  | chars (found : List Char)
  | text (found : String)
deriving DecidableEq, Repr

namespace Operation

/-- Forgets text that no mark leads back to. -/
def compacts : Operation → Bool
  | consume | flush => true
  | _ => false

/-- Asks for the text since the innermost mark, or for its place. -/
def looksBack : Operation → Bool
  | start | span | length | chars | text => true
  | _ => false

/-- The number of marks behind the operation with `depth` of them before it. Only a mark can be closed. -/
def marks? (depth : Nat) : Operation → Option Nat
  | mark => some (depth + 1)
  | release | reset => if depth = 0 then none else some (depth - 1)
  | _ => some depth

/-- Marks are closed only where one is outstanding. -/
def permitted (operations : List Operation) : Bool := (operations.foldlM marks? 0).isSome

/-- Operations one after the other, with all their answers. -/
def runAll {σ : Type} (perform : Operation → σ → Except MarkError (Answer × σ)) :
    List Operation → σ → Except MarkError (List Answer × σ)
  | [], s => .ok ([], s)
  | operation :: rest, s => do
    let (answer, s) ← perform operation s
    let (answers, s) ← runAll perform rest s
    return (answer :: answers, s)

/-- The answers that what was forgotten cannot change, with `depth` marks before the operations: not those of
operations that forget, and not those that look back while no mark is outstanding. -/
def readings (depth : Nat) : List Operation → List Answer → List Answer
  | operation :: rest, answer :: answers =>
    let others := readings ((operation.marks? depth).getD depth) rest answers
    if operation.compacts || operation.looksBack && depth == 0 then others else answer :: others
  | _, _ => []

end Operation

namespace Stream

/-- Does an operation, and answers it. -/
def perform (operation : Operation) (s : Stream) : Except MarkError (Answer × Stream) :=
  match operation with
  | .peek => .ok (.char s.peek.1, s.peek.2)
  | .peekNth n => .ok (.char (s.peekNth n).1, (s.peekNth n).2)
  | .read => .ok (.char s.read.1, s.read.2)
  | .readInto buffer =>
    let (found, s) := s.take buffer.length
    .ok (.filled found.length (found ++ buffer.drop found.length), s)
  | .readLine => .ok (.line s.readLine.1, s.readLine.2)
  | .skip count => .ok (.count (s.skip count).1, (s.skip count).2)
  | .consumePrefix text caseSensitive =>
    let (found, s) := s.accept (Terminal.sameChar caseSensitive) text.toList
    .ok (.flag found, s)
  | .atEnd => .ok (.flag s.atEnd.1, s.atEnd.2)
  | .mark => .ok (.nothing, s.mark)
  | .release => s.release.map (Answer.nothing, ·)
  | .reset => s.reset.map (Answer.nothing, ·)
  | .consume | .flush => .ok (.nothing, s.consume)
  | .start => .ok (.place s.start, s)
  | .stop => .ok (.place s.position, s)
  | .span => .ok (.span s.span, s)
  | .length => .ok (.count s.length, s)
  | .chars => .ok (.chars s.chars, s)
  | .text => .ok (.text s.text, s)
  | .snippet count => .ok (.chars (s.snippet count).1, (s.snippet count).2)

end Stream

end Packrat

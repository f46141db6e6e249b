import Packrat.Text.Operation

/-! # Requests to a stream

Operations on the text, and between them the question for the failure that the source has ended with.
-/

namespace Packrat

inductive Request where
  | operation (operation : Operation)
  | takeError
deriving DecidableEq, Repr

inductive Reply where
  | answer (answer : Answer)
  | failure (met : Option String)
deriving DecidableEq, Repr

namespace Stream

/-- Does what is asked, and replies to it. -/
def serve (request : Request) (s : Stream) : Except MarkError (Reply × Stream) :=
  match request with
  | .operation operation => (s.perform operation).map fun done => (.answer done.1, done.2)
  | .takeError => .ok (.failure s.takeError.1, s.takeError.2)

/-- Requests one after the other, with all replies to them. -/
def serveAll : List Request → Stream → Except MarkError (List Reply × Stream)
  | [], s => .ok ([], s)
  | request :: rest, s => do
    let (reply, s) ← s.serve request
    let (replies, s) ← serveAll rest s
    return (reply :: replies, s)

end Stream

end Packrat

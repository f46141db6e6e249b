import Packrat.Recognition.Transaction

/-! # Operations on a stack as data

Everything a client can ask of a stack in segments, of the stack itself or of it as the host of a recognition, so that
sequences of requests can be run and compared. No operation fails: one that finds nothing to do says so in its answer.
-/

namespace Packrat

namespace Segments

inductive Operation (α : Type) where
  | push (item : α)
  | pushAll (items : List α)
  | pop
  | popAll
  | peek
  /-- Changes the last item of the top segment where it lies. -/
  | modifyTop (change : α → α)
  | segment
  | size
  | isEmpty
  | all
  | depth
  | mark
  | release
  | reset
  | clear
  /-- A copy of the top segment. -/
  | snapshot
  /-- Opens a scope of the host. -/
  | start
  | commit
  | rollback
  | save
  /-- Makes changes again that were saved before, here or elsewhere. -/
  | load (items : List α)

/-- What an operation answers. -/
inductive Answer (α : Type) where
  | nothing
  | item (found : Option α)
  | items (found : List α)
  | number (n : Nat)
  | flag (holds : Bool)
  | saved (changes : Option (List α))
deriving DecidableEq, Repr

variable {α σ : Type}

/-- Does an operation, and answers it. -/
def perform (operation : Operation α) (s : Segments α) : Answer α × Segments α :=
  match operation with
  | .push item => (.nothing, s.push item)
  | .pushAll items => (.nothing, s.pushAll items)
  | .pop =>
    match s.pop? with
    | none => (.item none, s)
    | some (item, s) => (.item (some item), s)
  | .popAll => (.items s.popAll.1, s.popAll.2)
  | .peek => (.item s.peek?, s)
  | .modifyTop change => (.item s.peek?, (s.modifyTop? change).getD s)
  | .segment | .snapshot => (.items s.segment, s)
  | .size => (.number s.size, s)
  | .isEmpty => (.flag s.isEmpty, s)
  | .all => (.items s.all, s)
  | .depth => (.number s.depth, s)
  | .mark => (.nothing, s.mark)
  | .release => (.flag s.release?.isSome, s.release?.getD s)
  | .reset => (.flag s.reset?.isSome, s.reset?.getD s)
  | .clear => (.nothing, .empty)
  | .start => (.nothing, transaction.start s)
  | .commit => (.nothing, transaction.commit s)
  | .rollback => (.nothing, transaction.rollback s)
  | .save => (.saved (transaction.save s).1, (transaction.save s).2)
  | .load items => (.nothing, transaction.load items s)

namespace Operation

/-- Operations one after the other, with all their answers. -/
def runAll (perform : Operation α → σ → Answer α × σ) : List (Operation α) → σ → List (Answer α) × σ
  | [], s => ([], s)
  | operation :: rest, s =>
    let (answer, s) := perform operation s
    let (answers, s) := runAll perform rest s
    (answer :: answers, s)

/-- The number of scopes open inside a scope, behind the operation with `inner` of them before it. There is none if the
operation closes the scope itself, or clears the stack. -/
def inside? (inner : Nat) : Operation α → Option Nat
  | .mark | .start => some (inner + 1)
  | .release | .reset | .commit | .rollback =>
    match inner with
    | 0 => none
    | inner + 1 => some inner
  | .clear => none
  | _ => some inner

end Operation

end Segments

end Packrat

import Packrat.Recognition.Handlers
import Packrat.Recognition.Transaction

/-! # Hosts that keep texts

A workbench lets handlers collect texts on the stack of a host, whatever the host. A journal is a
host with such a stack and a log that no rollback takes back, which shows in which order scopes were
opened and closed. Scripts are handlers written down as a list of steps on a workbench.
-/

namespace Packrat

/-- What a journal writes down. -/
inductive JournalEntry where
  | started
  | committed
  | rolledBack
  | saved (items : Option (List String))
  | loaded (items : List String)
  | popped (item : Option String)
  | observed (items : List String)
  | context (context : Context)
deriving DecidableEq, Repr

structure Journal where
  stack : Segments String := .empty
  /-- The entries, the last one first. -/
  log : List JournalEntry := []
deriving DecidableEq, Repr

namespace Journal

def write (j : Journal) (entry : JournalEntry) : Journal := { j with log := entry :: j.log }

/-- Scopes of the stack that leave a trace in the log. Without `snapshots` the changes of a scope
are not saved. -/
def transaction (memoable snapshots : Bool) : Transaction Journal (List String) where
  start := fun j => { j.write .started with stack := j.stack.mark }
  commit := fun j => { j.write .committed with stack := j.stack.commit }
  rollback := fun j => { j.write .rolledBack with stack := j.stack.rollback }
  save := fun j =>
    let items := if snapshots then some j.stack.segment else none
    (items, j.write (.saved items))
  load := fun items j => { j.write (.loaded items) with stack := j.stack.pushAll items }
  memoable := fun _ => memoable

end Journal

/-- What a script can do with a host `H`. -/
structure Workbench (H : Type) where
  push : String → H → H
  pop : H → Option String × H
  items : H → List String
  write : JournalEntry → H → H

namespace Workbench

/-- A host without a stack. -/
def none (H : Type) : Workbench H where
  push := fun _ host => host
  pop := fun host => (.none, host)
  items := fun _ => []
  write := fun _ host => host

def ofSegments : Workbench (Segments String) where
  push := fun text s => s.push text
  pop := fun s =>
    match s.pop? with
    | some (item, s) => (some item, s)
    | .none => (.none, s)
  items := Segments.all
  write := fun _ s => s

def ofJournal : Workbench Journal where
  push := fun text j => { j with stack := j.stack.push text }
  pop := fun j =>
    match j.stack.pop? with
    | some (item, stack) => (some item, { j with stack })
    | .none => (.none, j)
  items := fun j => j.stack.all
  write := fun entry j => j.write entry

end Workbench

/-- A step of a handler. -/
inductive ScriptStep where
  /-- Pushes the matched text. -/
  | push
  | pushText (text : String)
  | pop
  | observe
  | context
  | reject
  | rejectIf (text : String)
  /-- Rejects texts shorter than `length`. -/
  | minLength (length : Nat)
  | fail (message : String)
  | failIf (text : String)
deriving DecidableEq, Repr

namespace ScriptStep

/-- Takes steps up to the first one that decides. A script that does not decide accepts. -/
def run {H : Type} (bench : Workbench H) : List ScriptStep → Handler H
  | [], _, host => (.ok true, host)
  | step :: rest, matched, host =>
    match step with
    | push => run bench rest matched (bench.push matched.text host)
    | pushText text => run bench rest matched (bench.push text host)
    | pop =>
      let (item, host) := bench.pop host
      run bench rest matched (bench.write (.popped item) host)
    | observe => run bench rest matched (bench.write (.observed (bench.items host)) host)
    | .context => run bench rest matched (bench.write (.context matched) host)
    | reject => (.ok false, host)
    | rejectIf text =>
      if matched.text = text then (.ok false, host) else run bench rest matched host
    | minLength length =>
      if matched.length < length then (.ok false, host) else run bench rest matched host
    | fail message => (.error message, host)
    | failIf text =>
      if matched.text = text then (.error "refused text", host) else run bench rest matched host

end ScriptStep

end Packrat

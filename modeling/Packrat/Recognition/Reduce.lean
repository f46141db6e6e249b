import Packrat.Memo
import Packrat.Recognition.Event
import Packrat.Recognition.Handlers
import Packrat.Recognition.Transaction

/-! # Reducing rules against a stream

A rule either matches, and the stream moves behind the matched text; or it fails, and the stream is
where it was; or an action aborts the recognition. Each rule marks the stream before it reduces its
parts, and releases the mark on a match and resets it otherwise.

Rules call each other without a bound on the depth, so `reduce` takes the depth it may go to. Its
answer does not depend on that depth once it is enough.
-/

namespace Packrat

/-- A handler ended the recognition. -/
structure ActionError where
  name : String
  /-- Where the text of the action starts. -/
  location : Position
  message : String
deriving DecidableEq, Repr

/-- `place: action name failed: message` -/
def ActionError.text (e : ActionError) : String :=
  e.location.text ++ ": action `" ++ e.name ++ "` failed: " ++ e.message

inductive Verdict where
  | matched
  | failed
  | aborted (error : ActionError)
deriving DecidableEq, Repr

namespace Verdict

def isMatched : Verdict → Bool
  | matched => true
  | _ => false

def ofBool : Bool → Verdict
  | true => matched
  | false => failed

/-- A match becomes a failure and the other way round. -/
def negate : Verdict → Verdict
  | matched => failed
  | failed => matched
  | aborted error => aborted error

@[simp] theorem isMatched_ofBool (b : Bool) : (ofBool b).isMatched = b := by
  cases b <;> rfl

@[simp] theorem negate_negate (v : Verdict) : v.negate.negate = v := by
  cases v <;> rfl

end Verdict

/-- Why a reduction has no answer. -/
inductive Fault where
  /-- The rules call each other deeper than allowed. -/
  | tooDeep
  /-- A mark was closed that was not open. -/
  | unmarked (error : MarkError)
  /-- The grammar has no such rule. -/
  | dangling (rule : Rule)
deriving DecidableEq, Repr

/-- What stays the same during a recognition. -/
structure Recognizer (H S τ : Type) where
  grammar : Grammar
  transaction : Transaction H S
  handlers : Handlers H
  observer : Observer τ
  /-- References that remember their matches use the memo table. -/
  memoize : Bool

/-- What changes during a recognition. -/
structure State (H S τ : Type) where
  stream : Stream
  host : H
  memo : Memo.Table S
  observed : τ

/-- The verdict of a reduction with the state behind it. -/
abbrev Reduction (H S τ : Type) := Except Fault (Verdict × State H S τ)

namespace State

variable {H S τ : Type}

def mark (st : State H S τ) : State H S τ := { st with stream := st.stream.mark }

/-- Closes the innermost mark and stays. -/
def release (st : State H S τ) : Except Fault (State H S τ) :=
  match st.stream.release with
  | .ok stream => .ok { st with stream }
  | .error e => .error (.unmarked e)

/-- Closes the innermost mark and goes back to it. -/
def reset (st : State H S τ) : Except Fault (State H S τ) :=
  match st.stream.reset with
  | .ok stream => .ok { st with stream }
  | .error e => .error (.unmarked e)

/-- Closes the innermost mark, and stays on a match only. -/
def settle (v : Verdict) (st : State H S τ) : Reduction H S τ :=
  match v with
  | .matched => st.release.map (v, ·)
  | _ => st.reset.map (v, ·)

end State

namespace Reduction

variable {H S τ : Type}

/-- Goes on with `next` whatever the verdict. -/
def always (r : Reduction H S τ) (next : Verdict → State H S τ → Reduction H S τ) :
    Reduction H S τ :=
  match r with
  | .ok (v, st) => next v st
  | .error fault => .error fault

/-- Goes on with `next` behind a match. -/
def andThen (r : Reduction H S τ) (next : State H S τ → Reduction H S τ) : Reduction H S τ :=
  match r with
  | .ok (.matched, st) => next st
  | r => r

/-- Goes on with `next` behind a failure. -/
def otherwise (r : Reduction H S τ) (next : State H S τ → Reduction H S τ) : Reduction H S τ :=
  match r with
  | .ok (.failed, st) => next st
  | r => r

/-- Reduces with a mark around the reduction. -/
def marked (step : State H S τ → Reduction H S τ) (st : State H S τ) : Reduction H S τ :=
  always (step st.mark) State.settle

/-- All steps one after the other, up to the first that does not match. -/
def inSequence {α : Type} (step : α → State H S τ → Reduction H S τ) :
    List α → State H S τ → Reduction H S τ
  | [], st => .ok (.matched, st)
  | a :: rest, st => andThen (step a st) (inSequence step rest)

/-- The first step that does not fail, each one tried with a mark around it. -/
def inOrder {α : Type} (step : α → State H S τ → Reduction H S τ) :
    List α → State H S τ → Reduction H S τ
  | [], st => .ok (.failed, st)
  | a :: rest, st => otherwise (marked (step a) st) (inOrder step rest)

/-- The step `count` times. -/
def exactly (step : State H S τ → Reduction H S τ) :
    (count : Nat) → State H S τ → Reduction H S τ
  | 0, st => .ok (.matched, st)
  | count + 1, st => andThen (step st) (exactly step count)

/-- The step as often as it matches, at most `count` times. With `stopOnEmpty`, a match without
text is the last one. -/
def atMost (step : State H S τ → Reduction H S τ) (stopOnEmpty : Bool) :
    (count : Nat) → State H S τ → Reduction H S τ
  | 0, st => .ok (.matched, st)
  | count + 1, st =>
    let before := st.stream.position.offset
    match step st with
    | .ok (.matched, next) =>
      if stopOnEmpty && next.stream.position.offset == before then .ok (.matched, next)
      else atMost step stopOnEmpty count next
    | .ok (.failed, next) => .ok (.matched, next)
    | r => r

end Reduction

namespace Recognizer

variable {H S τ : Type}

/-- Tells the observer of an event. -/
def note (r : Recognizer H S τ) (event : Event) (st : State H S τ) : State H S τ :=
  { st with observed := r.observer r.grammar st.stream event st.observed }

/-- Tells the observer that a rule is entered, and that it is left. -/
def observing (r : Recognizer H S τ) (rule : Rule) (step : State H S τ → Reduction H S τ)
    (st : State H S τ) : Reduction H S τ :=
  Reduction.always (step (r.note (.entered rule) st)) fun v st =>
    .ok (v, r.note (.left rule v.isMatched) st)

/-- Opens a scope of the host and marks the stream. -/
def openScope (r : Recognizer H S τ) (st : State H S τ) : State H S τ :=
  { st.mark with host := r.transaction.start st.host }

/-- Closes the scope of the host and the mark that were opened together. -/
def closeScope (r : Recognizer H S τ) (v : Verdict) (st : State H S τ) : Reduction H S τ :=
  let host :=
    match v with
    | .matched => r.transaction.commit st.host
    | _ => r.transaction.rollback st.host
  { st with host }.settle v

/-- Matches a terminal. -/
def terminal (t : Terminal) (st : State H S τ) : Reduction H S τ :=
  let (matched, stream) := t.recognize st.stream
  .ok (.ofBool matched, { st with stream })

/-- Asks the handler of an action about the text under the innermost mark. An action without a
handler accepts it. -/
def handle (r : Recognizer H S τ) (name : String) (st : State H S τ) : Reduction H S τ :=
  match r.handlers.find? name with
  | none => .ok (.matched, st)
  | some handler =>
    let context := st.stream.context
    match handler context st.host with
    | (.ok accepted, host) => .ok (.ofBool accepted, { st with host })
    | (.error message, host) =>
      .ok (.aborted ⟨name, context.span.start, message⟩, { st with host })

/-- Reduces the body of an action in a scope of its own, and then lets `accept` decide. -/
def action (r : Recognizer H S τ) (accept body : State H S τ → Reduction H S τ)
    (st : State H S τ) : Reduction H S τ :=
  Reduction.always (Reduction.andThen (body (r.openScope st)) accept) r.closeScope

/-- Makes a remembered match again: its changes are loaded into the host, and the stream skips its
text. -/
def replay (r : Recognizer H S τ) (reference : Nat) (entry : Memo.Entry S) (st : State H S τ) :
    State H S τ :=
  let host :=
    match entry.snapshot with
    | some snapshot => r.transaction.load snapshot st.host
    | none => st.host
  r.note (.lookedUp reference true)
    { st with host, stream := (st.stream.skip entry.length).2 }

/-- Remembers a match of the production `target` that began at `offset`, and closes its scope and
its mark. -/
def remember (r : Recognizer H S τ) (reference target offset : Nat) (st : State H S τ) :
    Reduction H S τ :=
  let length := st.stream.length
  let (snapshot, host) := r.transaction.save st.host
  match State.release { st with host := r.transaction.commit host } with
  | .ok st =>
    let st := { st with memo := st.memo.insert target offset ⟨length, snapshot⟩ }
    .ok (.matched, r.note (.stored reference) st)
  | .error fault => .error fault

/-- Reduces the production `target` for a reference that remembers its matches. -/
def remembered (r : Recognizer H S τ) (reference target : Nat)
    (production : State H S τ → Reduction H S τ) (st : State H S τ) : Reduction H S τ :=
  let offset := st.stream.position.offset
  match st.memo.get? target offset with
  | some entry => .ok (.matched, r.replay reference entry st)
  | none =>
    let st := r.openScope (r.note (.lookedUp reference false) st)
    Reduction.always (production st) fun v st =>
      match v with
      | .matched => r.remember reference target offset st
      | v => r.closeScope v st

/-- Matches as often as possible between `min` and `max` times. Without an upper bound, a match
without text is the last one. -/
def repetition (step : State H S τ → Reduction H S τ) (min max : Nat) (st : State H S τ) :
    Reduction H S τ :=
  Reduction.andThen (Reduction.exactly step min st)
    (Reduction.atMost step (max == unbounded) (max - min))

/-- The stream stays where it is, whatever the verdict. -/
def lookahead (step : State H S τ → Reduction H S τ) (sign : Lookahead) (st : State H S τ) :
    Reduction H S τ :=
  Reduction.always (step st.mark) fun v st =>
    match sign with
    | .present => st.reset.map (v, ·)
    | .absent => st.reset.map (v.negate, ·)

/-- Reduces an expression, with `sub` for the rules it is made of. -/
def expression (r : Recognizer H S τ) (sub : Rule → State H S τ → Reduction H S τ)
    (i : Nat) : Expr → State H S τ → Reduction H S τ
  | .terminal t => terminal t
  | .reference target memo =>
    if memo && r.memoize then r.remembered i target (sub (.production target))
    else Reduction.marked (sub (.production target))
  | .action child name _ => r.action (r.handle name) (sub (.expression child))
  | .undo child => r.action (fun st => .ok (.matched, st)) (sub (.expression child))
  | .sequence children =>
    Reduction.marked (Reduction.inSequence (fun child => sub (.expression child)) children)
  | .choice children => Reduction.inOrder (fun child => sub (.expression child)) children
  | .repetition child min max =>
    Reduction.marked (repetition (sub (.expression child)) min max)
  | .lookahead child sign => lookahead (sub (.expression child)) sign

/-- Reduces a rule, at most `depth` rules deep. -/
def reduce (r : Recognizer H S τ) : (depth : Nat) → Rule → State H S τ → Reduction H S τ
  | 0, _, _ => .error .tooDeep
  | depth + 1, .production index, st =>
    match r.grammar.root? index with
    | none => .error (.dangling (.production index))
    | some root =>
      r.observing (.production index) (Reduction.marked (r.reduce depth (.expression root))) st
  | depth + 1, .expression i, st =>
    match r.grammar.expr? i with
    | none => .error (.dangling (.expression i))
    | some e => r.observing (.expression i) (r.expression (r.reduce depth) i e) st

/-- A depth that suffices unless rules call themselves where they started: no rule is entered twice
at the same offset on the way down. -/
def sufficientDepth (g : Grammar) (s : Stream) : Nat :=
  (s.reach + 1) * (g.nodes.size + g.productions.size) + 1

end Recognizer

end Packrat

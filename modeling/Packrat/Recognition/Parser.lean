import Packrat.Reader
import Packrat.Recognition.Farthest
import Packrat.Recognition.Reduce

/-! # Recognizing a text

A parser binds a grammar without errors to the handlers of its actions. It recognizes the beginning
of a text with the first production. When that fails, the error tells the farthest place that was
reached. A failure of the input itself comes before anything else.
-/

namespace Packrat

/-- The grammar cannot be used for recognition. -/
structure GrammarError where
  problems : Problems
deriving DecidableEq, Repr

def GrammarError.message (e : GrammarError) : String :=
  "the grammar is not usable (" ++ e.problems.summary ++ ")"

/-- The beginning of a text was recognized. -/
structure Recognition where
  /-- Number of characters matched. -/
  consumed : Nat
  stop : Position
deriving DecidableEq, Repr

inductive RecognitionError where
  | mismatch (error : SyntaxError)
  | action (error : ActionError)
  /-- The input could not be read. -/
  | input (message : String)
deriving DecidableEq, Repr

def RecognitionError.message : RecognitionError → String
  | mismatch e => "syntax error at " ++ e.text
  | action e => e.text
  | input message => "cannot read the input: " ++ message

/-- A grammar bound to handlers. -/
structure Parser (H S : Type) where
  grammar : Grammar
  handlers : Handlers H
  transaction : Transaction H S
  memoize : Bool

/-- The answer of a recognition with all that it leaves behind. -/
structure Recognized (H τ : Type) where
  result : Except RecognitionError Recognition
  stream : Stream
  host : H
  observed : τ

namespace Parser

variable {H S τ : Type}

/-- Binds a grammar to handlers. A grammar with an error or without a production is refused. -/
def ofGrammar (g : Grammar) (handlers : Handlers H) (transaction : Transaction H S)
    (memoize : Bool) : Except GrammarError (Parser H S) :=
  if g.hasErrors || g.isEmpty then .error ⟨g.problems⟩
  else .ok ⟨g, handlers, transaction, memoize⟩

/-- Reads and compiles a grammar and binds it to handlers, whose names are those of the actions with
a handler. -/
def ofText (text : String) (handlers : Handlers H) (transaction : Transaction H S)
    (o : Options) : Except GrammarError (Parser H S) :=
  match compileText text handlers.names o with
  | .ok (.usable g) => ofGrammar g handlers transaction true
  | .ok (.faulty g) => .error ⟨g.problems⟩
  | .error _ => .error ⟨[]⟩

/-- The recognizer of a parser for a host as it is at the start. -/
def recognizer (p : Parser H S) (host : H) (observer : Observer τ) : Recognizer H S τ where
  grammar := p.grammar
  transaction := p.transaction
  handlers := p.handlers
  observer := observer
  memoize := p.memoize && p.transaction.memoable host

/-- The character at `position`, which is not behind the stream, escaped. -/
def foundAt (s : Stream) (position : Position) : String × Stream :=
  let ahead := (s.skip (position.offset - s.position.offset)).2
  let (next, ahead) := ahead.peek
  let found :=
    match next with
    | some c => String.ofList (Escape.char '`' c)
    | none => ""
  (found, { ahead with position := s.position })

/-- What the verdict on the first production means, with the stream behind it. -/
def answer (start : Position) (farthest : Farthest) (v : Verdict) (s : Stream) :
    Except RecognitionError Recognition × Stream :=
  match s.takeError with
  | (some message, s) => (.error (.input message), s)
  | (none, s) =>
    match v with
    | .matched => (.ok ⟨s.position.offset - start.offset, s.position⟩, s)
    | .aborted e => (.error (.action e), s)
    | .failed =>
      let place := farthest.position.getD start
      let (found, s) := foundAt s place
      (.error (.mismatch ⟨place, farthest.expected, found⟩), s)

/-- Recognizes the beginning of what is ahead in a stream, at most `depth` rules deep. -/
def parseWithin (p : Parser H S) (depth : Nat) (host : H) (s : Stream) (observer : Observer τ)
    (observed : τ) : Except Fault (Recognized H τ) := do
  let start := s.position
  let r := p.recognizer host (Farthest.observe.both observer)
  let st : State H S (Farthest × τ) := ⟨s, host, .empty, ({}, observed)⟩
  let (v, st) ← r.reduce depth (.production 0) (r.note .opened st)
  let st := r.note (.closed v.isMatched) st
  let (result, stream) := answer start st.observed.1 v st.stream
  return ⟨result, stream, st.host, st.observed.2⟩

/-- Recognizes the beginning of what is ahead in a stream. The answer is a fault only if rules call
themselves where they started. -/
def parse (p : Parser H S) (host : H) (s : Stream) (observer : Observer τ) (observed : τ) :
    Except Fault (Recognized H τ) :=
  p.parseWithin (Recognizer.sufficientDepth p.grammar s) host s observer observed

end Parser

end Packrat

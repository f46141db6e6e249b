import Packrat.Recognition.Statistics

/-! # An indented trace of a recognition

An observer that writes a line for every rule entered and left, indented by the rules around it, and
the text a rule matched:

```
  -> 1:1 Sum
    -> 1:1 Product
    <- 1:2 Product
       "3"
! <- 1:1 Sum
```

The trace goes to a sink that may refuse a text. From then on nothing is written.
-/

namespace Packrat

/-- How much of a grammar is traced: `high` traces productions, `medium` also references and
actions, `low` everything. -/
inductive TraceLevel where
  | high
  | medium
  | low
deriving DecidableEq, Repr

namespace TraceLevel

def name : TraceLevel → String
  | high => "high"
  | medium => "medium"
  | low => "low"

def ofName? (name : String) : Option TraceLevel := [high, medium, low].find? (·.name == name)

theorem ofName?_name (level : TraceLevel) : ofName? level.name = some level := by
  cases level <;> rfl

/-- The level from which on a rule is traced. -/
def ofRule (g : Grammar) : Rule → TraceLevel
  | .production _ => high
  | .expression i =>
    match g.expr? i with
    | some (.reference ..) | some (.action ..) | some (.undo _) => medium
    | _ => low

/-- Rules of the level `rule` are traced. -/
def shows (level rule : TraceLevel) : Bool :=
  match level, rule with
  | low, _ | medium, high | medium, medium | high, high => true
  | _, _ => false

end TraceLevel

/-- A text that grows up to a number of bytes. -/
structure Sink where
  text : String := ""
  limit : Option Nat := none
  /-- Why a text was refused. -/
  error : Option String := none
deriving DecidableEq, Repr

namespace Sink

/-- Appends a text, unless one was refused before or it would not fit. -/
def write (sink : Sink) (text : String) : Sink :=
  if sink.error.isSome then sink
  else
    match sink.limit with
    | some limit =>
      if sink.text.utf8ByteSize + text.utf8ByteSize > limit then
        { sink with error := some "sink full" }
      else { sink with text := sink.text ++ text }
    | none => { sink with text := sink.text ++ text }

/-- A sink that has refused a text stays as it is. -/
theorem write_of_refused {sink : Sink} (refused : sink.error.isSome) (text : String) :
    sink.write text = sink := by
  simp [write, refused]

end Sink

structure DebugTrace where
  level : TraceLevel := .medium
  /-- Rules nested deeper are not written, 0 means no limit. -/
  maxDepth : Nat := 0
  /-- Of a longer text only the end is written, 0 means no texts. -/
  maxText : Nat := 80
  /-- Blanks for each rule around a line. -/
  indentSize : Nat := 2
  /-- What is written for the time the recognition took, which is not measured here. -/
  elapsed : String := "_"
  sink : Sink := {}
  /-- Number of rules around the next line. -/
  indent : Nat := 0
  /-- Where the open rules started, the innermost first. -/
  starts : List Position := []
  statistics : Statistics := {}
deriving DecidableEq, Repr

namespace DebugTrace

/-- A trace with lines indented by at most 8 blanks for each rule. -/
def withIndentSize (size : Nat) (trace : DebugTrace) : DebugTrace :=
  { trace with indentSize := min size 8 }

def write (trace : DebugTrace) (text : String) : DebugTrace :=
  { trace with sink := trace.sink.write text }

def margin (trace : DebugTrace) : String :=
  String.ofList (List.replicate (trace.indent * trace.indentSize) ' ')

/-- The rule has lines, given the number of rules open around it. -/
def shows (trace : DebugTrace) (g : Grammar) (rule : Rule) (depth : Nat) : Bool :=
  trace.level.shows (.ofRule g rule) && (trace.maxDepth == 0 || depth < trace.maxDepth)

def header (trace : DebugTrace) (start : Position) : String :=
  "SOURCE: " ++ start.text ++ "\n\nOPTIONS:\nTraceLevel: " ++ trace.level.name ++
    "\nMaxDepthLevel: " ++ toString trace.maxDepth ++ "\nMaxTextSize: " ++
    toString trace.maxText ++ "\n\nTRACE:\n"

def footer (trace : DebugTrace) (success : Bool) : String :=
  "\n\nTRACE RESULTS:\nTracing time: " ++ trace.elapsed ++ "ms\n" ++ trace.statistics.summary ++
    "\n\n" ++ (if success then "SUCCESS!" else "FAILURE!") ++ "\n"

/-- The end of the text under the innermost mark that begins at `start`. -/
def matchedText (s : Stream) (start : Position) : List Char :=
  let length := s.position.offset - start.offset
  s.chars.drop (s.chars.length - length)

/-- The line with the text of a match, empty if there is none to write. -/
def textLine (trace : DebugTrace) (text : List Char) : String :=
  if trace.maxText = 0 || text.isEmpty then ""
  else
    let mark := if text.length > trace.maxText then "..." else ""
    let shown := text.drop (text.length - trace.maxText)
    "  " ++ trace.margin ++ "   \"" ++ mark ++ Escape.text '"' (String.ofList shown) ++ "\"\n"

def enter (trace : DebugTrace) (g : Grammar) (s : Stream) (rule : Rule) : DebugTrace :=
  let shown := trace.shows g rule trace.starts.length
  let trace :=
    if shown then
      let trace := trace.write <|
        "  " ++ trace.margin ++ "-> " ++ s.position.text ++ " " ++ g.describe rule ++ "\n"
      { trace with indent := trace.indent + 1 }
    else trace
  { trace with starts := s.position :: trace.starts }

def leave (trace : DebugTrace) (g : Grammar) (s : Stream) (rule : Rule) (success : Bool) :
    DebugTrace :=
  let start := trace.starts.headD s.position
  let trace := { trace with starts := trace.starts.tail }
  if trace.shows g rule trace.starts.length then
    let trace := { trace with indent := trace.indent - 1 }
    let trace := trace.write <|
      (if success then "  " else "! ") ++ trace.margin ++ "<- " ++ s.position.text ++ " " ++
        g.describe rule ++ "\n"
    if success then trace.write (trace.textLine (matchedText s start)) else trace
  else trace

def observe : Observer DebugTrace := fun g s event trace =>
  let trace := { trace with statistics := Statistics.observe g s event trace.statistics }
  match event with
  | .opened =>
    let trace := { trace with indent := 0, starts := [] }
    trace.write (trace.header s.position)
  | .entered rule => trace.enter g s rule
  | .left rule success => trace.leave g s rule success
  | .closed success => trace.write (trace.footer success)
  | _ => trace

end DebugTrace

end Packrat

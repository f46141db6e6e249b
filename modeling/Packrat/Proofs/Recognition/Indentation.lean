import Packrat.Proofs.Recognition.Courses

/-! # What a trace writes

A trace decides twice whether a rule has lines, when it is entered and when it is left, from the number of rules that are
open. Both times as many are open, and in between the indentation comes back to what it was (`DebugTrace.Stands`). So
what is written between the header and the footer are the lines of the course of the recognition (`Course.lines`).
-/

namespace Packrat

/-- Which rules have lines, and how these are laid out. -/
structure TraceLayout where
  level : TraceLevel
  /-- Rules with as many rules around them have no lines, 0 means no limit. -/
  maxDepth : Nat
  /-- Of a longer text only the end is quoted, 0 means no quotations. -/
  maxText : Nat
  /-- Blanks for each rule around a line. -/
  indentSize : Nat
deriving DecidableEq, Repr

namespace TraceLayout

variable (layout : TraceLayout) (g : Grammar) (rule : Rule)

/-- A rule has lines by its level and by the number of rules around it. -/
def shows (depth : Nat) : Bool :=
  layout.level.shows (.ofRule g rule) && (layout.maxDepth == 0 || depth < layout.maxDepth)

def margin (shown : Nat) : String := String.ofList (List.replicate (shown * layout.indentSize) ' ')

def opening (start : Position) (shown : Nat) : String :=
  "  " ++ layout.margin shown ++ "-> " ++ start.text ++ " " ++ g.describe rule ++ "\n"

def closing (stop : Position) (success : Bool) (shown : Nat) : String :=
  (if success then "  " else "! ") ++ layout.margin shown ++ "<- " ++ stop.text ++ " " ++ g.describe rule ++ "\n"

/-- The text of a match, unless it is empty: its last characters if it is longer. -/
def quotation (consumed : List Char) (shown : Nat) : List String :=
  if layout.maxText = 0 ∨ consumed = [] then []
  else
    let mark := if layout.maxText < consumed.length then "..." else ""
    let last := consumed.drop (consumed.length - layout.maxText)
    ["  " ++ layout.margin shown ++ "   \"" ++ mark ++ Escape.text '"' (String.ofList last) ++ "\"\n"]

end TraceLayout

/-- The lines of what happened within `depth` rules of which `shown` have lines. -/
def Course.lines (layout : TraceLayout) (g : Grammar) (text : List Char) : Course → Nat → Nat → List String
  | done, _, _ => []
  | reduced rule start stop success inside next, depth, shown =>
    (if layout.shows g rule depth then
      layout.opening g rule start shown :: inside.lines layout g text (depth + 1) (shown + 1) ++
        layout.closing g rule stop success shown ::
          (if success then layout.quotation ((text.take stop.offset).drop start.offset) shown else [])
    else inside.lines layout g text (depth + 1) shown) ++
      next.lines layout g text depth shown

namespace Sink

variable {sink sink' sink'' : Sink} {text text' : String}

/-- The text was written, unless some text was refused. -/
def Took (text : String) (sink sink' : Sink) : Prop :=
  sink'.error = none → sink.error = none ∧ sink'.text = sink.text ++ text

theorem Took.nothing (sink : Sink) : Took "" sink sink := fun accepted => ⟨accepted, String.append_empty.symm⟩

theorem Took.trans (first : Took text sink sink') (second : Took text' sink' sink'') :
    Took (text ++ text') sink sink'' := by
  intro accepted
  obtain ⟨accepted, last⟩ := second accepted
  obtain ⟨accepted, earlier⟩ := first accepted
  exact ⟨accepted, by rw [last, earlier, String.append_assoc]⟩

theorem took_write (sink : Sink) (text : String) : Took text sink (sink.write text) := by
  intro accepted
  unfold write at accepted ⊢
  grind

end Sink

namespace DebugTrace

def layout (trace : DebugTrace) : TraceLayout := ⟨trace.level, trace.maxDepth, trace.maxText, trace.indentSize⟩

theorem observe_entered (g : Grammar) (s : Stream) (rule : Rule) (trace : DebugTrace) :
    observe g s (.entered rule) trace =
      { trace with statistics := Statistics.observe g s (.entered rule) trace.statistics }.enter g s rule := rfl

theorem observe_left (g : Grammar) (s : Stream) (rule : Rule) (success : Bool) (trace : DebugTrace) :
    observe g s (.left rule success) trace =
      { trace with statistics := Statistics.observe g s (.left rule success) trace.statistics }.leave
        g s rule success := rfl

/-- The trace is inside of rules that started at `starts` and of which `shown` have lines. -/
structure Stands (layout : TraceLayout) (shown : Nat) (starts : List Position) (trace : DebugTrace) : Prop where
  layout : trace.layout = layout
  indent : trace.indent = shown
  starts : trace.starts = starts

namespace Stands

variable {layout : TraceLayout} {g : Grammar} {shown : Nat} {starts : List Position} {trace : DebugTrace} {s : Stream}
  {rule : Rule} {start : Position} {success : Bool}

theorem shows_eq (stands : trace.Stands layout shown starts) (depth : Nat) :
    trace.shows g rule depth = layout.shows g rule depth := by
  rw [← stands.layout]
  rfl

theorem margin_eq (stands : trace.Stands layout shown starts) : trace.margin = layout.margin shown := by
  rw [← stands.layout, ← stands.indent]
  rfl

theorem write (stands : trace.Stands layout shown starts) (text : String) :
    (trace.write text).Stands layout shown starts :=
  ⟨stands.layout, stands.indent, stands.starts⟩

/-- The statistics have no part in it. -/
theorem counted (stands : trace.Stands layout shown starts) (statistics : Statistics) :
    { trace with statistics }.Stands layout shown starts :=
  ⟨stands.layout, stands.indent, stands.starts⟩

theorem enter_shown (stands : trace.Stands layout shown starts) (shows : layout.shows g rule starts.length = true) :
    (trace.enter g s rule).Stands layout (shown + 1) (s.position :: starts) ∧
      Sink.Took (layout.opening g rule s.position shown) trace.sink (trace.enter g s rule).sink := by
  have again : trace.shows g rule trace.starts.length = true := by rw [stands.starts, stands.shows_eq, shows]
  rw [enter, if_pos again, TraceLayout.opening, ← stands.margin_eq]
  exact ⟨⟨stands.layout, congrArg (· + 1) stands.indent, congrArg (s.position :: ·) stands.starts⟩,
    Sink.took_write _ _⟩

theorem enter_hidden (stands : trace.Stands layout shown starts) (hides : ¬ layout.shows g rule starts.length = true) :
    (trace.enter g s rule).Stands layout shown (s.position :: starts) ∧ (trace.enter g s rule).sink = trace.sink := by
  have again : ¬ trace.shows g rule trace.starts.length = true := by rwa [stands.starts, stands.shows_eq]
  rw [enter, if_neg again]
  exact ⟨⟨stands.layout, stands.indent, congrArg (s.position :: ·) stands.starts⟩, rfl⟩

theorem took_textLine (stands : trace.Stands layout shown starts) (consumed : List Char) :
    Sink.Took (String.join (layout.quotation consumed shown)) trace.sink
      (trace.write (trace.textLine consumed)).sink := by
  have line : trace.textLine consumed = String.join (layout.quotation consumed shown) := by
    rw [textLine, TraceLayout.quotation, stands.margin_eq, ← stands.layout]
    by_cases nothing : trace.maxText = 0 ∨ consumed = []
    · rw [if_pos (show trace.layout.maxText = 0 ∨ _ from nothing), if_pos (by simpa using nothing), String.join_nil]
    · rw [if_neg (show ¬ (trace.layout.maxText = 0 ∨ _) from nothing), if_neg (by simpa using nothing),
        String.join_cons, String.join_nil, String.append_empty]
      rfl
  rw [← line]
  exact Sink.took_write _ _

theorem leave_shown (stands : trace.Stands layout (shown + 1) (start :: starts)) (s : Stream) (success : Bool)
    (shows : layout.shows g rule starts.length = true) :
    (trace.leave g s rule success).Stands layout shown starts ∧
      Sink.Took (String.join (layout.closing g rule s.position success shown ::
        if success then layout.quotation (matchedText s start) shown else []))
        trace.sink (trace.leave g s rule success).sink := by
  have again : { trace with starts := trace.starts.tail }.shows g rule trace.starts.tail.length = true := by
    rw [stands.starts]
    exact (stands.shows_eq _).trans shows
  have back : { trace with starts := trace.starts.tail, indent := trace.indent - 1 }.Stands layout shown starts :=
    ⟨stands.layout, congrArg (· - 1) stands.indent, congrArg List.tail stands.starts⟩
  have closed := Sink.took_write trace.sink (layout.closing g rule s.position success shown)
  have begun : trace.starts.headD s.position = start := by
    rw [stands.starts]
    rfl
  rw [leave, if_pos again, begun, String.join_cons]
  rw [TraceLayout.closing, ← back.margin_eq] at closed ⊢
  cases success with
  | false => exact ⟨back.write _, closed.trans (.nothing _)⟩
  | true => exact ⟨(back.write _).write _, closed.trans ((back.write _).took_textLine _)⟩

theorem leave_hidden (stands : trace.Stands layout shown (start :: starts)) (s : Stream) (success : Bool)
    (hides : ¬ layout.shows g rule starts.length = true) :
    (trace.leave g s rule success).Stands layout shown starts ∧
      (trace.leave g s rule success).sink = trace.sink := by
  have again : ¬ { trace with starts := trace.starts.tail }.shows g rule trace.starts.tail.length = true := by
    rw [stands.starts]
    exact fun shows => hides ((stands.shows_eq _).symm.trans shows)
  rw [leave, if_neg again]
  exact ⟨⟨stands.layout, stands.indent, congrArg List.tail stands.starts⟩, rfl⟩

/-- A trace that is told of a course writes its lines, and stands where it did. -/
theorem deliver {text : List Char} {course : Course} {told : List Notice} (tells : Course.Tells text course told)
    (stands : trace.Stands layout shown starts) :
    (observe.deliver g told trace).Stands layout shown starts ∧
      Sink.Took (String.join (course.lines layout g text starts.length shown)) trace.sink
        (observe.deliver g told trace).sink := by
  induction tells generalizing trace shown starts with
  | done => exact ⟨stands, .nothing _⟩
  | @memo course event s told use rest ih =>
    have counted := stands.counted (Statistics.observe g s event trace.statistics)
    cases event with
    | lookedUp reference hit => exact ih counted
    | stored reference => exact ih counted
    | _ => cases use
  | @reduced rule s s' success inside next told later within rest matched inside_ih next_ih =>
    have parts : observe.deliver g ((.entered rule, s) :: told ++ (.left rule success, s') :: later) trace =
        observe.deliver g later (observe g s' (.left rule success)
          (observe.deliver g told (observe g s (.entered rule) trace))) := Observer.deliver_append ..
    have around := stands.counted (Statistics.observe g s (.entered rule) trace.statistics)
    rw [parts, Course.lines]
    by_cases shows : layout.shows g rule starts.length = true
    · obtain ⟨opened, opening⟩ := around.enter_shown (s := s) shows
      rw [← observe_entered] at opened opening
      obtain ⟨still, wrote⟩ := inside_ih opened
      obtain ⟨closed, closing⟩ := (still.counted _).leave_shown s' success shows
      rw [← observe_left, matched] at closing
      rw [← observe_left] at closed
      obtain ⟨stands, more⟩ := next_ih closed
      refine ⟨stands, ?_⟩
      rw [if_pos shows]
      simpa [String.join_append, String.append_assoc] using ((opening.trans wrote).trans closing).trans more
    · obtain ⟨opened, same⟩ := around.enter_hidden (s := s) shows
      rw [← observe_entered] at opened same
      obtain ⟨still, wrote⟩ := inside_ih opened
      obtain ⟨closed, same'⟩ := (still.counted _).leave_hidden s' success shows
      rw [← observe_left] at closed same'
      obtain ⟨stands, more⟩ := next_ih closed
      refine ⟨stands, ?_⟩
      rw [if_neg shows, String.join_append]
      rw [same'] at more
      rw [same] at wrote
      exact wrote.trans more

end Stands

end DebugTrace

/-- Between the header and the footer of a recognition, a trace that nothing was refused has written the lines of its
course, of which the log tells. -/
theorem Parser.lines_traced {H S : Type} {p : Parser H S} {host : H} {s : Stream} {source : Source} {depth size : Nat}
    {trace : DebugTrace} {done : Recognized H DebugTrace} (reads : s.ReadsFrom source)
    (ended : p.parseWithin depth host s DebugTrace.observe (trace.withIndentSize size) = .ok done)
    (accepted : done.observed.sink.error = none) :
    ∃ (course : Course) (success : Bool) (stop : Position) (log : Log),
      p.Logged host s ((.closed success, stop) :: log) ∧
      log.reverse.filter (fun entry => entry.1.ofRule) = course.events ∧
      done.observed.sink.text = trace.sink.text ++ trace.header s.position ++
        String.join (course.lines ⟨trace.level, trace.maxDepth, trace.maxText, min size 8⟩ p.grammar
          (Newline.normalize source.chars) 0 0) ++ done.observed.footer success := by
  obtain ⟨cursor, text, follows⟩ := reads.follows
  obtain ⟨course, told, success, stop, log, tells, logged, rules, observed⟩ := exists_course follows ended
  refine ⟨course, success, stop.position, log, logged, rules, ?_⟩
  have opened : (DebugTrace.observe p.grammar s .opened (trace.withIndentSize size)).Stands
      ⟨trace.level, trace.maxDepth, trace.maxText, min size 8⟩ 0 [] := ⟨rfl, rfl, rfl⟩
  have header : Sink.Took (trace.header s.position) trace.sink
      (DebugTrace.observe p.grammar s .opened (trace.withIndentSize size)).sink := Sink.took_write _ _
  have lines := (opened.deliver (g := p.grammar) tells).2
  have footer : Sink.Took (done.observed.footer success) (DebugTrace.observe.deliver p.grammar told
      (DebugTrace.observe p.grammar s .opened (trace.withIndentSize size))).sink done.observed.sink := by
    rw [observed]
    exact Sink.took_write _ _
  obtain ⟨-, written⟩ := (header.trans (lines.trans footer)) accepted
  rw [written, text, List.length_nil]
  simp only [String.append_assoc]

namespace Sample

def forkSource : Source := ⟨['a', 'b', 'y'], none⟩

/-- Tokens are too deep for lines, and two characters are quoted. -/
def shortTrace : DebugTrace := { level := .low, maxDepth := 3, maxText := 2 }

def forkLines : List String := [
  "  -> 1:1 S\n",
  "    -> 1:1 &('ab' 'q') 'ax' / 'ab' 'y' / 'ab' 'z' / 'ab' 'y'\n",
  "      -> 1:1 &('ab' 'q') 'ax'\n",
  "!     <- 1:1 &('ab' 'q') 'ax'\n",
  "      -> 1:1 'ab' 'y'\n",
  "      <- 1:4 'ab' 'y'\n",
  "         \"...by\"\n",
  "    <- 1:4 &('ab' 'q') 'ax' / 'ab' 'y' / 'ab' 'z' / 'ab' 'y'\n",
  "       \"...by\"\n",
  "  <- 1:4 S\n",
  "     \"...by\"\n"]

theorem fork_traced : ∃ done,
    (Stream.ofSource forkSource).ReadsFrom forkSource ∧
    forkParser.parseWithin 9 () (.ofSource forkSource) DebugTrace.observe (shortTrace.withIndentSize 2) = .ok done ∧
    done.observed.sink.error = none ∧
    done.observed.sink.text = shortTrace.header .origin ++ String.join forkLines ++ done.observed.footer true ∧
    ∃ (course : Course) (success : Bool) (stop : Position) (log : Log),
      forkParser.Logged () (.ofSource forkSource) ((.closed success, stop) :: log) ∧
      log.reverse.filter (fun entry => entry.1.ofRule) = course.events ∧
      done.observed.sink.text =
        shortTrace.sink.text ++ shortTrace.header (Stream.ofSource forkSource).position ++
          String.join (course.lines ⟨shortTrace.level, shortTrace.maxDepth, shortTrace.maxText, min 2 8⟩
            forkParser.grammar (Newline.normalize forkSource.chars) 0 0) ++ done.observed.footer success := by
  have reads := Stream.readsFrom_ofSource forkSource
  have evaluated : (forkParser.parseWithin 9 () (.ofSource forkSource) DebugTrace.observe
      (shortTrace.withIndentSize 2)).toOption.map (fun done => (done.observed.sink.error,
        decide (done.observed.sink.text =
          shortTrace.header .origin ++ String.join forkLines ++ done.observed.footer true))) = some (none, true) := by
    decide +kernel
  obtain ⟨done, ended, found⟩ := Option.map_eq_some_iff.mp evaluated
  simp only [Prod.mk.injEq, decide_eq_true_eq] at found
  obtain ⟨accepted, written⟩ := found
  have ended := eq_ok_of_toOption ended
  exact ⟨done, reads, ended, accepted, written, Parser.lines_traced reads ended accepted⟩

end Sample

end Packrat

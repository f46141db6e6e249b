import Packrat.Proofs.Recognition.Places
import Packrat.Proofs.Recognition.Tallies
import Packrat.Recognition.DebugTrace

/-! # The course of a recognition

The reductions of a recognition are a forest: each of them has those that are made in it, and is followed by others. What
observers are told goes through the forest from left to right (`Course.Tells`), and when they are told that a rule
matched, they find the text that it matched at the end of the text of the stream.
-/

namespace Packrat

namespace Event

/-- A rule is entered or left. -/
def ofRule : Event → Bool
  | entered _ | left .. => true
  | _ => false

@[simp] theorem ofRule_entered (rule : Rule) : (entered rule).ofRule = true := rfl

@[simp] theorem ofRule_left (rule : Rule) (success : Bool) : (left rule success).ofRule = true := rfl

/-- The memo table is asked or filled. -/
def ofMemo : Event → Bool
  | lookedUp .. | stored _ => true
  | _ => false

end Event

theorem Observer.deliver_recording (g : Grammar) (told : List Notice) (log : Log) :
    Observer.recording.deliver g told log = (told.map fun notice => (notice.1, notice.2.position)).reverse ++ log := by
  induction told generalizing log with
  | nil => rfl
  | cons notice told ih =>
    rw [List.map_cons, List.reverse_cons, List.append_assoc]
    exact ih _

/-- Reductions one after the other. -/
inductive Course where
  | done
  /-- The rule was entered at `start` and left at `stop`. The reductions `inside` were made in it, and those of `next`
  after it. -/
  | reduced (rule : Rule) (start stop : Position) (success : Bool) (inside next : Course)
deriving DecidableEq, Repr

namespace Course

def append : Course → Course → Course
  | done, last => last
  | reduced rule start stop success inside next, last => reduced rule start stop success inside (next.append last)

/-- The rules as they are entered and left. -/
def events : Course → List (Event × Position)
  | done => []
  | reduced rule start stop success inside next =>
    (.entered rule, start) :: inside.events ++ (.left rule success, stop) :: next.events

/-- What is told of the course of a recognition of `text`. -/
inductive Tells (text : List Char) : Course → List Notice → Prop
  | done : Tells text .done []
  | memo {course : Course} {event : Event} {s : Stream} {told : List Notice} (use : event.ofMemo = true)
      (rest : Tells text course told) : Tells text course ((event, s) :: told)
  | reduced {rule : Rule} {s s' : Stream} {success : Bool} {inside next : Course} {told later : List Notice}
      (within : Tells text inside told) (rest : Tells text next later)
      (matched : DebugTrace.matchedText s' s.position = (text.take s'.position.offset).drop s.position.offset) :
      Tells text (.reduced rule s.position s'.position success inside next)
        ((.entered rule, s) :: told ++ (.left rule success, s') :: later)

namespace Tells

variable {text : List Char} {course last : Course} {told later : List Notice}

theorem append (first : Tells text course told) (second : Tells text last later) :
    Tells text (course.append last) (told ++ later) := by
  induction first with
  | done => exact second
  | memo use _ ih => exact .memo use ih
  | reduced within _ matched _ ih =>
    rw [List.append_assoc]
    exact .reduced within ih matched

/-- The rules are told of as the course has them. -/
theorem events (tells : Tells text course told) :
    (told.map fun notice => (notice.1, notice.2.position)).filter (fun entry => entry.1.ofRule) = course.events := by
  induction tells with
  | done => rfl
  | @memo _ event _ _ use _ ih =>
    have other : event.ofRule = false := by
      cases event <;> first | rfl | cases use
    simpa [other] using ih
  | reduced _ _ _ inside next =>
    simp only [List.cons_append, List.map_cons, List.map_append, List.filter_cons, List.filter_append,
      Event.ofRule_entered, Event.ofRule_left, ↓reduceIte, inside, next, Course.events]

end Tells

end Course

/-- The text matched since a place that the stream was at before, under the same marks. -/
theorem TextCursor.Follows.matchedText {p : TextCursor} {s s' : Stream} {offset : Nat} (follows : p.Follows s)
    (follows' : { p with offset }.Follows s') (forward : p.offset ≤ offset) :
    DebugTrace.matchedText s' s.position = (p.text.take s'.position.offset).drop s.position.offset := by
  have started := follows.start_bounds.2
  have reached : s'.position.offset = offset := follows'.offset
  have within : s'.position.offset ≤ p.text.length := follows'.reads.position.offset_le
  rw [reached] at within
  have chars : s'.chars = (p.text.take offset).drop p.start := follows'.chars_eq
  have length : s'.chars.length = offset - p.start := by
    rw [chars, List.length_drop, List.length_take, Nat.min_eq_left within]
  have skipped : p.start + (offset - p.start - (offset - p.offset)) = p.offset := by omega
  rw [DebugTrace.matchedText, length, reached, follows.offset, chars, List.drop_drop, skipped]

/-- What a run tells is the course of its reductions. -/
theorem Recognizer.Runs.course {H S : Type} {r : Recognizer H S (List Notice)} {task : Task}
    {st st' : State H S (List Notice)} {v : Verdict} {p : TextCursor} (run : r.Runs task st v st')
    (observes : r.observer = .keeping) (follows : p.Follows st.stream) :
    ∃ course told, st'.observed = st.observed ++ told ∧ Course.Tells p.text course told := by
  refine run.seen_induction
    (motive := fun x y => ∃ course told, y.2 = x.2 ++ told ∧ Course.Tells p.text course told)
    (fun s => ∃ p' : TextCursor, p'.text = p.text ∧ p'.Follows s) ⟨p, rfl, follows⟩ ?_ ?_ ?_ ?_ ?_ ?_ ?_ ?_ ?_ ?_
  · rintro s ⟨p', text, follows⟩
    exact ⟨{ p' with saved := p'.offset :: p'.saved }, text, follows.mark⟩
  · rintro task st v st' run ⟨p', text, follows⟩
    obtain ⟨offset, follows, -⟩ := run.follows follows
    exact ⟨{ p' with offset }, text, follows⟩
  · exact fun _ => ⟨.done, [], (List.append_nil _).symm, .done⟩
  · rintro x y z ⟨course, told, same, tells⟩ ⟨last, later, same', tells'⟩
    exact ⟨course.append last, told ++ later, by rw [same', same, List.append_assoc], tells.append tells'⟩
  · exact fun _ _ => ⟨.done, [], (List.append_nil _).symm, .done⟩
  · exact fun _ _ => ⟨.done, [], (List.append_nil _).symm, .done⟩
  · intro s w i hit _
    rw [observes]
    exact ⟨.done, [(.lookedUp i hit, s)], rfl, .memo rfl .done⟩
  · intro s w i _
    rw [observes]
    exact ⟨.done, [(.stored i, s)], rfl, .memo rfl .done⟩
  · exact fun _ inside => inside
  · rintro rule body st st' v - run ⟨p', text, follows⟩ ⟨course, told, same, tells⟩
    obtain ⟨offset, follows', forward⟩ := run.follows follows
    have matched := follows.matchedText follows' forward
    rw [text] at matched
    refine ⟨.reduced rule st.stream.position st'.stream.position v.isMatched course .done,
      (.entered rule, st.stream) :: told ++ [(.left rule v.isMatched, st'.stream)], ?_, .reduced tells .done matched⟩
    change (r.note _ st').observed = st.observed ++ _
    change st'.observed = (r.note _ st).observed ++ told at same
    rw [observed_note observes, same, observed_note observes]
    simp

namespace Parser

variable {H S τ : Type} {p : Parser H S} {host : H} {s : Stream} {observer : Observer τ} {observed : τ}

/-- Any observer of a recognition is told of its course, which is in the log. -/
theorem exists_course {depth : Nat} {done : Recognized H τ} {cursor : TextCursor} (follows : cursor.Follows s)
    (ended : p.parseWithin depth host s observer observed = .ok done) :
    ∃ course told success stop log, Course.Tells cursor.text course told ∧
      p.Logged host s ((.closed success, stop.position) :: log) ∧
      log.reverse.filter (fun entry => entry.1.ofRule) = course.events ∧
      done.observed = observer p.grammar stop (.closed success)
        (observer.deliver p.grammar told (observer p.grammar s .opened observed)) := by
  obtain ⟨v, st, run, rfl⟩ := parseWithin_iff_run.mp ⟨depth, ended⟩
  obtain ⟨told, kept, same⟩ := exists_kept run
  obtain ⟨course, told', whole, tells⟩ := kept.course rfl follows
  obtain rfl : told = told' := whole
  obtain ⟨depth', done', recorded, logged⟩ := exists_told kept .recording []
  rw [Report.tell_eq, Observer.deliver_recording] at logged
  refine ⟨course, told, v.isMatched, st.stream, _, tells, ⟨depth', done', recorded, logged⟩, ?_, ?_⟩
  · change List.filter _ (List.reverse (_ ++ [(Event.opened, s.position)])) = _
    rw [List.reverse_append, List.reverse_reverse]
    exact tells.events
  · rw [(observed_recognized same).2, Report.tell_eq]

end Parser

end Packrat

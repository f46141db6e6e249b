import Packrat.Proofs.Text.Unnoticed
import Packrat.Recognition.Parser

/-! # What is read does not depend on the marks

Marks tell where a stream can go back to, and where the text of an action starts. Reading goes on without a look at
them, so the answers of everything that reads are the same under other marks.
-/

namespace Packrat

namespace Stream

variable (s : Stream) (marks : List Position)

/-- The same stream with other marks. -/
def under : Stream := { s with marks }

@[simp] theorem position_under : (s.under marks).position = s.position := rfl

theorem unnoticed_under : Unnoticed (under · marks) where
  source _ := rfl
  buffer _ := rfl
  base _ := rfl
  position _ := rfl
  fetch s := by
    unfold Stream.fetch
    cases next : Newline.next s.afterReturn s.source with
    | some found => simp only [under, next]
    | none => cases failure : s.failure <;> simp only [under, next, failure]
  goTo _ _ := rfl

theorem peek_under : (s.under marks).peek = (s.peek.1, s.peek.2.under marks) := (unnoticed_under marks).peek s

theorem skip_under (count : Nat) : (s.under marks).skip count = ((s.skip count).1, (s.skip count).2.under marks) :=
  (unnoticed_under marks).skip s count

end Stream

theorem Terminal.recognize_under (s : Stream) (marks : List Position) (t : Terminal) :
    t.recognize (s.under marks) = ((t.recognize s).1, (t.recognize s).2.under marks) :=
  t.recognize_unnoticed (Stream.unnoticed_under marks) s

namespace Parser

variable (s : Stream) (marks : List Position)

theorem foundAt_under (place : Position) : (foundAt (s.under marks) place).1 = (foundAt s place).1 := by
  simp only [foundAt, Stream.skip_under, Stream.position_under, Stream.peek_under]

/-- What is answered does not depend on the marks that are left. -/
theorem answer_under (start : Position) (farthest : Farthest) (v : Verdict) :
    (answer start farthest v (s.under marks)).1 = (answer start farthest v s).1 := by
  unfold answer Stream.takeError
  cases failure : s.error with
  | some message => simp only [Stream.under, failure]
  | none =>
    cases v with
    | matched => simp only [Stream.under, failure]
    | aborted e => simp only [Stream.under, failure]
    | failed =>
      simp only [Stream.under, failure]
      rw [← foundAt_under { s with error := none } marks]
      rfl

end Parser

end Packrat

import Packrat.Proofs.Text.Unnoticed

/-! # Streams that no failure waits for

The failure behind the last character of a source becomes the error of the stream when something looks
there. Looking at the text answers the same without the failure, and where there is none, no look at the text makes
one up.
-/

namespace Packrat

namespace Stream

variable {s : Stream}

/-- No failure waits behind the text, and none has been met. -/
def Readable (s : Stream) : Prop := s.failure = none ∧ s.error = none

theorem readable_ofSource {source : Source} (whole : source.failure = none) : (ofSource source).Readable :=
  ⟨whole, rfl⟩

/-- The same stream without a failure. -/
def calm (s : Stream) : Stream := { s with failure := none, error := none }

theorem calm_eq_self_iff : s.calm = s ↔ s.Readable := by
  constructor
  · intro same
    rw [← same]
    exact ⟨rfl, rfl⟩
  · rintro ⟨failure, error⟩
    cases s
    cases failure
    cases error
    rfl

theorem unnoticed_calm : Unnoticed calm where
  source _ := rfl
  buffer _ := rfl
  base _ := rfl
  position _ := rfl
  fetch s := by
    unfold Stream.fetch
    cases next : Newline.next s.afterReturn s.source with
    | some found => simp only [calm, next]
    | none => cases failure : s.failure <;> simp only [calm, next]
  goTo _ _ := rfl

/-- What passes on that there is no failure leaves the stream without one. -/
private theorem Readable.passed {α : Type} (readable : s.Readable) (look : Stream → α × Stream)
    (passes : look s.calm = ((look s).1, (look s).2.calm)) : (look s).2.Readable := by
  rw [calm_eq_self_iff.mpr readable] at passes
  exact calm_eq_self_iff.mp (congrArg Prod.snd passes).symm

theorem Readable.take (readable : s.Readable) (count : Nat) : (s.take count).2.Readable :=
  readable.passed (Stream.take count) (unnoticed_calm.take s count)

end Stream

theorem Terminal.recognize_readable {s : Stream} (t : Terminal) (readable : s.Readable) :
    (t.recognize s).2.Readable :=
  readable.passed (fun s => t.recognize s) (t.recognize_unnoticed Stream.unnoticed_calm s)

end Packrat

import Packrat.Proofs.Recognition.Progress
import Packrat.Proofs.Text.Sources

/-! # Runs and cursors

A run does to a stream what can be done to a cursor in its text: terminals and what is skipped move it on, and marks
are set and closed. So behind a run some cursor follows the stream again, with the marks and the origin it had before.
-/

namespace Packrat

namespace State

variable {H S τ : Type} {st st' : State H S τ} {v : Verdict}

/-- A cursor that follows the stream closes the mark with it. -/
theorem follows_settled {p : TextCursor} (follows : p.Follows st'.stream)
    (balanced : st'.stream.marks = st.mark.stream.marks) :
    ∃ p' : TextCursor, p'.text = p.text ∧ p'.origin = p.origin ∧ p'.Follows (st.settled v st').stream := by
  have outstanding : st'.stream.marks = st.stream.position :: st.stream.marks := balanced
  have saved : p.saved = st.stream.position.offset :: st.stream.marks.map Position.offset := by
    rw [← follows.saved, outstanding, List.map_cons]
  by_cases matched : v.isMatched = true
  · obtain ⟨s, released, after⟩ := follows.release saved
    rw [Stream.release, outstanding] at released
    cases released
    refine ⟨_, ?_, ?_, by rw [settled, if_pos matched]; exact after⟩ <;> rfl
  · obtain ⟨s, reset, after⟩ := follows.reset saved
    rw [Stream.reset, outstanding] at reset
    cases reset
    refine ⟨_, ?_, ?_, by rw [settled, if_neg matched]; exact after⟩ <;> rfl

end State

namespace Recognizer

variable {H S τ : Type} {r : Recognizer H S τ} {task : Task} {st st' : State H S τ} {v : Verdict} {p : TextCursor}

/-- A run leaves the stream at a place of the text, with the same places to go back to. -/
theorem Runs.follows (run : r.Runs task st v st') (follows : p.Follows st.stream) :
    ∃ offset, { p with offset }.Follows st'.stream ∧ p.offset ≤ offset := by
  suffices behind : ∃ p' : TextCursor, p'.text = p.text ∧ p'.origin = p.origin ∧ p'.Follows st'.stream by
    obtain ⟨⟨text, offset, saved, origin⟩, rfl, rfl, follows'⟩ := behind
    have still : saved = p.saved := follows'.saved.symm.trans (run.marks ▸ follows.saved)
    have reached : st'.stream.position.offset = offset := follows'.offset
    exact ⟨offset, still ▸ follows', by rw [← follows.offset, ← reached]; exact run.forward⟩
  refine run.stream_induction
    (motive := fun s => ∃ p' : TextCursor, p'.text = p.text ∧ p'.origin = p.origin ∧ p'.Follows s)
    ?_ ?_ ?_ ?_ ⟨p, rfl, rfl, follows⟩
  · rintro s t ⟨p', text, origin, follows⟩
    exact ⟨p'.forward _, text, origin, follows.scanned (follows.reads.scan_recognize t)⟩
  · rintro s count ⟨p', text, origin, follows⟩
    exact ⟨p'.forward _, text, origin, follows.scanned (follows.reads.scan_take count).2⟩
  · rintro s ⟨p', text, origin, follows⟩
    exact ⟨{ p' with saved := p'.offset :: p'.saved }, text, origin, follows.mark⟩
  · rintro st st' v ⟨p', text, origin, follows⟩ balanced
    obtain ⟨p'', text', origin', follows⟩ := State.follows_settled (v := v) follows balanced
    exact ⟨p'', text'.trans text, origin'.trans origin, follows⟩

end Recognizer

end Packrat

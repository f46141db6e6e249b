import Packrat.Proofs.Text.Endings

/-! # Streams over a source

However a stream over a source has been used, it is at a place of the text of the source, and what the source fails
with is in one of three places: it waits behind the text, it has been met and not been handed out, or it has been
handed out.
-/

namespace Packrat

/-- A stream that goes back to where it was before it looked is where the cursor is still. -/
theorem TextCursor.Follows.back {p : TextCursor} {s s' : Stream} {stop : Nat} (follows : p.Follows s)
    (scanned : Stream.Scanned p.text s s' stop) : p.Follows { s' with position := s.position } where
  reads := scanned.reads.goTo (scanned.keeps follows.reads.position)
  offset := follows.offset
  saved := (congrArg _ scanned.marks).trans follows.saved
  base := scanned.base.trans follows.base
  origin := scanned.origin.trans follows.origin
  ordered := follows.ordered

namespace Stream

variable {s s' : Stream} {source : Source} {past : Bool}

/-- Every way of using a stream over the source leaves it like this. -/
structure ReadsFrom (source : Source) (s : Stream) : Prop where
  follows : ∃ p : TextCursor, p.text = Newline.normalize source.chars ∧ p.Follows s
  failure : (s.failure = source.failure ∧ s.error = none) ∨
    (s.failure = none ∧ (s.error = source.failure ∨ s.error = none))

theorem readsFrom_ofSource (source : Source) : (ofSource source).ReadsFrom source :=
  ⟨⟨_, rfl, TextCursor.follows_ofSource source⟩, .inl ⟨rfl, rfl⟩⟩

namespace ReadsFrom

theorem over_chars (reads : s.ReadsFrom source) : s.Over (Newline.normalize source.chars) := by
  obtain ⟨⟨p, text, follows⟩, -⟩ := reads
  exact text ▸ follows.reads

/-- A look at the text moves the failure on, if anything. -/
theorem meets (reads : s.ReadsFrom source) (meets : Meets past s s')
    (follows : ∃ p : TextCursor, p.text = Newline.normalize source.chars ∧ p.Follows s') : s'.ReadsFrom source := by
  refine ⟨follows, ?_⟩
  obtain ⟨failure, error⟩ := meets
  cases past with
  | false =>
    rw [failure, error]
    exact reads.failure
  | true =>
    refine .inr ⟨failure, ?_⟩
    rcases reads.failure with ⟨waits, unmet⟩ | ⟨gone, met⟩
    · left
      simp [error, waits, unmet]
    · simpa [error, gone] using met

theorem takeError (reads : s.ReadsFrom source) : s.takeError.2.ReadsFrom source := by
  obtain ⟨⟨p, text, follows⟩, failure⟩ := reads
  refine ⟨⟨p, text, follows.takeError⟩, ?_⟩
  rcases failure with ⟨waits, -⟩ | ⟨gone, -⟩
  · exact .inl ⟨waits, rfl⟩
  · exact .inr ⟨gone, .inr rfl⟩

theorem serve {request : Request} {reply : Reply} (reads : s.ReadsFrom source)
    (served : s.serve request = .ok (reply, s')) : s'.ReadsFrom source := by
  cases request with
  | takeError =>
    cases served
    exact reads.takeError
  | operation operation =>
    obtain ⟨answer, performed, -⟩ := of_serve_operation served
    obtain ⟨p, text, follows⟩ := reads.follows
    obtain ⟨p', moved, after⟩ := follows.performed performed
    exact reads.meets (follows.meets_perform performed) ⟨p', (TextCursor.text_perform moved).trans text, after⟩

/-- Requests leave a stream over its source. -/
theorem serveAll {requests : List Request} {replies : List Reply} (reads : s.ReadsFrom source)
    (served : s.serveAll requests = .ok (replies, s')) : s'.ReadsFrom source := by
  induction requests generalizing s replies with
  | nil =>
    cases served
    exact reads
  | cons request rest ih =>
    obtain ⟨reply, next, later, first, more, -⟩ := of_serveAll_cons served
    exact ih (reads.serve first) more

end ReadsFrom

variable {text : List Char}

private theorem Over.scan_readIf (reads : s.Over text) (p : Char → Bool) :
    (Terminal.readIf s p).2.base = s.base ∧ (Terminal.readIf s p).2.origin = s.origin := by
  have looked := (reads.scan_peekNth 0).2
  unfold Terminal.readIf
  rcases peeked : s.peek with ⟨_ | c, next⟩
  all_goals
    rw [show s.peekNth 0 = s.peek from rfl, peeked] at looked
    dsimp only
  · exact ⟨looked.base, looked.origin⟩
  · have read := looked.reads.scan_read.2
    split
    · exact ⟨read.base.trans looked.base, read.origin.trans looked.origin⟩
    · exact ⟨looked.base, looked.origin⟩

theorem Over.scan_recognize (reads : s.Over text) (t : Terminal) :
    Scanned text s (t.recognize s).2 (t.stopAfter text s.position.offset) := by
  suffices kept : (t.recognize s).2.base = s.base ∧ (t.recognize s).2.origin = s.origin from
    ⟨(t.recognize_spec reads).2, kept.1, kept.2⟩
  cases t with
  | nil => exact ⟨rfl, rfl⟩
  | any => exact ⟨reads.scan_read.2.base, reads.scan_read.2.origin⟩
  | token image caseSensitive =>
    have scanned := (reads.scan_accept caseSensitive image).2
    exact ⟨scanned.base, scanned.origin⟩
  | interval bounds => exact reads.scan_readIf _
  | set members => exact reads.scan_readIf _
  | charClass named => exact reads.scan_readIf _

private theorem Over.meets_readIf (reads : s.Over text) (p : Char → Bool) :
    Meets (text.drop s.position.offset).isEmpty s (Terminal.readIf s p).2 := by
  have looked := reads.meets_peekNth 0
  obtain ⟨found, scanned⟩ := reads.scan_peekNth 0
  rw [← List.getElem?_drop, Nat.add_zero] at *
  unfold Terminal.readIf
  rcases peeked : s.peek with ⟨_ | c, next⟩
  all_goals
    rw [show s.peekNth 0 = s.peek from rfl, peeked] at looked found scanned
    dsimp only
  · exact looked
  · split
    · have read := scanned.reads.meets_read
      rw [scanned.offset] at read
      simpa using looked.trans read
    · exact looked

/-- A terminal that fails at the end of the text has looked past it. -/
theorem Over.meets_recognize (reads : s.Over text) (t : Terminal) : ∃ past, Meets past s (t.recognize s).2 ∧
    ((t.recognize s).1 = false → text.drop s.position.offset = [] → past = true) := by
  cases t with
  | nil => exact ⟨false, .refl s, nofun⟩
  | any => exact ⟨_, reads.meets_read, fun _ ended => by rw [ended, List.isEmpty_nil]⟩
  | token image caseSensitive =>
    refine ⟨_, reads.meets_accept _ image, fun failed ended => ?_⟩
    have differs := (reads.scan_accept caseSensitive image).1.symm.trans failed
    rw [ended] at differs ⊢
    cases characters : image.toList with
    | nil => simp [characters, Terminal.beginsWith] at differs
    | cons c rest =>
      have length : 0 < image.length := by
        rw [← String.length_toList, characters]
        exact Nat.succ_pos _
      simp [length, Terminal.beginsWith]
  | interval bounds => exact ⟨_, reads.meets_readIf _, fun _ ended => by rw [ended, List.isEmpty_nil]⟩
  | set members => exact ⟨_, reads.meets_readIf _, fun _ ended => by rw [ended, List.isEmpty_nil]⟩
  | charClass named => exact ⟨_, reads.meets_readIf _, fun _ ended => by rw [ended, List.isEmpty_nil]⟩

end Stream

end Packrat

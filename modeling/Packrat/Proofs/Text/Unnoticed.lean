import Packrat.Text.Operation

/-! # Changes that no look at the text notices

Looking at the text goes through the source, the buffer and the position. A change of a stream that leaves these as
they are, and that taking characters from the source and moving pass on, is passed on by everything that reads: the
answers are the same with the change and without it.
-/

namespace Packrat

namespace Stream

/-- Looking at the text answers alike before and after the change, and passes it on. -/
structure Unnoticed (change : Stream → Stream) : Prop where
  source (s : Stream) : (change s).source = s.source
  buffer (s : Stream) : (change s).buffer = s.buffer
  base (s : Stream) : (change s).base = s.base
  position (s : Stream) : (change s).position = s.position
  fetch (s : Stream) : (change s).fetch = (s.fetch.1, change s.fetch.2)
  goTo (s : Stream) (position : Position) : { change s with position } = change { s with position }

namespace Unnoticed

variable {change : Stream → Stream} (unnoticed : Unnoticed change) (s : Stream)

include unnoticed

theorem index : (change s).index = s.index := by
  rw [Stream.index, unnoticed.position, unnoticed.base, Stream.index]

theorem fill (count : Nat) : (change s).fill count = change (s.fill count) := by
  induction count generalizing s with
  | zero => rfl
  | succ count ih =>
    unfold Stream.fill
    rw [unnoticed.fetch]
    obtain ⟨_ | _, fetched⟩ := s.fetch
    · rfl
    · exact ih fetched

theorem peekNth (n : Nat) : (change s).peekNth n = ((s.peekNth n).1, change (s.peekNth n).2) := by
  simp only [Stream.peekNth, unnoticed.index, unnoticed.buffer, unnoticed.fill]

theorem peek : (change s).peek = (s.peek.1, change s.peek.2) := unnoticed.peekNth s 0

theorem read : (change s).read = (s.read.1, change s.read.2) := by
  unfold Stream.read
  rw [unnoticed.peek]
  obtain ⟨_ | c, looked⟩ := s.peek
  · rfl
  · simp only [unnoticed.position, unnoticed.goTo]

theorem take (count : Nat) : (change s).take count = ((s.take count).1, change (s.take count).2) := by
  induction count generalizing s with
  | zero => rfl
  | succ count ih =>
    unfold Stream.take
    rw [unnoticed.read]
    obtain ⟨_ | c, moved⟩ := s.read
    · rfl
    · simp only [ih]

theorem skip (count : Nat) : (change s).skip count = ((s.skip count).1, change (s.skip count).2) := by
  simp only [Stream.skip, unnoticed.take]

private theorem readLineGo (limit : Nat) :
    readLine.go limit (change s) = ((readLine.go limit s).1, change (readLine.go limit s).2) := by
  induction limit generalizing s with
  | zero => rfl
  | succ limit ih =>
    unfold readLine.go
    rw [unnoticed.read]
    obtain ⟨_ | c, moved⟩ := s.read
    · rfl
    · dsimp only
      split
      · rfl
      · simp only [ih]

theorem readLine : (change s).readLine = (s.readLine.1, change s.readLine.2) := by
  have reach : (change s).reach = s.reach := by
    rw [Stream.reach, unnoticed.buffer, unnoticed.index, unnoticed.source, Stream.reach]
  rw [Stream.readLine, reach]
  exact unnoticed.readLineGo s _

private theorem acceptGo (same : Char → Char → Bool) (start : Position) (text : List Char) :
    accept.go same start text (change s) =
      ((accept.go same start text s).1, change (accept.go same start text s).2) := by
  induction text generalizing s with
  | nil => rfl
  | cons expected rest ih =>
    unfold accept.go
    rw [unnoticed.read]
    obtain ⟨_ | c, moved⟩ := s.read
    · simp only [unnoticed.goTo]
    · dsimp only
      split
      · exact ih moved
      · rw [unnoticed.goTo]

theorem accept (same : Char → Char → Bool) (text : List Char) :
    (change s).accept same text = ((s.accept same text).1, change (s.accept same text).2) := by
  rw [Stream.accept, unnoticed.position]
  exact unnoticed.acceptGo s same s.position text

theorem atEnd : (change s).atEnd = (s.atEnd.1, change s.atEnd.2) := by
  simp only [Stream.atEnd, unnoticed.peek]

private theorem snippetGo (count n : Nat) :
    snippet.go count n (change s) = ((snippet.go count n s).1, change (snippet.go count n s).2) := by
  induction count generalizing s n with
  | zero => rfl
  | succ count ih =>
    unfold snippet.go
    rw [unnoticed.peekNth]
    obtain ⟨_ | c, looked⟩ := s.peekNth n
    · rfl
    · dsimp only
      split
      · rfl
      · simp only [ih]

theorem snippet (count : Nat) : (change s).snippet count = ((s.snippet count).1, change (s.snippet count).2) :=
  unnoticed.snippetGo s count 0

end Unnoticed

end Stream

namespace Terminal

variable {change : Stream → Stream} (unnoticed : Stream.Unnoticed change) (s : Stream)

include unnoticed

private theorem readIf_unnoticed (p : Char → Bool) :
    readIf (change s) p = ((readIf s p).1, change (readIf s p).2) := by
  unfold readIf
  rw [unnoticed.peek]
  obtain ⟨_ | c, looked⟩ := s.peek
  · rfl
  · dsimp only
    split
    · rw [unnoticed.read]
    · rfl

theorem recognize_unnoticed (t : Terminal) :
    t.recognize (change s) = ((t.recognize s).1, change (t.recognize s).2) := by
  cases t with
  | nil => rfl
  | any => simp only [recognize, unnoticed.read]
  | token image caseSensitive => exact unnoticed.accept s _ _
  | interval bounds => exact readIf_unnoticed unnoticed s _
  | set members => exact readIf_unnoticed unnoticed s _
  | charClass named => exact readIf_unnoticed unnoticed s _

end Terminal

end Packrat

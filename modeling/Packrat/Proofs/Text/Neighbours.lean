import Packrat.Proofs.Text.Marks
import Packrat.Proofs.Text.Reading

/-! # Terminals one after the other

Two texts accepted one after the other are accepted as one text, and one of two characters is read as well by a second
look, because looking again changes nothing (`peek_peek`). A text that is not accepted leaves the stream as far read as
the longer one does.
-/

namespace Packrat

namespace Stream

variable {s : Stream}

/-- At the end of the source nothing more is fetched. -/
private theorem fetch_idle (ended : s.fetch.1 = false) : s.fetch.2.fetch = (false, s.fetch.2) := by
  unfold fetch at ended ⊢
  cases next : Newline.next s.afterReturn s.source with
  | some found => simp [next] at ended
  | none => cases failure : s.failure <;> rfl

private theorem fill_idle (ended : s.fetch = (false, s)) (count : Nat) : s.fill count = s := by
  cases count with
  | zero => rfl
  | succ count => rw [fill, ended]

private theorem size_fetch (s : Stream) : s.fetch.2.buffer.size = s.buffer.size + s.fetch.1.toNat := by
  unfold fetch
  split
  · exact Array.size_push ..
  · split <;> rfl

/-- What is missing after a fill is missing in the source. -/
private theorem fill_fill (s : Stream) (count : Nat) :
    (s.fill count).fill (s.buffer.size + count - (s.fill count).buffer.size) = s.fill count := by
  induction count generalizing s with
  | zero => rw [fill, Nat.add_zero, Nat.sub_self, fill]
  | succ count ih =>
    have size := size_fetch s
    rw [fill]
    rcases fetched : s.fetch with ⟨_ | _, s'⟩
    · have idle := fetch_idle (s := s) (by rw [fetched])
      rw [fetched] at idle
      exact fill_idle idle _
    · rw [fetched] at size
      have more : s.buffer.size + (count + 1) = s'.buffer.size + count := by
        rw [size, Bool.toNat_true]
        omega
      dsimp only
      rw [more]
      exact ih s'

/-- Looking again changes nothing. -/
theorem peek_peek (s : Stream) : s.peek.2.peek = s.peek := by
  have index : s.peek.2.index = s.index := by
    have base : s.peek.2.base = s.base := view_fill (fun s => (fetch_frame s).1) s _
    rw [Stream.index, position_peek, base, Stream.index]
  have again : s.peek.2.fill (s.index + 1 - s.peek.2.buffer.size) = s.peek.2 := by
    have filled := fill_fill s (s.index + 1 - s.buffer.size)
    rcases Nat.le_total (s.index + 1) s.buffer.size with enough | missing
    · have same : s.peek.2 = s := by
        change s.fill (s.index + 1 - s.buffer.size) = s
        rw [Nat.sub_eq_zero_of_le enough, fill]
      rw [same, Nat.sub_eq_zero_of_le enough, fill]
    · rwa [Nat.add_sub_cancel' missing] at filled
  change (((s.peek.2.fill (s.peek.2.index + 1 - s.peek.2.buffer.size)).buffer[s.peek.2.index]?),
    s.peek.2.fill (s.peek.2.index + 1 - s.peek.2.buffer.size)) = s.peek
  rw [index, again]
  rfl

theorem read_peek (s : Stream) : s.peek.2.read = s.read := by
  rw [read_eq, peek_peek, ← read_eq]

variable (same : Char → Char → Bool) (first second : List Char)

private theorem accept_go_append (start : Position) (s : Stream) :
    accept.go same start (first ++ second) s =
      if (accept.go same start first s).1 then accept.go same start second (accept.go same start first s).2
      else accept.go same start first s := by
  induction first generalizing s with
  | nil => rfl
  | cons d first ih =>
    rw [List.cons_append, accept.go, accept.go]
    rcases s.read with ⟨_ | c, s'⟩
    · rfl
    · dsimp only
      split
      · exact ih s'
      · rfl

/-- A text goes back to where it began. -/
private theorem accept_go_start (start start' : Position) (s : Stream) :
    accept.go same start second s =
      if (accept.go same start' second s).1 then accept.go same start' second s
      else (false, { (accept.go same start' second s).2 with position := start }) := by
  induction second generalizing s with
  | nil => rfl
  | cons d second ih =>
    rw [accept.go, accept.go]
    rcases s.read with ⟨_ | c, s'⟩
    · rfl
    · dsimp only
      split
      · exact ih s'
      · rfl

/-- A text that is accepted after another one is accepted with it. -/
theorem accept_append (s : Stream) :
    s.accept same (first ++ second) =
      if (s.accept same first).1 then
        if ((s.accept same first).2.accept same second).1 then (s.accept same first).2.accept same second
        else (false, { ((s.accept same first).2.accept same second).2 with position := s.position })
      else s.accept same first := by
  unfold accept
  rw [accept_go_append]
  split
  · exact accept_go_start same second ..
  · rfl

end Stream

namespace Terminal

variable {t : Terminal}

theorem readIf_eq (s : Stream) (p : Char → Bool) :
    readIf s p = if s.peek.1.any p then (true, s.read.2) else (false, s.peek.2) := by
  have again := Stream.read_peek s
  unfold readIf
  rcases peeked : s.peek with ⟨_ | c, s'⟩
  · rfl
  · rw [peeked] at again
    simp only [again, Option.any_some]

/-- One of two kinds of characters is read by a look for the one kind and a look for the other. -/
theorem readIf_or (s : Stream) (p q : Char → Bool) :
    readIf s (fun c => p c || q c) = if (readIf s p).1 then readIf s p else readIf (readIf s p).2 q := by
  have either : s.peek.1.any (fun c => p c || q c) = (s.peek.1.any p || s.peek.1.any q) := by
    cases s.peek.1 <;> rfl
  rw [readIf_eq, either, readIf_eq s p]
  cases s.peek.1.any p with
  | true => rfl
  | false =>
    rw [Bool.false_or, if_neg Bool.false_ne_true, if_neg Bool.false_ne_true, readIf_eq, Stream.peek_peek,
      Stream.read_peek]

/-- A text of one character is a look at one character. -/
theorem accept_single (s : Stream) (same : Char → Char → Bool) (d : Char) :
    s.accept same [d] = readIf s fun c => same c d := by
  have looked := Stream.position_peek s
  have moved := Stream.read_eq s
  rw [readIf_eq, Stream.accept, Stream.accept.go]
  rcases peeked : s.peek with ⟨_ | c, s'⟩
  all_goals
    rw [peeked] at looked moved
    rw [moved, ← looked]
  · rfl
  · rw [Option.any_some]
    rfl

/-- The characters that a determined terminal matches. -/
def admits : Terminal → Char → Bool
  | token image _, c => image.toList == [c]
  | interval bounds, c => bounds.contains c
  | set members, c => members.contains c
  | _, _ => false

/-- A determined terminal looks at one character. -/
theorem recognize_determined (determined : t.isDetermined = true) (s : Stream) :
    t.recognize s = readIf s t.admits := by
  cases t with
  | token image caseSensitive =>
    cases caseSensitive with
    | false => cases determined
    | true =>
      have length : image.toList.length = 1 := by
        rw [String.length_toList]
        exact beq_iff_eq.mp determined
      obtain ⟨d, characters⟩ := List.length_eq_one_iff.mp length
      have same : admits (.token image true) = fun c => sameChar true c d := by
        funext c
        simp [admits, sameChar, characters, eq_comm]
      rw [same, ← accept_single, ← characters]
      rfl
  | interval bounds => rfl
  | set members => rfl
  | nil | any | charClass => cases determined

variable (fold : Char → Char)

/-- The comparison of characters a token would use if `fold` folded case. -/
def sameFolding (caseSensitive : Bool) (c d : Char) : Bool :=
  if caseSensitive then c == d else fold c == fold d

/-- Matches the terminal as if `fold` folded case. -/
def recognizeFolding (t : Terminal) (s : Stream) : Bool × Stream :=
  match t with
  | token image caseSensitive => s.accept (sameFolding fold caseSensitive) image.toList
  | t => t.recognize s

theorem recognizeFolding_foldCase : recognizeFolding Unicode.foldCase = fun t s => t.recognize s := by
  funext t s
  cases t <;> rfl

/-- A determined terminal is sensitive to case. -/
theorem recognizeFolding_determined (determined : t.isDetermined = true) : t.recognizeFolding fold = t.recognize := by
  cases t with
  | token image caseSensitive =>
    cases caseSensitive with
    | false => cases determined
    | true => rfl
  | nil | any | interval | set | charClass => rfl

end Terminal

end Packrat

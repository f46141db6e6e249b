import Packrat.Terminal
import Mathlib.Data.List.Basic

/-! # Streams over a text

A stream reads from a text whose line ends are normalized, although it never holds that text as a
whole. `Stream.Over` says which part of the text lies in the buffer and which is still to come, and
that the position and all marks are places of the text that the buffer leads to. Looking at
characters and moving keep it. What a terminal matches, and what an action is told, is then a
function of the text and of offsets alone.
-/

namespace Packrat

namespace Newline

/-- The normalized text still to come, where the flag tells whether the last character taken was a
`\r`. -/
def ahead (afterReturn : Bool) (source : List Char) : List Char :=
  match afterReturn, source with
  | true, '\n' :: rest => normalize rest
  | _, source => normalize source

@[simp] theorem ahead_false (source : List Char) : ahead false source = normalize source := by
  unfold ahead
  split <;> simp_all

theorem normalize_return (rest : List Char) : normalize ('\r' :: rest) = '\n' :: ahead true rest := by
  cases rest with
  | nil => simp [normalize, ahead]
  | cons c rest =>
    by_cases newline : c = '\n'
    · subst newline
      simp [normalize, ahead]
    · rw [normalize]
      · simp [ahead, newline]
      · intro _ _ same
        exact newline (List.cons.inj same).1

theorem normalize_cons {c : Char} (plain : c ≠ '\r') (rest : List Char) :
    normalize (c :: rest) = c :: normalize rest := by
  rw [normalize]
  · simp [plain]
  · intro _ same
    exact absurd same plain

/-- Without a `\r` all line ends are what they become. -/
theorem normalize_of_not_mem {s : List Char} (plain : '\r' ∉ s) : normalize s = s := by
  induction s with
  | nil => rfl
  | cons c rest ih =>
    obtain ⟨other, plain⟩ := not_or.mp (fun either => plain (List.mem_cons.mpr either))
    rw [normalize_cons (Ne.symm other), ih plain]

/-- One character of a text that does not start with the second half of a line end. -/
private theorem normalize_step (c : Char) (rest : List Char) :
    normalize (c :: rest) = (if c = '\r' then '\n' else c) :: ahead (c == '\r') rest := by
  by_cases ret : c = '\r'
  · subst ret
    simpa using normalize_return rest
  · have plain : (c == '\r') = false := by simpa using ret
    rw [plain, ahead_false, if_neg ret, normalize_cons ret]

theorem ahead_of_next (afterReturn : Bool) (source : List Char) :
    ahead afterReturn source =
      match next afterReturn source with
      | some (c, afterReturn, rest) => c :: ahead afterReturn rest
      | none => [] := by
  cases source with
  | nil => cases afterReturn <;> rfl
  | cons c rest =>
    by_cases swallowed : afterReturn = true ∧ c = '\n'
    · obtain ⟨rfl, rfl⟩ := swallowed
      cases rest with
      | nil => rfl
      | cons d rest => simpa [next, ahead] using normalize_step d rest
    · have here : ahead afterReturn (c :: rest) = normalize (c :: rest) := by
        unfold ahead
        split
        · next same => exact absurd ⟨rfl, (List.cons.inj same).1⟩ swallowed
        · rfl
      have kept : (afterReturn && c == '\n') = false := by simpa using swallowed
      rw [here, normalize_step]
      simp [next, kept]

theorem length_normalize_le (source : List Char) : (normalize source).length ≤ source.length := by
  fun_induction normalize source with
  | case1 => simp
  | case2 rest ih => simp only [List.length_cons]; omega
  | case3 c rest _ ih => simp only [List.length_cons]; omega

theorem length_ahead_le (afterReturn : Bool) (source : List Char) :
    (ahead afterReturn source).length ≤ source.length := by
  unfold ahead
  split
  · next rest =>
    have := length_normalize_le rest
    simp only [List.length_cons]
    omega
  · exact length_normalize_le _

end Newline

/-- The position behind the first `count` characters of a text. -/
def Position.after (text : List Char) (count : Nat) : Position := origin.advance (text.take count)

namespace Position

theorem offset_after (text : List Char) (count : Nat) :
    (after text count).offset = min count text.length := by
  simp [after, offset_advance, origin]

theorem offset_after_of_le {text : List Char} {count : Nat} (within : count ≤ text.length) :
    (after text count).offset = count := by
  rw [offset_after]
  omega

theorem next_after {text : List Char} {count : Nat} {c : Char} (found : text[count]? = some c) :
    (after text count).next c = after text (count + 1) := by
  have bound := (List.getElem?_eq_some_iff.mp found).1
  have last := (List.getElem?_eq_some_iff.mp found).2
  rw [after, after, List.take_succ_eq_append_getElem bound, last, advance_append]
  rfl

end Position

/-- The text between two offsets as an action sees it. -/
def Context.between (text : List Char) (start stop : Nat) : Context :=
  ⟨(text.take stop).drop start, ⟨.after text start, .after text stop⟩⟩

namespace Stream

/-- `p` is a place of `text` that the buffer leads to. -/
structure Holds (s : Stream) (text : List Char) (p : Position) : Prop where
  base_le : s.base ≤ p.offset
  le_fetched : p.offset ≤ s.base + s.buffer.size
  eq_after : p = .after text p.offset

/-- The stream reads from `text`. -/
structure Over (s : Stream) (text : List Char) : Prop where
  held : text.drop s.base = s.buffer.toList ++ Newline.ahead s.afterReturn s.source
  position : s.Holds text s.position
  marks : ∀ p ∈ s.marks, s.Holds text p

theorem Holds.offset_le {s : Stream} {text : List Char} {p : Position} (holds : s.Holds text p) :
    p.offset ≤ text.length := by
  have := congrArg Position.offset holds.eq_after
  rw [Position.offset_after] at this
  omega

/-- A place stays one while the buffer grows. -/
theorem Holds.grow {s s' : Stream} {text : List Char} {p : Position} (holds : s.Holds text p)
    (base : s'.base = s.base) (size : s.buffer.size ≤ s'.buffer.size) : s'.Holds text p :=
  ⟨base ▸ holds.base_le, by have := holds.le_fetched; omega, holds.eq_after⟩

/-- A stream may go to every place its buffer leads to. -/
theorem Over.goTo {s : Stream} {text : List Char} {p : Position} (reads : s.Over text)
    (holds : s.Holds text p) : { s with position := p }.Over text :=
  ⟨reads.held, holds.grow rfl (Nat.le_refl _),
    fun q member => (reads.marks q member).grow rfl (Nat.le_refl _)⟩

/-- A stream at the beginning of a source reads its normalized text. -/
theorem over_ofSource (source : Source) : (ofSource source).Over (Newline.normalize source.chars) where
  held := by simp [ofSource]
  position := ⟨Nat.le_refl 0, Nat.zero_le _, by simp [ofSource, Position.after, Position.origin]⟩
  marks := by simp [ofSource]

/-- `s'` is `s` after a look at the text that ended at the offset `stop`. -/
structure Moved (text : List Char) (s s' : Stream) (stop : Nat) : Prop where
  reads : s'.Over text
  marks : s'.marks = s.marks
  position : s'.position = .after text stop
  within : stop ≤ text.length
  keeps : ∀ {p : Position}, s.Holds text p → s'.Holds text p

theorem Moved.offset {text : List Char} {s s' : Stream} {stop : Nat} (moved : Moved text s s' stop) :
    s'.position.offset = stop := by
  rw [moved.position, Position.offset_after_of_le moved.within]

theorem Moved.trans {text : List Char} {s s' s'' : Stream} {middle stop : Nat}
    (first : Moved text s s' middle) (second : Moved text s' s'' stop) : Moved text s s'' stop :=
  ⟨second.reads, second.marks.trans first.marks, second.position, second.within,
    fun holds => second.keeps (first.keeps holds)⟩

variable {s : Stream} {text : List Char}

theorem Over.moved (reads : s.Over text) : Moved text s s s.position.offset :=
  ⟨reads, rfl, reads.position.eq_after, reads.position.offset_le, id⟩

/-- What is not in the buffer yet. -/
theorem Over.ahead_eq (reads : s.Over text) :
    Newline.ahead s.afterReturn s.source = text.drop (s.base + s.buffer.size) := by
  have := congrArg (List.drop s.buffer.size) reads.held
  rw [List.drop_drop] at this
  simpa using this.symm

section Looking

/-- Fetching changes what is in the buffer and not where the stream is. -/
theorem fetch_frame (s : Stream) : s.fetch.2.base = s.base ∧ s.fetch.2.position = s.position ∧
    s.fetch.2.marks = s.marks := by
  unfold fetch
  split
  · exact ⟨rfl, rfl, rfl⟩
  · split <;> exact ⟨rfl, rfl, rfl⟩

/-- What fetching leaves alone, filling leaves alone. -/
theorem view_fill {α : Type} {view : Stream → α} (kept : ∀ s : Stream, view s.fetch.2 = view s) (s : Stream)
    (count : Nat) : view (s.fill count) = view s := by
  induction count generalizing s with
  | zero => rfl
  | succ count ih =>
    have fetched := kept s
    rw [fill]
    split
    · next next same => rw [ih, ← fetched, same]
    · next next same => rw [← fetched, same]

private theorem marks_fill (s : Stream) (count : Nat) : (s.fill count).marks = s.marks :=
  view_fill (fun s => (fetch_frame s).2.2) s count

@[simp] theorem marks_peek (s : Stream) : s.peek.2.marks = s.marks := marks_fill s _

private theorem position_fill (s : Stream) (count : Nat) : (s.fill count).position = s.position :=
  view_fill (fun s => (fetch_frame s).2.1) s count

@[simp] theorem position_peek (s : Stream) : s.peek.2.position = s.position := position_fill s _

theorem read_eq (s : Stream) :
    s.read = (s.peek.1, { s.peek.2 with
      position := s.peek.1.elim s.peek.2.position s.peek.2.position.next }) := by
  unfold Stream.read
  rcases s.peek with ⟨_ | c, s'⟩ <;> rfl

@[simp] theorem marks_read (s : Stream) : s.read.2.marks = s.marks := by
  rw [read_eq]
  exact marks_peek s

theorem position_read_of_none {s : Stream} (ended : s.read.1 = none) :
    s.read.2.position = s.position := by
  rw [read_eq] at ended ⊢
  have ended : s.peek.1 = none := ended
  simp only [ended, Option.elim_none, position_peek]

theorem offset_le_read (s : Stream) : s.position.offset ≤ s.read.2.position.offset := by
  rw [read_eq]
  cases s.peek.1 with
  | none => simp
  | some c => simp

private theorem take_succ (s : Stream) (count : Nat) :
    (s.take (count + 1)).2 = s.read.1.elim s.read.2 fun _ => (s.read.2.take count).2 := by
  rw [Stream.take]
  rcases s.read with ⟨_ | c, s'⟩ <;> rfl

@[simp] theorem marks_skip (s : Stream) (count : Nat) : (s.skip count).2.marks = s.marks := by
  change (s.take count).2.marks = s.marks
  induction count generalizing s with
  | zero => rfl
  | succ count ih =>
    rw [take_succ]
    cases s.read.1 with
    | none => exact marks_read s
    | some c => exact (ih s.read.2).trans (marks_read s)

theorem offset_le_skip (s : Stream) (count : Nat) : s.position.offset ≤ (s.skip count).2.position.offset := by
  change _ ≤ (s.take count).2.position.offset
  induction count generalizing s with
  | zero => exact Nat.le_refl _
  | succ count ih =>
    rw [take_succ]
    cases s.read.1 with
    | none => exact offset_le_read s
    | some c => exact Nat.le_trans (offset_le_read s) (ih s.read.2)

private theorem accept_go_cons (same : Char → Char → Bool) (start : Position) (d : Char)
    (expected : List Char) (s : Stream) :
    accept.go same start (d :: expected) s =
      s.read.1.elim (false, { s.read.2 with position := start }) fun c =>
        if same c d then accept.go same start expected s.read.2
        else (false, { s.read.2 with position := start }) := by
  rw [accept.go]
  rcases s.read with ⟨_ | c, s'⟩ <;> rfl

@[simp] theorem marks_accept (s : Stream) (same : Char → Char → Bool) (expected : List Char) :
    (s.accept same expected).2.marks = s.marks := by
  unfold accept
  generalize s.position = start
  induction expected generalizing s with
  | nil => rfl
  | cons d expected ih =>
    rw [accept_go_cons]
    cases s.read.1 with
    | none => exact marks_read s
    | some c =>
      simp only [Option.elim_some]
      split
      · exact (ih s.read.2).trans (marks_read s)
      · exact marks_read s

/-- Reading on from behind `start`, a stream ends there or further on; at a difference it is back. -/
private theorem position_accept_go (s : Stream) (same : Char → Char → Bool) (start : Position)
    (expected : List Char) (ahead : start.offset ≤ s.position.offset) :
    start.offset ≤ (accept.go same start expected s).2.position.offset ∧
      ((accept.go same start expected s).1 = false → (accept.go same start expected s).2.position = start) := by
  induction expected generalizing s with
  | nil => exact ⟨ahead, nofun⟩
  | cons d expected ih =>
    rw [accept_go_cons]
    cases s.read.1 with
    | none => exact ⟨Nat.le_refl _, fun _ => rfl⟩
    | some c =>
      simp only [Option.elim_some]
      split
      · exact ih s.read.2 (Nat.le_trans ahead (offset_le_read s))
      · exact ⟨Nat.le_refl _, fun _ => rfl⟩

theorem position_accept (s : Stream) (same : Char → Char → Bool) (expected : List Char) :
    s.position.offset ≤ (s.accept same expected).2.position.offset ∧
      ((s.accept same expected).1 = false → (s.accept same expected).2.position = s.position) :=
  position_accept_go s same s.position expected (Nat.le_refl _)

theorem fetch_buffer (reads : s.Over text) :
    s.fetch.2.buffer.toList ++ Newline.ahead s.fetch.2.afterReturn s.fetch.2.source =
        s.buffer.toList ++ Newline.ahead s.afterReturn s.source ∧
      s.fetch.2.buffer.size = s.buffer.size + s.fetch.1.toNat ∧
      (s.fetch.1 = false → text.length ≤ s.base + s.buffer.size) := by
  have rest := Newline.ahead_of_next s.afterReturn s.source
  unfold fetch
  cases here : Newline.next s.afterReturn s.source with
  | some found =>
    obtain ⟨c, afterReturn, source⟩ := found
    simp only [here] at rest
    simp [rest]
  | none =>
    simp only [here] at rest
    have ended : text.length ≤ s.base + s.buffer.size := by
      have := congrArg List.length reads.ahead_eq
      simp only [rest, List.length_nil, List.length_drop] at this
      omega
    have empty : Newline.ahead s.afterReturn [] = [] := by cases s.afterReturn <;> rfl
    cases s.failure <;> simp [empty, rest, ended]

theorem Over.fetch (reads : s.Over text) : s.fetch.2.Over text := by
  obtain ⟨base, position, marks⟩ := fetch_frame s
  obtain ⟨buffer, size, -⟩ := fetch_buffer reads
  have grown : s.buffer.size ≤ s.fetch.2.buffer.size := by omega
  exact
    { held := by rw [base, buffer, reads.held]
      position := position ▸ reads.position.grow base grown
      marks := fun p member => (reads.marks p (marks ▸ member)).grow base grown }

/-- After filling, the buffer reaches `count` characters further or to the end of the text. -/
private theorem fill_spec (count : Nat) (reads : s.Over text) :
    (s.fill count).Over text ∧ (s.fill count).base = s.base ∧
      (s.fill count).position = s.position ∧ (s.fill count).marks = s.marks ∧
      s.buffer.size ≤ (s.fill count).buffer.size ∧
      min (s.base + s.buffer.size + count) text.length ≤
        (s.fill count).base + (s.fill count).buffer.size := by
  induction count generalizing s with
  | zero => exact ⟨reads, rfl, rfl, rfl, Nat.le_refl _, by simp only [fill]; omega⟩
  | succ count ih =>
    obtain ⟨base, position, marks⟩ := fetch_frame s
    obtain ⟨-, size, ended⟩ := fetch_buffer reads
    have fetched := reads.fetch
    unfold fill
    generalize s.fetch = result at *
    obtain ⟨more, next⟩ := result
    cases more with
    | true =>
      obtain ⟨filled, base', position', marks', grown, reached⟩ := ih fetched
      simp only [Bool.toNat_true] at size
      refine ⟨filled, base'.trans base, position'.trans position, marks'.trans marks, ?_, ?_⟩ <;>
        dsimp only at base size grown reached ⊢ <;> omega
    | false =>
      have := ended rfl
      simp only [Bool.toNat_false] at size
      refine ⟨fetched, base, position, marks, ?_, ?_⟩ <;> dsimp only at base size ⊢ <;> omega

/-- Characters in the buffer are those of the text. -/
private theorem getElem?_buffer (reads : s.Over text) {i : Nat} (fetched : i < s.buffer.size) :
    s.buffer[i]? = text[s.base + i]? := by
  have := congrArg (·[i]?) reads.held
  simp only [List.getElem?_drop] at this
  rw [this, List.getElem?_append_left (by simpa using fetched), Array.getElem?_toList]

theorem Over.peekNth (reads : s.Over text) (n : Nat) :
    (s.peekNth n).1 = text[s.position.offset + n]? ∧
      Moved text s (s.peekNth n).2 s.position.offset := by
  obtain ⟨filled, base, position, marks, grown, reached⟩ :=
    fill_spec (s.index + n + 1 - s.buffer.size) reads
  refine ⟨?_, filled, marks, position.trans reads.position.eq_after, reads.position.offset_le,
    fun holds => holds.grow base grown⟩
  simp only [Stream.peekNth]
  have here : s.base + (s.index + n) = s.position.offset + n := by
    have := reads.position.base_le
    simp only [index]
    omega
  generalize s.fill (s.index + n + 1 - s.buffer.size) = s' at *
  by_cases fetched : s.index + n < s'.buffer.size
  · rw [getElem?_buffer filled fetched, base, here]
  · rw [Array.getElem?_eq_none (by omega), List.getElem?_eq_none (by omega)]

theorem Over.peek (reads : s.Over text) :
    s.peek.1 = text[s.position.offset]? ∧ Moved text s s.peek.2 s.position.offset :=
  reads.peekNth 0

/-- Reading past a character of the text. -/
theorem Over.read_some {c : Char} (reads : s.Over text) (found : text[s.position.offset]? = some c) :
    s.read.1 = some c ∧ Moved text s s.read.2 (s.position.offset + 1) := by
  obtain ⟨seen, moved⟩ := reads.peek
  have within := (List.getElem?_eq_some_iff.mp found).1
  have fetched : s.position.offset + 1 ≤ s.peek.2.base + s.peek.2.buffer.size := by
    obtain ⟨-, -, -, -, -, reached⟩ := fill_spec (s.index + 0 + 1 - s.buffer.size) reads
    have := reads.position.base_le
    have := reads.position.le_fetched
    simp only [Stream.peek, Stream.peekNth, index] at reached ⊢
    omega
  have offset : (Position.after text (s.position.offset + 1)).offset = s.position.offset + 1 :=
    Position.offset_after_of_le within
  have based : s.peek.2.base ≤ s.position.offset := moved.offset ▸ moved.reads.position.base_le
  have held : s.peek.2.Holds text (.after text (s.position.offset + 1)) :=
    ⟨by omega, by omega, by rw [offset]⟩
  rw [read_eq, seen, found]
  refine ⟨rfl, ?_⟩
  simp only [Option.elim_some, moved.position, Position.next_after found]
  exact ⟨moved.reads.goTo held, moved.marks, rfl, within,
    fun holds => (moved.keeps holds).grow rfl (Nat.le_refl _)⟩

/-- Reading at the end of the text. -/
theorem Over.read_none (reads : s.Over text) (ended : text[s.position.offset]? = none) :
    s.read.1 = none ∧ Moved text s s.read.2 s.position.offset := by
  obtain ⟨seen, moved⟩ := reads.peek
  rw [read_eq, seen, ended]
  exact ⟨rfl, moved⟩

theorem Over.take (reads : s.Over text) (count : Nat) :
    Moved text s (s.take count).2 (min (s.position.offset + count) text.length) := by
  induction count generalizing s with
  | zero =>
    rw [Nat.add_zero, Nat.min_eq_left reads.position.offset_le]
    exact reads.moved
  | succ count ih =>
    cases found : text[s.position.offset]? with
    | none =>
      obtain ⟨answer, moved⟩ := reads.read_none found
      have here : min (s.position.offset + (count + 1)) text.length = s.position.offset := by
        have := List.getElem?_eq_none_iff.mp found
        have := reads.position.offset_le
        omega
      rw [take_succ, answer, here]
      exact moved
    | some c =>
      obtain ⟨answer, moved⟩ := reads.read_some found
      have rest := ih moved.reads
      rw [moved.offset] at rest
      rw [take_succ, answer, show s.position.offset + (count + 1) = s.position.offset + 1 + count by omega]
      exact moved.trans rest

theorem Over.skip (reads : s.Over text) {count : Nat}
    (within : s.position.offset + count ≤ text.length) :
    Moved text s (s.skip count).2 (s.position.offset + count) := by
  have moved := reads.take count
  rw [Nat.min_eq_left within] at moved
  exact moved

end Looking

section Marks

theorem Over.mark (reads : s.Over text) : s.mark.Over text where
  held := reads.held
  position := reads.position.grow rfl (Nat.le_refl _)
  marks := by
    intro p member
    rcases List.mem_cons.mp member with rfl | member
    · exact reads.position.grow rfl (Nat.le_refl _)
    · exact (reads.marks p member).grow rfl (Nat.le_refl _)

theorem Over.release {s' : Stream} (reads : s.Over text) (released : s.release = .ok s') :
    s'.Over text := by
  unfold Stream.release at released
  split at released
  · cases released
  · next position marks outstanding =>
    cases released
    exact ⟨reads.held, reads.position.grow rfl (Nat.le_refl _), fun p member =>
      (reads.marks p (by rw [outstanding]; exact List.mem_cons_of_mem _ member)).grow rfl
        (Nat.le_refl _)⟩

theorem Over.reset {s' : Stream} (reads : s.Over text) (reset : s.reset = .ok s') :
    s'.Over text := by
  unfold Stream.reset at reset
  split at reset
  · cases reset
  · next position marks outstanding =>
    cases reset
    have places {p : Position} (member : p ∈ position :: marks) : s.Holds text p :=
      reads.marks p (outstanding ▸ member)
    exact ⟨reads.held, (places (List.mem_cons_self ..)).grow rfl (Nat.le_refl _), fun p member =>
      (places (List.mem_cons_of_mem _ member)).grow rfl (Nat.le_refl _)⟩

/-- The characters under the innermost mark are those of the text. -/
theorem Over.chars (reads : s.Over text) (based : s.base ≤ s.start.offset) :
    s.chars = (text.take s.position.offset).drop s.start.offset := by
  have fetched := reads.position.le_fetched
  have ahead := reads.position.base_le
  have slice : (text.take s.position.offset).drop s.start.offset =
      ((text.drop s.base).take s.index).drop (s.start.offset - s.base) := by
    rw [List.drop_take, List.drop_take, List.drop_drop, index,
      show s.base + (s.start.offset - s.base) = s.start.offset by omega,
      show s.position.offset - s.base - (s.start.offset - s.base) = s.position.offset - s.start.offset by omega]
  rw [slice, reads.held, List.take_append_of_le_length (by simp [index]; omega)]
  simp [Stream.chars, List.drop_take]

/-- An action is told the text since the innermost mark. -/
theorem Over.context {start : Nat} {marks : List Position} (reads : s.Over text)
    (outstanding : s.marks = .after text start :: marks) (within : start ≤ text.length) :
    s.context = .between text start s.position.offset := by
  have mark := reads.marks (.after text start) (by rw [outstanding]; exact List.mem_cons_self ..)
  have begins : s.start = .after text start := by simp [Stream.start, outstanding]
  have chars := reads.chars (begins ▸ mark.base_le)
  rw [begins, Position.offset_after_of_le within] at chars
  simp only [Stream.context, Context.between, Stream.span, begins, chars, ← reads.position.eq_after]

theorem Over.reach (reads : s.Over text) : text.length - s.position.offset ≤ s.reach := by
  have rest := congrArg List.length reads.ahead_eq
  have bound := Newline.length_ahead_le s.afterReturn s.source
  have := reads.position.base_le
  have := reads.position.le_fetched
  simp only [List.length_drop] at rest
  simp only [Stream.reach, index]
  omega

end Marks

end Stream

namespace Terminal

/-- The text begins with `expected`, comparing characters by `same`. -/
def beginsWith (same : Char → Char → Bool) : (ahead expected : List Char) → Bool
  | _, [] => true
  | [], _ :: _ => false
  | c :: ahead, d :: expected => same c d && beginsWith same ahead expected

/-- How many characters of the text ahead the terminal matches. -/
def matchLength? (ahead : List Char) : Terminal → Option Nat
  | nil => some 0
  | any => if ahead.isEmpty then none else some 1
  | token image caseSensitive =>
    if beginsWith (sameChar caseSensitive) ahead image.toList then some image.length else none
  | interval bounds => if ahead.head?.any bounds.contains then some 1 else none
  | set members => if ahead.head?.any members.contains then some 1 else none
  | charClass named => if ahead.head?.any named.contains then some 1 else none

private theorem length_le_of_beginsWith {same : Char → Char → Bool} {ahead expected : List Char}
    (begins : beginsWith same ahead expected = true) : expected.length ≤ ahead.length := by
  fun_induction beginsWith same ahead expected with
  | case1 => exact Nat.zero_le _
  | case2 => cases begins
  | case3 c ahead d expected ih =>
    simp only [Bool.and_eq_true] at begins
    exact Nat.succ_le_succ (ih begins.2)

theorem matchLength?_le {ahead : List Char} {t : Terminal} {n : Nat}
    (found : t.matchLength? ahead = some n) : n ≤ ahead.length := by
  have one {p : Char → Bool} (found : (if ahead.head?.any p then some 1 else none) = some n) :
      n ≤ ahead.length := by
    cases ahead with
    | nil => cases found
    | cons c ahead => split at found <;> cases found; exact Nat.le_add_left _ _
  cases t with
  | nil => cases found; exact Nat.zero_le _
  | any =>
    cases ahead with
    | nil => cases found
    | cons c ahead => cases found; exact Nat.le_add_left _ _
  | token image caseSensitive =>
    simp only [matchLength?] at found
    split at found
    · next begins =>
      cases found
      rw [← String.length_toList]
      exact length_le_of_beginsWith begins
    · cases found
  | interval bounds => exact one found
  | set members => exact one found
  | charClass named => exact one found

/-- Where the terminal leaves a stream that is at `offset`. -/
def stopAfter (text : List Char) (offset : Nat) (t : Terminal) : Nat :=
  offset + (t.matchLength? (text.drop offset)).getD 0

variable {s : Stream} {text : List Char}

private theorem drop_eq_cons {o : Nat} {c : Char} (found : text[o]? = some c) :
    text.drop o = c :: text.drop (o + 1) := by
  obtain ⟨bound, rfl⟩ := List.getElem?_eq_some_iff.mp found
  exact List.drop_eq_getElem_cons bound

private theorem accept_go (same : Char → Char → Bool) (start : Position) (expected : List Char)
    (reads : s.Over text) (holds : s.Holds text start) :
    (Stream.accept.go same start expected s).1 =
        beginsWith same (text.drop s.position.offset) expected ∧
      Stream.Moved text s (Stream.accept.go same start expected s).2
        (if beginsWith same (text.drop s.position.offset) expected then
          s.position.offset + expected.length else start.offset) := by
  induction expected generalizing s with
  | nil => simpa [Stream.accept.go, beginsWith] using reads.moved
  | cons d expected ih =>
    have back {s' : Stream} {stop : Nat} (moved : Stream.Moved text s s' stop) :
        Stream.Moved text s { s' with position := start } start.offset :=
      ⟨moved.reads.goTo (moved.keeps holds), moved.marks, holds.eq_after, holds.offset_le,
        fun other => (moved.keeps other).grow rfl (Nat.le_refl _)⟩
    cases found : text[s.position.offset]? with
    | none =>
      obtain ⟨answer, moved⟩ := reads.read_none found
      have ended : text.drop s.position.offset = [] :=
        List.drop_eq_nil_of_le (List.getElem?_eq_none_iff.mp found)
      rw [Stream.accept_go_cons, answer, ended]
      exact ⟨rfl, back moved⟩
    | some c =>
      obtain ⟨answer, moved⟩ := reads.read_some found
      rw [Stream.accept_go_cons, answer, drop_eq_cons found]
      by_cases agree : same c d
      · obtain ⟨matched, rest⟩ := ih moved.reads (moved.keeps holds)
        rw [moved.offset] at matched rest
        simp only [Option.elim_some, beginsWith, agree, ↓reduceIte, Bool.true_and, List.length_cons]
        rw [show s.position.offset + (expected.length + 1) =
          s.position.offset + 1 + expected.length by omega]
        exact ⟨matched, moved.trans rest⟩
      · simpa [beginsWith, agree] using back moved

private theorem readIf_spec (reads : s.Over text) (p : Char → Bool) :
    (readIf s p).1 = (text.drop s.position.offset).head?.any p ∧
      Stream.Moved text s (readIf s p).2
        (s.position.offset + if (text.drop s.position.offset).head?.any p then 1 else 0) := by
  obtain ⟨seen, moved⟩ := reads.peek
  rw [List.head?_drop]
  have unfolded : readIf s p =
      if s.peek.1.any p then (true, s.peek.2.read.2) else (false, s.peek.2) := by
    unfold readIf
    rcases s.peek with ⟨_ | c, s'⟩ <;> simp
  rw [unfolded, seen]
  cases found : text[s.position.offset]? with
  | none => exact ⟨rfl, moved⟩
  | some c =>
    by_cases accepted : p c
    · have read := moved.reads.read_some (c := c) (by rw [moved.offset]; exact found)
      rw [moved.offset] at read
      simpa [accepted] using moved.trans read.2
    · simpa [accepted] using moved

@[simp] theorem marks_recognize (t : Terminal) (s : Stream) :
    (t.recognize s).2.marks = s.marks := by
  have readIf (p : Char → Bool) : (readIf s p).2.marks = s.marks := by
    have seen := Stream.marks_peek s
    unfold Terminal.readIf
    split
    · next c s' same =>
      rw [same] at seen
      split
      · exact (Stream.marks_read s').trans seen
      · exact seen
    · next s' same => rw [← seen, same]
  cases t <;> simp [recognize, readIf]

/-- A terminal never goes back, and one that fails leaves the position as it was. -/
theorem position_recognize (t : Terminal) (s : Stream) :
    s.position.offset ≤ (t.recognize s).2.position.offset ∧
      ((t.recognize s).1 = false → (t.recognize s).2.position = s.position) := by
  have readIf (p : Char → Bool) : s.position.offset ≤ (readIf s p).2.position.offset ∧
      ((readIf s p).1 = false → (readIf s p).2.position = s.position) := by
    have seen := Stream.position_peek s
    unfold Terminal.readIf
    split
    · next c s' same =>
      rw [same] at seen
      split
      · exact ⟨seen ▸ Stream.offset_le_read s', nofun⟩
      · exact ⟨Nat.le_of_eq (congrArg _ seen.symm), fun _ => seen⟩
    · next s' same =>
      rw [same] at seen
      exact ⟨Nat.le_of_eq (congrArg _ seen.symm), fun _ => seen⟩
  cases t with
  | nil => exact ⟨Nat.le_refl _, nofun⟩
  | any =>
    refine ⟨Stream.offset_le_read s, fun failed => Stream.position_read_of_none ?_⟩
    simpa [recognize] using failed
  | token image caseSensitive => exact Stream.position_accept s _ _
  | interval bounds => exact readIf _
  | set members => exact readIf _
  | charClass named => exact readIf _

/-- What a terminal does to a stream depends on the text ahead only. -/
theorem recognize_spec (t : Terminal) (reads : s.Over text) :
    (t.recognize s).1 = (t.matchLength? (text.drop s.position.offset)).isSome ∧
      Stream.Moved text s (t.recognize s).2 (t.stopAfter text s.position.offset) := by
  have readIf (p : Char → Bool) (t : Terminal)
      (meaning : ∀ ahead, t.matchLength? ahead = if ahead.head?.any p then some 1 else none)
      (runs : t.recognize s = Terminal.readIf s p) :
      (t.recognize s).1 = (t.matchLength? (text.drop s.position.offset)).isSome ∧
        Stream.Moved text s (t.recognize s).2 (t.stopAfter text s.position.offset) := by
    have spec := readIf_spec reads p
    rw [runs, stopAfter, meaning]
    split at spec <;> simp_all
  cases t with
  | nil => exact ⟨rfl, reads.moved⟩
  | any =>
    cases found : text[s.position.offset]? with
    | none =>
      obtain ⟨answer, moved⟩ := reads.read_none found
      have ended : text.drop s.position.offset = [] :=
        List.drop_eq_nil_of_le (List.getElem?_eq_none_iff.mp found)
      simpa [recognize, stopAfter, matchLength?, ended, answer] using moved
    | some c =>
      obtain ⟨answer, moved⟩ := reads.read_some found
      simpa [recognize, stopAfter, matchLength?, drop_eq_cons found, answer] using moved
  | token image caseSensitive =>
    obtain ⟨matched, moved⟩ :=
      accept_go (sameChar caseSensitive) s.position image.toList reads reads.position
    simp only [recognize, Stream.accept, stopAfter, matchLength?]
    rw [String.length_toList] at moved
    rw [matched]
    split at moved <;> simp_all
  | interval bounds => exact readIf bounds.contains _ (fun _ => rfl) rfl
  | set members => exact readIf members.contains _ (fun _ => rfl) rfl
  | charClass named => exact readIf named.contains _ (fun _ => rfl) rfl

end Terminal

end Packrat

import Packrat.Proofs.Text.Reading
import Packrat.Text.Operation

/-! # A stream is a cursor in a text

A cursor holds the whole text, a place in it, the places it may go back to, and the place where the matched text
starts. A stream holds little of the text at a time, and forgets parts of it on the way. `Follows` relates the
two; every operation keeps it and is answered alike. So no sequence of operations tells them apart, and what a
stream forgets is never asked for again.
-/

namespace Packrat

/-- A place in a text, with places to go back to. -/
structure TextCursor where
  text : List Char
  offset : Nat
  /-- Offsets of the outstanding marks, the innermost first. -/
  saved : List Nat
  /-- Where the matched text starts while no mark is outstanding. -/
  origin : Nat
deriving DecidableEq, Repr

namespace TextCursor

/-- At the beginning of a text. -/
def ofText (text : List Char) : TextCursor := ⟨text, 0, [], 0⟩

/-- The text in front of the cursor. -/
def ahead (p : TextCursor) : List Char := p.text.drop p.offset

/-- Where the matched text starts. -/
def start (p : TextCursor) : Nat := p.saved.headD p.origin

def forward (p : TextCursor) (count : Nat) : TextCursor := { p with offset := p.offset + count }

/-- The text from the innermost mark to the cursor. -/
def chars (p : TextCursor) : List Char := (p.text.take p.offset).drop p.start

/-- How far a cursor can forget: up to the outermost mark, or up to its place without marks. -/
def floor (p : TextCursor) : Nat := p.saved.getLastD p.offset

/-- Does an operation, and answers it. -/
def perform (operation : Operation) (p : TextCursor) : Except MarkError (Answer × TextCursor) :=
  match operation with
  | .peek => .ok (.char p.ahead.head?, p)
  | .peekNth n => .ok (.char p.ahead[n]?, p)
  | .read => .ok (.char p.ahead.head?, p.forward (p.ahead.take 1).length)
  | .readInto buffer =>
    let found := p.ahead.take buffer.length
    .ok (.filled found.length (found ++ buffer.drop found.length), p.forward found.length)
  | .readLine =>
    let line := p.ahead.takeWhile (· ≠ '\n')
    .ok (.line (if p.ahead = [] then none else some line), p.forward (p.ahead.take (line.length + 1)).length)
  | .skip count => .ok (.count (p.ahead.take count).length, p.forward (p.ahead.take count).length)
  | .consumePrefix text caseSensitive =>
    if Terminal.beginsWith (Terminal.sameChar caseSensitive) p.ahead text.toList then
      .ok (.flag true, p.forward text.length)
    else .ok (.flag false, p)
  | .atEnd => .ok (.flag p.ahead.isEmpty, p)
  | .mark => .ok (.nothing, { p with saved := p.offset :: p.saved })
  | .release =>
    match p.saved with
    | [] => .error .release
    | _ :: saved => .ok (.nothing, { p with saved })
  | .reset =>
    match p.saved with
    | [] => .error .reset
    | offset :: saved => .ok (.nothing, { p with offset, saved })
  | .consume | .flush => .ok (.nothing, { p with origin := p.floor })
  | .start => .ok (.place (.after p.text p.start), p)
  | .stop => .ok (.place (.after p.text p.offset), p)
  | .span => .ok (.span ⟨.after p.text p.start, .after p.text p.offset⟩, p)
  | .length => .ok (.count (p.offset - p.start), p)
  | .chars => .ok (.chars p.chars, p)
  | .text => .ok (.text (String.ofList p.chars), p)
  | .snippet count => .ok (.chars ((p.ahead.take count).takeWhile (· ≠ '\n')), p)

end TextCursor

namespace Stream

variable {s s' s'' : Stream} {text : List Char} {middle stop : Nat}

/-- `s'` is `s` after a look at the text that ended at `stop`, with nothing forgotten. -/
structure Scanned (text : List Char) (s s' : Stream) (stop : Nat) : Prop extends Moved text s s' stop where
  base : s'.base = s.base
  origin : s'.origin = s.origin

theorem Over.scanned (reads : s.Over text) : Scanned text s s s.position.offset := ⟨reads.moved, rfl, rfl⟩

theorem Scanned.trans (first : Scanned text s s' middle) (second : Scanned text s' s'' stop) :
    Scanned text s s'' stop :=
  ⟨first.toMoved.trans second.toMoved, second.base.trans first.base, second.origin.trans first.origin⟩

private theorem origin_fetch (s : Stream) : s.fetch.2.origin = s.origin := by
  unfold fetch
  split
  · rfl
  · split <;> rfl

private theorem fill_keeps (s : Stream) (count : Nat) :
    (s.fill count).base = s.base ∧ (s.fill count).origin = s.origin :=
  ⟨view_fill (fun s => (fetch_frame s).1) s count, view_fill origin_fetch s count⟩

theorem Over.scan_peekNth (reads : s.Over text) (n : Nat) :
    (s.peekNth n).1 = text[s.position.offset + n]? ∧ Scanned text s (s.peekNth n).2 s.position.offset := by
  obtain ⟨found, moved⟩ := reads.peekNth n
  obtain ⟨base, origin⟩ := fill_keeps s (s.index + n + 1 - s.buffer.size)
  exact ⟨found, moved, base, origin⟩

/-- Reading ends at the end of the text, or moves over the next character. -/
theorem Over.read_cases (reads : s.Over text) :
    (text.drop s.position.offset = [] ∧ ∃ s', s.read = (none, s') ∧ Scanned text s s' s.position.offset) ∨
    ∃ c rest s', text.drop s.position.offset = c :: rest ∧ s.read = (some c, s') ∧
      Scanned text s s' (s.position.offset + 1) ∧ text.drop s'.position.offset = rest := by
  have kept : s.read.2.base = s.base ∧ s.read.2.origin = s.origin := by
    rw [read_eq]
    exact fill_keeps s _
  cases found : text[s.position.offset]? with
  | none =>
    obtain ⟨answer, moved⟩ := reads.read_none found
    refine .inl ⟨List.drop_eq_nil_of_le (List.getElem?_eq_none_iff.mp found), s.read.2, ?_, moved, kept.1, kept.2⟩
    rw [← answer]
  | some c =>
    obtain ⟨within, rfl⟩ := List.getElem?_eq_some_iff.mp found
    obtain ⟨answer, moved⟩ := reads.read_some found
    refine .inr ⟨_, _, s.read.2, List.drop_eq_getElem_cons within, ?_, ⟨moved, kept.1, kept.2⟩, ?_⟩
    · rw [← answer]
    · rw [moved.offset]

theorem Over.scan_read (reads : s.Over text) :
    s.read.1 = (text.drop s.position.offset).head? ∧
      Scanned text s s.read.2 (s.position.offset + ((text.drop s.position.offset).take 1).length) := by
  rcases reads.read_cases with ⟨ended, s', read, scanned⟩ | ⟨c, rest, s', ahead, read, scanned, -⟩
  · rw [read, ended]
    exact ⟨rfl, scanned⟩
  · rw [read, ahead]
    exact ⟨rfl, scanned⟩

theorem Over.scan_take (reads : s.Over text) (count : Nat) :
    (s.take count).1 = (text.drop s.position.offset).take count ∧
      Scanned text s (s.take count).2
        (s.position.offset + ((text.drop s.position.offset).take count).length) := by
  induction count generalizing s with
  | zero => exact ⟨rfl, reads.scanned⟩
  | succ count ih =>
    rcases reads.read_cases with ⟨ended, s', read, scanned⟩ | ⟨c, rest, s', ahead, read, scanned, behind⟩
    · simp only [Stream.take, read, ended]
      exact ⟨rfl, scanned⟩
    · obtain ⟨found, more⟩ := ih scanned.reads
      rw [behind] at found more
      rw [scanned.offset] at more
      simp only [Stream.take, read, ahead, found, List.take_succ_cons, List.length_cons, true_and]
      rw [Nat.add_comm (rest.take count).length, ← Nat.add_assoc]
      exact scanned.trans more

/-- Where reading a line ends. -/
def lineStop (ahead : List Char) : Nat := (ahead.take ((ahead.takeWhile (· ≠ '\n')).length + 1)).length

private theorem lineStop_cons {c : Char} (inside : c ≠ '\n') (rest : List Char) :
    lineStop (c :: rest) = 1 + lineStop rest := by
  simp [lineStop, inside]
  omega

/-- Reading to the end of the line, with enough steps for the rest of the text. -/
private theorem Over.scan_readLine_go (reads : s.Over text) {limit : Nat}
    (enough : (text.drop s.position.offset).length < limit) :
    (readLine.go limit s).1 = (if text.drop s.position.offset = [] then none
        else some ((text.drop s.position.offset).takeWhile (· ≠ '\n'))) ∧
      Scanned text s (readLine.go limit s).2 (s.position.offset + lineStop (text.drop s.position.offset)) := by
  induction limit generalizing s with
  | zero => omega
  | succ limit ih =>
    rcases reads.read_cases with ⟨ended, s', read, scanned⟩ | ⟨c, rest, s', ahead, read, scanned, behind⟩
    · simp only [readLine.go, read, ended]
      exact ⟨rfl, scanned⟩
    · simp only [readLine.go, read, ahead]
      by_cases newline : c = '\n'
      · simpa [newline, lineStop] using scanned
      · obtain ⟨found, more⟩ := ih scanned.reads (by
          rw [behind]
          rw [ahead] at enough
          exact Nat.lt_of_succ_lt_succ enough)
        rw [behind] at found more
        rw [scanned.offset] at more
        simp only [newline, ↓reduceIte, found, reduceCtorEq, lineStop_cons newline]
        rw [← Nat.add_assoc]
        refine ⟨?_, scanned.trans more⟩
        by_cases ended : rest = [] <;> simp [ended, newline]

theorem Over.scan_readLine (reads : s.Over text) :
    s.readLine.1 = (if text.drop s.position.offset = [] then none
        else some ((text.drop s.position.offset).takeWhile (· ≠ '\n'))) ∧
      Scanned text s s.readLine.2 (s.position.offset + lineStop (text.drop s.position.offset)) := by
  refine reads.scan_readLine_go ?_
  have := reads.reach
  rw [List.length_drop]
  omega

/-- Looking ahead from the character `n` places ahead on. -/
private theorem Over.scan_snippet_go (reads : s.Over text) (count n : Nat) :
    (snippet.go count n s).1 = ((text.drop (s.position.offset + n)).take count).takeWhile (· ≠ '\n') ∧
      Scanned text s (snippet.go count n s).2 s.position.offset := by
  induction count generalizing s n with
  | zero => exact ⟨rfl, reads.scanned⟩
  | succ count ih =>
    obtain ⟨answer, scanned⟩ := reads.scan_peekNth n
    rcases look : s.peekNth n with ⟨found, s'⟩
    rw [look] at answer scanned
    have answer : found = text[s.position.offset + n]? := answer
    rw [snippet.go, look]
    cases found with
    | none =>
      rw [List.drop_eq_nil_of_le (List.getElem?_eq_none_iff.mp answer.symm)]
      exact ⟨rfl, scanned⟩
    | some c =>
      obtain ⟨within, here⟩ := List.getElem?_eq_some_iff.mp answer.symm
      rw [List.drop_eq_getElem_cons within, here]
      by_cases newline : c = '\n'
      · simpa [newline] using scanned
      · obtain ⟨found, more⟩ := ih scanned.reads (n + 1)
        rw [scanned.offset] at found more
        simp only [newline, ↓reduceIte, found]
        refine ⟨?_, scanned.trans more⟩
        simp [newline, Nat.add_assoc]

theorem Over.scan_snippet (reads : s.Over text) (count : Nat) :
    (s.snippet count).1 = ((text.drop s.position.offset).take count).takeWhile (· ≠ '\n') ∧
      Scanned text s (s.snippet count).2 s.position.offset :=
  reads.scan_snippet_go count 0

private theorem accept_keeps (s : Stream) (same : Char → Char → Bool) (start : Position) (expected : List Char) :
    (accept.go same start expected s).2.base = s.base ∧ (accept.go same start expected s).2.origin = s.origin := by
  induction expected generalizing s with
  | nil => exact ⟨rfl, rfl⟩
  | cons d expected ih =>
    have kept : s.read.2.base = s.base ∧ s.read.2.origin = s.origin := by
      rw [read_eq]
      exact fill_keeps s _
    rw [accept.go]
    rcases read : s.read with ⟨_ | c, s'⟩
    · rw [read] at kept
      exact kept
    · rw [read] at kept
      dsimp only
      split
      · exact ⟨(ih s').1.trans kept.1, (ih s').2.trans kept.2⟩
      · exact kept

theorem Over.scan_accept (reads : s.Over text) (caseSensitive : Bool) (image : String) :
    (s.accept (Terminal.sameChar caseSensitive) image.toList).1 =
        Terminal.beginsWith (Terminal.sameChar caseSensitive) (text.drop s.position.offset) image.toList ∧
      Scanned text s (s.accept (Terminal.sameChar caseSensitive) image.toList).2
        (s.position.offset + if Terminal.beginsWith (Terminal.sameChar caseSensitive) (text.drop s.position.offset)
          image.toList then image.length else 0) := by
  obtain ⟨answer, moved⟩ := Terminal.recognize_spec (.token image caseSensitive) reads
  obtain ⟨base, origin⟩ := accept_keeps s (Terminal.sameChar caseSensitive) s.position image.toList
  simp only [Terminal.stopAfter, Terminal.matchLength?] at answer moved
  split at moved <;> next begins =>
    simp only [begins] at answer ⊢
    exact ⟨answer, moved, base, origin⟩

end Stream

namespace Operation

/-- Two systems answer alike and go on related, or fail alike. -/
inductive Alike {σ τ : Type} (related : σ → τ → Prop) :
    Except MarkError (Answer × σ) → Except MarkError (Answer × τ) → Prop
  | answer (answer : Answer) {s : σ} {t : τ} (after : related s t) : Alike related (.ok (answer, s)) (.ok (answer, t))
  | fault (error : MarkError) : Alike related (.error error) (.error error)

theorem runAll_cons_ok {σ : Type} {perform : Operation → σ → Except MarkError (Answer × σ)} {operation : Operation}
    {rest : List Operation} {s s' : σ} {answer : Answer} (step : perform operation s = .ok (answer, s')) :
    runAll perform (operation :: rest) s = (runAll perform rest s').map fun r => (answer :: r.1, r.2) := by
  simp only [runAll, step]
  cases run : runAll perform rest s' <;> simp only [bind, Except.bind, run] <;> rfl

theorem runAll_cons_error {σ : Type} {perform : Operation → σ → Except MarkError (Answer × σ)}
    {operation : Operation} {rest : List Operation} {s : σ} {error : MarkError}
    (step : perform operation s = .error error) : runAll perform (operation :: rest) s = .error error := by
  rw [runAll, step]
  rfl

/-- Systems that answer each operation alike give the same answers to any sequence of them. -/
theorem runAll_alike {σ τ : Type} {related : σ → τ → Prop}
    {first : Operation → σ → Except MarkError (Answer × σ)} {second : Operation → τ → Except MarkError (Answer × τ)}
    (step : ∀ {s t}, related s t → ∀ operation, Alike related (first operation s) (second operation t))
    {s : σ} {t : τ} (before : related s t) (operations : List Operation) :
    (∃ answers s' t', runAll first operations s = .ok (answers, s') ∧
        runAll second operations t = .ok (answers, t') ∧ related s' t') ∨
      ∃ error, runAll first operations s = .error error ∧ runAll second operations t = .error error := by
  induction operations generalizing s t with
  | nil => exact .inl ⟨[], s, t, rfl, rfl, before⟩
  | cons operation rest ih =>
    have alike := step before operation
    generalize left : first operation s = here, right : second operation t = there at alike
    cases alike with
    | fault error => exact .inr ⟨error, runAll_cons_error left, runAll_cons_error right⟩
    | answer answer after =>
      rw [runAll_cons_ok left, runAll_cons_ok right]
      rcases ih after with ⟨answers, s', t', left, right, final⟩ | ⟨error, left, right⟩
      · exact .inl ⟨answer :: answers, s', t', by rw [left]; rfl, by rw [right]; rfl, final⟩
      · exact .inr ⟨error, by rw [left]; rfl, by rw [right]; rfl⟩

end Operation

namespace TextCursor

variable {p : TextCursor} {s : Stream}

/-- The stream is at the place of the cursor, and leads back to the same places. -/
structure Follows (p : TextCursor) (s : Stream) : Prop where
  reads : s.Over p.text
  offset : s.position.offset = p.offset
  saved : s.marks.map Position.offset = p.saved
  base : s.base = p.origin
  origin : s.origin = .after p.text p.origin
  /-- No mark is behind the cursor or behind a mark set later, and the matched text starts at none of them earlier
  than the origin. -/
  ordered : (p.offset :: p.saved ++ [p.origin]).Pairwise (· ≥ ·)

theorem follows_ofSource (source : Source) :
    (ofText (Newline.normalize source.chars)).Follows (.ofSource source) where
  reads := Stream.over_ofSource source
  offset := rfl
  saved := rfl
  base := rfl
  origin := by simp [Stream.ofSource, ofText, Position.after]
  ordered := by simp [ofText]

theorem Follows.ahead_eq (follows : p.Follows s) : p.text.drop s.position.offset = p.ahead := by
  rw [follows.offset]
  rfl

theorem Follows.position_eq (follows : p.Follows s) : s.position = .after p.text p.offset := by
  rw [follows.reads.position.eq_after, follows.offset]

theorem Follows.le_of_mem_saved (follows : p.Follows s) {n : Nat} (member : n ∈ p.saved) :
    p.origin ≤ n ∧ n ≤ p.offset := by
  obtain ⟨first, rest⟩ := List.pairwise_cons.mp follows.ordered
  refine ⟨(List.pairwise_append.mp rest).2.2 n member _ (List.mem_singleton_self _), first n ?_⟩
  exact List.mem_append_left _ member

theorem Follows.origin_le (follows : p.Follows s) : p.origin ≤ p.offset :=
  (List.pairwise_cons.mp follows.ordered).1 _ (List.mem_append_right _ (List.mem_singleton_self _))

theorem Follows.start_bounds (follows : p.Follows s) : p.origin ≤ p.start ∧ p.start ≤ p.offset := by
  cases outstanding : p.saved with
  | nil =>
    rw [start, outstanding]
    exact ⟨Nat.le_refl _, follows.origin_le⟩
  | cons n rest =>
    rw [start, outstanding]
    exact follows.le_of_mem_saved (by simp [outstanding])

theorem Follows.start_eq (follows : p.Follows s) : s.start = .after p.text p.start := by
  unfold Stream.start start
  rw [← follows.saved]
  cases outstanding : s.marks with
  | nil => exact follows.origin
  | cons mark rest => exact (follows.reads.marks mark (outstanding ▸ List.mem_cons_self)).eq_after

theorem Follows.offset_start (follows : p.Follows s) : s.start.offset = p.start := by
  rw [follows.start_eq, Position.offset_after_of_le]
  have := follows.start_bounds
  have := follows.reads.position.offset_le
  have := follows.offset
  omega

theorem Follows.marks_eq (follows : p.Follows s) : s.marks = p.saved.map (.after p.text) := by
  rw [← follows.saved, List.map_map]
  exact (List.map_id' s.marks).symm.trans
    (List.map_congr_left fun place member => (follows.reads.marks place member).eq_after)

theorem Follows.chars_eq (follows : p.Follows s) : s.chars = p.chars := by
  rw [follows.reads.chars, follows.offset_start, follows.offset]
  · rfl
  · rw [follows.base, follows.offset_start]
    exact follows.start_bounds.1

/-- After a look at the text, the cursor has moved as far as the stream. -/
theorem Follows.scanned (follows : p.Follows s) {s' : Stream} {count : Nat}
    (scanned : Stream.Scanned p.text s s' (s.position.offset + count)) : (p.forward count).Follows s' where
  reads := scanned.reads
  offset := by rw [scanned.offset, follows.offset]; rfl
  saved := by rw [scanned.marks, follows.saved]; rfl
  base := scanned.base.trans follows.base
  origin := scanned.origin.trans follows.origin
  ordered := by
    obtain ⟨first, rest⟩ := List.pairwise_cons.mp follows.ordered
    exact List.pairwise_cons.mpr ⟨fun n member => Nat.le_trans (first n member) (Nat.le_add_right _ _), rest⟩

theorem Follows.still (follows : p.Follows s) {s' : Stream} (scanned : Stream.Scanned p.text s s' s.position.offset) :
    p.Follows s' :=
  @Follows.scanned p s follows s' 0 scanned

theorem Follows.peek (follows : p.Follows s) : s.peek.1 = p.ahead.head? ∧ p.Follows s.peek.2 := by
  obtain ⟨found, scanned⟩ := follows.reads.scan_peekNth 0
  refine ⟨?_, follows.still scanned⟩
  rw [← follows.ahead_eq, List.head?_drop]
  exact found

theorem Follows.mark (follows : p.Follows s) : { p with saved := p.offset :: p.saved }.Follows s.mark where
  reads := follows.reads.mark
  offset := follows.offset
  saved := by simp [Stream.mark, follows.offset, follows.saved]
  base := follows.base
  origin := follows.origin
  ordered := by
    refine List.pairwise_cons.mpr ⟨?_, follows.ordered⟩
    rintro n (_ | ⟨_, member⟩)
    · exact Nat.le_refl _
    · exact (List.pairwise_cons.mp follows.ordered).1 n member

/-- Marks that stand where the cursor has one stand where it has it. -/
theorem Follows.marks_eq_cons (follows : p.Follows s) {n : Nat} {saved : List Nat}
    (outstanding : p.saved = n :: saved) :
    ∃ place marks, s.marks = place :: marks ∧ place.offset = n ∧ marks.map Position.offset = saved :=
  List.map_eq_cons_iff.mp (follows.saved.trans outstanding)

theorem Follows.release (follows : p.Follows s) {n : Nat} {saved : List Nat} (outstanding : p.saved = n :: saved) :
    ∃ s', s.release = .ok s' ∧ { p with saved }.Follows s' := by
  obtain ⟨place, marks, same, -, rfl⟩ := follows.marks_eq_cons outstanding
  have released : s.release = .ok { s with marks } := by rw [Stream.release, same]
  refine ⟨_, released, follows.reads.release released, follows.offset, rfl, follows.base, follows.origin, ?_⟩
  have ordered := follows.ordered
  rw [outstanding] at ordered
  exact ordered.sublist ((List.sublist_cons_self _ _).cons_cons _)

theorem Follows.reset (follows : p.Follows s) {offset : Nat} {saved : List Nat}
    (outstanding : p.saved = offset :: saved) :
    ∃ s', s.reset = .ok s' ∧ { p with offset, saved }.Follows s' := by
  obtain ⟨position, marks, same, rfl, rfl⟩ := follows.marks_eq_cons outstanding
  have back : s.reset = .ok { s with position, marks } := by rw [Stream.reset, same]
  refine ⟨_, back, follows.reads.reset back, rfl, rfl, follows.base, follows.origin, ?_⟩
  have ordered := follows.ordered
  rw [outstanding] at ordered
  exact (List.pairwise_cons.mp ordered).2

theorem floor_mem (p : TextCursor) : p.floor ∈ p.offset :: p.saved := List.getLastD_mem_cons

theorem Follows.floor_le (follows : p.Follows s) {n : Nat} (member : n ∈ p.offset :: p.saved) : p.floor ≤ n := by
  have ordered : (p.offset :: p.saved).Pairwise (· ≥ ·) :=
    follows.ordered.sublist (List.sublist_append_left (p.offset :: p.saved) [p.origin])
  have last : (p.offset :: p.saved).dropLast ++ [p.floor] = p.offset :: p.saved := by
    rw [floor, ← List.getLast_eq_getLastD (List.cons_ne_nil _ _), List.dropLast_concat_getLast]
  rw [← last] at ordered member
  rcases List.mem_append.mp member with before | here
  · exact (List.pairwise_append.mp ordered).2.2 n before _ (List.mem_singleton_self _)
  · exact Nat.le_of_eq (List.mem_singleton.mp here).symm

theorem Follows.offset_floor (follows : p.Follows s) : (s.marks.getLastD s.position).offset = p.floor := by
  rw [← List.getLastD_map (f := Position.offset), follows.saved, follows.offset]
  rfl

theorem Follows.origin_le_floor (follows : p.Follows s) : p.origin ≤ p.floor := by
  rcases List.mem_cons.mp p.floor_mem with same | member
  · exact same ▸ follows.origin_le
  · exact (follows.le_of_mem_saved member).1

/-- The position of the stream and its marks are no earlier than what is forgotten. -/
theorem Follows.floor_le_place (follows : p.Follows s) {place : Position} (member : place ∈ s.position :: s.marks) :
    p.floor ≤ place.offset := by
  refine follows.floor_le ?_
  rw [← follows.offset, ← follows.saved]
  exact List.mem_map_of_mem member

theorem Follows.holds (follows : p.Follows s) {place : Position} (member : place ∈ s.position :: s.marks) :
    s.Holds p.text place := by
  rcases List.mem_cons.mp member with rfl | member
  · exact follows.reads.position
  · exact follows.reads.marks place member

theorem Follows.consume (follows : p.Follows s) : { p with origin := p.floor }.Follows s.consume := by
  have floor := follows.holds (List.getLastD_mem_cons (l := s.marks) (a := s.position))
  have fetched := floor.le_fetched
  have based := floor.base_le
  have offset := follows.offset_floor
  -- The buffer leads to what is forgotten, so all of it goes.
  have dropped : min (p.floor - s.base) s.buffer.size = p.floor - s.base := by omega
  have base : s.consume.base = p.floor := by simp only [Stream.consume, offset, dropped]; omega
  have size : s.consume.base + s.consume.buffer.size = s.base + s.buffer.size := by
    simp only [Stream.consume, offset, dropped, Array.size_extract]
    omega
  have keeps {place : Position} (member : place ∈ s.position :: s.marks) : s.consume.Holds p.text place :=
    ⟨base ▸ follows.floor_le_place member, size ▸ (follows.holds member).le_fetched, (follows.holds member).eq_after⟩
  refine ⟨⟨?_, keeps List.mem_cons_self, fun place member => keeps (List.mem_cons_of_mem _ member)⟩,
    follows.offset, follows.saved, base, ?_, ?_⟩
  · have held := congrArg (List.drop (p.floor - s.base)) follows.reads.held
    rw [List.drop_drop, show s.base + (p.floor - s.base) = p.floor by omega,
      List.drop_append_of_le_length (by simp; omega)] at held
    simp only [base, held]
    simp only [Stream.consume, offset, dropped, Array.toList_extract, List.extract_eq_take_drop]
    rw [List.take_of_length_le (by simp)]
  · rw [← offset]
    exact floor.eq_after
  · refine List.pairwise_append.mpr ⟨?_, List.pairwise_singleton _ _, ?_⟩
    · exact follows.ordered.sublist (List.sublist_append_left (p.offset :: p.saved) [p.origin])
    · intro n member m same
      rw [List.mem_singleton.mp same]
      exact follows.floor_le member

/-- Each operation is answered alike, and leaves the stream where the cursor is. -/
theorem Follows.perform (follows : p.Follows s) (operation : Operation) :
    Operation.Alike Follows (p.perform operation) (s.perform operation) := by
  have ahead := follows.ahead_eq
  cases operation with
  | peek =>
    obtain ⟨found, follows⟩ := follows.peek
    simp only [TextCursor.perform, Stream.perform, found]
    exact .answer _ follows
  | peekNth n =>
    obtain ⟨found, scanned⟩ := follows.reads.scan_peekNth n
    rw [← List.getElem?_drop, ahead] at found
    simp only [TextCursor.perform, Stream.perform, found]
    exact .answer _ (follows.still scanned)
  | read =>
    obtain ⟨found, scanned⟩ := follows.reads.scan_read
    rw [ahead] at found scanned
    simp only [TextCursor.perform, Stream.perform, found]
    exact .answer _ (follows.scanned scanned)
  | readInto buffer =>
    obtain ⟨found, scanned⟩ := follows.reads.scan_take buffer.length
    rw [ahead] at found scanned
    simp only [TextCursor.perform, Stream.perform, found]
    exact .answer _ (follows.scanned scanned)
  | readLine =>
    obtain ⟨found, scanned⟩ := follows.reads.scan_readLine
    rw [ahead] at found scanned
    simp only [TextCursor.perform, Stream.perform, found]
    exact .answer _ (follows.scanned scanned)
  | skip count =>
    obtain ⟨found, scanned⟩ := follows.reads.scan_take count
    rw [ahead] at found scanned
    simp only [TextCursor.perform, Stream.perform, Stream.skip, found]
    exact .answer _ (follows.scanned scanned)
  | consumePrefix text caseSensitive =>
    obtain ⟨found, scanned⟩ := follows.reads.scan_accept caseSensitive text
    rw [ahead] at found scanned
    simp only [TextCursor.perform, Stream.perform, found]
    split
    · next begins =>
      rw [if_pos begins] at scanned
      rw [begins]
      exact .answer _ (follows.scanned scanned)
    · next differs =>
      rw [if_neg differs] at scanned
      rw [Bool.eq_false_iff.mpr differs]
      exact .answer _ (follows.still scanned)
  | atEnd =>
    obtain ⟨found, follows⟩ := follows.peek
    have ended : p.ahead.head?.isNone = p.ahead.isEmpty := by cases p.ahead <;> rfl
    simp only [TextCursor.perform, Stream.perform, Stream.atEnd, found, ended]
    exact .answer _ follows
  | mark => exact .answer _ follows.mark
  | release =>
    simp only [TextCursor.perform, Stream.perform]
    cases outstanding : p.saved with
    | nil =>
      rw [Stream.release, List.map_eq_nil_iff.mp (follows.saved.trans outstanding)]
      exact .fault _
    | cons n saved =>
      obtain ⟨s', released, follows⟩ := follows.release outstanding
      rw [released]
      exact .answer _ follows
  | reset =>
    simp only [TextCursor.perform, Stream.perform]
    cases outstanding : p.saved with
    | nil =>
      rw [Stream.reset, List.map_eq_nil_iff.mp (follows.saved.trans outstanding)]
      exact .fault _
    | cons n saved =>
      obtain ⟨s', reset, follows⟩ := follows.reset outstanding
      rw [reset]
      exact .answer _ follows
  | consume => exact .answer _ follows.consume
  | flush => exact .answer _ follows.consume
  | start =>
    simp only [TextCursor.perform, Stream.perform, follows.start_eq]
    exact .answer _ follows
  | stop =>
    simp only [TextCursor.perform, Stream.perform, follows.position_eq]
    exact .answer _ follows
  | span =>
    simp only [TextCursor.perform, Stream.perform, Stream.span, follows.start_eq, follows.position_eq]
    exact .answer _ follows
  | length =>
    simp only [TextCursor.perform, Stream.perform, Stream.length, follows.offset_start, follows.offset]
    exact .answer _ follows
  | chars =>
    simp only [TextCursor.perform, Stream.perform, follows.chars_eq]
    exact .answer _ follows
  | text =>
    simp only [TextCursor.perform, Stream.perform, Stream.text, follows.chars_eq]
    exact .answer _ follows
  | snippet count =>
    obtain ⟨found, scanned⟩ := follows.reads.scan_snippet count
    rw [ahead] at found
    simp only [TextCursor.perform, Stream.perform, found]
    exact .answer _ (follows.still scanned)

section Forgetting

/-- An operation fails exactly where it closes a mark and there is none. -/
theorem marks_perform (p : TextCursor) (operation : Operation) :
    (p.perform operation).toOption.map (·.2.saved.length) = operation.marks? p.saved.length := by
  cases operation with
  | consumePrefix text caseSensitive =>
    simp only [perform]
    split <;> rfl
  | release => cases saved : p.saved <;> simp [perform, saved, Operation.marks?, Except.toOption]
  | reset => cases saved : p.saved <;> simp [perform, saved, Operation.marks?, Except.toOption]
  | _ => rfl

theorem marks_runAll (p : TextCursor) (operations : List Operation) :
    (Operation.runAll perform operations p).toOption.map (·.2.saved.length) =
      operations.foldlM Operation.marks? p.saved.length := by
  induction operations generalizing p with
  | nil => rfl
  | cons operation rest ih =>
    have marks := p.marks_perform operation
    rw [List.foldlM_cons, ← marks]
    cases step : p.perform operation with
    | error error =>
      rw [Operation.runAll_cons_error step]
      rfl
    | ok after =>
      rw [Operation.runAll_cons_ok step]
      simp only [Except.toOption, Option.map_some, Option.bind_eq_bind, Option.bind_some, ← ih after.2]
      cases Operation.runAll perform rest after.2 <;> rfl

theorem text_perform {p p' : TextCursor} {operation : Operation} {answer : Answer}
    (answered : p.perform operation = .ok (answer, p')) : p'.text = p.text := by
  cases operation with
  | consumePrefix text caseSensitive =>
    simp only [perform] at answered
    split at answered <;> cases answered <;> rfl
  | release =>
    simp only [perform] at answered
    split at answered <;> cases answered
    rfl
  | reset =>
    simp only [perform] at answered
    split at answered <;> cases answered
    rfl
  | _ =>
    cases answered
    rfl

theorem text_runAll {p p' : TextCursor} {operations : List Operation} {answers : List Answer}
    (answered : Operation.runAll perform operations p = .ok (answers, p')) : p'.text = p.text := by
  induction operations generalizing p answers with
  | nil =>
    cases answered
    rfl
  | cons operation rest ih =>
    cases step : p.perform operation with
    | error error =>
      rw [Operation.runAll_cons_error step] at answered
      cases answered
    | ok after =>
      rw [Operation.runAll_cons_ok step] at answered
      cases later : Operation.runAll perform rest after.2 with
      | error error =>
        rw [later] at answered
        cases answered
      | ok final =>
        rw [later] at answered
        cases answered
        exact (ih later).trans (text_perform step)

theorem perform_compacting (p : TextCursor) {operation : Operation} (compacts : operation.compacts = true) :
    p.perform operation = .ok (.nothing, { p with origin := p.floor }) := by
  cases operation with
  | consume => rfl
  | flush => rfl
  | _ => cases compacts

/-- Where the text starts without a mark matters only to what looks back without a mark. -/
theorem perform_origin (p : TextCursor) (n : Nat) {operation : Operation} (keeps : operation.compacts = false) :
    (∃ answer answer' p', p.perform operation = .ok (answer, p') ∧
        { p with origin := n }.perform operation = .ok (answer', { p' with origin := n }) ∧
        ((operation.looksBack && p.saved.length == 0) = false → answer' = answer)) ∨
      ∃ error, p.perform operation = .error error ∧ { p with origin := n }.perform operation = .error error := by
  have start (outstanding : (p.saved.length == 0) = false) : { p with origin := n }.start = p.start := by
    simp only [TextCursor.start]
    cases saved : p.saved with
    | nil => simp [saved] at outstanding
    | cons _ _ => rfl
  cases operation with
  | consume => cases keeps
  | flush => cases keeps
  | consumePrefix text caseSensitive =>
    simp only [perform, ahead]
    by_cases begins : Terminal.beginsWith (Terminal.sameChar caseSensitive) (p.text.drop p.offset) text.toList
    · simp only [begins]
      exact .inl ⟨_, _, _, rfl, rfl, fun _ => rfl⟩
    · simp only [begins]
      exact .inl ⟨_, _, _, rfl, rfl, fun _ => rfl⟩
  | release =>
    simp only [perform]
    split
    · exact .inr ⟨_, rfl, rfl⟩
    · exact .inl ⟨_, _, _, rfl, rfl, fun _ => rfl⟩
  | reset =>
    simp only [perform]
    split
    · exact .inr ⟨_, rfl, rfl⟩
    · exact .inl ⟨_, _, _, rfl, rfl, fun _ => rfl⟩
  | start => exact .inl ⟨_, _, _, rfl, rfl, fun outstanding => by rw [start outstanding]⟩
  | span => exact .inl ⟨_, _, _, rfl, rfl, fun outstanding => by rw [start outstanding]⟩
  | length => exact .inl ⟨_, _, _, rfl, rfl, fun outstanding => by rw [start outstanding]⟩
  | chars => exact .inl ⟨_, _, _, rfl, rfl, fun outstanding => by rw [chars, start outstanding, chars]⟩
  | text => exact .inl ⟨_, _, _, rfl, rfl, fun outstanding => by rw [chars, start outstanding, chars]⟩
  | _ => exact .inl ⟨_, _, _, rfl, rfl, fun _ => rfl⟩

/-- The readings of a run, with the operations that forget left out and the text starting anywhere. -/
theorem readings_runAll (p : TextCursor) (n : Nat) (operations : List Operation) :
    (Operation.runAll perform operations p).map (fun r => Operation.readings p.saved.length operations r.1) =
      (Operation.runAll perform (operations.filter (!·.compacts)) { p with origin := n }).map
        fun r => Operation.readings p.saved.length (operations.filter (!·.compacts)) r.1 := by
  induction operations generalizing p n with
  | nil => rfl
  | cons operation rest ih =>
    cases compacts : operation.compacts with
    | true =>
      have depth : (operation.marks? p.saved.length).getD p.saved.length = p.saved.length := by
        rw [← p.marks_perform operation, p.perform_compacting compacts]
        rfl
      have forgotten := ih { p with origin := p.floor } n
      rw [Operation.runAll_cons_ok (p.perform_compacting compacts), List.filter_cons_of_neg (by simp [compacts]),
        ← forgotten]
      cases Operation.runAll perform rest { p with origin := p.floor } with
      | error error => rfl
      | ok r => simp [Except.map, Operation.readings, compacts, depth]
    | false =>
      rw [List.filter_cons_of_pos (by simp [compacts])]
      rcases p.perform_origin n compacts with ⟨answer, answer', p', left, right, same⟩ | ⟨error, left, right⟩
      · have depth : operation.marks? p.saved.length = some p'.saved.length := by
          rw [← p.marks_perform operation, left]
          rfl
        have others := ih p' n
        rw [Operation.runAll_cons_ok left, Operation.runAll_cons_ok right]
        cases first : Operation.runAll perform rest p' <;>
          cases second : Operation.runAll perform (rest.filter (!·.compacts)) { p' with origin := n } <;>
          simp only [first, second, Except.map, reduceCtorEq, Except.ok.injEq, Except.error.injEq] at others ⊢
        · exact others
        · simp only [Operation.readings, depth, compacts, Option.getD_some, Bool.false_or, others]
          split
          · rfl
          · next seen => rw [same (by simpa using seen)]
      · rw [Operation.runAll_cons_error left, Operation.runAll_cons_error right]
        rfl

end Forgetting

end TextCursor

namespace Stream

/-- Every difference of offsets a stream computes takes the smaller from the larger, and the characters under the
innermost mark are in the buffer. -/
structure InBounds (s : Stream) : Prop where
  base_le_start : s.base ≤ s.start.offset
  start_le_position : s.start.offset ≤ s.position.offset
  index_le_size : s.index ≤ s.buffer.size
  base_le_floor : s.base ≤ (s.marks.getLastD s.position).offset

theorem inBounds_of_follows {p : TextCursor} {s : Stream} (follows : p.Follows s) : s.InBounds where
  base_le_start := by
    rw [follows.base, follows.offset_start]
    exact follows.start_bounds.1
  start_le_position := by
    rw [follows.offset_start, follows.offset]
    exact follows.start_bounds.2
  index_le_size := by
    have := follows.reads.position.le_fetched
    simp only [index]
    omega
  base_le_floor := by
    rw [follows.base, follows.offset_floor]
    exact follows.origin_le_floor

theorem permitted_of_isPrefix {before operations : List Operation} (part : before <+: operations)
    (permitted : Operation.permitted operations = true) : Operation.permitted before = true := by
  obtain ⟨after, rfl⟩ := part
  rw [Operation.permitted, List.foldlM_append] at permitted
  cases closed : before.foldlM Operation.marks? 0 with
  | none => simp [closed] at permitted
  | some depth => rw [Operation.permitted, closed]; rfl

/-- The readings of a stream are those of a cursor. -/
theorem readings_as_cursor (source : Source) (operations : List Operation) :
    (Operation.runAll perform operations (ofSource source)).map (fun r => Operation.readings 0 operations r.1) =
      (Operation.runAll TextCursor.perform operations (.ofText (Newline.normalize source.chars))).map
        fun r => Operation.readings 0 operations r.1 := by
  rcases Operation.runAll_alike TextCursor.Follows.perform (TextCursor.follows_ofSource source) operations with
    ⟨answers, p, s, left, right, -⟩ | ⟨error, left, right⟩
  · rw [left, right]
    rfl
  · rw [left, right]
    rfl

/-- A stream is a cursor in the normalized text before the failure of its source. Whatever is asked of it, as long
as only outstanding marks are closed, it answers as the cursor does and stays in bounds at every step; its position
and its marks are the places of the cursor with the lines and columns that the text before them gives. What is
forgotten on the way changes no reading. -/
theorem runs_as_cursor (source : Source) (operations : List Operation)
    (permitted : Operation.permitted operations = true) :
    (∀ before, before <+: operations → ∃ answers s p,
      Operation.runAll perform before (ofSource source) = .ok (answers, s) ∧
      Operation.runAll TextCursor.perform before (.ofText (Newline.normalize source.chars)) = .ok (answers, p) ∧
      s.InBounds ∧
      s.position = .after (Newline.normalize source.chars) p.offset ∧
      s.marks = p.saved.map (.after (Newline.normalize source.chars))) ∧
    (Operation.runAll perform operations (ofSource source)).map (fun r => Operation.readings 0 operations r.1) =
      (Operation.runAll perform (operations.filter (!·.compacts)) (ofSource source)).map
        fun r => Operation.readings 0 (operations.filter (!·.compacts)) r.1 := by
  refine ⟨fun before part => ?_, ?_⟩
  · have permitted := permitted_of_isPrefix part permitted
    rcases Operation.runAll_alike TextCursor.Follows.perform (TextCursor.follows_ofSource source) before with
      ⟨answers, p, s, left, right, follows⟩ | ⟨error, left, -⟩
    · have text : p.text = Newline.normalize source.chars := TextCursor.text_runAll left
      exact ⟨answers, s, p, right, left, inBounds_of_follows follows, text ▸ follows.position_eq,
        text ▸ follows.marks_eq⟩
    · have closes := (TextCursor.ofText (Newline.normalize source.chars)).marks_runAll before
      rw [left] at closes
      rw [Operation.permitted, show (0 : Nat) = (TextCursor.ofText (Newline.normalize source.chars)).saved.length
        from rfl, ← closes] at permitted
      cases permitted
  · rw [readings_as_cursor, readings_as_cursor]
    exact TextCursor.readings_runAll _ 0 operations

end Stream

namespace Sample

/-- Two lines, of which the second breaks off. -/
def brokenOff : Source := { chars := "a\r\nb".toList, failure := some "broken pipe" }

/-- Forgets under a mark, goes back to it, and forgets what lies before it. -/
def backtracking : List Operation :=
  [.mark, .readLine, .consume, .text, .reset, .read, .flush, .readLine, .read, .text, .span]

theorem backtracking_as_cursor :
    Operation.permitted backtracking = true ∧
    (Operation.runAll Stream.perform backtracking (.ofSource brokenOff)).map (·.1) =
      .ok [.nothing, .line (some ['a']), .nothing, .text "a\n", .nothing, .char (some 'a'), .nothing, .line (some []),
        .char (some 'b'), .text "\nb", .span ⟨⟨1, 1, 2⟩, ⟨3, 2, 2⟩⟩] ∧
    (∃ answers s p, Operation.runAll Stream.perform backtracking (.ofSource brokenOff) = .ok (answers, s) ∧
      Operation.runAll TextCursor.perform backtracking (.ofText ['a', '\n', 'b']) = .ok (answers, p) ∧
      s.InBounds ∧ s.position = .after ['a', '\n', 'b'] p.offset ∧ s.marks = p.saved.map (.after ['a', '\n', 'b'])) :=
  ⟨by decide, by decide, (Stream.runs_as_cursor brokenOff backtracking (by decide)).1 _ (List.prefix_refl _)⟩

end Sample

end Packrat

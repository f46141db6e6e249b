import Packrat.Proofs.Text.Readable
import Packrat.Proofs.Text.TextCursor
import Packrat.Text.Request

/-! # Looking past the end of a text

What waits behind a source is met by the first operation that asks for a character behind the last one. Which
operations do can be told from the text ahead of the cursor. From then on the failure is there to be taken, once.
-/

namespace Packrat

namespace Operation

/-- The operation asks for a character behind the text ahead. -/
def looksPast (ahead : List Char) : Operation → Bool
  | peek | read | atEnd => ahead.isEmpty
  | peekNth n => ahead.length ≤ n
  | readInto buffer => ahead.length < buffer.length
  | skip count => ahead.length < count
  | readLine => '\n' ∉ ahead
  | consumePrefix image caseSensitive =>
    -- Comparing gets to the end where all there is agrees.
    ahead.length < image.length &&
      Terminal.beginsWith (Terminal.sameChar caseSensitive) ahead (image.toList.take ahead.length)
  | snippet count => ahead.length < count && '\n' ∉ ahead
  | _ => false

end Operation

/-- Some operation asks for a character behind the end of the text. -/
def TextCursor.looksPast : List Request → TextCursor → Bool
  | [], _ => false
  | .takeError :: rest, p => looksPast rest p
  | .operation operation :: rest, p =>
    operation.looksPast p.ahead || match p.perform operation with
      | .ok (_, p) => looksPast rest p
      | .error _ => false

namespace Stream

variable {s s' s'' : Stream} {text : List Char} {past more : Bool}

/-- A look at the text that went past its end, or did not, led from `s` to `s'`: what was waiting there is met now. -/
structure Meets (past : Bool) (s s' : Stream) : Prop where
  failure : s'.failure = if past then none else s.failure
  error : s'.error = if past then s.failure.or s.error else s.error

namespace Meets

theorem refl (s : Stream) : Meets false s s := ⟨rfl, rfl⟩

theorem trans (first : Meets past s s') (second : Meets more s' s'') : Meets (past || more) s s'' := by
  obtain ⟨failure, error⟩ := first
  obtain ⟨failure', error'⟩ := second
  rw [failure] at failure' error'
  rw [error] at error'
  cases past <;> cases more <;> exact ⟨failure', error'⟩

theorem goTo (meets : Meets past s s') (position : Position) : Meets past s { s' with position } :=
  ⟨meets.failure, meets.error⟩

end Meets

theorem Over.fetched_le (reads : s.Over text) : s.base + s.buffer.size ≤ text.length := by
  have held := congrArg List.length reads.held
  have based := Nat.le_trans reads.position.base_le reads.position.offset_le
  simp only [List.length_drop, List.length_append, Array.length_toList] at held
  omega

theorem meets_fetch (s : Stream) : Meets (!s.fetch.1) s s.fetch.2 := by
  unfold Stream.fetch
  split
  · exact ⟨rfl, rfl⟩
  · cases failure : s.failure with
    | none => exact ⟨failure.symm.trans failure, by simp [failure]⟩
    | some message => exact ⟨rfl, by simp [failure]⟩

/-- Filling meets what waits behind the text where it wants more characters than there are. -/
theorem Over.meets_fill (reads : s.Over text) (count : Nat) :
    Meets (text.length < s.base + s.buffer.size + count) s (s.fill count) := by
  induction count generalizing s with
  | zero =>
    rw [Nat.add_zero, decide_eq_false (Nat.not_lt.mpr reads.fetched_le)]
    exact .refl s
  | succ count ih =>
    have meets := meets_fetch s
    have fetched := reads.fetch
    have base := (fetch_frame s).1
    obtain ⟨-, size, ended⟩ := fetch_buffer reads
    unfold fill
    generalize s.fetch = result at *
    obtain ⟨brought, next⟩ := result
    cases brought with
    | true =>
      have wanted : text.length < next.base + next.buffer.size + count ↔
          text.length < s.base + s.buffer.size + (count + 1) := by
        simp only [Bool.toNat_true] at size base
        omega
      have rest := ih fetched
      rw [decide_eq_decide.mpr wanted] at rest
      simpa using meets.trans rest
    | false =>
      rw [decide_eq_true (Nat.lt_of_le_of_lt (ended rfl) (Nat.lt_add_of_pos_right (Nat.succ_pos count)))]
      exact meets

theorem Over.meets_peekNth (reads : s.Over text) (n : Nat) :
    Meets (text.drop (s.position.offset + n)).isEmpty s (s.peekNth n).2 := by
  have meets := reads.meets_fill (s.index + n + 1 - s.buffer.size)
  have based := reads.position.base_le
  have fetched := reads.fetched_le
  have within := reads.position.le_fetched
  have wanted : decide (text.length < s.base + s.buffer.size + (s.index + n + 1 - s.buffer.size)) =
      (text.drop (s.position.offset + n)).isEmpty := by
    rw [Bool.eq_iff_iff, decide_eq_true_iff, List.isEmpty_iff, List.drop_eq_nil_iff, index]
    omega
  rw [wanted] at meets
  exact meets

theorem Over.meets_read (reads : s.Over text) : Meets (text.drop s.position.offset).isEmpty s s.read.2 := by
  rw [read_eq]
  exact (reads.meets_peekNth 0).goTo _

theorem Over.meets_take (reads : s.Over text) (count : Nat) :
    Meets ((text.drop s.position.offset).length < count) s (s.take count).2 := by
  induction count generalizing s with
  | zero => exact .refl s
  | succ count ih =>
    have meets := reads.meets_read
    rcases reads.read_cases with ⟨ended, s', read, -⟩ | ⟨c, rest, s', ahead, read, scanned, behind⟩
    · rw [ended, read] at meets
      simpa [Stream.take, read, ended] using meets
    · have more := ih scanned.reads
      rw [ahead, read] at meets
      rw [behind] at more
      simpa [Stream.take, read, ahead] using meets.trans more

private theorem Over.meets_readLine_go (reads : s.Over text) {limit : Nat}
    (enough : (text.drop s.position.offset).length < limit) :
    Meets ('\n' ∉ text.drop s.position.offset) s (readLine.go limit s).2 := by
  induction limit generalizing s with
  | zero => omega
  | succ limit ih =>
    have meets := reads.meets_read
    rcases reads.read_cases with ⟨ended, s', read, -⟩ | ⟨c, rest, s', ahead, read, scanned, behind⟩
    · rw [ended, read] at meets
      simpa [readLine.go, read, ended] using meets
    · rw [ahead, read] at meets
      simp only [readLine.go, read, ahead]
      by_cases newline : c = '\n'
      · simpa [newline] using meets
      · have more := ih scanned.reads (by
          rw [behind]
          rw [ahead] at enough
          exact Nat.lt_of_succ_lt_succ enough)
        rw [behind] at more
        simpa [newline, Ne.symm newline] using meets.trans more

theorem Over.meets_readLine (reads : s.Over text) :
    Meets ('\n' ∉ text.drop s.position.offset) s s.readLine.2 := by
  refine reads.meets_readLine_go ?_
  have := reads.reach
  rw [List.length_drop]
  omega

/-- Looking ahead from the character `n` places ahead on. -/
private theorem Over.meets_snippet_go (reads : s.Over text) (count n : Nat) :
    Meets ((text.drop (s.position.offset + n)).length < count && '\n' ∉ text.drop (s.position.offset + n)) s
      (snippet.go count n s).2 := by
  induction count generalizing s n with
  | zero => exact .refl s
  | succ count ih =>
    have meets := reads.meets_peekNth n
    obtain ⟨answer, scanned⟩ := reads.scan_peekNth n
    rw [← List.head?_drop] at answer
    rcases look : s.peekNth n with ⟨found, s'⟩
    rw [look] at answer scanned meets
    rw [snippet.go, look]
    cases ahead : text.drop (s.position.offset + n) with
    | nil =>
      rw [ahead] at answer meets
      cases (show found = none from answer)
      exact meets
    | cons c rest =>
      rw [ahead] at answer meets
      cases (show found = some c from answer)
      by_cases newline : c = '\n'
      · simpa [newline] using meets
      · have behind : text.drop (s'.position.offset + (n + 1)) = rest := by
          rw [scanned.offset, ← Nat.add_assoc, ← List.drop_drop, ahead, List.drop_one, List.tail_cons]
        have more := ih scanned.reads (n + 1)
        rw [behind] at more
        simpa [newline, Ne.symm newline] using meets.trans more

theorem Over.meets_snippet (reads : s.Over text) (count : Nat) :
    Meets ((text.drop s.position.offset).length < count && '\n' ∉ text.drop s.position.offset) s
      (s.snippet count).2 :=
  reads.meets_snippet_go count 0

private theorem Over.meets_accept_go (reads : s.Over text) (same : Char → Char → Bool) (start : Position)
    (expected : List Char) :
    Meets ((text.drop s.position.offset).length < expected.length && Terminal.beginsWith same
        (text.drop s.position.offset) (expected.take (text.drop s.position.offset).length)) s
      (accept.go same start expected s).2 := by
  induction expected generalizing s with
  | nil => exact .refl s
  | cons d expected ih =>
    have meets := reads.meets_read
    rcases reads.read_cases with ⟨ended, s', read, -⟩ | ⟨c, rest, s', ahead, read, scanned, behind⟩
    · rw [ended, read] at meets
      simp only [accept.go, read, ended]
      exact meets.goTo start
    · rw [ahead, read] at meets
      simp only [accept.go, read, ahead]
      by_cases agree : same c d
      · have more := ih scanned.reads
        rw [behind] at more
        simpa [agree, Terminal.beginsWith] using meets.trans more
      · simpa [agree, Terminal.beginsWith] using meets.goTo start

theorem Over.meets_accept (reads : s.Over text) (same : Char → Char → Bool) (image : String) :
    Meets ((text.drop s.position.offset).length < image.length && Terminal.beginsWith same
        (text.drop s.position.offset) (image.toList.take (text.drop s.position.offset).length)) s
      (s.accept same image.toList).2 := by
  rw [← String.length_toList]
  exact reads.meets_accept_go same s.position image.toList

variable {operation : Operation} {answer : Answer} {request : Request} {requests rest : List Request} {reply : Reply}
  {replies : List Reply}

theorem serveAll_cons_ok (served : s.serve request = .ok (reply, s')) :
    s.serveAll (request :: rest) = (s'.serveAll rest).map fun done => (reply :: done.1, done.2) := by
  simp only [serveAll, served]
  cases run : s'.serveAll rest <;> simp only [bind, Except.bind, run] <;> rfl

theorem serveAll_cons_error {error : MarkError} (refused : s.serve request = .error error) :
    s.serveAll (request :: rest) = .error error := by
  rw [serveAll, refused]
  rfl

/-- A sequence of requests that is served has its first one served. -/
theorem of_serveAll_cons (served : s.serveAll (request :: rest) = .ok (replies, s'')) :
    ∃ reply s' later, s.serve request = .ok (reply, s') ∧ s'.serveAll rest = .ok (later, s'') ∧
      replies = reply :: later := by
  cases first : s.serve request with
  | error error => cases (serveAll_cons_error first).symm.trans served
  | ok done =>
    rw [serveAll_cons_ok first] at served
    cases more : done.2.serveAll rest with
    | error error =>
      rw [more] at served
      cases served
    | ok final =>
      rw [more] at served
      cases served
      exact ⟨_, _, _, rfl, more, rfl⟩

theorem of_serve_operation (served : s.serve (.operation operation) = .ok (reply, s')) :
    ∃ answer, s.perform operation = .ok (answer, s') ∧ reply = .answer answer := by
  rw [serve] at served
  cases performed : s.perform operation with
  | error error =>
    rw [performed] at served
    cases served
  | ok done =>
    rw [performed] at served
    cases served
    exact ⟨_, rfl, rfl⟩

end Stream

/-- The reply where no failure has been met. -/
def Reply.calm : Reply → Reply
  | .answer given => .answer given
  | .failure _ => .failure none

namespace Stream

/-- Operations answer the same without the failure. -/
theorem perform_calm (s : Stream) (operation : Operation) :
    s.calm.perform operation = (s.perform operation).map fun done => (done.1, done.2.calm) := by
  cases operation with
  | peek => simp only [perform, unnoticed_calm.peek, Except.map]
  | peekNth n => simp only [perform, unnoticed_calm.peekNth, Except.map]
  | read => simp only [perform, unnoticed_calm.read, Except.map]
  | readInto buffer => simp only [perform, unnoticed_calm.take, Except.map]
  | readLine => simp only [perform, unnoticed_calm.readLine, Except.map]
  | skip count => simp only [perform, unnoticed_calm.skip, Except.map]
  | consumePrefix image caseSensitive => simp only [perform, unnoticed_calm.accept, Except.map]
  | atEnd => simp only [perform, unnoticed_calm.atEnd, Except.map]
  | snippet count => simp only [perform, unnoticed_calm.snippet, Except.map]
  | release =>
    rcases s with ⟨_, _, _, _, _, _, _, _ | _, _⟩
    · rfl
    · rfl
  | reset =>
    rcases s with ⟨_, _, _, _, _, _, _, _ | _, _⟩
    · rfl
    · rfl
  | _ => rfl

theorem serve_calm (s : Stream) (request : Request) :
    s.calm.serve request = (s.serve request).map fun done => (done.1.calm, done.2.calm) := by
  cases request with
  | takeError => rfl
  | operation operation =>
    rw [serve, perform_calm, serve]
    cases s.perform operation <;> rfl

theorem serveAll_calm (s : Stream) (requests : List Request) :
    s.calm.serveAll requests = (s.serveAll requests).map fun done => (done.1.map Reply.calm, done.2.calm) := by
  induction requests generalizing s with
  | nil => rfl
  | cons request rest ih =>
    have calm := s.serve_calm request
    cases served : s.serve request with
    | error error =>
      rw [served] at calm
      rw [serveAll_cons_error served, serveAll_cons_error calm]
      rfl
    | ok done =>
      rw [served] at calm
      rw [serveAll_cons_ok served, serveAll_cons_ok calm, ih]
      cases done.2.serveAll rest <;> rfl

end Stream

namespace TextCursor

variable {p : TextCursor} {s s' : Stream} {operation : Operation} {answer : Answer} {requests : List Request}
  {replies : List Reply}

theorem Follows.performed (follows : p.Follows s) (performed : s.perform operation = .ok (answer, s')) :
    ∃ p', p.perform operation = .ok (answer, p') ∧ p'.Follows s' := by
  have alike := follows.perform operation
  rw [performed] at alike
  generalize p.perform operation = there at alike
  cases alike with
  | answer _ after => exact ⟨_, rfl, after⟩

theorem Follows.takeError (follows : p.Follows s) : p.Follows s.takeError.2 := by
  obtain ⟨⟨held, position, marks⟩, offset, saved, base, origin, ordered⟩ := follows
  have kept {place : Position} (holds : s.Holds p.text place) : s.takeError.2.Holds p.text place :=
    holds.grow rfl (Nat.le_refl _)
  exact ⟨⟨held, kept position, fun place member => kept (marks place member)⟩, offset, saved, base, origin, ordered⟩

/-- An operation meets what waits behind the text exactly where it looks past the text. -/
theorem Follows.meets_perform (follows : p.Follows s) (performed : s.perform operation = .ok (answer, s')) :
    Stream.Meets (operation.looksPast p.ahead) s s' := by
  have reads := follows.reads
  rw [← follows.ahead_eq]
  cases operation with
  | peek =>
    cases performed
    exact reads.meets_peekNth 0
  | peekNth n =>
    cases performed
    have past : (p.text.drop (s.position.offset + n)).isEmpty =
        decide ((p.text.drop s.position.offset).length ≤ n) := by
      rw [Bool.eq_iff_iff, decide_eq_true_iff, List.isEmpty_iff, ← List.drop_drop, List.drop_eq_nil_iff]
    rw [Operation.looksPast, ← past]
    exact reads.meets_peekNth n
  | read =>
    cases performed
    exact reads.meets_read
  | readInto buffer =>
    cases performed
    exact reads.meets_take buffer.length
  | readLine =>
    cases performed
    exact reads.meets_readLine
  | skip count =>
    cases performed
    exact reads.meets_take count
  | consumePrefix image caseSensitive =>
    cases performed
    exact reads.meets_accept _ image
  | atEnd =>
    cases performed
    exact reads.meets_peekNth 0
  | snippet count =>
    cases performed
    exact reads.meets_snippet count
  | release =>
    rcases s with ⟨_, _, _, _, _, _, _, _ | _, _⟩ <;> cases performed
    exact ⟨rfl, rfl⟩
  | reset =>
    rcases s with ⟨_, _, _, _, _, _, _, _ | _, _⟩ <;> cases performed
    exact ⟨rfl, rfl⟩
  | _ =>
    cases performed
    exact ⟨rfl, rfl⟩

/-- Where nothing waits behind the text, what has been met stays there until it is taken. -/
theorem Follows.error_met (follows : p.Follows s) (nothing : s.failure = none)
    (served : s.serveAll requests = .ok (replies, s')) : s'.error = if .takeError ∈ requests then none else s.error := by
  induction requests generalizing p s replies with
  | nil =>
    cases served
    rfl
  | cons request rest ih =>
    obtain ⟨reply, next, later, first, more, -⟩ := Stream.of_serveAll_cons served
    cases request with
    | takeError =>
      cases first
      have taken := ih follows.takeError nothing more
      simpa [Stream.takeError] using taken
    | operation operation =>
      obtain ⟨answer, performed, -⟩ := Stream.of_serve_operation first
      obtain ⟨p', -, after⟩ := follows.performed performed
      obtain ⟨failure, error⟩ := follows.meets_perform performed
      rw [nothing] at failure error
      have kept := ih after (by simpa using failure) more
      simpa [error] using kept

/-- What stands before an element of a list stands before one of the rest, or there is nothing before it. -/
private theorem forall_before_cons {α : Type} {motive : List α → Prop} {x y : α} {rest : List α} :
    (∀ earlier, earlier ++ [x] <+: y :: rest → motive earlier) ↔
      (x = y → motive []) ∧ ∀ earlier, earlier ++ [x] <+: rest → motive (y :: earlier) := by
  constructor
  · refine fun all => ⟨fun same => all [] ?_, fun earlier part => all (y :: earlier) ?_⟩
    · exact List.cons_prefix_cons.mpr ⟨same, List.nil_prefix⟩
    · exact List.cons_prefix_cons.mpr ⟨rfl, part⟩
  · rintro ⟨first, others⟩ (_ | ⟨z, earlier⟩) part
    · exact first (List.cons_prefix_cons.mp part).1
    · obtain ⟨rfl, inside⟩ := List.cons_prefix_cons.mp part
      exact others earlier inside

/-- What waits behind the text is met with the first look past it, and stays there until it is taken. -/
theorem Follows.error_waiting {message : String} (follows : p.Follows s) (waits : s.failure = some message)
    (unmet : s.error = none) (served : s.serveAll requests = .ok (replies, s')) (found : String) :
    s'.error = some found ↔ found = message ∧ looksPast requests p = true ∧
      ∀ earlier, earlier ++ [.takeError] <+: requests → looksPast earlier p = false := by
  induction requests generalizing p s replies with
  | nil =>
    cases served
    simp [unmet, looksPast]
  | cons request rest ih =>
    obtain ⟨reply, next, later, first, more, -⟩ := Stream.of_serveAll_cons served
    rw [forall_before_cons]
    cases request with
    | takeError =>
      cases first
      rw [ih follows.takeError waits rfl more]
      simp [looksPast]
    | operation operation =>
      obtain ⟨answer, performed, -⟩ := Stream.of_serve_operation first
      obtain ⟨p', moved, after⟩ := follows.performed performed
      obtain ⟨failure, error⟩ := follows.meets_perform performed
      rw [waits] at failure error
      rw [unmet] at error
      cases past : operation.looksPast p.ahead with
      | true =>
        rw [after.error_met (by simpa [past] using failure) more]
        have untaken : (∀ earlier, ¬ earlier ++ [.takeError] <+: rest) ↔ .takeError ∉ rest := by
          constructor
          · intro none member
            obtain ⟨earlier, others, rfl⟩ := List.append_of_mem member
            exact none earlier ⟨others, by simp⟩
          · intro absent earlier part
            exact absent (part.subset (List.mem_append_right _ List.mem_cons_self))
        simp [looksPast, past, error, untaken, eq_comm, and_comm]
      | false =>
        rw [ih after (by simpa [past] using failure) (by simpa [past] using error) more]
        simp [looksPast, past, moved]

end TextCursor

end Packrat

import Packrat.Proofs.Grammar.WellFormed
import Packrat.Proofs.Recognition.Run
import Packrat.Proofs.Text.Readable

/-! # Where runs go, where they leave the stream, and when they end

A run that starts in a tree of the grammar never leaves the trees. Over a text it leaves the stream
over the same text, and an input that could be read can still be read. It never goes back behind its
start, and a rule that does not match leaves the position as it was. `Halts` says that a task comes to
an end; each operator halts if the rules it enters on the way do.
-/

namespace Packrat

/-- A task of this kind is back at its start when it does not match. The parts of a sequence or of a
repetition are not: the mark around them is. -/
def Task.restores : Task → Bool
  | .all _ | .repeated .. | .upTo .. => false
  | _ => true

/-- Every rule that the task names is reached from a root. -/
def Task.Rooted (g : Grammar) : Task → Prop
  | .rule (.production index) => index < g.productions.size
  | .rule (.expression i) => g.Rooted i
  | .operator i e => g.Rooted i ∧ g.expr? i = some e
  | .marked task => task.Rooted g
  | .all children | .first children => ∀ child ∈ children, g.Rooted child
  | .repeated child .. | .upTo child .. => g.Rooted child

theorem Recognizer.Enters.rooted {H S τ : Type} {r : Recognizer H S τ} {task task' : Task}
    {st st' : State H S τ} (enters : r.Enters task st task' st') (wellFormed : r.grammar.WellFormed)
    (rooted : task.Rooted r.grammar) : task'.Rooted r.grammar := by
  cases enters with
  | production defined => exact .root defined
  | expression present => exact ⟨rooted, present⟩
  | marked => exact rooted
  | reference => exact wellFormed.target rooted.2
  | remembered => exact wellFormed.target rooted.2
  | action => exact rooted.1.child rooted.2 (List.mem_singleton_self _)
  | undo => exact rooted.1.child rooted.2 (List.mem_singleton_self _)
  | sequence => exact fun child member => rooted.1.child rooted.2 member
  | choice => exact fun child member => rooted.1.child rooted.2 member
  | repetition => exact rooted.1.child rooted.2 (List.mem_singleton_self _)
  | lookahead => exact rooted.1.child rooted.2 (List.mem_singleton_self _)
  | allHead => exact rooted _ (List.mem_cons_self ..)
  | allTail => exact fun child member => rooted child (List.mem_cons_of_mem _ member)
  | firstHead => exact rooted _ (List.mem_cons_self ..)
  | firstTail => exact fun child member => rooted child (List.mem_cons_of_mem _ member)
  | least => exact fun child member => List.eq_of_mem_replicate member ▸ rooted
  | more => exact rooted
  | upToHead => exact rooted
  | upToTail => exact rooted

namespace State

variable {H S τ : Type} {st st' : State H S τ} {v : Verdict} {text : List Char}

theorem over_settled (reads : st'.stream.Over text) (balanced : st'.stream.marks = st.mark.stream.marks) :
    (st.settled v st').stream.Over text := by
  have outstanding : st'.stream.marks = st.stream.position :: st.stream.marks := balanced
  have held {p : Position} (member : p ∈ st.stream.position :: st.stream.marks) :
      st'.stream.Holds text p := reads.marks p (outstanding ▸ member)
  refine ⟨reads.held, ?_, fun p member => ?_⟩
  · simp only [settled]
    split
    · exact reads.position.grow rfl (Nat.le_refl _)
    · exact (held (List.mem_cons_self ..)).grow rfl (Nat.le_refl _)
  · exact (held (List.mem_cons_of_mem _ member)).grow rfl (Nat.le_refl _)

theorem forward_settled (forward : st.stream.position.offset ≤ st'.stream.position.offset) :
    st.stream.position.offset ≤ (st.settled v st').stream.position.offset := by
  simp only [settled]
  split
  · exact forward
  · exact Nat.le_refl _

@[simp] theorem position_settled_matched :
    (st.settled .matched st').stream.position = st'.stream.position := rfl

theorem position_settled (unmatched : v ≠ .matched) :
    (st.settled v st').stream.position = st.stream.position := by
  cases v with
  | matched => exact absurd rfl unmatched
  | failed => rfl
  | aborted e => rfl

end State

namespace Recognizer

variable {H S τ : Type} {r : Recognizer H S τ} {task : Task} {st st' : State H S τ} {v : Verdict}
  {text : List Char}

/-- Keys of the memo table, if it is in use, do not collide: from 2^32 on, they would. -/
def Keyed (r : Recognizer H S τ) (text : List Char) : Prop :=
  r.memoize = true → r.grammar.productions.size ≤ UInt32.size ∧ text.length < UInt32.size

/-- What terminals, skipping and marks do to a stream is all that happens to it. -/
theorem Runs.stream_induction {motive : Stream → Prop} (run : r.Runs task st v st')
    (recognize : ∀ {s} (t : Terminal), motive s → motive (t.recognize s).2)
    (skip : ∀ {s} (count : Nat), motive s → motive (s.skip count).2) (mark : ∀ {s}, motive s → motive s.mark)
    (settled : ∀ {st st' : State H S τ} {v}, motive st'.stream → st'.stream.marks = st.mark.stream.marks →
      motive (st.settled v st').stream) (start : motive st.stream) : motive st'.stream := by
  induction run with
  | production _ _ ih => exact ih start
  | expression _ _ ih => exact ih start
  | marked run ih => exact settled (ih (mark start)) run.marks
  | terminal => exact recognize _ start
  | reference _ _ ih => exact ih start
  | hit => exact skip _ start
  | store _ _ run ih => exact settled (ih (mark start)) run.marks
  | miss _ _ run _ ih => exact settled (ih (mark start)) run.marks
  | @act i child name bound st st' st'' v run answered ih =>
    have same := handle_stream answered
    exact settled (same ▸ ih (mark start) : motive st''.stream) (by rw [same]; exact run.marks)
  | idle run _ ih => exact settled (ih (mark start)) run.marks
  | undo run ih => exact settled (ih (mark start)) run.marks
  | sequence _ ih => exact ih start
  | choice _ ih => exact ih start
  | repetition _ ih => exact ih start
  | present run ih => exact settled (ih (mark start)) run.marks
  | absent run ih => exact settled (ih (mark start)) run.marks
  | allNext _ _ head tail => exact tail (head start)
  | firstNext _ _ head tail => exact tail (head start)
  | repeatedEnough _ _ least more => exact more (least start)
  | upToNext _ _ _ body more => exact more (body start)
  | allDone | firstNone | upToZero => exact start
  | allStop _ _ ih => exact ih start
  | firstStop _ _ ih => exact ih start
  | repeatedShort _ _ ih => exact ih start
  | upToEmpty _ _ ih => exact ih start
  | upToEnd _ ih => exact ih start
  | upToAbort _ ih => exact ih start

theorem Runs.reads (run : r.Runs task st v st') (reads : st.stream.Over text) : st'.stream.Over text := by
  refine run.stream_induction (motive := (·.Over text)) ?_ ?_ ?_ ?_ reads
  · exact fun t reads => (t.recognize_spec reads).2.reads
  · exact fun count reads => (reads.take count).reads
  · exact fun reads => reads.mark
  · exact fun reads balanced => State.over_settled reads balanced

theorem Runs.readable (run : r.Runs task st v st') (readable : st.stream.Readable) : st'.stream.Readable := by
  refine run.stream_induction (motive := Stream.Readable) ?_ ?_ ?_ ?_ readable
  · exact fun t readable => t.recognize_readable readable
  · exact fun count readable => readable.take count
  · exact fun readable => readable
  · exact fun readable _ => readable

theorem Runs.forward (run : r.Runs task st v st') : st.stream.position.offset ≤ st'.stream.position.offset := by
  induction run with
  | production _ _ ih => exact ih
  | expression _ _ ih => exact ih
  | marked _ ih => exact State.forward_settled ih
  | terminal => exact (Terminal.position_recognize _ _).1
  | reference _ _ ih => exact ih
  | hit => exact Stream.offset_le_skip _ _
  | store _ _ _ ih => exact State.forward_settled ih
  | miss _ _ _ _ ih => exact State.forward_settled ih
  | act _ answered ih =>
    refine State.forward_settled ?_
    dsimp only
    rw [handle_stream answered]
    exact ih
  | idle _ _ ih => exact State.forward_settled ih
  | undo _ ih => exact State.forward_settled ih
  | sequence _ ih => exact ih
  | choice _ ih => exact ih
  | repetition _ ih => exact ih
  | present => exact Nat.le_refl _
  | absent => exact Nat.le_refl _
  | allNext _ _ head tail => exact Nat.le_trans head tail
  | firstNext _ _ head tail => exact Nat.le_trans head tail
  | repeatedEnough _ _ least more => exact Nat.le_trans least more
  | upToNext _ _ _ body more => exact Nat.le_trans body more
  | allDone | firstNone | upToZero => exact Nat.le_refl _
  | allStop _ _ ih => exact ih
  | firstStop _ _ ih => exact ih
  | repeatedShort _ _ ih => exact ih
  | upToEmpty _ _ ih => exact ih
  | upToEnd _ ih => exact ih
  | upToAbort _ ih => exact ih

/-- A rule that does not match leaves the position as it was. -/
theorem Runs.restored (run : r.Runs task st v st') (restores : task.restores = true) (unmatched : v ≠ .matched) :
    st'.stream.position = st.stream.position := by
  induction run with
  | production _ _ ih => exact ih rfl unmatched
  | expression _ _ ih => exact ih rfl unmatched
  | marked => exact State.position_settled unmatched
  | @terminal i t st =>
    refine (t.position_recognize st.stream).2 ?_
    cases answer : (t.recognize st.stream).1 with
    | true => simp [answer, Verdict.ofBool] at unmatched
    | false => rfl
  | reference _ _ ih => exact ih rfl unmatched
  | hit | store => exact absurd rfl unmatched
  | miss | act | idle | undo => exact State.position_settled unmatched
  | sequence _ ih => exact ih rfl unmatched
  | choice _ ih => exact ih rfl unmatched
  | repetition _ ih => exact ih rfl unmatched
  | present | absent => rfl
  | firstNone => rfl
  | firstNext _ _ head tail => exact (tail rfl unmatched).trans (head rfl Verdict.noConfusion)
  | firstStop _ _ ih => exact ih rfl unmatched
  | allDone | allNext | allStop | repeatedEnough | repeatedShort | upToZero | upToEmpty | upToNext
  | upToEnd | upToAbort => cases restores

/-- The matches behind the least number do not make a repetition fail. -/
theorem Runs.upTo_ne_failed {child count : Nat} {stopOnEmpty : Bool}
    (run : r.Runs (.upTo child stopOnEmpty count) st v st') : v ≠ .failed := by
  generalize same : Task.upTo child stopOnEmpty count = task at run
  induction run generalizing count with
  | upToZero | upToEmpty | upToEnd | upToAbort => exact Verdict.noConfusion
  | upToNext _ _ _ _ more =>
    cases same
    exact more rfl
  | production | expression | marked | terminal | reference | hit | store | miss | act | idle | undo | sequence
  | choice | repetition | present | absent | allDone | allNext | allStop | firstNone | firstNext | firstStop
  | repeatedEnough | repeatedShort => cases same

/-- The task comes to an end from `st`. -/
def Halts (r : Recognizer H S τ) (task : Task) (st : State H S τ) : Prop := ∃ v st', r.Runs task st v st'

theorem halts_production {index root : Nat} (defined : r.grammar.root? index = some root)
    (body : r.Halts (.rule (.expression root)) (r.note (.entered (.production index)) st).mark) :
    r.Halts (.rule (.production index)) st := by
  obtain ⟨v, st', run⟩ := body
  exact ⟨v, _, .production defined (.marked run)⟩

theorem halts_expression {i : Nat} {e : Expr} (present : r.grammar.expr? i = some e)
    (body : r.Halts (.operator i e) (r.note (.entered (.expression i)) st)) :
    r.Halts (.rule (.expression i)) st := by
  obtain ⟨v, st', run⟩ := body
  exact ⟨v, _, .expression present run⟩

theorem halts_terminal (i : Nat) (t : Terminal) : r.Halts (.operator i (.terminal t)) st :=
  ⟨_, _, .terminal⟩

theorem halts_reference (i : Nat) {target : Nat} {memo : Bool} (plain : (memo && r.memoize) = false)
    (body : r.Halts (.rule (.production target)) st.mark) :
    r.Halts (.operator i (.reference target memo)) st := by
  obtain ⟨v, st', run⟩ := body
  exact ⟨v, _, .reference plain (.marked run)⟩

theorem halts_remembered (i : Nat) {target : Nat} {memo : Bool} (memoized : (memo && r.memoize) = true)
    (body : st.memo.get? target st.stream.position.offset = none →
      r.Halts (.rule (.production target)) (r.openScope (r.note (.lookedUp i false) st))) :
    r.Halts (.operator i (.reference target memo)) st := by
  cases found : st.memo.get? target st.stream.position.offset with
  | some entry => exact ⟨_, _, .hit memoized found⟩
  | none =>
    obtain ⟨v, st', run⟩ := body found
    by_cases matched : v = .matched
    · subst matched
      exact ⟨_, _, .store memoized found run⟩
    · exact ⟨_, _, .miss memoized found run matched⟩

private theorem handle_answers (name : String) (st : State H S τ) :
    ∃ v st', r.handle name st = .ok (v, st') := by
  unfold handle
  split
  · exact ⟨_, _, rfl⟩
  · dsimp only
    split <;> exact ⟨_, _, rfl⟩

theorem halts_action (i : Nat) {child : Nat} {name : String} {bound : Bool}
    (body : r.Halts (.rule (.expression child)) (r.openScope st)) :
    r.Halts (.operator i (.action child name bound)) st := by
  obtain ⟨v, st', run⟩ := body
  by_cases matched : v = .matched
  · subst matched
    obtain ⟨u, st'', answered⟩ := handle_answers (r := r) name st'
    exact ⟨u, _, .act run answered⟩
  · exact ⟨v, _, .idle run matched⟩

theorem halts_undo (i : Nat) {child : Nat} (body : r.Halts (.rule (.expression child)) (r.openScope st)) :
    r.Halts (.operator i (.undo child)) st := by
  obtain ⟨v, st', run⟩ := body
  exact ⟨v, _, .undo run⟩

theorem halts_sequence (i : Nat) {children : List Nat} (body : r.Halts (.all children) st.mark) :
    r.Halts (.operator i (.sequence children)) st := by
  obtain ⟨v, st', run⟩ := body
  exact ⟨v, _, .sequence (.marked run)⟩

theorem halts_choice (i : Nat) {children : List Nat} (body : r.Halts (.first children) st) :
    r.Halts (.operator i (.choice children)) st := by
  obtain ⟨v, st', run⟩ := body
  exact ⟨v, _, .choice run⟩

theorem halts_repetition (i : Nat) {child min max : Nat}
    (least : r.Halts (.all (List.replicate min child)) st.mark)
    (more : ∀ st', r.Runs (.all (List.replicate min child)) st.mark .matched st' →
      r.Halts (.upTo child (max == unbounded) (max - min)) st') :
    r.Halts (.operator i (.repetition child min max)) st := by
  obtain ⟨v, st', run⟩ := least
  by_cases matched : v = .matched
  · subst matched
    obtain ⟨u, st'', rest⟩ := more st' run
    exact ⟨u, _, .repetition (.marked (.repeatedEnough run rest))⟩
  · exact ⟨v, _, .repetition (.marked (.repeatedShort run matched))⟩

theorem halts_lookahead (i : Nat) {child : Nat} {sign : Lookahead}
    (body : r.Halts (.rule (.expression child)) st.mark) :
    r.Halts (.operator i (.lookahead child sign)) st := by
  obtain ⟨v, st', run⟩ := body
  cases sign with
  | present => exact ⟨v, _, .present run⟩
  | absent => exact ⟨v.negate, _, .absent run⟩

theorem halts_all_cons {child : Nat} {rest : List Nat} (head : r.Halts (.rule (.expression child)) st)
    (tail : ∀ st', r.Runs (.rule (.expression child)) st .matched st' → r.Halts (.all rest) st') :
    r.Halts (.all (child :: rest)) st := by
  obtain ⟨v, st', run⟩ := head
  by_cases matched : v = .matched
  · subst matched
    obtain ⟨u, st'', others⟩ := tail st' run
    exact ⟨u, _, .allNext run others⟩
  · exact ⟨v, _, .allStop run matched⟩

theorem halts_first_cons {child : Nat} {rest : List Nat}
    (head : r.Halts (.rule (.expression child)) st.mark)
    (tail : ∀ st', r.Runs (.marked (.rule (.expression child))) st .failed st' → r.Halts (.first rest) st') :
    r.Halts (.first (child :: rest)) st := by
  obtain ⟨v, st', run⟩ := head
  by_cases failed : v = .failed
  · subst failed
    obtain ⟨u, st'', others⟩ := tail _ (.marked run)
    exact ⟨u, _, .firstNext (.marked run) others⟩
  · exact ⟨v, _, .firstStop (.marked run) failed⟩

theorem halts_upTo_succ {child count : Nat} {stopOnEmpty : Bool}
    (body : r.Halts (.rule (.expression child)) st)
    (more : ∀ st', r.Runs (.rule (.expression child)) st .matched st' →
      (stopOnEmpty = true → st'.stream.position.offset ≠ st.stream.position.offset) →
      r.Halts (.upTo child stopOnEmpty count) st') :
    r.Halts (.upTo child stopOnEmpty (count + 1)) st := by
  obtain ⟨v, st', run⟩ := body
  cases v with
  | failed => exact ⟨_, _, .upToEnd run⟩
  | aborted e => exact ⟨_, _, .upToAbort run⟩
  | matched =>
    by_cases advanced : stopOnEmpty = true → st'.stream.position.offset ≠ st.stream.position.offset
    · obtain ⟨u, st'', rest⟩ := more st' run advanced
      exact ⟨u, _, .upToNext run advanced rest⟩
    · obtain ⟨rfl, empty⟩ : stopOnEmpty = true ∧
          st'.stream.position.offset = st.stream.position.offset := by simpa using advanced
      exact ⟨_, _, .upToEmpty run empty⟩

end Recognizer

end Packrat

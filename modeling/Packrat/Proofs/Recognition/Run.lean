import Packrat.Recognition.Reduce
import Packrat.Proofs.Text.Reading

/-! # Finished reductions as a relation

`Runs` describes what a reduction that comes to an end has done, with one constructor for each way
a rule can end. Marks and scopes do not appear in it as open and closed brackets: a state is settled
against the state in which its mark was set. `perform_iff_runs` says that these are exactly the
answers of `reduce` for some depth, so every property of recognition is proved by induction on
`Runs`. What a run enters on its way is given by `Enters`, from one piece of work to the next.
-/

namespace Packrat

/-- A piece of work of the recognizer. -/
inductive Task where
  | rule (rule : Rule)
  /-- The expression `e` at the index `i`, without telling the observer. -/
  | operator (i : Nat) (e : Expr)
  | marked (task : Task)
  | all (children : List Nat)
  | first (children : List Nat)
  | repeated (child min max : Nat)
  | upTo (child : Nat) (stopOnEmpty : Bool) (count : Nat)

namespace State

variable {H S τ : Type}

/-- The state `st'` with its innermost mark closed, where `st` is the state that was marked. -/
def settled (st : State H S τ) (v : Verdict) (st' : State H S τ) : State H S τ :=
  { st' with stream := { st'.stream with
      position := if v.isMatched then st'.stream.position else st.stream.position
      marks := st.stream.marks } }

variable {st st' : State H S τ} {v : Verdict}

@[simp] theorem settled_marks : (st.settled v st').stream.marks = st.stream.marks := rfl

@[simp] theorem settled_host : (st.settled v st').host = st'.host := rfl

@[simp] theorem settled_memo : (st.settled v st').memo = st'.memo := rfl

theorem settle_eq (balanced : st'.stream.marks = st.mark.stream.marks) :
    st'.settle v = .ok (v, st.settled v st') := by
  have outstanding : st'.stream.marks = st.stream.position :: st.stream.marks := balanced
  cases v <;> simp [settle, release, reset, Stream.release, Stream.reset, outstanding, settled,
    Verdict.isMatched, Except.map]

theorem reset_eq (balanced : st'.stream.marks = st.mark.stream.marks) :
    st'.reset = .ok (st.settled .failed st') := by
  have outstanding : st'.stream.marks = st.stream.position :: st.stream.marks := balanced
  simp [reset, Stream.reset, outstanding, settled, Verdict.isMatched]

end State

namespace Recognizer

variable {H S τ : Type} (r : Recognizer H S τ)

/-- The state `st'` with its scope and its mark closed, where `st` is the state they were opened
in. -/
def closed (st : State H S τ) (v : Verdict) (st' : State H S τ) : State H S τ :=
  st.settled v { st' with host :=
    match v with
    | .matched => r.transaction.commit st'.host
    | _ => r.transaction.rollback st'.host }

/-- The match of the production `target` behind `st'` remembered, and its scope and mark closed. -/
def stored (reference target : Nat) (st st' : State H S τ) : State H S τ :=
  let length := st'.stream.position.offset - st.stream.position.offset
  let (snapshot, host) := r.transaction.save st'.host
  r.note (.stored reference) <| st.settled .matched
    { st' with
      host := r.transaction.commit host
      memo := st'.memo.insert target st.stream.position.offset ⟨length, snapshot⟩ }

/-- A reduction that came to an end with a verdict and a state. -/
inductive Runs : Task → State H S τ → Verdict → State H S τ → Prop
  | production {index root : Nat} {st st' : State H S τ} {v : Verdict}
      (defined : r.grammar.root? index = some root)
      (body : Runs (.marked (.rule (.expression root))) (r.note (.entered (.production index)) st) v st') :
      Runs (.rule (.production index)) st v (r.note (.left (.production index) v.isMatched) st')
  | expression {i : Nat} {e : Expr} {st st' : State H S τ} {v : Verdict}
      (present : r.grammar.expr? i = some e)
      (body : Runs (.operator i e) (r.note (.entered (.expression i)) st) v st') :
      Runs (.rule (.expression i)) st v (r.note (.left (.expression i) v.isMatched) st')
  | marked {task : Task} {st st' : State H S τ} {v : Verdict} (body : Runs task st.mark v st') :
      Runs (.marked task) st v (st.settled v st')
  | terminal {i : Nat} {t : Terminal} {st : State H S τ} :
      Runs (.operator i (.terminal t)) st (.ofBool (t.recognize st.stream).1)
        { st with stream := (t.recognize st.stream).2 }
  | reference {i target : Nat} {memo : Bool} {st st' : State H S τ} {v : Verdict}
      (plain : (memo && r.memoize) = false)
      (body : Runs (.marked (.rule (.production target))) st v st') :
      Runs (.operator i (.reference target memo)) st v st'
  | hit {i target : Nat} {memo : Bool} {st : State H S τ} {entry : Memo.Entry S}
      (memoized : (memo && r.memoize) = true)
      (found : st.memo.get? target st.stream.position.offset = some entry) :
      Runs (.operator i (.reference target memo)) st .matched (r.replay i entry st)
  | store {i target : Nat} {memo : Bool} {st st' : State H S τ}
      (memoized : (memo && r.memoize) = true)
      (missing : st.memo.get? target st.stream.position.offset = none)
      (body : Runs (.rule (.production target)) (r.openScope (r.note (.lookedUp i false) st)) .matched st') :
      Runs (.operator i (.reference target memo)) st .matched (r.stored i target st st')
  | miss {i target : Nat} {memo : Bool} {st st' : State H S τ} {v : Verdict}
      (memoized : (memo && r.memoize) = true)
      (missing : st.memo.get? target st.stream.position.offset = none)
      (body : Runs (.rule (.production target)) (r.openScope (r.note (.lookedUp i false) st)) v st')
      (unmatched : v ≠ .matched) :
      Runs (.operator i (.reference target memo)) st v (r.closed st v st')
  | act {i child : Nat} {name : String} {bound : Bool} {st st' st'' : State H S τ} {v : Verdict}
      (body : Runs (.rule (.expression child)) (r.openScope st) .matched st')
      (answered : r.handle name st' = .ok (v, st'')) :
      Runs (.operator i (.action child name bound)) st v (r.closed st v st'')
  | idle {i child : Nat} {name : String} {bound : Bool} {st st' : State H S τ} {v : Verdict}
      (body : Runs (.rule (.expression child)) (r.openScope st) v st') (unmatched : v ≠ .matched) :
      Runs (.operator i (.action child name bound)) st v (r.closed st v st')
  | undo {i child : Nat} {st st' : State H S τ} {v : Verdict}
      (body : Runs (.rule (.expression child)) (r.openScope st) v st') :
      Runs (.operator i (.undo child)) st v (r.closed st v st')
  | sequence {i : Nat} {children : List Nat} {st st' : State H S τ} {v : Verdict}
      (body : Runs (.marked (.all children)) st v st') :
      Runs (.operator i (.sequence children)) st v st'
  | choice {i : Nat} {children : List Nat} {st st' : State H S τ} {v : Verdict}
      (body : Runs (.first children) st v st') : Runs (.operator i (.choice children)) st v st'
  | repetition {i child min max : Nat} {st st' : State H S τ} {v : Verdict}
      (body : Runs (.marked (.repeated child min max)) st v st') :
      Runs (.operator i (.repetition child min max)) st v st'
  | present {i child : Nat} {st st' : State H S τ} {v : Verdict}
      (body : Runs (.rule (.expression child)) st.mark v st') :
      Runs (.operator i (.lookahead child .present)) st v (st.settled .failed st')
  | absent {i child : Nat} {st st' : State H S τ} {v : Verdict}
      (body : Runs (.rule (.expression child)) st.mark v st') :
      Runs (.operator i (.lookahead child .absent)) st v.negate (st.settled .failed st')
  | allDone {st : State H S τ} : Runs (.all []) st .matched st
  | allNext {child : Nat} {rest : List Nat} {st st' st'' : State H S τ} {v : Verdict}
      (head : Runs (.rule (.expression child)) st .matched st') (tail : Runs (.all rest) st' v st'') :
      Runs (.all (child :: rest)) st v st''
  | allStop {child : Nat} {rest : List Nat} {st st' : State H S τ} {v : Verdict}
      (head : Runs (.rule (.expression child)) st v st') (unmatched : v ≠ .matched) :
      Runs (.all (child :: rest)) st v st'
  | firstNone {st : State H S τ} : Runs (.first []) st .failed st
  | firstNext {child : Nat} {rest : List Nat} {st st' st'' : State H S τ} {v : Verdict}
      (head : Runs (.marked (.rule (.expression child))) st .failed st')
      (tail : Runs (.first rest) st' v st'') : Runs (.first (child :: rest)) st v st''
  | firstStop {child : Nat} {rest : List Nat} {st st' : State H S τ} {v : Verdict}
      (head : Runs (.marked (.rule (.expression child))) st v st') (decided : v ≠ .failed) :
      Runs (.first (child :: rest)) st v st'
  | repeatedEnough {child min max : Nat} {st st' st'' : State H S τ} {v : Verdict}
      (least : Runs (.all (List.replicate min child)) st .matched st')
      (more : Runs (.upTo child (max == unbounded) (max - min)) st' v st'') :
      Runs (.repeated child min max) st v st''
  | repeatedShort {child min max : Nat} {st st' : State H S τ} {v : Verdict}
      (least : Runs (.all (List.replicate min child)) st v st') (unmatched : v ≠ .matched) :
      Runs (.repeated child min max) st v st'
  | upToZero {child : Nat} {stopOnEmpty : Bool} {st : State H S τ} :
      Runs (.upTo child stopOnEmpty 0) st .matched st
  | upToEmpty {child count : Nat} {st st' : State H S τ}
      (body : Runs (.rule (.expression child)) st .matched st')
      (empty : st'.stream.position.offset = st.stream.position.offset) :
      Runs (.upTo child true (count + 1)) st .matched st'
  | upToNext {child count : Nat} {stopOnEmpty : Bool} {st st' st'' : State H S τ} {v : Verdict}
      (body : Runs (.rule (.expression child)) st .matched st')
      (advanced : stopOnEmpty = true → st'.stream.position.offset ≠ st.stream.position.offset)
      (more : Runs (.upTo child stopOnEmpty count) st' v st'') :
      Runs (.upTo child stopOnEmpty (count + 1)) st v st''
  | upToEnd {child count : Nat} {stopOnEmpty : Bool} {st st' : State H S τ}
      (body : Runs (.rule (.expression child)) st .failed st') :
      Runs (.upTo child stopOnEmpty (count + 1)) st .matched st'
  | upToAbort {child count : Nat} {stopOnEmpty : Bool} {st st' : State H S τ} {e : ActionError}
      (body : Runs (.rule (.expression child)) st (.aborted e) st') :
      Runs (.upTo child stopOnEmpty (count + 1)) st (.aborted e) st'

/-- Doing the first piece of work in its state, the recognizer comes to do the second in its. -/
inductive Enters : Task → State H S τ → Task → State H S τ → Prop
  | production {index root : Nat} {st : State H S τ} (defined : r.grammar.root? index = some root) :
      Enters (.rule (.production index)) st (.marked (.rule (.expression root)))
        (r.note (.entered (.production index)) st)
  | expression {i : Nat} {e : Expr} {st : State H S τ} (present : r.grammar.expr? i = some e) :
      Enters (.rule (.expression i)) st (.operator i e) (r.note (.entered (.expression i)) st)
  | marked {task : Task} {st : State H S τ} : Enters (.marked task) st task st.mark
  | reference {i target : Nat} {memo : Bool} {st : State H S τ} (plain : (memo && r.memoize) = false) :
      Enters (.operator i (.reference target memo)) st (.marked (.rule (.production target))) st
  | remembered {i target : Nat} {memo : Bool} {st : State H S τ} (memoized : (memo && r.memoize) = true)
      (missing : st.memo.get? target st.stream.position.offset = none) :
      Enters (.operator i (.reference target memo)) st (.rule (.production target))
        (r.openScope (r.note (.lookedUp i false) st))
  | action {i child : Nat} {name : String} {bound : Bool} {st : State H S τ} :
      Enters (.operator i (.action child name bound)) st (.rule (.expression child)) (r.openScope st)
  | undo {i child : Nat} {st : State H S τ} :
      Enters (.operator i (.undo child)) st (.rule (.expression child)) (r.openScope st)
  | sequence {i : Nat} {children : List Nat} {st : State H S τ} :
      Enters (.operator i (.sequence children)) st (.marked (.all children)) st
  | choice {i : Nat} {children : List Nat} {st : State H S τ} :
      Enters (.operator i (.choice children)) st (.first children) st
  | repetition {i child min max : Nat} {st : State H S τ} :
      Enters (.operator i (.repetition child min max)) st (.marked (.repeated child min max)) st
  | lookahead {i child : Nat} {sign : Lookahead} {st : State H S τ} :
      Enters (.operator i (.lookahead child sign)) st (.rule (.expression child)) st.mark
  | allHead {child : Nat} {rest : List Nat} {st : State H S τ} :
      Enters (.all (child :: rest)) st (.rule (.expression child)) st
  | allTail {child : Nat} {rest : List Nat} {st st' : State H S τ}
      (head : Runs r (.rule (.expression child)) st .matched st') :
      Enters (.all (child :: rest)) st (.all rest) st'
  | firstHead {child : Nat} {rest : List Nat} {st : State H S τ} :
      Enters (.first (child :: rest)) st (.marked (.rule (.expression child))) st
  | firstTail {child : Nat} {rest : List Nat} {st st' : State H S τ}
      (head : Runs r (.marked (.rule (.expression child))) st .failed st') :
      Enters (.first (child :: rest)) st (.first rest) st'
  | least {child min max : Nat} {st : State H S τ} :
      Enters (.repeated child min max) st (.all (List.replicate min child)) st
  | more {child min max : Nat} {st st' : State H S τ}
      (least : Runs r (.all (List.replicate min child)) st .matched st') :
      Enters (.repeated child min max) st (.upTo child (max == unbounded) (max - min)) st'
  | upToHead {child count : Nat} {stopOnEmpty : Bool} {st : State H S τ} :
      Enters (.upTo child stopOnEmpty (count + 1)) st (.rule (.expression child)) st
  | upToTail {child count : Nat} {stopOnEmpty : Bool} {st st' : State H S τ}
      (body : Runs r (.rule (.expression child)) st .matched st')
      (advanced : stopOnEmpty = true → st'.stream.position.offset ≠ st.stream.position.offset) :
      Enters (.upTo child stopOnEmpty (count + 1)) st (.upTo child stopOnEmpty count) st'

/-- Does a piece of work, at most `depth` rules deep. -/
def perform (depth : Nat) : Task → State H S τ → Reduction H S τ
  | .rule rule => r.reduce depth rule
  | .operator i e => r.expression (r.reduce depth) i e
  | .marked task => Reduction.marked (perform depth task)
  | .all children => Reduction.inSequence (fun child => r.reduce depth (.expression child)) children
  | .first children => Reduction.inOrder (fun child => r.reduce depth (.expression child)) children
  | .repeated child min max => repetition (r.reduce depth (.expression child)) min max
  | .upTo child stopOnEmpty count =>
    Reduction.atMost (r.reduce depth (.expression child)) stopOnEmpty count

variable {r} {task : Task} {st st' : State H S τ} {v : Verdict} {depth : Nat}

section Marks

@[simp] theorem note_stream (event : Event) (st : State H S τ) : (r.note event st).stream = st.stream := rfl

@[simp] theorem note_host (event : Event) (st : State H S τ) : (r.note event st).host = st.host := rfl

@[simp] theorem note_memo (event : Event) (st : State H S τ) : (r.note event st).memo = st.memo := rfl

theorem handle_stream {name : String} (answered : r.handle name st = .ok (v, st')) :
    st'.stream = st.stream := by
  unfold handle at answered
  split at answered
  · cases answered; rfl
  · dsimp only at answered
    split at answered <;> cases answered <;> rfl

theorem handle_memo {name : String} (answered : r.handle name st = .ok (v, st')) : st'.memo = st.memo := by
  unfold handle at answered
  split at answered
  · cases answered; rfl
  · dsimp only at answered
    split at answered <;> cases answered <;> rfl

/-- A run closes the marks it opens, and no others. -/
theorem Runs.marks (run : r.Runs task st v st') : st'.stream.marks = st.stream.marks := by
  induction run with
  | production _ _ ih => exact ih
  | expression _ _ ih => exact ih
  | terminal => exact Terminal.marks_recognize _ _
  | reference _ _ ih => exact ih
  | hit => exact Stream.marks_skip _ _
  | marked | store | miss | act | idle | undo | present | absent => rfl
  | sequence _ ih => exact ih
  | choice _ ih => exact ih
  | repetition _ ih => exact ih
  | allNext _ _ head tail => exact tail.trans head
  | firstNext _ _ head tail => exact tail.trans head
  | repeatedEnough _ _ least more => exact more.trans least
  | upToNext _ _ _ body more => exact more.trans body
  | allDone | firstNone | upToZero => rfl
  | allStop _ _ ih => exact ih
  | firstStop _ _ ih => exact ih
  | repeatedShort _ _ ih => exact ih
  | upToEmpty _ _ ih => exact ih
  | upToEnd _ ih => exact ih
  | upToAbort _ ih => exact ih

end Marks

section Answers

theorem exactly_eq (step : Nat → State H S τ → Reduction H S τ) (child count : Nat) :
    Reduction.exactly (step child) count = Reduction.inSequence step (List.replicate count child) := by
  induction count with
  | zero => rfl
  | succ count ih => funext st; simp only [Reduction.exactly, List.replicate_succ, Reduction.inSequence, ih]

theorem closeScope_eq (balanced : st'.stream.marks = st.mark.stream.marks) :
    r.closeScope v st' = .ok (v, r.closed st v st') := by
  unfold closeScope closed
  exact State.settle_eq balanced

theorem remember_eq (reference target : Nat) (balanced : st'.stream.marks = st.mark.stream.marks) :
    r.remember reference target st.stream.position.offset st' =
      .ok (.matched, r.stored reference target st st') := by
  have outstanding : st'.stream.marks = st.stream.position :: st.stream.marks := balanced
  simp [remember, stored, State.release, Stream.release, outstanding, State.settled, Verdict.isMatched,
    Stream.length, Stream.start]

theorem andThen_eq_ok {reduction : Reduction H S τ} {next : State H S τ → Reduction H S τ} :
    reduction.andThen next = .ok (v, st') ↔
      (∃ middle, reduction = .ok (.matched, middle) ∧ next middle = .ok (v, st')) ∨
      v ≠ .matched ∧ reduction = .ok (v, st') := by
  rcases reduction with fault | ⟨u, middle⟩
  · simp [Reduction.andThen]
  · cases u <;> cases v <;> simp [Reduction.andThen]

theorem otherwise_eq_ok {reduction : Reduction H S τ} {next : State H S τ → Reduction H S τ} :
    reduction.otherwise next = .ok (v, st') ↔
      (∃ middle, reduction = .ok (.failed, middle) ∧ next middle = .ok (v, st')) ∨
      v ≠ .failed ∧ reduction = .ok (v, st') := by
  rcases reduction with fault | ⟨u, middle⟩
  · simp [Reduction.otherwise]
  · cases u <;> cases v <;> simp [Reduction.otherwise]

theorem always_eq_ok {reduction : Reduction H S τ} {next : Verdict → State H S τ → Reduction H S τ} :
    reduction.always next = .ok (v, st') ↔
      ∃ u middle, reduction = .ok (u, middle) ∧ next u middle = .ok (v, st') := by
  rcases reduction with fault | ⟨u, middle⟩ <;> simp [Reduction.always]

/-- The rules of `reduce depth` answer as runs do. -/
private def Sound (r : Recognizer H S τ) (depth : Nat) : Prop :=
  ∀ rule st v st', r.reduce depth rule st = .ok (v, st') → r.Runs (.rule rule) st v st'

private theorem runs_of_marked {step : State H S τ → Reduction H S τ}
    (steps : ∀ st v st', step st = .ok (v, st') → r.Runs task st v st')
    (ended : Reduction.marked step st = .ok (v, st')) : r.Runs (.marked task) st v st' := by
  obtain ⟨u, middle, stepped, settled⟩ := always_eq_ok.mp ended
  have run := steps _ _ _ stepped
  rw [State.settle_eq run.marks] at settled
  cases settled
  exact .marked run

private theorem runs_of_inSequence (sound : r.Sound depth) (children : List Nat)
    (ended : r.perform depth (.all children) st = .ok (v, st')) : r.Runs (.all children) st v st' := by
  induction children generalizing st with
  | nil => cases ended; exact .allDone
  | cons child rest ih =>
    rcases andThen_eq_ok.mp ended with ⟨middle, head, tail⟩ | ⟨unmatched, head⟩
    · exact .allNext (sound _ _ _ _ head) (ih tail)
    · exact .allStop (sound _ _ _ _ head) unmatched

private theorem runs_of_inOrder (sound : r.Sound depth) (children : List Nat)
    (ended : r.perform depth (.first children) st = .ok (v, st')) : r.Runs (.first children) st v st' := by
  induction children generalizing st with
  | nil => cases ended; exact .firstNone
  | cons child rest ih =>
    rcases otherwise_eq_ok.mp ended with ⟨middle, head, tail⟩ | ⟨decided, head⟩
    · exact .firstNext (runs_of_marked (sound _) head) (ih tail)
    · exact .firstStop (runs_of_marked (sound _) head) decided

private theorem runs_of_atMost (sound : r.Sound depth) {child count : Nat} {stopOnEmpty : Bool}
    (ended : r.perform depth (.upTo child stopOnEmpty count) st = .ok (v, st')) :
    r.Runs (.upTo child stopOnEmpty count) st v st' := by
  induction count generalizing st with
  | zero => cases ended; exact .upToZero
  | succ count ih =>
    simp only [perform, Reduction.atMost] at ended ih
    cases stepped : r.reduce depth (.expression child) st with
    | error fault => rw [stepped] at ended; cases ended
    | ok answer =>
      obtain ⟨u, middle⟩ := answer
      have body := sound _ _ _ _ stepped
      rw [stepped] at ended
      cases u with
      | matched =>
        dsimp only at ended
        split at ended
        · next empty =>
          cases ended
          simp only [Bool.and_eq_true, beq_iff_eq] at empty
          obtain ⟨rfl, same⟩ := empty
          exact .upToEmpty body same
        · next advanced =>
          refine .upToNext body ?_ (ih ended)
          rintro rfl same
          simp [same] at advanced
      | failed => cases ended; exact .upToEnd body
      | aborted e => cases ended; exact .upToAbort body

private theorem runs_of_repetition (sound : r.Sound depth) {child min max : Nat}
    (ended : r.perform depth (.repeated child min max) st = .ok (v, st')) :
    r.Runs (.repeated child min max) st v st' := by
  simp only [perform, repetition,
    exactly_eq (fun child => r.reduce depth (.expression child))] at ended
  rcases andThen_eq_ok.mp ended with ⟨middle, least, more⟩ | ⟨unmatched, least⟩
  · exact .repeatedEnough (runs_of_inSequence sound _ least) (runs_of_atMost sound more)
  · exact .repeatedShort (runs_of_inSequence sound _ least) unmatched

private theorem runs_of_expression (sound : r.Sound depth) {i : Nat} {e : Expr}
    (ended : r.perform depth (.operator i e) st = .ok (v, st')) : r.Runs (.operator i e) st v st' := by
  cases e with
  | terminal t => cases ended; exact .terminal
  | reference target memo =>
    simp only [perform, expression] at ended
    split at ended
    · next memoized =>
      simp only [remembered] at ended
      split at ended
      · next entry found => cases ended; exact .hit memoized found
      · next missing =>
        obtain ⟨u, middle, stepped, closed⟩ := always_eq_ok.mp ended
        have run := sound _ _ _ _ stepped
        cases u with
        | matched =>
          dsimp only at closed
          have balanced : middle.stream.marks = st.mark.stream.marks := run.marks
          rw [remember_eq _ _ balanced] at closed
          cases closed
          exact .store memoized missing run
        | failed =>
          dsimp only at closed
          rw [closeScope_eq run.marks] at closed
          cases closed
          exact .miss memoized missing run Verdict.noConfusion
        | aborted e =>
          dsimp only at closed
          rw [closeScope_eq run.marks] at closed
          cases closed
          exact .miss memoized missing run Verdict.noConfusion
    · next plain => exact .reference (by simpa using plain) (runs_of_marked (sound _) ended)
  | action child name bound =>
    obtain ⟨u, middle, stepped, closed⟩ := always_eq_ok.mp ended
    rcases andThen_eq_ok.mp stepped with ⟨inner, body, answered⟩ | ⟨unmatched, body⟩
    · have run := sound _ _ _ _ body
      rw [closeScope_eq (by rw [handle_stream answered]; exact run.marks)] at closed
      cases closed
      exact .act run answered
    · have run := sound _ _ _ _ body
      rw [closeScope_eq run.marks] at closed
      cases closed
      exact .idle run unmatched
  | undo child =>
    obtain ⟨u, middle, stepped, closed⟩ := always_eq_ok.mp ended
    have body : r.reduce depth (.expression child) (r.openScope st) = .ok (u, middle) := by
      rcases andThen_eq_ok.mp stepped with ⟨inner, body, same⟩ | ⟨-, body⟩
      · cases same; exact body
      · exact body
    have run := sound _ _ _ _ body
    rw [closeScope_eq run.marks] at closed
    cases closed
    exact .undo run
  | sequence children =>
    exact .sequence (runs_of_marked (fun _ _ _ => runs_of_inSequence sound children) ended)
  | choice children => exact .choice (runs_of_inOrder sound children ended)
  | repetition child min max =>
    exact .repetition (runs_of_marked (fun _ _ _ => runs_of_repetition sound) ended)
  | lookahead child sign =>
    obtain ⟨u, middle, stepped, closed⟩ := always_eq_ok.mp ended
    have run := sound _ _ _ _ stepped
    cases sign with
    | present =>
      dsimp only at closed
      rw [State.reset_eq run.marks] at closed
      cases closed
      exact .present run
    | absent =>
      dsimp only at closed
      rw [State.reset_eq run.marks] at closed
      cases closed
      exact .absent run

private theorem sound_reduce (r : Recognizer H S τ) (depth : Nat) : r.Sound depth := by
  induction depth with
  | zero => intro rule st v st' ended; cases ended
  | succ depth ih =>
    intro rule st v st' ended
    cases rule with
    | production index =>
      rw [reduce] at ended
      split at ended
      · cases ended
      · next root defined =>
        obtain ⟨u, middle, stepped, told⟩ := always_eq_ok.mp ended
        cases told
        exact .production defined (runs_of_marked (ih _) stepped)
    | expression i =>
      rw [reduce] at ended
      split at ended
      · cases ended
      · next e present =>
        obtain ⟨u, middle, stepped, told⟩ := always_eq_ok.mp ended
        cases told
        exact .expression present (runs_of_expression ih stepped)

theorem runs_of_perform (ended : r.perform depth task st = .ok (v, st')) : r.Runs task st v st' := by
  induction task generalizing st v st' with
  | rule rule => exact sound_reduce r depth _ _ _ _ ended
  | operator i e => exact runs_of_expression (sound_reduce r depth) ended
  | marked task ih => exact runs_of_marked (fun _ _ _ => ih) ended
  | all children => exact runs_of_inSequence (sound_reduce r depth) children ended
  | first children => exact runs_of_inOrder (sound_reduce r depth) children ended
  | repeated child min max => exact runs_of_repetition (sound_reduce r depth) ended
  | upTo child stopOnEmpty count => exact runs_of_atMost (sound_reduce r depth) ended

/-- One more level for the rule that is entered. -/
private theorem eventually_succ {p : Nat → Prop}
    (holds : ∃ least, ∀ depth, least ≤ depth → p (depth + 1)) :
    ∃ least, ∀ depth, least ≤ depth → p depth := by
  obtain ⟨least, holds⟩ := holds
  refine ⟨least + 1, fun depth enough => ?_⟩
  obtain ⟨depth, rfl⟩ := Nat.exists_eq_add_of_le' (show 1 ≤ depth by omega)
  exact holds depth (by omega)

private theorem marked_eq_ok {step : State H S τ → Reduction H S τ}
    (stepped : step st.mark = .ok (v, st')) (balanced : st'.stream.marks = st.mark.stream.marks) :
    Reduction.marked step st = .ok (v, st.settled v st') := by
  simp only [Reduction.marked, stepped, Reduction.always, State.settle_eq balanced]

/-- From some depth on, a run is what `perform` answers. -/
theorem Runs.perform (run : r.Runs task st v st') :
    ∃ least, ∀ depth, least ≤ depth → r.perform depth task st = .ok (v, st') := by
  induction run with
  | production defined _ ih =>
    obtain ⟨least, body⟩ := ih
    refine eventually_succ ⟨least, fun depth enough => ?_⟩
    have body := body depth enough
    simp only [Recognizer.perform] at body
    simp only [Recognizer.perform, reduce, defined, observing, body, Reduction.always]
  | expression present _ ih =>
    obtain ⟨least, body⟩ := ih
    refine eventually_succ ⟨least, fun depth enough => ?_⟩
    have body := body depth enough
    simp only [Recognizer.perform] at body
    simp only [Recognizer.perform, reduce, present, observing, body, Reduction.always]
  | marked run ih =>
    obtain ⟨least, body⟩ := ih
    exact ⟨least, fun depth enough => marked_eq_ok (body depth enough) run.marks⟩
  | terminal => exact ⟨0, fun _ _ => rfl⟩
  | reference plain _ ih =>
    obtain ⟨least, body⟩ := ih
    refine ⟨least, fun depth enough => ?_⟩
    simp only [Recognizer.perform, Recognizer.expression, plain, Bool.false_eq_true, ↓reduceIte]
    exact body depth enough
  | hit memoized found =>
    refine ⟨0, fun depth _ => ?_⟩
    simp only [Recognizer.perform, Recognizer.expression, memoized, ↓reduceIte, remembered, found]
  | @store i target memo st st' memoized missing run ih =>
    obtain ⟨least, body⟩ := ih
    refine ⟨least, fun depth enough => ?_⟩
    have body := body depth enough
    have balanced : st'.stream.marks = st.mark.stream.marks := run.marks
    simp only [Recognizer.perform] at body
    simp only [Recognizer.perform, Recognizer.expression, memoized, ↓reduceIte, remembered, missing,
      body, Reduction.always, remember_eq i target balanced]
  | @miss i target memo st st' v memoized missing run unmatched ih =>
    obtain ⟨least, body⟩ := ih
    refine ⟨least, fun depth enough => ?_⟩
    have body := body depth enough
    have balanced : st'.stream.marks = st.mark.stream.marks := run.marks
    simp only [Recognizer.perform] at body
    simp only [Recognizer.perform, Recognizer.expression, memoized, ↓reduceIte, remembered, missing,
      body, Reduction.always]
    cases v with
    | matched => exact absurd rfl unmatched
    | failed => exact closeScope_eq balanced
    | aborted e => exact closeScope_eq balanced
  | @act i child name bound st st' st'' v run answered ih =>
    obtain ⟨least, body⟩ := ih
    refine ⟨least, fun depth enough => ?_⟩
    have body := body depth enough
    have balanced : st''.stream.marks = st.mark.stream.marks := by
      rw [handle_stream answered]
      exact run.marks
    simp only [Recognizer.perform] at body
    simp only [Recognizer.perform, Recognizer.expression, action, body, Reduction.andThen, answered,
      Reduction.always, closeScope_eq balanced]
  | @idle i child name bound st st' v run unmatched ih =>
    obtain ⟨least, body⟩ := ih
    refine ⟨least, fun depth enough => ?_⟩
    have stopped : Reduction.andThen (r.reduce depth (.expression child) (r.openScope st)) (r.handle name) =
        .ok (v, st') := andThen_eq_ok.mpr (.inr ⟨unmatched, body depth enough⟩)
    have balanced : st'.stream.marks = st.mark.stream.marks := run.marks
    simp only [Recognizer.perform, Recognizer.expression, action, stopped, Reduction.always,
      closeScope_eq balanced]
  | @undo i child st st' v run ih =>
    obtain ⟨least, body⟩ := ih
    refine ⟨least, fun depth enough => ?_⟩
    have body := body depth enough
    have balanced : st'.stream.marks = st.mark.stream.marks := run.marks
    simp only [Recognizer.perform] at body
    have accepted : Reduction.andThen (.ok (v, st')) (fun st => .ok (.matched, st)) = .ok (v, st') := by
      cases v <;> rfl
    simp only [Recognizer.perform, Recognizer.expression, action, body, accepted, Reduction.always,
      closeScope_eq balanced]
  | sequence _ ih => exact ih
  | choice _ ih => exact ih
  | repetition _ ih => exact ih
  | @present i child st st' v run ih =>
    obtain ⟨least, body⟩ := ih
    refine ⟨least, fun depth enough => ?_⟩
    have body := body depth enough
    simp only [Recognizer.perform] at body
    simp only [Recognizer.perform, Recognizer.expression, lookahead, body, Reduction.always,
      State.reset_eq run.marks]
    rfl
  | @absent i child st st' v run ih =>
    obtain ⟨least, body⟩ := ih
    refine ⟨least, fun depth enough => ?_⟩
    have body := body depth enough
    simp only [Recognizer.perform] at body
    simp only [Recognizer.perform, Recognizer.expression, lookahead, body, Reduction.always,
      State.reset_eq run.marks]
    rfl
  | allDone => exact ⟨0, fun _ _ => rfl⟩
  | allNext _ _ head tail =>
    obtain ⟨n, head⟩ := head
    obtain ⟨m, tail⟩ := tail
    exact ⟨max n m, fun depth enough =>
      andThen_eq_ok.mpr (.inl ⟨_, head depth (by omega), tail depth (by omega)⟩)⟩
  | allStop _ unmatched ih =>
    obtain ⟨least, head⟩ := ih
    exact ⟨least, fun depth enough => andThen_eq_ok.mpr (.inr ⟨unmatched, head depth enough⟩)⟩
  | firstNone => exact ⟨0, fun _ _ => rfl⟩
  | firstNext _ _ head tail =>
    obtain ⟨n, head⟩ := head
    obtain ⟨m, tail⟩ := tail
    exact ⟨max n m, fun depth enough =>
      otherwise_eq_ok.mpr (.inl ⟨_, head depth (by omega), tail depth (by omega)⟩)⟩
  | firstStop _ decided ih =>
    obtain ⟨least, head⟩ := ih
    exact ⟨least, fun depth enough => otherwise_eq_ok.mpr (.inr ⟨decided, head depth enough⟩)⟩
  | repeatedEnough _ _ least more =>
    obtain ⟨n, least⟩ := least
    obtain ⟨m, more⟩ := more
    refine ⟨max n m, fun depth enough => ?_⟩
    simp only [Recognizer.perform, Recognizer.repetition,
      exactly_eq (fun child => r.reduce depth (.expression child))]
    exact andThen_eq_ok.mpr (.inl ⟨_, least depth (by omega), more depth (by omega)⟩)
  | repeatedShort _ unmatched ih =>
    obtain ⟨n, least⟩ := ih
    refine ⟨n, fun depth enough => ?_⟩
    simp only [Recognizer.perform, Recognizer.repetition,
      exactly_eq (fun child => r.reduce depth (.expression child))]
    exact andThen_eq_ok.mpr (.inr ⟨unmatched, least depth enough⟩)
  | upToZero => exact ⟨0, fun _ _ => rfl⟩
  | upToEmpty _ empty ih =>
    obtain ⟨least, body⟩ := ih
    refine ⟨least, fun depth enough => ?_⟩
    have body := body depth enough
    simp only [Recognizer.perform] at body
    simp [Recognizer.perform, Reduction.atMost, body, empty]
  | @upToNext child count stopOnEmpty st st' st'' v _ advanced _ body more =>
    obtain ⟨n, body⟩ := body
    obtain ⟨m, more⟩ := more
    refine ⟨max n m, fun depth enough => ?_⟩
    have body := body depth (by omega)
    have goesOn : (stopOnEmpty && st'.stream.position.offset == st.stream.position.offset) = false := by
      cases stopOnEmpty with
      | false => rfl
      | true => simpa using advanced rfl
    simp only [Recognizer.perform] at body
    simp only [Recognizer.perform, Reduction.atMost, body, goesOn, Bool.false_eq_true, ↓reduceIte]
    exact more depth (by omega)
  | upToEnd _ ih =>
    obtain ⟨least, body⟩ := ih
    refine ⟨least, fun depth enough => ?_⟩
    have body := body depth enough
    simp only [Recognizer.perform] at body
    simp only [Recognizer.perform, Reduction.atMost, body]
  | upToAbort _ ih =>
    obtain ⟨least, body⟩ := ih
    refine ⟨least, fun depth enough => ?_⟩
    have body := body depth enough
    simp only [Recognizer.perform] at body
    simp only [Recognizer.perform, Reduction.atMost, body]

/-- Runs are exactly the answers of the recognizer. -/
theorem perform_iff_runs : (∃ depth, r.perform depth task st = .ok (v, st')) ↔ r.Runs task st v st' := by
  constructor
  · rintro ⟨depth, ended⟩
    exact runs_of_perform ended
  · intro run
    obtain ⟨least, ended⟩ := run.perform
    exact ⟨least, ended least (Nat.le_refl _)⟩

/-- The answer does not depend on the depth once it is enough. -/
theorem Runs.deterministic {u : Verdict} {st'' : State H S τ} (one : r.Runs task st v st')
    (other : r.Runs task st u st'') : v = u ∧ st' = st'' := by
  obtain ⟨n, one⟩ := one.perform
  obtain ⟨m, other⟩ := other.perform
  have same := (one (max n m) (by omega)).symm.trans (other (max n m) (by omega))
  cases same
  exact ⟨rfl, rfl⟩

end Answers

end Recognizer

end Packrat

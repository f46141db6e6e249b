import Packrat.Proofs.Grammar.Twins
import Packrat.Proofs.Memo
import Packrat.Proofs.Recognition.Refinement
import Packrat.Proofs.Text.Marks

/-! # What scopes leave alone

Opening and closing a scope changes marks, the host and what an observer sees. What is left of a state when all this is
put aside is its sight: the text without marks, what a view keeps of the host, how long remembered matches are, and the
farthest failure. As far as a view of the host is concerned, a recognizer acts on sights.
-/

namespace Packrat

/-- What is kept of a host and of what was observed. -/
structure View (H τ α : Type) where
  host : H → α
  farthest : τ → Farthest

/-- What scopes leave alone of a state. -/
structure Sight (α : Type) where
  /-- The stream without its marks. -/
  stream : Stream
  host : α
  /-- How long the remembered match of a production at an offset is. -/
  length? : Nat → Nat → Option Nat
  farthest : Farthest

namespace Sight

variable {α : Type}

/-- Asks the handler of the action `name` about the text from `start` on. -/
def ask (handlers : String → Handler α) (name : String) (start : Position) (sight : Sight α) : Verdict × Sight α :=
  let context := (sight.stream.under [start]).context
  let (answer, host) := handlers name context sight.host
  (.ofAnswer name context answer, { sight with host })

/-- Goes back to `start`, unless the verdict is a match. -/
def settle (v : Verdict) (start : Position) (sight : Sight α) : Sight α :=
  { sight with stream := { sight.stream with position := if v.isMatched then sight.stream.position else start } }

/-- Takes note of an event. -/
def note (g : Grammar) (event : Event) (sight : Sight α) : Sight α :=
  { sight with farthest := Farthest.observe g sight.stream event sight.farthest }

/-- Remembers the match of `target` from `offset` on. -/
def store (target offset : Nat) (sight : Sight α) : Sight α :=
  { sight with length? := fun p o =>
      if Memo.key target offset = Memo.key p o then some (sight.stream.position.offset - offset)
      else sight.length? p o }

end Sight

namespace State

variable {H S τ α : Type} (view : View H τ α)

def sight (st : State H S τ) : Sight α where
  stream := st.stream.under []
  host := view.host st.host
  length? production offset := (st.memo.get? production offset).map Memo.Entry.length
  farthest := view.farthest st.observed

variable {view} {st st' : State H S τ} {v : Verdict}

@[simp] theorem sight_mark : st.mark.sight view = st.sight view := rfl

@[simp] theorem position_sight : (st.sight view).stream.position = st.stream.position := rfl

theorem sight_settled : (st.settled v st').sight view = (st'.sight view).settle v st.stream.position := rfl

/-- There is no way to go back if the position was restored before. -/
theorem settle_sight (restored : v ≠ .matched → st'.stream.position = st.stream.position) :
    (st'.sight view).settle v st.stream.position = st'.sight view := by
  cases v with
  | matched => rfl
  | failed => rw [← restored nofun]; rfl
  | aborted e => rw [← restored nofun]; rfl

end State

namespace Recognizer

variable {H S τ α : Type}

/-- Through the view, scopes and remembered changes do not show, the handlers are `handlers`, and the farthest failure
is kept. -/
structure Seen (r : Recognizer H S τ) (view : View H τ α) (handlers : String → Handler α) : Prop where
  start : ∀ host, view.host (r.transaction.start host) = view.host host
  commit : ∀ host, view.host (r.transaction.commit host) = view.host host
  rollback : ∀ host, view.host (r.transaction.rollback host) = view.host host
  save : ∀ host, view.host (r.transaction.save host).2 = view.host host
  load : ∀ snapshot host, view.host (r.transaction.load snapshot host) = view.host host
  handled : ∀ {name handler}, r.handlers.find? name = some handler → ∀ context host,
    (handler context host).1 = (handlers name context (view.host host)).1 ∧
      view.host (handler context host).2 = (handlers name context (view.host host)).2
  unhandled : ∀ {name}, r.handlers.find? name = none → ∀ context host, handlers name context host = (.ok true, host)
  observed : ∀ s event w,
    view.farthest (r.observer r.grammar s event w) = Farthest.observe r.grammar s event (view.farthest w)

namespace Seen

variable {r : Recognizer H S τ} {view : View H τ α} {handlers : String → Handler α} {st st' : State H S τ} {v : Verdict}
  {i k child target : Nat} {start : Position} {outer : List Position} (seen : r.Seen view handlers)

include seen

theorem note (event : Event) : (r.note event st).sight view = (st.sight view).note r.grammar event := by
  simp only [State.sight, Recognizer.note, Sight.note, seen.observed]
  rfl

theorem openScope : (r.openScope st).sight view = st.sight view := by
  simp only [State.sight, Recognizer.openScope, seen.start]
  rfl

theorem closed : (r.closed st v st').sight view = (st'.sight view).settle v st.stream.position := by
  cases v <;> simp only [State.sight, Recognizer.closed, State.settled, seen.commit, seen.rollback] <;> rfl

theorem stored (reference : Nat) : (r.stored reference target st st').sight view =
    (st'.sight view).store target st.stream.position.offset := by
  rw [Recognizer.stored, seen.note, State.sight_settled, State.sight]
  simp only [seen.commit, seen.save, Memo.Table.get?_insert, apply_ite, Option.map_some]
  rfl

theorem replay (reference : Nat) (entry : Memo.Entry S) : (r.replay reference entry st).sight view =
    { st.sight view with stream := ((st.sight view).stream.skip entry.length).2 } := by
  have loaded : view.host (r.transaction.restore entry st.host) = view.host st.host := by
    unfold Transaction.restore
    split
    · exact seen.load _ _
    · rfl
  have shown : (r.replay reference entry st).sight view =
      (State.sight view { st with host := r.transaction.restore entry st.host,
                                  stream := (st.stream.skip entry.length).2 }).note r.grammar
        (.lookedUp reference true) := seen.note _
  rw [shown, State.sight, loaded, State.sight, Stream.skip_under]
  rfl

/-- A handler is asked about what is in sight. -/
theorem handle (name : String) (outstanding : st.stream.marks = start :: outer) : ∃ st',
    r.handle name st = .ok (((st.sight view).ask handlers name start).1, st') ∧
      st'.sight view = ((st.sight view).ask handlers name start).2 := by
  have told : ((st.sight view).stream.under [start]).context = st.stream.context := by
    simp only [State.sight, Stream.under, Stream.context, Stream.chars, Stream.span, Stream.start, Stream.index,
      outstanding, List.headD_cons]
  unfold Recognizer.handle Sight.ask
  rw [told]
  cases found : r.handlers.find? name with
  | none =>
    dsimp only
    rw [seen.unhandled found]
    exact ⟨st, rfl, rfl⟩
  | some handler =>
    obtain ⟨answered, changed⟩ := seen.handled found st.stream.context st.host
    dsimp only
    rw [← show view.host st.host = (st.sight view).host from rfl, ← answered, ← changed]
    rcases handler st.stream.context st.host with ⟨message | accepted, host⟩
    · exact ⟨_, rfl, rfl⟩
    · exact ⟨_, rfl, rfl⟩

theorem note_entered_undo (present : r.grammar.expr? i = some (.undo child)) :
    (r.note (.entered (.expression i)) st).sight view = st.sight view := by
  rw [seen.note, Sight.note, Farthest.observe]
  simp only [present]

theorem note_left_undo (present : r.grammar.expr? i = some (.undo child)) (success : Bool) :
    (r.note (.left (.expression i) success) st).sight view = st.sight view := by
  rw [seen.note, Sight.note, Farthest.observe]
  simp only [present]

/-- The scope around a run does not show. -/
theorem undone (run : r.Runs (.rule (.expression child)) (r.openScope st) v st') :
    (r.closed st v st').sight view = st'.sight view := by
  rw [seen.closed]
  exact State.settle_sight (run.restored rfl)

end Seen

/-- From every state in the sight `before`, the task ends with the verdict `v`, in the sight `after`. -/
def Shows (r : Recognizer H S τ) (view : View H τ α) (task : Task) (before : Sight α) (v : Verdict)
    (after : Sight α) : Prop :=
  ∀ st, st.sight view = before → ∃ st', r.Runs task st v st' ∧ st'.sight view = after

namespace Shows

variable {r : Recognizer H S τ} {view : View H τ α} {handlers : String → Handler α} {task : Task} {v : Verdict}
  {before middle after : Sight α} {i k child target root index min max count : Nat} {children rest : List Nat}
  {memo stopOnEmpty : Bool}

theorem marked (body : r.Shows view task before v after) :
    r.Shows view (.marked task) before v (after.settle v before.stream.position) := by
  rintro st rfl
  obtain ⟨st', run, rfl⟩ := body st.mark rfl
  exact ⟨_, .marked run, rfl⟩

theorem terminal (t : Terminal) : r.Shows view (.operator i (.terminal t)) before
    (.ofBool (t.recognize before.stream).1) { before with stream := (t.recognize before.stream).2 } := by
  rintro st rfl
  simp only [State.sight, Terminal.recognize_under]
  exact ⟨_, .terminal, rfl⟩

theorem reference (plain : (memo && r.memoize) = false)
    (body : r.Shows view (.marked (.rule (.production target))) before v after) :
    r.Shows view (.operator i (.reference target memo)) before v after := by
  rintro st rfl
  obtain ⟨st', run, rfl⟩ := body st rfl
  exact ⟨st', .reference plain run, rfl⟩

theorem sequence (body : r.Shows view (.marked (.all children)) before v after) :
    r.Shows view (.operator i (.sequence children)) before v after := by
  rintro st rfl
  obtain ⟨st', run, rfl⟩ := body st rfl
  exact ⟨st', .sequence run, rfl⟩

theorem choice (body : r.Shows view (.first children) before v after) :
    r.Shows view (.operator i (.choice children)) before v after := by
  rintro st rfl
  obtain ⟨st', run, rfl⟩ := body st rfl
  exact ⟨st', .choice run, rfl⟩

theorem repetition (body : r.Shows view (.marked (.repeated child min max)) before v after) :
    r.Shows view (.operator i (.repetition child min max)) before v after := by
  rintro st rfl
  obtain ⟨st', run, rfl⟩ := body st rfl
  exact ⟨st', .repetition run, rfl⟩

theorem present (body : r.Shows view (.rule (.expression child)) before v after) :
    r.Shows view (.operator i (.lookahead child .present)) before v
      (after.settle .failed before.stream.position) := by
  rintro st rfl
  obtain ⟨st', run, rfl⟩ := body st.mark rfl
  exact ⟨_, .present run, rfl⟩

theorem absent (body : r.Shows view (.rule (.expression child)) before v after) :
    r.Shows view (.operator i (.lookahead child .absent)) before v.negate
      (after.settle .failed before.stream.position) := by
  rintro st rfl
  obtain ⟨st', run, rfl⟩ := body st.mark rfl
  exact ⟨_, .absent run, rfl⟩

theorem allDone : r.Shows view (.all []) before .matched before :=
  fun st same => ⟨st, .allDone, same⟩

theorem allNext (head : r.Shows view (.rule (.expression child)) before .matched middle)
    (tail : r.Shows view (.all rest) middle v after) : r.Shows view (.all (child :: rest)) before v after := by
  rintro st rfl
  obtain ⟨st', run, rfl⟩ := head st rfl
  obtain ⟨st'', run', rfl⟩ := tail st' rfl
  exact ⟨st'', .allNext run run', rfl⟩

theorem allStop (head : r.Shows view (.rule (.expression child)) before v after) (unmatched : v ≠ .matched) :
    r.Shows view (.all (child :: rest)) before v after := by
  rintro st rfl
  obtain ⟨st', run, rfl⟩ := head st rfl
  exact ⟨st', .allStop run unmatched, rfl⟩

theorem firstNone : r.Shows view (.first []) before .failed before :=
  fun st same => ⟨st, .firstNone, same⟩

theorem firstNext (head : r.Shows view (.marked (.rule (.expression child))) before .failed middle)
    (tail : r.Shows view (.first rest) middle v after) : r.Shows view (.first (child :: rest)) before v after := by
  rintro st rfl
  obtain ⟨st', run, rfl⟩ := head st rfl
  obtain ⟨st'', run', rfl⟩ := tail st' rfl
  exact ⟨st'', .firstNext run run', rfl⟩

theorem firstStop (head : r.Shows view (.marked (.rule (.expression child))) before v after) (decided : v ≠ .failed) :
    r.Shows view (.first (child :: rest)) before v after := by
  rintro st rfl
  obtain ⟨st', run, rfl⟩ := head st rfl
  exact ⟨st', .firstStop run decided, rfl⟩

theorem repeatedEnough (least : r.Shows view (.all (List.replicate min child)) before .matched middle)
    (more : r.Shows view (.upTo child (max == unbounded) (max - min)) middle v after) :
    r.Shows view (.repeated child min max) before v after := by
  rintro st rfl
  obtain ⟨st', run, rfl⟩ := least st rfl
  obtain ⟨st'', run', rfl⟩ := more st' rfl
  exact ⟨st'', .repeatedEnough run run', rfl⟩

theorem repeatedShort (least : r.Shows view (.all (List.replicate min child)) before v after)
    (unmatched : v ≠ .matched) : r.Shows view (.repeated child min max) before v after := by
  rintro st rfl
  obtain ⟨st', run, rfl⟩ := least st rfl
  exact ⟨st', .repeatedShort run unmatched, rfl⟩

theorem upToZero : r.Shows view (.upTo child stopOnEmpty 0) before .matched before :=
  fun st same => ⟨st, .upToZero, same⟩

theorem upToEmpty (body : r.Shows view (.rule (.expression child)) before .matched after)
    (empty : after.stream.position.offset = before.stream.position.offset) :
    r.Shows view (.upTo child true (count + 1)) before .matched after := by
  rintro st rfl
  obtain ⟨st', run, rfl⟩ := body st rfl
  exact ⟨st', .upToEmpty run empty, rfl⟩

theorem upToNext (body : r.Shows view (.rule (.expression child)) before .matched middle)
    (advanced : stopOnEmpty = true → middle.stream.position.offset ≠ before.stream.position.offset)
    (more : r.Shows view (.upTo child stopOnEmpty count) middle v after) :
    r.Shows view (.upTo child stopOnEmpty (count + 1)) before v after := by
  rintro st rfl
  obtain ⟨st', run, rfl⟩ := body st rfl
  obtain ⟨st'', run', rfl⟩ := more st' rfl
  exact ⟨st'', .upToNext run advanced run', rfl⟩

theorem upToEnd (body : r.Shows view (.rule (.expression child)) before .failed after) :
    r.Shows view (.upTo child stopOnEmpty (count + 1)) before .matched after := by
  rintro st rfl
  obtain ⟨st', run, rfl⟩ := body st rfl
  exact ⟨st', .upToEnd run, rfl⟩

theorem upToAbort {e : ActionError} (body : r.Shows view (.rule (.expression child)) before (.aborted e) after) :
    r.Shows view (.upTo child stopOnEmpty (count + 1)) before (.aborted e) after := by
  rintro st rfl
  obtain ⟨st', run, rfl⟩ := body st rfl
  exact ⟨st', .upToAbort run, rfl⟩

section

variable (seen : r.Seen view handlers)

include seen

theorem production (defined : r.grammar.root? index = some root)
    (body : r.Shows view (.marked (.rule (.expression root))) before v after) :
    r.Shows view (.rule (.production index)) before v after := by
  rintro st rfl
  obtain ⟨st', run, rfl⟩ := body (r.note (.entered (.production index)) st) (seen.note _)
  exact ⟨_, .production defined run, seen.note _⟩

theorem expression {e : Expr} (present : r.grammar.expr? i = some e)
    (body : r.Shows view (.operator i e) (before.note r.grammar (.entered (.expression i))) v after) :
    r.Shows view (.rule (.expression i)) before v
      (after.note r.grammar (.left (.expression i) v.isMatched)) := by
  rintro st rfl
  obtain ⟨st', run, rfl⟩ := body (r.note (.entered (.expression i)) st) (seen.note _)
  exact ⟨_, .expression present run, seen.note _⟩

theorem hit {length : Nat} (memoized : (memo && r.memoize) = true)
    (found : before.length? target before.stream.position.offset = some length) :
    r.Shows view (.operator i (.reference target memo)) before .matched
      { before with stream := (before.stream.skip length).2 } := by
  rintro st rfl
  obtain ⟨entry, here, rfl⟩ := Option.map_eq_some_iff.mp found
  exact ⟨_, .hit memoized here, seen.replay i entry⟩

theorem store (memoized : (memo && r.memoize) = true)
    (missing : before.length? target before.stream.position.offset = none)
    (body : r.Shows view (.rule (.production target)) before .matched after) :
    r.Shows view (.operator i (.reference target memo)) before .matched
      (after.store target before.stream.position.offset) := by
  rintro st rfl
  obtain ⟨st', run, rfl⟩ := body (r.openScope (r.note (.lookedUp i false) st)) (by rw [seen.openScope, seen.note]; rfl)
  exact ⟨_, .store memoized (Option.map_eq_none_iff.mp missing) run, seen.stored i⟩

theorem miss (memoized : (memo && r.memoize) = true)
    (missing : before.length? target before.stream.position.offset = none)
    (body : r.Shows view (.rule (.production target)) before v after) (unmatched : v ≠ .matched) :
    r.Shows view (.operator i (.reference target memo)) before v (after.settle v before.stream.position) := by
  rintro st rfl
  obtain ⟨st', run, rfl⟩ := body (r.openScope (r.note (.lookedUp i false) st)) (by rw [seen.openScope, seen.note]; rfl)
  exact ⟨_, .miss memoized (Option.map_eq_none_iff.mp missing) run unmatched, seen.closed⟩

theorem act {name : String} {bound : Bool} (body : r.Shows view (.rule (.expression child)) before .matched middle) :
    r.Shows view (.operator i (.action child name bound)) before
      (middle.ask handlers name before.stream.position).1
      ((middle.ask handlers name before.stream.position).2.settle
        (middle.ask handlers name before.stream.position).1 before.stream.position) := by
  rintro st rfl
  obtain ⟨st', run, rfl⟩ := body (r.openScope st) seen.openScope
  obtain ⟨st'', answered, shown⟩ := seen.handle name run.marks
  refine ⟨_, .act run answered, ?_⟩
  rw [seen.closed, shown]
  rfl

theorem idle {name : String} {bound : Bool} (body : r.Shows view (.rule (.expression child)) before v after)
    (unmatched : v ≠ .matched) : r.Shows view (.operator i (.action child name bound)) before v
      (after.settle v before.stream.position) := by
  rintro st rfl
  obtain ⟨st', run, rfl⟩ := body (r.openScope st) seen.openScope
  exact ⟨_, .idle run unmatched, seen.closed⟩

/-- What the operator inside of undo scopes does, they do. -/
theorem through (core : r.grammar.Core k i) (inside : r.Shows view (.rule (.expression k)) before v after) :
    r.Shows view (.rule (.expression i)) before v after := by
  induction core with
  | here => exact inside
  | @inside i child present _ ih =>
    rintro st rfl
    obtain ⟨st', run, rfl⟩ := ih (r.openScope (r.note (.entered (.expression i)) st)) (by
      rw [seen.openScope, seen.note_entered_undo present])
    refine ⟨_, .expression present (.undo run), ?_⟩
    rw [seen.note_left_undo present, seen.undone run]

end

end Shows

end Recognizer

end Packrat

import Packrat.Proofs.Recognition.Faults
import Packrat.Proofs.Recognition.Images
import Packrat.Proofs.Recognition.Progress

/-! # Marks and scopes of a reduction

A recorded recognizer keeps the calls to its host beside the host and does all else as before, which
`forget_reduce` makes precise: without the record, it answers what the recognizer itself answers. What is
recorded during a reduction opens and closes scopes in nested pairs, whatever the verdict is. The marks of the
stream pair up in the same way, so none is ever closed that is not open.
-/

namespace Packrat

/-- A call of a recognizer to its host. -/
inductive HostCall where
  | start
  | commit
  | rollback
  | save
  | load
deriving DecidableEq, Repr

namespace HostCall

/-- The number of open scopes behind a call, with `depth` of them open before it. Without an open scope there is
nothing to close and nothing to save. -/
def scopes? (depth : Nat) : HostCall → Option Nat
  | start => some (depth + 1)
  | commit | rollback => if depth = 0 then none else some (depth - 1)
  | save => if depth = 0 then none else some depth
  | load => some depth

/-- Every scope that the calls open is closed again, and no other one is closed or saved. -/
def Nested (calls : List HostCall) : Prop := calls.foldlM scopes? 0 = some 0

instance (calls : List HostCall) : Decidable (Nested calls) := inferInstanceAs (Decidable (_ = _))

variable {calls left right inner : List HostCall}

private theorem scopes?_add {call : HostCall} {depth depth' : Nat} (made : call.scopes? depth = some depth')
    (more : Nat) : call.scopes? (depth + more) = some (depth' + more) := by
  cases call with
  | start => cases made; simp only [scopes?, Option.some.injEq]; omega
  | load => cases made; rfl
  | commit | rollback =>
    simp only [scopes?, Option.ite_none_left_eq_some, Option.some.injEq] at made ⊢
    omega
  | save =>
    simp only [scopes?, Option.ite_none_left_eq_some, Option.some.injEq] at made ⊢
    omega

/-- Calls do the same with more scopes open around them. -/
private theorem foldlM_add {depth depth' : Nat} (made : calls.foldlM scopes? depth = some depth') (more : Nat) :
    calls.foldlM scopes? (depth + more) = some (depth' + more) := by
  induction calls generalizing depth with
  | nil => cases made; rfl
  | cons call rest ih =>
    rw [List.foldlM_cons] at made ⊢
    obtain ⟨middle, first, made⟩ := Option.bind_eq_some_iff.mp made
    rw [scopes?_add first more]
    exact ih made

theorem Nested.nil : Nested [] := rfl

theorem Nested.append (first : Nested left) (second : Nested right) : Nested (left ++ right) := by
  rw [Nested, List.foldlM_append, show left.foldlM scopes? 0 = some 0 from first]
  exact second

/-- A scope around nested calls, closed by the calls `closing`. -/
theorem Nested.scope (nested : Nested inner) {closing : List HostCall} (closes : closing.foldlM scopes? 1 = some 0) :
    Nested ([.start] ++ inner ++ closing) := by
  have inside : inner.foldlM scopes? 1 = some 1 := foldlM_add nested 1
  rw [Nested, List.foldlM_append, List.foldlM_append]
  change (inner.foldlM scopes? 1 >>= fun depth => closing.foldlM scopes? depth) = some 0
  rw [inside]
  exact closes

end HostCall

variable {H S τ : Type}

/-- The same scopes, with a record of the calls beside the host. -/
def Transaction.recorded (t : Transaction H S) : Transaction (H × List HostCall) S where
  start host := (t.start host.1, host.2 ++ [.start])
  commit host := (t.commit host.1, host.2 ++ [.commit])
  rollback host := (t.rollback host.1, host.2 ++ [.rollback])
  save host := ((t.save host.1).1, (t.save host.1).2, host.2 ++ [.save])
  load snapshot host := (t.load snapshot host.1, host.2 ++ [.load])
  memoable host := t.memoable host.1

/-- The handler with the host itself, the record is out of its reach. -/
def Handler.recorded (handler : Handler H) : Handler (H × List HostCall) :=
  fun context host => ((handler context host.1).1, (handler context host.1).2, host.2)

def Handlers.recorded (handlers : Handlers H) : Handlers (H × List HostCall) :=
  ⟨handlers.entries.map fun entry => (entry.1, entry.2.recorded)⟩

theorem Handlers.find?_recorded (handlers : Handlers H) (name : String) :
    handlers.recorded.find? name = (handlers.find? name).map Handler.recorded := by
  simp [recorded, find?, Array.find?_map, Function.comp_def]

namespace State

/-- The state with a record of the calls made so far. -/
def recorded (st : State H S τ) (calls : List HostCall) : State (H × List HostCall) S τ :=
  ⟨st.stream, (st.host, calls), st.memo, st.observed⟩

/-- The state without the record. -/
def forget (st : State (H × List HostCall) S τ) : State H S τ := ⟨st.stream, st.host.1, st.memo, st.observed⟩

@[simp] theorem forget_recorded (st : State H S τ) (calls : List HostCall) : (st.recorded calls).forget = st := rfl

end State

/-- The reduction without the record. -/
def Reduction.forget (reduction : Reduction (H × List HostCall) S τ) : Reduction H S τ :=
  reduction.map fun answer => (answer.1, answer.2.forget)

theorem Reduction.forget_eq_ok {reduction : Reduction (H × List HostCall) S τ} {v : Verdict} {st : State H S τ} :
    reduction.forget = .ok (v, st) ↔ ∃ calls, reduction = .ok (v, st.recorded calls) := by
  rcases reduction with fault | ⟨u, middle⟩
  · simp [forget, Except.map]
  · constructor
    · intro same
      cases same
      exact ⟨middle.host.2, rfl⟩
    · rintro ⟨calls, same⟩
      cases same
      rfl

namespace Recognizer

/-- The recognizer with a record of the calls to its host. -/
def recorded (r : Recognizer H S τ) : Recognizer (H × List HostCall) S τ where
  grammar := r.grammar
  transaction := r.transaction.recorded
  handlers := r.handlers.recorded
  observer := r.observer
  memoize := r.memoize

@[simp] theorem grammar_recorded (r : Recognizer H S τ) : r.recorded.grammar = r.grammar := rfl

/-- The record has no influence. -/
theorem projects_recorded (r : Recognizer H S τ) : Projects Prod.fst id r.recorded r where
  grammar := rfl
  memoize := rfl
  start _ := rfl
  commit _ := rfl
  rollback _ := rfl
  save _ := rfl
  load _ _ := rfl
  handle name st := by
    simp only [handle, recorded, Handlers.find?_recorded]
    cases r.handlers.find? name with
    | none => rfl
    | some handler =>
      simp only [Option.map_some, Handler.recorded, State.image]
      rcases handler st.stream.context st.host.1 with ⟨answer, host⟩
      cases answer <;> rfl
  observer _ _ _ := rfl

/-- Without its record, a recorded recognizer answers as the recognizer does. -/
theorem forget_reduce (r : Recognizer H S τ) (depth : Nat) (rule : Rule) (st : State (H × List HostCall) S τ) :
    (r.recorded.reduce depth rule st).forget = r.reduce depth rule st.forget :=
  r.projects_recorded.reduce depth rule st

/-- Between the two states, calls were made that open and close scopes in nested pairs. -/
private def Scoped (st st' : State (H × List HostCall) S τ) : Prop :=
  ∃ made, st'.host.2 = st.host.2 ++ made ∧ HostCall.Nested made

private theorem Scoped.refl (st : State (H × List HostCall) S τ) : Scoped st st :=
  ⟨[], (List.append_nil _).symm, .nil⟩

private theorem Scoped.trans {st st' st'' : State (H × List HostCall) S τ} (first : Scoped st st')
    (second : Scoped st' st'') : Scoped st st'' := by
  obtain ⟨left, made, nested⟩ := first
  obtain ⟨right, made', nested'⟩ := second
  exact ⟨left ++ right, by rw [made', made, List.append_assoc], nested.append nested'⟩

/-- A scope opened in `st` and closed behind `st'` by the calls `closing`. -/
private theorem Scoped.around {r : Recognizer H S τ} {st st' : State (H × List HostCall) S τ}
    (inside : Scoped (r.recorded.openScope st) st') (closing : List HostCall)
    (closes : closing.foldlM HostCall.scopes? 1 = some 0) :
    ∃ made, st'.host.2 ++ closing = st.host.2 ++ made ∧ HostCall.Nested made := by
  obtain ⟨inner, made, nested⟩ := inside
  refine ⟨[.start] ++ inner ++ closing, ?_, nested.scope closes⟩
  rw [made]
  simp [openScope, recorded, Transaction.recorded]

private theorem handle_calls {r : Recognizer H S τ} {name : String} {st st' : State (H × List HostCall) S τ}
    {v : Verdict} (answered : r.recorded.handle name st = .ok (v, st')) : st'.host.2 = st.host.2 := by
  simp only [handle, recorded, Handlers.find?_recorded] at answered
  cases found : r.handlers.find? name with
  | none =>
    rw [found] at answered
    cases answered
    rfl
  | some handler =>
    rw [found] at answered
    simp only [Option.map_some, Handler.recorded] at answered
    generalize handler st.stream.context st.host.1 = outcome at answered
    obtain ⟨answer, host⟩ := outcome
    cases answer <;> cases answered <;> rfl

private theorem Scoped.closed {r : Recognizer H S τ} {st st' : State (H × List HostCall) S τ}
    (inside : Scoped (r.recorded.openScope st) st') (v : Verdict) : Scoped st (r.recorded.closed st v st') := by
  cases v with
  | matched => exact inside.around [.commit] rfl
  | failed => exact inside.around [.rollback] rfl
  | aborted e => exact inside.around [.rollback] rfl

private theorem Runs.scoped {r : Recognizer H S τ} {task : Task} {st st' : State (H × List HostCall) S τ}
    {v : Verdict} (run : r.recorded.Runs task st v st') : Scoped st st' := by
  induction run with
  | production _ _ ih => exact ih
  | expression _ _ ih => exact ih
  | marked _ ih => exact ih
  | terminal => exact .refl _
  | reference _ _ ih => exact ih
  | @hit i target memo st entry =>
    cases stored : entry.snapshot with
    | none => exact ⟨[], by simp [replay, stored], .nil⟩
    | some snapshot => exact ⟨[.load], by simp [replay, stored, recorded, Transaction.recorded], rfl⟩
  | @store i target memo st st' _ _ _ ih =>
    have inside : Scoped (r.recorded.openScope st) st' := ih
    obtain ⟨made, same, nested⟩ := inside.around [.save, .commit] rfl
    refine ⟨made, ?_, nested⟩
    rw [← same]
    simp [stored, recorded, Transaction.recorded]
  | miss _ _ _ _ ih => exact Scoped.closed (r := r) ih _
  | @act i child name bound st st' st'' v _ answered ih =>
    obtain ⟨made, same, nested⟩ := ih
    exact Scoped.closed ⟨made, (handle_calls answered).trans same, nested⟩ v
  | idle _ _ ih => exact ih.closed _
  | undo _ ih => exact ih.closed _
  | sequence _ ih => exact ih
  | choice _ ih => exact ih
  | repetition _ ih => exact ih
  | present _ ih => exact ih
  | absent _ ih => exact ih
  | allNext _ _ head tail => exact head.trans tail
  | firstNext _ _ head tail => exact head.trans tail
  | repeatedEnough _ _ least more => exact least.trans more
  | upToNext _ _ _ body more => exact body.trans more
  | allDone | firstNone | upToZero => exact .refl _
  | allStop _ _ ih => exact ih
  | firstStop _ _ ih => exact ih
  | repeatedShort _ _ ih => exact ih
  | upToEmpty _ _ ih => exact ih
  | upToEnd _ ih => exact ih
  | upToAbort _ ih => exact ih

/-- What a rule of a well-formed grammar does to marks, scopes and the position, however it ends. The only fault
is that of rules that call each other too deep; no mark is closed that is not open. -/
theorem reduce_disciplined (r : Recognizer H S τ) (wellFormed : r.grammar.WellFormed) {rule : Rule}
    (known : rule.InRange r.grammar) (depth : Nat) (st : State H S τ) :
    (∀ fault, r.reduce depth rule st = .error fault → fault = .tooDeep) ∧
    ∀ v st', r.reduce depth rule st = .ok (v, st') →
      st'.stream.marks = st.stream.marks ∧
      (∃ made, HostCall.Nested made ∧
        r.recorded.reduce depth rule (st.recorded []) = .ok (v, st'.recorded made)) ∧
      (v ≠ .matched → st'.stream.position = st.stream.position) ∧
      (v = .matched → st.stream.position.offset ≤ st'.stream.position.offset) := by
  refine ⟨fun fault => fault_eq_tooDeep wellFormed known, fun v st' ended => ?_⟩
  have run : r.Runs (.rule rule) st v st' := runs_of_perform ended
  refine ⟨run.marks, ?_, run.restored rfl, fun _ => run.forward⟩
  have recorded := forget_reduce r depth rule (st.recorded [])
  rw [State.forget_recorded, ended] at recorded
  obtain ⟨calls, recorded⟩ := Reduction.forget_eq_ok.mp recorded
  have recordedRun : r.recorded.Runs (.rule rule) (st.recorded []) v (st'.recorded calls) :=
    runs_of_perform recorded
  obtain ⟨made, same, nested⟩ := recordedRun.scoped
  have same : calls = made := same
  exact ⟨calls, same ▸ nested, recorded⟩

end Recognizer

/-- The error a reduction was aborted with, and the host behind it. -/
def Reduction.abort? : Reduction H S τ → Option (ActionError × H)
  | .ok (.aborted e, st) => some (e, st.host)
  | _ => none

theorem Reduction.abort?_eq_some {reduction : Reduction H S τ} {e : ActionError} {host : H} :
    reduction.abort? = some (e, host) ↔ ∃ st, reduction = .ok (.aborted e, st) ∧ st.host = host := by
  rcases reduction with fault | ⟨v, st⟩
  · simp [abort?]
  · cases v <;> simp [abort?]

namespace Sample

/-- `A : $stop($keep('a') 'b') ;` -/
def halting : Grammar where
  productions := #[{ name := "A", index := 0, root := 0, defined := true }]
  nodes := #[
    { expr := .action 1 "stop" true, owner := 0 },
    { expr := .sequence [2, 4], owner := 0, parent := some 0 },
    { expr := .action 3 "keep" true, owner := 0, parent := some 1 },
    { expr := .terminal (.interval (.single 'a')), owner := 0, parent := some 2 },
    { expr := .terminal (.interval (.single 'b')), owner := 0, parent := some 1 }]
  problems := []
  source := none

/-- Counts the scopes that were opened, and aborts every match of `stop`. -/
def haltingRecognizer : Recognizer Nat Unit Unit where
  grammar := halting
  transaction := { start := (· + 1), commit := id, rollback := id }
  handlers := ⟨#[("stop", fun _ opened => (.error "enough", opened))]⟩
  observer := fun _ _ _ observed => observed
  memoize := false

/-- A stream over `xab` behind the `x`, with a mark at its beginning. -/
def haltingState : State Nat Unit Unit :=
  ⟨((Stream.ofSource ⟨['x', 'a', 'b'], none⟩).mark.skip 1).2, 0, .empty, ()⟩

/-- The scope of `keep` is committed before that of `stop` is rolled back, and the mark and the position are those
before the reduction. -/
theorem halting_disciplined : halting.WellFormed ∧ ∃ e st',
    haltingRecognizer.reduce 9 (.production 0) haltingState = .ok (.aborted e, st') ∧
    st'.stream.marks = [.origin] ∧ st'.stream.position = ⟨1, 1, 2⟩ ∧
    HostCall.Nested [.start, .start, .commit, .rollback] ∧
    haltingRecognizer.recorded.reduce 9 (.production 0) (haltingState.recorded []) =
      .ok (.aborted e, st'.recorded [.start, .start, .commit, .rollback]) := by
  have wellFormed : halting.WellFormed := Grammar.wellFormed_of_linked (by decide)
  have known : (Rule.production 0).InRange haltingRecognizer.grammar := Nat.zero_lt_one
  have evaluated : (haltingRecognizer.recorded.reduce 9 (.production 0) (haltingState.recorded [])).abort? =
      some (⟨"stop", ⟨1, 1, 2⟩, "enough"⟩, 2, [.start, .start, .commit, .rollback]) := by decide +kernel
  obtain ⟨st, aborted, host⟩ := Reduction.abort?_eq_some.mp evaluated
  have ended := haltingRecognizer.forget_reduce 9 (.production 0) (haltingState.recorded [])
  rw [aborted, State.forget_recorded] at ended
  obtain ⟨marks, ⟨made, nested, recorded⟩, back, -⟩ :=
    (haltingRecognizer.reduce_disciplined wellFormed known 9 haltingState).2 _ _ ended.symm
  have same : made = [.start, .start, .commit, .rollback] := by
    rw [aborted] at recorded
    have hosts : st.host = (st.forget.host, made) := by
      injection recorded with answer
      exact congrArg (fun answer => State.host answer.2) answer
    rw [host] at hosts
    exact (congrArg Prod.snd hosts).symm
  subst same
  exact ⟨wellFormed, _, _, ended.symm, marks, back nofun, nested, recorded⟩

end Sample

end Packrat

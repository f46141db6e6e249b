import Packrat.Proofs.Recognition.Progress

/-! # What a run comes to

From one piece of work to the next, a run comes to all the work that is done on its way, and never goes back in
the stream. The memo table changes only where a reference stores its match, so what every such store keeps of
the table, a whole run keeps (`Runs.memo_induction`).
-/

namespace Packrat.Recognizer

variable {H S τ : Type} {r : Recognizer H S τ} {task task' task'' : Task} {st st' st'' : State H S τ} {v : Verdict}

/-- Doing the first piece of work in its state, the recognizer comes, at some depth, to the second in its. -/
inductive ComesTo (r : Recognizer H S τ) : Task → State H S τ → Task → State H S τ → Prop
  | here {task : Task} {st : State H S τ} : ComesTo r task st task st
  | enter {task task' task'' : Task} {st st' st'' : State H S τ} (enters : r.Enters task st task' st')
      (rest : ComesTo r task' st' task'' st'') : ComesTo r task st task'' st''

theorem ComesTo.trans (first : r.ComesTo task st task' st') (second : r.ComesTo task' st' task'' st'') :
    r.ComesTo task st task'' st'' := by
  induction first with
  | here => exact second
  | enter enters _ ih => exact .enter enters (ih second)

/-- What no step to the next piece of work loses, is kept all along. -/
theorem ComesTo.preserves {motive : Task → State H S τ → Prop} (way : r.ComesTo task st task' st')
    (step : ∀ {task st task' st'}, r.Enters task st task' st' → motive task st → motive task' st')
    (start : motive task st) : motive task' st' := by
  induction way with
  | here => exact start
  | enter enters _ ih => exact ih (step enters start)

theorem Enters.forward (enters : r.Enters task st task' st') :
    st.stream.position.offset ≤ st'.stream.position.offset := by
  cases enters with
  | allTail run => exact run.forward
  | firstTail run => exact run.forward
  | more run => exact run.forward
  | upToTail run => exact run.forward
  | _ => exact Nat.le_refl _

theorem ComesTo.forward (way : r.ComesTo task st task' st') :
    st.stream.position.offset ≤ st'.stream.position.offset := by
  induction way with
  | here => exact Nat.le_refl _
  | enter enters _ ih => exact Nat.le_trans enters.forward ih

/-- What every store on the way keeps of the memo table, the run keeps. -/
theorem Runs.memo_induction {motive : Memo.Table S → Prop} (run : r.Runs task st v st')
    (store : ∀ {i target memo st₁ st₂}, r.ComesTo task st (.operator i (.reference target memo)) st₁ →
      (memo && r.memoize) = true → st₁.memo.get? target st₁.stream.position.offset = none →
      r.Runs (.rule (.production target)) (r.openScope (r.note (.lookedUp i false) st₁)) .matched st₂ →
      motive st₂.memo → motive (r.stored i target st₁ st₂).memo)
    (start : motive st.memo) : motive st'.memo := by
  induction run with
  | production defined _ ih => exact ih (fun way => store (.enter (.production defined) way)) start
  | expression present _ ih => exact ih (fun way => store (.enter (.expression present) way)) start
  | marked _ ih => exact ih (fun way => store (.enter .marked way)) start
  | terminal | hit | allDone | firstNone | upToZero => exact start
  | reference plain _ ih => exact ih (fun way => store (.enter (.reference plain) way)) start
  | store memoized missing run ih =>
    refine store .here memoized missing run ?_
    exact ih (fun way => store (.enter (.remembered memoized missing) way)) start
  | miss memoized missing _ _ ih => exact ih (fun way => store (.enter (.remembered memoized missing) way)) start
  | act _ answered ih =>
    dsimp only [closed, State.settled]
    rw [handle_memo answered]
    exact ih (fun way => store (.enter .action way)) start
  | idle _ _ ih => exact ih (fun way => store (.enter .action way)) start
  | undo _ ih => exact ih (fun way => store (.enter .undo way)) start
  | sequence _ ih => exact ih (fun way => store (.enter .sequence way)) start
  | choice _ ih => exact ih (fun way => store (.enter .choice way)) start
  | repetition _ ih => exact ih (fun way => store (.enter .repetition way)) start
  | present _ ih => exact ih (fun way => store (.enter .lookahead way)) start
  | absent _ ih => exact ih (fun way => store (.enter .lookahead way)) start
  | allNext run _ head tail =>
    exact tail (fun way => store (.enter (.allTail run) way)) (head (fun way => store (.enter .allHead way)) start)
  | allStop _ _ ih => exact ih (fun way => store (.enter .allHead way)) start
  | firstNext run _ head tail =>
    exact tail (fun way => store (.enter (.firstTail run) way)) (head (fun way => store (.enter .firstHead way)) start)
  | firstStop _ _ ih => exact ih (fun way => store (.enter .firstHead way)) start
  | repeatedEnough run _ least more =>
    exact more (fun way => store (.enter (.more run) way)) (least (fun way => store (.enter .least way)) start)
  | repeatedShort _ _ ih => exact ih (fun way => store (.enter .least way)) start
  | upToNext run advanced _ body more =>
    exact more (fun way => store (.enter (.upToTail run advanced) way))
      (body (fun way => store (.enter .upToHead way)) start)
  | upToEmpty _ _ ih => exact ih (fun way => store (.enter .upToHead way)) start
  | upToEnd _ ih => exact ih (fun way => store (.enter .upToHead way)) start
  | upToAbort _ ih => exact ih (fun way => store (.enter .upToHead way)) start

/-- The first piece of work is entered from the second one. -/
def Entered (r : Recognizer H S τ) (after before : Task × State H S τ) : Prop :=
  r.Enters before.1 before.2 after.1 after.2

theorem acc_of_enters (each : ∀ {task' st'}, r.Enters task st task' st' → Acc r.Entered (task', st')) :
    Acc r.Entered (task, st) := ⟨_, fun _ enters => each enters⟩

/-- A run that ends has only so much to come to. -/
theorem Runs.acc (run : r.Runs task st v st') : Acc r.Entered (task, st) := by
  induction run with
  | terminal | allDone | firstNone | upToZero => exact acc_of_enters nofun
  | production defined _ ih =>
    refine acc_of_enters fun enters => ?_
    cases enters with
    | production defined' =>
      cases defined.symm.trans defined'
      exact ih
  | expression present _ ih =>
    refine acc_of_enters fun enters => ?_
    cases enters with
    | expression present' =>
      cases present.symm.trans present'
      exact ih
  | marked _ ih | sequence _ ih | choice _ ih | repetition _ ih | undo _ ih | idle _ _ ih | act _ _ ih | present _ ih
  | absent _ ih =>
    refine acc_of_enters fun enters => ?_
    cases enters
    exact ih
  | reference plain _ ih =>
    refine acc_of_enters fun enters => ?_
    cases enters with
    | reference => exact ih
    | remembered memoized => cases plain.symm.trans memoized
  | hit memoized found =>
    refine acc_of_enters fun enters => ?_
    cases enters with
    | reference plain => cases plain.symm.trans memoized
    | remembered _ missing => cases found.symm.trans missing
  | store memoized _ _ ih | miss memoized _ _ _ ih =>
    refine acc_of_enters fun enters => ?_
    cases enters with
    | reference plain => cases plain.symm.trans memoized
    | remembered => exact ih
  | allNext run _ head tail =>
    refine acc_of_enters fun enters => ?_
    cases enters with
    | allHead => exact head
    | allTail run' =>
      obtain ⟨-, rfl⟩ := run.deterministic run'
      exact tail
  | allStop run unmatched ih =>
    refine acc_of_enters fun enters => ?_
    cases enters with
    | allHead => exact ih
    | allTail run' => exact absurd (run.deterministic run').1 unmatched
  | firstNext run _ head tail =>
    refine acc_of_enters fun enters => ?_
    cases enters with
    | firstHead => exact head
    | firstTail run' =>
      obtain ⟨-, rfl⟩ := run.deterministic run'
      exact tail
  | firstStop run decided ih =>
    refine acc_of_enters fun enters => ?_
    cases enters with
    | firstHead => exact ih
    | firstTail run' => exact absurd (run.deterministic run').1 decided
  | repeatedEnough run _ least more =>
    refine acc_of_enters fun enters => ?_
    cases enters with
    | least => exact least
    | more run' =>
      obtain ⟨-, rfl⟩ := run.deterministic run'
      exact more
  | repeatedShort run unmatched ih =>
    refine acc_of_enters fun enters => ?_
    cases enters with
    | least => exact ih
    | more run' => exact absurd (run.deterministic run').1 unmatched
  | upToNext run _ _ body more =>
    refine acc_of_enters fun enters => ?_
    cases enters with
    | upToHead => exact body
    | upToTail run' =>
      obtain ⟨-, rfl⟩ := run.deterministic run'
      exact more
  | upToEmpty run empty ih =>
    refine acc_of_enters fun enters => ?_
    cases enters with
    | upToHead => exact ih
    | upToTail run' advanced =>
      obtain ⟨-, rfl⟩ := run.deterministic run'
      exact absurd empty (advanced rfl)
  | upToEnd run ih | upToAbort run ih =>
    refine acc_of_enters fun enters => ?_
    cases enters with
    | upToHead => exact ih
    | upToTail run' => cases (run.deterministic run').1

/-- A rule that comes to itself again from every state of a kind has no end in any of them. -/
theorem not_runs_of_recurring {rule : Rule} {again : State H S τ → Prop}
    (returns : ∀ {st}, again st → ∃ task' mid st', r.Enters (.rule rule) st task' mid ∧
      r.ComesTo task' mid (.rule rule) st' ∧ again st')
    (start : again st) : ¬ r.Runs (.rule rule) st v st' := by
  have along {task task' : Task} {st st' : State H S τ} (way : r.ComesTo task st task' st') :
      Relation.ReflTransGen r.Entered (task', st') (task, st) := by
    induction way with
    | here => exact .refl
    | enter enters _ ih => exact .tail ih enters
  intro run
  have acc := run.acc.transGen
  clear run
  generalize here : (Task.rule rule, st) = place at acc
  induction acc generalizing st with
  | intro _ _ ih =>
    subst here
    obtain ⟨_, _, after, enters, way, later⟩ := returns start
    exact ih _ (.tail' (along way) enters) later rfl

end Packrat.Recognizer

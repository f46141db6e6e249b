import Packrat.Proofs.Analysis.LeftCycles
import Packrat.Proofs.Recognition.ComesTo
import Packrat.Proofs.Recognition.Termination

/-! # Productions are not reduced inside themselves at one place

What a run comes to before the stream has moved is left-called on the way (`ComesTo.leadsTo`). Where left calls
make no cycle, a production that is reduced at an offset does not come to itself again there, so a reference does
not find a match of it stored behind its back (`NoReentry`).
-/

namespace Packrat

namespace Task

/-- Before it consumes anything, the task can come to a reference to the production. -/
def CallsLeft (g : Grammar) (target : Nat) : Task → Prop
  | .rule (.production index) => g.CallsLeft index target
  | .rule (.expression i) | .operator i _ | .repeated i .. | .upTo i .. => ∃ reference, g.LeftReaches reference target i
  | .marked task => task.CallsLeft g target
  | .all children => ∃ before child behind, children = before ++ child :: behind ∧
      (∀ element ∈ before, g.nodeConsumes element = false) ∧ ∃ reference, g.LeftReaches reference target child
  | .first children => ∃ child ∈ children, ∃ reference, g.LeftReaches reference target child

/-- Before it consumes anything, the task can come to the production. -/
def LeadsTo (g : Grammar) (target : Nat) (task : Task) : Prop :=
  ∃ first, task.CallsLeft g first ∧ Relation.ReflTransGen g.CallsLeft first target

end Task

namespace Recognizer

variable {H S τ : Type} {r : Recognizer H S τ} {text : List Char} {task task' : Task} {st st' : State H S τ}
  {v : Verdict} {i index target : Nat} {memo : Bool}

section

variable (wellFormed : r.grammar.WellFormed) (keyed : r.Keyed text)

include wellFormed keyed

/-- A step that does not move the stream calls the same productions, or those that a called one calls. -/
theorem Enters.callsLeft (enters : r.Enters task st task' st') (poised : r.Poised text task st)
    (still : st'.stream.position.offset = st.stream.position.offset) (calls : task'.CallsLeft r.grammar target) :
    task.CallsLeft r.grammar target ∨ ∃ first, task.CallsLeft r.grammar first ∧ r.grammar.CallsLeft first target := by
  cases enters with
  | production defined =>
    obtain ⟨reference, inner⟩ := calls
    exact .inl ⟨reference, _, defined, inner⟩
  | expression | marked | more | upToHead | upToTail => exact .inl calls
  | reference plain => exact .inr ⟨_, ⟨_, .reference poised.rooted.2⟩, calls⟩
  | remembered memoized missing => exact .inr ⟨_, ⟨_, .reference poised.rooted.2⟩, calls⟩
  | action =>
    obtain ⟨reference, inner⟩ := calls
    exact .inl ⟨reference, .action poised.rooted.2 inner⟩
  | undo =>
    obtain ⟨reference, inner⟩ := calls
    exact .inl ⟨reference, .undo poised.rooted.2 inner⟩
  | sequence =>
    obtain ⟨before, child, behind, rfl, idle, reference, inner⟩ := calls
    exact .inl ⟨reference, .sequence poised.rooted.2 idle inner⟩
  | choice =>
    obtain ⟨child, member, reference, inner⟩ := calls
    exact .inl ⟨reference, .choice poised.rooted.2 member inner⟩
  | repetition =>
    obtain ⟨reference, inner⟩ := calls
    exact .inl ⟨reference, .repetition poised.rooted.2 inner⟩
  | lookahead =>
    obtain ⟨reference, inner⟩ := calls
    exact .inl ⟨reference, .lookahead poised.rooted.2 inner⟩
  | allHead => exact .inl ⟨[], _, _, rfl, List.forall_mem_nil _, calls⟩
  | @allTail first rest _ _ head =>
    obtain ⟨before, child, behind, rfl, idle, called⟩ := calls
    refine .inl ⟨first :: before, child, behind, rfl, List.forall_mem_cons.mpr ⟨?_, idle⟩, called⟩
    -- A first element that is sure to consume would have moved the stream.
    refine Bool.eq_false_iff.mpr fun bit => ?_
    have inside := poised.enters wellFormed keyed .allHead
    have moves := (head.consumes wellFormed keyed inside.known inside.reads inside.advancing).1 rfl bit
    omega
  | firstHead => exact .inl ⟨_, List.mem_cons_self .., calls⟩
  | firstTail =>
    obtain ⟨child, member, called⟩ := calls
    exact .inl ⟨child, List.mem_cons_of_mem _ member, called⟩
  | least =>
    obtain ⟨before, child, behind, same, -, called⟩ := calls
    have member : child ∈ before ++ child :: behind := List.mem_append_right _ (List.mem_cons_self ..)
    rw [← same] at member
    rw [List.eq_of_mem_replicate member] at called
    exact .inl called

/-- What is come to before the stream has moved, can be come to in this way. -/
theorem ComesTo.leadsTo (way : r.ComesTo task st task' st') (poised : r.Poised text task st)
    (still : st'.stream.position.offset = st.stream.position.offset) (leads : task'.LeadsTo r.grammar target) :
    task.LeadsTo r.grammar target := by
  induction way with
  | here => exact leads
  | enter enters rest ih =>
    have first := enters.forward
    have second := rest.forward
    obtain ⟨called, calls, onward⟩ := ih (poised.enters wellFormed keyed enters) (by omega) leads
    rcases enters.callsLeft wellFormed keyed poised (by omega) calls with calls | ⟨between, calls, call⟩
    · exact ⟨called, calls, onward⟩
    · exact ⟨between, calls, .head call onward⟩

theorem Poised.comesTo (poised : r.Poised text task st) (way : r.ComesTo task st task' st') :
    r.Poised text task' st' :=
  way.preserves (motive := r.Poised text) (fun enters poised => poised.enters wellFormed keyed enters) poised

end

/-- Wherever a reference asks the memo table in vain, its key is below 2^32, and no match gets stored under it while
the production is reduced. -/
def NoReentry (r : Recognizer H S τ) (task : Task) (st : State H S τ) : Prop :=
  ∀ {i target : Nat} {memo : Bool} {here : State H S τ}, r.ComesTo task st (.operator i (.reference target memo)) here →
    (memo && r.memoize) = true → here.memo.get? target here.stream.position.offset = none →
    (target < UInt32.size ∧ here.stream.position.offset < UInt32.size) ∧
      ∀ {v : Verdict} {there : State H S τ},
        r.Runs (.rule (.production target)) (r.openScope (r.note (.lookedUp i false) here)) v there →
        there.memo.get? target here.stream.position.offset = none

theorem NoReentry.enters (apart : r.NoReentry task st) (enters : r.Enters task st task' st') : r.NoReentry task' st' :=
  fun way => apart (.enter enters way)

/-- Without a cycle of left calls, no production comes to itself again where it started. -/
theorem Poised.noReentry (poised : r.Poised text task st) (wellFormed : r.grammar.WellFormed) (keyed : r.Keyed text)
    (acyclic : ∀ p, ¬ Relation.TransGen r.grammar.CallsLeft p p) : r.NoReentry task st := by
  have small {i target : Nat} {memo : Bool} {here : State H S τ} (memoized : (memo && r.memoize) = true)
      (poised : r.Poised text (.operator i (.reference target memo)) here) :
      target < UInt32.size ∧ here.stream.position.offset < UInt32.size := by
    obtain ⟨few, short⟩ := keyed (Bool.and_eq_true_iff.mp memoized).2
    have defined := wellFormed.target poised.rooted.2
    have within := poised.reads.position.offset_le
    omega
  intro i target memo here way memoized missing
  have asking := poised.comesTo wellFormed keyed way
  have body := asking.enters wellFormed keyed (.remembered memoized missing)
  refine ⟨small memoized asking, fun {v there} run => ?_⟩
  refine run.memo_induction (motive := fun table => table.get? target here.stream.position.offset = none) ?_ missing
  intro i' target' memo' inner _ inside memoized' _ _ before
  have storing := body.comesTo wellFormed keyed inside
  change (Memo.Table.insert _ _ _ _).get? _ _ = none
  cases found : (Memo.Table.insert _ _ _ _).get? _ _ with
  | none => rfl
  | some entry =>
    rcases Memo.Table.get?_insert_cases (small memoized' storing) (small memoized asking) found with
      ⟨rfl, still, -⟩ | earlier
    · obtain ⟨first, call, onward⟩ := inside.leadsTo wellFormed keyed body still.symm
        ⟨target, ⟨i', .reference storing.rooted.2⟩, .refl⟩
      exact absurd (Relation.TransGen.head' call onward) (acyclic target)
    · cases before.symm.trans earlier

end Recognizer

end Packrat

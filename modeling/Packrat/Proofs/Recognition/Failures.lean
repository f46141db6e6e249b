import Packrat.Proofs.Recognition.ComesTo
import Packrat.Proofs.Recognition.Effects

/-! # What failed repetitions and sequences give back

A scope that fails gives back everything. Repetitions never get a scope, so one that must match twice keeps
what the matches before the failing one left; every other one gives back everything (`repetition_gives_back`).
A sequence of a built grammar gets a scope when an element before its last one acts, so it gives back
everything unless another element left something behind a match (`sequence_gives_back`). `&e` can: what its
body has left stays, but does not count as acting.
-/

namespace Packrat

namespace Recognizer

section

variable {H S τ : Type} {r : Recognizer H S τ} {task task' : Task} {st st' : State H S τ} {i index : Nat} {e : Expr}

theorem Enters.shown (enters : r.Enters task st task' st') (shown : task.Shown r.grammar) : task'.Shown r.grammar := by
  cases enters with
  | expression present => exact present
  | marked => exact shown
  | _ => trivial

/-- A production comes to rooted nodes only. -/
theorem ComesTo.rooted (way : r.ComesTo (.rule (.production index)) st (.rule (.expression i)) st')
    (wellFormed : r.grammar.WellFormed) : r.grammar.Rooted i := by
  cases way with
  | enter enters rest =>
    cases enters with
    | production defined =>
      exact rest.preserves (motive := fun task _ => task.Rooted r.grammar)
        (fun enters rooted => enters.rooted wellFormed rooted) (.root defined)

/-- Wherever the task comes to the node, a reduction of it with that success leaves the host as it was. -/
def Neutral (r : Recognizer H S τ) (task : Task) (st : State H S τ) (success : Bool) (c : Nat) : Prop :=
  ∀ (depth : Nat) (inner last : State H S τ), r.ComesTo task st (.rule (.expression c)) inner →
    r.reduce depth (.expression c) inner = .ok (.ofBool success, last) → last.host = inner.host

theorem Neutral.host {b : Bool} {inner last : State H S τ} (neutral : r.Neutral task st b i)
    (way : r.ComesTo task st (.rule (.expression i)) inner)
    (run : r.Runs (.rule (.expression i)) inner (.ofBool b) last) : last.host = inner.host := by
  obtain ⟨depth, reduced⟩ := perform_iff_runs.mpr run
  exact neutral _ _ _ way reduced

theorem Neutral.along {b : Bool} (neutral : r.Neutral task st b i) (way : r.ComesTo task st task' st') :
    r.Neutral task' st' b i :=
  fun depth inner last rest => neutral depth inner last (way.trans rest)

/-- A node that keeps nothing of its parts when it fails leaves nothing then. -/
theorem not_leaves (present : r.grammar.expr? i = some e) (direct : ∀ target memo, e ≠ .reference target memo)
    (nothing : e.kept false = []) : ¬ r.Leaves false i := by
  intro leaves
  cases leaves with
  | part present' kept =>
    obtain rfl := Option.some.inj (present.symm.trans present')
    rw [nothing] at kept
    cases kept
  | reference present' => exact direct _ _ (Option.some.inj (present.symm.trans present'))

end

variable {α τ : Type} {r : Recognizer (Segments α) (List α) τ}
  {effect : String → Context → List α → Except String Bool × List α} {task task' : Task}
  {start before after st st' : State (Segments α) (List α) τ} {rule : Rule} {i outer depth index : Nat}

/-- What a run comes to has its memo table still sparing. -/
theorem ComesTo.sparing (way : r.ComesTo task st task' st') (segments : r.transaction = Segments.transaction)
    (handlers : r.handlers.Local effect) (shown : task.Shown r.grammar) (sparing : r.Sparing st.memo) :
    r.Sparing st'.memo := by
  refine (way.preserves (motive := fun task st => task.Shown r.grammar ∧ r.Sparing st.memo) ?_ ⟨shown, sparing⟩).2
  rintro task st task' st' enters ⟨shown, sparing⟩
  refine ⟨enters.shown shown, ?_⟩
  cases enters with
  | allTail run => exact (run.leaves segments handlers trivial sparing).2
  | firstTail run => exact (run.leaves segments handlers trivial sparing).2
  | more run => exact (run.leaves segments handlers trivial sparing).2
  | upToTail run => exact (run.leaves segments handlers trivial sparing).2
  | _ => exact sparing

theorem neutral_of_not_leaves {b : Bool} (segments : r.transaction = Segments.transaction)
    (handlers : r.handlers.Local effect) (shown : task.Shown r.grammar) (sparing : r.Sparing st.memo)
    (never : ¬ r.Leaves b i) : r.Neutral task st b i := by
  intro depth inner last way reduced
  have run : r.Runs (.rule (.expression i)) inner (.ofBool b) last := runs_of_perform reduced
  obtain ⟨pushed, -⟩ := run.leaves segments handlers trivial (way.sparing segments handlers shown sparing)
  exact pushed.unchanged never

/-- An action, an undo scope or a terminal that fails gives back everything. -/
theorem failure_gives_back {e : Expr} (segments : r.transaction = Segments.transaction)
    (handlers : r.handlers.Local effect) (present : r.grammar.expr? i = some e)
    (direct : ∀ target memo, e ≠ .reference target memo) (nothing : e.kept false = [])
    (sparing : r.Sparing before.memo) (failed : r.reduce depth (.expression i) before = .ok (.failed, after)) :
    after.host = before.host := by
  have neutral : r.Neutral (.rule (.expression i)) before false i :=
    neutral_of_not_leaves segments handlers trivial sparing (not_leaves present direct nothing)
  exact neutral depth before after .here failed

/-- If the elements before the last one match without a change, and fail without one, then so does one after the
other. -/
theorem Runs.all_gives_back {children : List Nat} (run : r.Runs (.all children) st .failed st')
    (early : ∀ c ∈ children.dropLast, r.Neutral (.all children) st true c)
    (clean : ∀ c ∈ children, r.Neutral (.all children) st false c) : st'.host = st.host := by
  induction children generalizing st with
  | nil => cases run
  | cons child rest ih =>
    cases run with
    | allStop head unmatched => exact (clean child (List.mem_cons_self ..)).host (.enter .allHead .here) head
    | allNext head tail =>
      cases rest with
      | nil => cases tail
      | cons next rest =>
        have same := (early child (List.mem_cons_self ..)).host (.enter .allHead .here) head
        have behind : r.ComesTo (.all (child :: next :: rest)) st (.all (next :: rest)) _ := .enter (.allTail head) .here
        refine (ih tail (fun c member => ?_) fun c member => ?_).trans same
        · exact (early c (List.mem_cons_of_mem _ member)).along behind
        · exact (clean c (List.mem_cons_of_mem _ member)).along behind

theorem Runs.of_repetition {child min max : Nat} (run : r.Runs (.rule (.expression i)) st .failed st')
    (present : r.grammar.expr? i = some (.repetition child min max)) :
    ∃ last, r.Runs (.all (List.replicate min child)) (r.note (.entered (.expression i)) st).mark .failed last ∧
      st'.host = last.host := by
  cases run with
  | expression present' body =>
    obtain rfl := Option.some.inj (present.symm.trans present')
    cases body with
    | repetition body =>
      cases body with
      | marked body =>
        cases body with
        | repeatedEnough _ more => exact absurd rfl more.upTo_ne_failed
        | repeatedShort least => exact ⟨_, least, rfl⟩

theorem Runs.of_sequence {children : List Nat} (run : r.Runs (.rule (.expression i)) st .failed st')
    (present : r.grammar.expr? i = some (.sequence children)) :
    ∃ last, r.Runs (.all children) (r.note (.entered (.expression i)) st).mark .failed last ∧ st'.host = last.host := by
  cases run with
  | expression present' body =>
    obtain rfl := Option.some.inj (present.symm.trans present')
    cases body with
    | sequence body =>
      cases body with
      | marked body => exact ⟨_, body, rfl⟩

/-- A repetition that fails, and whose body gives back what it pushed whenever it fails, gives back everything, by
itself or with the undo scope around it. Only a body that must match twice, and that can leave something behind a
match, must not have done so. -/
theorem repetition_gives_back {child min max : Nat} (segments : r.transaction = Segments.transaction)
    (handlers : r.handlers.Local effect) (fresh : start.memo = .empty)
    (way : r.ComesTo (.rule rule) start (.rule (.expression outer)) before)
    (present : r.grammar.expr? i = some (.repetition child min max))
    (around : outer = i ∧ (2 ≤ min → r.Leaves true child → r.Neutral (.rule (.expression outer)) before true child) ∨
      r.grammar.expr? outer = some (.undo i))
    (clean : r.Neutral (.rule (.expression outer)) before false child)
    (failed : r.reduce depth (.expression outer) before = .ok (.failed, after)) : after.host = before.host := by
  have sparing : r.Sparing before.memo := way.sparing segments handlers trivial (fresh ▸ sparing_empty)
  obtain ⟨rfl, silent⟩ | scope := around
  · have run : r.Runs (.rule (.expression outer)) before .failed after := runs_of_perform failed
    obtain ⟨last, least, same⟩ := run.of_repetition present
    have begins : r.ComesTo (.rule (.expression outer)) before (.all (List.replicate min child)) _ :=
      .enter (.expression present) (.enter .repetition (.enter .marked (.enter .least .here)))
    rw [same]
    refine least.all_gives_back (fun c member => ?_) fun c member => ?_
    -- An element before the last one means that the body must match twice.
    · rw [List.dropLast_replicate, List.mem_replicate] at member
      obtain ⟨several, rfl⟩ := member
      by_cases leaves : r.Leaves true c
      · exact (silent (by omega) leaves).along begins
      · exact neutral_of_not_leaves segments handlers trivial sparing leaves
    · exact List.eq_of_mem_replicate member ▸ clean.along begins
  · exact failure_gives_back segments handlers scope nofun rfl sparing failed

/-- A sequence of a built grammar that fails, and whose elements give back what they pushed whenever they fail,
gives back everything, by itself or with the undo scope around it. Only elements before the last one that can leave
something behind a match without acting must not have done so. -/
theorem sequence_gives_back {b : Builder} {children : List Nat} (built : b.build = .ok r.grammar)
    (wellFormed : b.assembled.WellFormed) (segments : r.transaction = Segments.transaction)
    (handlers : r.handlers.Local effect) (fresh : start.memo = .empty)
    (way : r.ComesTo (.rule (.production index)) start (.rule (.expression outer)) before)
    (present : r.grammar.expr? i = some (.sequence children))
    (around : outer = i ∧ (∀ {j e}, r.grammar.expr? j = some e → e.isAction = true → i ∉ e.children) ∨
      r.grammar.expr? outer = some (.undo i))
    (counted : ∀ c ∈ children.dropLast, r.Leaves true c →
      r.grammar.Acts c ∨ r.Neutral (.rule (.expression outer)) before true c)
    (clean : ∀ c ∈ children, r.Neutral (.rule (.expression outer)) before false c)
    (failed : r.reduce depth (.expression outer) before = .ok (.failed, after)) : after.host = before.host := by
  have sparing : r.Sparing before.memo := way.sparing segments handlers trivial (fresh ▸ sparing_empty)
  obtain ⟨rfl, free⟩ | scope := around
  · obtain ⟨wellFormed, sheltered⟩ : r.grammar.WellFormed ∧ r.grammar.Sheltered :=
      (Builder.eq_of_built built).2 ▸ wellFormed.injectUndo
    have safe : ¬ r.grammar.Exposed outer := sheltered ((way.rooted wellFormed).isOpen free)
    have run : r.Runs (.rule (.expression outer)) before .failed after := runs_of_perform failed
    obtain ⟨last, elements, same⟩ := run.of_sequence present
    have begins : r.ComesTo (.rule (.expression outer)) before (.all children) _ :=
      .enter (.expression present) (.enter .sequence (.enter .marked .here))
    rw [same]
    refine elements.all_gives_back (fun c member => ?_) fun c member => (clean c member).along begins
    by_cases leaves : r.Leaves true c
    · obtain acts | neutral := counted c member leaves
      · exact absurd (.inl ⟨children, present, c, member, acts⟩) safe
      · exact neutral.along begins
    · exact neutral_of_not_leaves segments handlers trivial sparing leaves
  · exact failure_gives_back segments handlers scope nofun rfl sparing failed

end Recognizer

namespace Sample

/-- `A : ($keep("a") "x"){1} ; B : $keep("a"){2} ; C : &$keep("a") "a" "b" ; D : $keep("a") "x" ;` -/
def leavingSteps : List Builder.Step :=
  let production (name : String) (steps : List Builder.Step) : List Builder.Step :=
    [.startProduction name, .terminal (.token "a" true), .action "keep"] ++ steps ++ [.endProduction]
  production "A" [.terminal (.token "x" true), .sequence, .repetition 1 1] ++ production "B" [.repetition 2 2] ++
  production "C" [.lookahead .present, .terminal (.token "a" true), .terminal (.token "b" true), .sequence] ++
  production "D" [.terminal (.token "x" true), .sequence]

def leavingBuilder : Builder := .ofSteps leavingSteps

@[irreducible]
def leavingGrammar : Grammar := leavingBuilder.build.toOption.getD .empty

theorem leavingBuilder_build : leavingBuilder.build = .ok leavingGrammar := by
  unfold leavingGrammar
  exact eq_ok_getD (by decide +kernel)

theorem leavingBuilder_wellFormed : leavingBuilder.assembled.WellFormed :=
  (Builder.balanced_ofSteps leavingSteps).sound.wellFormed_assembled (by decide +kernel)

/-- The nodes of the grammar, the undo scopes behind the others. -/
def leavingExprs : List Expr :=
  let a : Expr := .terminal (.token "a" true)
  let x : Expr := .terminal (.token "x" true)
  [a, .action 0 "keep" false, x, .sequence [1, 2], .repetition 18 1 1] ++ [a, .action 5 "keep" false, .repetition 6 2 2] ++
  [a, .action 8 "keep" false, .lookahead 9 .present, a, .terminal (.token "b" true), .sequence [19, 11, 12]] ++
  [a, .action 14 "keep" false, x, .sequence [15, 16]] ++ [.undo 3, .undo 10, .undo 17]

theorem leavingGrammar_expr? (i : Nat) : leavingGrammar.expr? i = leavingExprs[i]? :=
  Grammar.expr?_of_nodes (by decide +kernel) i

def leaver : Recognizer (Segments (List Char)) (List (List Char)) Unit := { keeper with grammar := leavingGrammar }

/-- Where the right-hand side of a production begins. -/
def atRoot (index : Nat) : State (Segments (List Char)) (List (List Char)) Unit :=
  (leaver.note (.entered (.production index)) keepState).mark

theorem comesTo_root {index root : Nat} (defined : leavingGrammar.root? index = some root) :
    leaver.ComesTo (.rule (.production index)) keepState (.rule (.expression root)) (atRoot index) :=
  .enter (.production defined) (.enter .marked .here)

theorem leaver_neutral {i outer index : Nat} {e : Expr} (present : leavingGrammar.expr? i = some e)
    (direct : ∀ target memo, e ≠ .reference target memo) (nothing : e.kept false = []) :
    leaver.Neutral (.rule (.expression outer)) (atRoot index) false i :=
  Recognizer.neutral_of_not_leaves (r := leaver) rfl keeper_local trivial nofun
    (Recognizer.not_leaves (r := leaver) present direct nothing)

/-- A letter is left. -/
theorem leaver_leaves {i index : Nat}
    (left : ((leaver.reduce 9 (.expression i) (atRoot index)).toOption.map fun answer => (answer.1, answer.2.host)) =
      some (.failed, keepState.host.push ['a'])) :
    ∃ after, leaver.reduce 9 (.expression i) (atRoot index) = .ok (.failed, after) ∧ after.host ≠ (atRoot index).host := by
  obtain ⟨⟨v, after⟩, reduced, same⟩ := Option.map_eq_some_iff.mp left
  obtain ⟨rfl, same⟩ := Prod.mk.inj same
  refine ⟨after, eq_ok_of_toOption reduced, ?_⟩
  rw [same]
  change keepState.host.push ['a'] ≠ keepState.host
  decide

/-- No action and no undo scope is right around the node. -/
theorem free_of_all {i j : Nat} {e : Expr}
    (all : leavingExprs.all (fun e => !e.isAction || !e.children.contains i) = true)
    (present : leavingGrammar.expr? j = some e) (scope : e.isAction = true) : i ∉ e.children := by
  rw [leavingGrammar_expr?] at present
  have here := List.all_eq_true.mp all e (List.mem_of_getElem? present)
  simpa [scope] using here

/-- The body pushes a letter before it fails, and its own scope takes it back. -/
theorem bounded_gives_back : leavingGrammar.expr? 4 = some (.repetition 18 1 1) ∧
    leaver.Neutral (.rule (.expression 4)) (atRoot 0) false 18 ∧
    ∃ after, leaver.reduce 9 (.expression 4) (atRoot 0) = .ok (.failed, after) ∧ after.host = (atRoot 0).host := by
  have present : leavingGrammar.expr? 4 = some (.repetition 18 1 1) := leavingGrammar_expr? 4
  have body : leavingGrammar.expr? 18 = some (.undo 3) := leavingGrammar_expr? 18
  have failed : (leaver.reduce 9 (.expression 4) (atRoot 0)).hasFailed = true := by decide +kernel
  obtain ⟨after, failed⟩ := Reduction.hasFailed_eq_true.mp failed
  have clean : leaver.Neutral (.rule (.expression 4)) (atRoot 0) false 18 := leaver_neutral body nofun rfl
  refine ⟨present, clean, after, failed, ?_⟩
  exact Recognizer.repetition_gives_back (r := leaver) rfl keeper_local rfl (comesTo_root (by decide +kernel)) present
    (.inl ⟨rfl, fun twice => absurd twice (by decide)⟩) clean failed

/-- The first letter was matched and is left, although the body itself leaves nothing when it fails. -/
theorem twice_leaves_first : leavingBuilder.build = .ok leaver.grammar ∧ leaver.handlers.Local keep ∧
    leavingGrammar.expr? 7 = some (.repetition 6 2 2) ∧
    (∀ {j e}, leavingGrammar.expr? j = some e → e.isAction = true → 7 ∉ e.children) ∧
    leaver.ComesTo (.rule (.production 1)) keepState (.rule (.expression 7)) (atRoot 1) ∧
    leaver.Neutral (.rule (.expression 7)) (atRoot 1) false 6 ∧
    ∃ after, leaver.reduce 9 (.expression 7) (atRoot 1) = .ok (.failed, after) ∧ after.host ≠ (atRoot 1).host := by
  have body : leavingGrammar.expr? 6 = some (.action 5 "keep" false) := leavingGrammar_expr? 6
  exact ⟨leavingBuilder_build, keeper_local, leavingGrammar_expr? _, free_of_all (by decide),
    comesTo_root (by decide +kernel), leaver_neutral body nofun rfl, leaver_leaves (by decide +kernel)⟩

/-- A letter is pushed before the sequence fails, and its scope takes it back. -/
theorem pair_gives_back : leavingGrammar.expr? 20 = some (.undo 17) ∧
    leavingGrammar.expr? 17 = some (.sequence [15, 16]) ∧
    (∀ c ∈ [15, 16], leaver.Neutral (.rule (.expression 20)) (atRoot 3) false c) ∧
    ∃ after, leaver.reduce 9 (.expression 20) (atRoot 3) = .ok (.failed, after) ∧ after.host = (atRoot 3).host := by
  have scope : leavingGrammar.expr? 20 = some (.undo 17) := leavingGrammar_expr? 20
  have present : leavingGrammar.expr? 17 = some (.sequence [15, 16]) := leavingGrammar_expr? 17
  have first : leavingGrammar.expr? 15 = some (.action 14 "keep" false) := leavingGrammar_expr? 15
  have second : leavingGrammar.expr? 16 = some (.terminal (.token "x" true)) := leavingGrammar_expr? 16
  have failed : (leaver.reduce 9 (.expression 20) (atRoot 3)).hasFailed = true := by decide +kernel
  obtain ⟨after, failed⟩ := Reduction.hasFailed_eq_true.mp failed
  have clean : ∀ c ∈ [15, 16], leaver.Neutral (.rule (.expression 20)) (atRoot 3) false c := by
    intro c member
    obtain rfl | rfl := by simpa using member
    · exact leaver_neutral first nofun rfl
    · exact leaver_neutral second nofun rfl
  refine ⟨scope, present, clean, after, failed, ?_⟩
  refine Recognizer.sequence_gives_back (r := leaver) leavingBuilder_build leavingBuilder_wellFormed rfl keeper_local rfl
    (comesTo_root (by decide +kernel)) present (.inr scope) (fun c member _ => ?_) clean failed
  obtain rfl := List.mem_singleton.mp member
  exact .inl (.action first)

/-- The lookahead keeps the letter that its body has pushed, but the sequence has no scope. -/
theorem lookahead_leaves_body : leavingBuilder.build = .ok leaver.grammar ∧ leaver.handlers.Local keep ∧
    leavingGrammar.expr? 13 = some (.sequence [19, 11, 12]) ∧
    (∀ {j e}, leavingGrammar.expr? j = some e → e.isAction = true → 13 ∉ e.children) ∧
    leaver.ComesTo (.rule (.production 2)) keepState (.rule (.expression 13)) (atRoot 2) ∧
    (∀ c ∈ [19, 11, 12], leaver.Neutral (.rule (.expression 13)) (atRoot 2) false c) ∧
    ∃ after, leaver.reduce 9 (.expression 13) (atRoot 2) = .ok (.failed, after) ∧ after.host ≠ (atRoot 2).host := by
  have first : leavingGrammar.expr? 19 = some (.undo 10) := leavingGrammar_expr? 19
  have second : leavingGrammar.expr? 11 = some (.terminal (.token "a" true)) := leavingGrammar_expr? 11
  have third : leavingGrammar.expr? 12 = some (.terminal (.token "b" true)) := leavingGrammar_expr? 12
  refine ⟨leavingBuilder_build, keeper_local, leavingGrammar_expr? _, free_of_all (by decide),
    comesTo_root (by decide +kernel), fun c member => ?_, leaver_leaves (by decide +kernel)⟩
  obtain rfl | rfl | rfl := by simpa using member
  · exact leaver_neutral first nofun rfl
  · exact leaver_neutral second nofun rfl
  · exact leaver_neutral third nofun rfl

end Sample

end Packrat

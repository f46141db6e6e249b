import Packrat.Proofs.Builder.Padding
import Packrat.Proofs.Grammar.UndoPlacement
import Packrat.Proofs.Recognition.Refinement
import Packrat.Proofs.Recognition.Rollback

/-! # The effects of a match

A match of a built grammar pushes the items of the actions it took, and a failure of a production
pushes nothing: what was done on a branch that was given up is taken back. Both hold at every place
that a run comes to, with or without memoization. With a memo table the first needs keys for all productions, and what
is said of the actions needs keys for all places of the text, too: where two share a key, the match of the one is taken
for one of the other.
-/

namespace Packrat

open Peg (Deed Parses)

namespace Peg.Deed

variable {α : Type} (effect : String → Context → List α → Except String Bool × List α)

mutual

/-- The items that an action leaves on the stack. -/
def items : Deed → List α
  | .act name context inner => (effect name context (allItems inner)).2

/-- The items that actions leave on the stack, one after the other. -/
def allItems : List Deed → List α
  | [] => []
  | deed :: rest => deed.items ++ allItems rest

end

theorem allItems_append (deeds more : List Deed) :
    allItems effect (deeds ++ more) = allItems effect deeds ++ allItems effect more := by
  induction deeds with
  | nil => rfl
  | cons deed rest ih => rw [List.cons_append, allItems, ih, allItems, List.append_assoc]

/-- What a handler says to a match and to the actions taken in it. -/
def answer (name : String) (context : Context) (deeds : List Deed) : Except String Bool :=
  (effect name context (allItems effect deeds)).1

end Peg.Deed

namespace Recognizer

variable {α τ : Type} {r : Recognizer (Segments α) (List α) τ}
  {effect : String → Context → List α → Except String Bool × List α} {task task' : Task}
  {st st' : State (Segments α) (List α) τ} {text : List Char}

/-- What a run enters stands where the grammar has it, with a memo table that is still mute. -/
theorem Transactional.enters (transactional : r.Transactional effect) (enters : r.Enters task st task' st')
    (standing : r.Standing task st) : r.Standing task' st' := by
  obtain ⟨placed, mute⟩ := standing
  refine transactional.standing enters placed ?_
  cases enters with
  | allTail run => exact (run.pushes transactional (transactional.standing .allHead placed mute)).2
  | firstTail run => exact (run.pushes transactional (transactional.standing .firstHead placed mute)).2
  | more run => exact (run.pushes transactional (transactional.standing .least placed mute)).2
  | upToTail run => exact (run.pushes transactional (transactional.standing .upToHead placed mute)).2
  | _ => exact mute

/-- The second task is entered on the way of the first one. -/
inductive Reaches (r : Recognizer (Segments α) (List α) τ) (task : Task) (st : State (Segments α) (List α) τ) :
    Task → State (Segments α) (List α) τ → Prop
  | here : Reaches r task st task st
  | deeper {task' task'' : Task} {st' st'' : State (Segments α) (List α) τ} (reaches : Reaches r task st task' st')
      (enters : r.Enters task' st' task'' st'') : Reaches r task st task'' st''

theorem Transactional.reaches (transactional : r.Transactional effect) (reaches : r.Reaches task st task' st')
    (standing : r.Standing task st) : r.Standing task' st' := by
  induction reaches with
  | here => exact standing
  | deeper _ enters ih => exact transactional.enters enters ih

/-- The ledger where every deed leaves the items that its handler pushes. -/
def Transactional.ledger (transactional : r.Transactional effect)
    (short : r.memoize = true → text.length < UInt32.size) : Ledger r text (Deed.answer effect) where
  adds host deeds host' := host' = host.pushAll (Deed.allItems effect deeds)
  ready := r.Standing
  enters := transactional.enters
  nil host := (Segments.pushAll_nil host).symm
  append := by
    rintro host _ _ deeds more rfl rfl
    rw [Segments.pushAll_pushAll, Deed.allItems_append]
  commit := by
    rintro host _ deeds rfl
    rw [transactional.segments]
    rfl
  handled := by
    rintro name handler host _ deeds context found rfl
    have said := transactional.handlers.handled found context (host.mark.pushAll (Deed.allItems effect deeds))
      (Segments.floor_pushAll_mark_le ..)
    rw [Segments.segment_pushAll_mark, Segments.popAll_pushAll_mark] at said
    rw [transactional.segments]
    change (handler context (host.mark.pushAll _)).1 = _ ∧
      (_ → (handler context (host.mark.pushAll _)).2.commit = _)
    rw [said]
    refine ⟨rfl, fun _ => ?_⟩
    simp [Deed.allItems, Deed.items]
  unhandled := by
    rintro name host _ deeds context missing rfl
    have accepted := transactional.handlers.unhandled missing context (Deed.allItems effect deeds)
    rw [transactional.segments]
    change _ ∧ (host.mark.pushAll _).commit = _
    simp [Deed.answer, Deed.allItems, Deed.items, accepted]
  saved := by
    rintro host _ deeds length rfl
    rw [transactional.segments]
    change (host.mark.pushAll _).commit = _ ∧ ∀ other : Segments α,
      other.pushAll (host.mark.pushAll (Deed.allItems effect deeds)).segment = _
    simp
  first standing run := by
    obtain ⟨pushes, -⟩ := run.pushes transactional (transactional.enters .firstHead standing)
    rw [pushes.restored (standing.1 _ (List.mem_cons_self ..)).2]
    exact (Segments.pushAll_nil _).symm
  last standing run := by
    obtain ⟨pushes, -⟩ := run.pushes transactional (transactional.enters .upToHead standing)
    rw [pushes.restored standing.1.2]
    exact (Segments.pushAll_nil _).symm
  lookahead standing run := by
    obtain ⟨pushes, -⟩ := run.pushes transactional standing
    rw [pushes.unchanged (Grammar.not_acts_lookahead standing.1.2)]
    exact (Segments.pushAll_nil _).symm
  keyed standing memoized := by
    have used := (Bool.and_eq_true_iff.mp memoized).2
    have inside := transactional.wellFormed.target standing.1.2
    exact ⟨Nat.lt_of_lt_of_le inside (transactional.few used), short used⟩

/-- In a run of a built grammar a production that fails leaves the host as it was, wherever the run has come
to; and a match does nothing to the host but push items, those of the actions on the branches it took. A memo table has
keys for 2^32 productions and 2^32 characters. -/
theorem failures_leave_no_trace {b : Builder} {i : Nat} (balanced : b.Balanced) (built : b.build = .ok r.grammar)
    (quiet : r.grammar.Quiet) (segments : r.transaction = Segments.transaction) (handlers : r.handlers.Local effect)
    (few : r.memoize = true → r.grammar.productions.size ≤ UInt32.size) (known : i < r.grammar.productions.size)
    (fresh : st.memo = .empty) :
    (∀ {j depth before after}, r.Reaches (.rule (.production i)) st (.rule (.production j)) before →
      r.reduce depth (.production j) before = .ok (.failed, after) → after.host = before.host) ∧
    ∀ {depth st'}, r.reduce depth (.production i) st = .ok (.matched, st') →
      ∃ items, st'.host = st.host.pushAll items ∧
        ∀ {text}, st.stream.Over text → (r.memoize = true → text.length < UInt32.size) →
          ∃ deeds, items = Deed.allItems effect deeds ∧
            Parses (r.setting text (Deed.answer effect)) (.rule (.production i)) st.stream.position.offset
              (.matched st'.stream.position.offset deeds) := by
  obtain ⟨wellFormed, sheltered⟩ := balanced.built built
  have transactional : r.Transactional effect := ⟨wellFormed, sheltered, quiet, segments, handlers, few⟩
  have standing : r.Standing (.rule (.production i)) st := ⟨known, fresh ▸ mute_empty⟩
  constructor
  · intro j depth before after reaches failed
    have run : r.Runs (.rule (.production j)) before .failed after := runs_of_perform failed
    exact (run.pushes transactional (transactional.reaches reaches standing)).1.restored id
  · intro depth st' matched
    have run : r.Runs (.rule (.production i)) st .matched st' := runs_of_perform matched
    obtain ⟨items, pushed, -, -⟩ := (run.pushes transactional standing).1
    refine ⟨items, pushed, fun reads short => ?_⟩
    obtain ⟨⟨out, parse, explained⟩, -⟩ :=
      (transactional.ledger short).explains run standing reads (fresh ▸ Ledger.sound_empty)
    cases explained with
    | matched added =>
      exact ⟨_, Segments.pushAll_inj (pushed.symm.trans added), parse⟩

end Recognizer

/-- The reduction failed. -/
def Reduction.hasFailed {H S τ : Type} : Reduction H S τ → Bool
  | .ok (.failed, _) => true
  | _ => false

theorem Reduction.hasFailed_eq_true {H S τ : Type} {reduction : Reduction H S τ} :
    reduction.hasFailed = true ↔ ∃ st, reduction = .ok (.failed, st) := by
  rcases reduction with fault | ⟨v, st⟩
  · simp [hasFailed]
  · cases v <;> simp [hasFailed]

namespace Sample

/-- `S : $keep("a") "x" / $keep("a") "y" ;` -/
def keepSteps : List Builder.Step :=
  let alternative (last : String) : List Builder.Step :=
    [.mark, .terminal (.token "a" true), .action "keep", .terminal (.token last true), .sequence, .release]
  [.startProduction "S"] ++ alternative "x" ++ alternative "y" ++ [.choice, .endProduction]

def keepBuilder : Builder := .ofSteps keepSteps

def keepGrammar : Grammar := keepBuilder.build.toOption.getD .empty

/-- The text of a match goes to the end of the segment. -/
def keep (name : String) (context : Context) (items : List (List Char)) : Except String Bool × List (List Char) :=
  if name = "keep" then (.ok true, items ++ [context.chars]) else (.ok true, items)

def keeper : Recognizer (Segments (List Char)) (List (List Char)) Unit where
  grammar := keepGrammar
  transaction := Segments.transaction
  handlers := ⟨#[("keep", fun context s => (.ok true, s.push context.chars))]⟩
  observer := fun _ _ _ observed => observed
  memoize := false

/-- A stream over `az`, and a host with an item in an open segment. -/
def keepState : State (Segments (List Char)) (List (List Char)) Unit :=
  ⟨.ofSource ⟨['a', 'z'], none⟩, Segments.empty.mark.push ['s'], .empty, ()⟩

theorem keepBuilder_build : keepBuilder.build = .ok keepGrammar := eq_ok_getD (by decide +kernel)

theorem keeper_local : keeper.handlers.Local keep where
  handled := by
    intro name handler found context s within
    by_cases same : "keep" = name
    · subst same
      cases found
      change (Except.ok true, s.push context.chars) = _
      simp only [keep, ↓reduceIte]
      rw [Segments.popAll_pushAll_segment _ _ within]
      simp [Segments.push, Segments.pushAll]
    · simp [keeper, Handlers.find?, same] at found
  unhandled := by
    intro name missing context items
    have other : name ≠ "keep" := by
      rintro rfl
      simp [keeper, Handlers.find?] at missing
    simp [keep, other]

/-- Both alternatives match a letter and push it before they fail, and nothing of it is left. -/
theorem keeper_gives_back : keepBuilder.Balanced ∧ keepGrammar.Quiet ∧ keeper.handlers.Local keep ∧
    ∃ st', keeper.reduce 7 (.production 0) keepState = .ok (.failed, st') ∧ st'.host = keepState.host := by
  have balanced : keepBuilder.Balanced := Builder.balanced_ofSteps keepSteps
  have wellFormed := (balanced.built keepBuilder_build).1
  have quiet : keepGrammar.Quiet := Grammar.quiet_of_hushed wellFormed (by decide +kernel)
  have failed : (keeper.reduce 7 (.production 0) keepState).hasFailed = true := by decide +kernel
  obtain ⟨st', failed⟩ := Reduction.hasFailed_eq_true.mp failed
  refine ⟨balanced, quiet, keeper_local, st', failed, ?_⟩
  exact (Recognizer.failures_leave_no_trace (r := keeper) balanced keepBuilder_build quiet rfl keeper_local nofun
    (by decide +kernel) rfl).1 .here failed

/-- `S : $all(@A F) ; A : $keep() ; F : !@B ;`, where `B` has no definition. -/
def mimicSteps : List Builder.Step :=
  [.startProduction "S", .reference "A" true, .reference "F" false, .sequence, .action "all", .endProduction,
    .startProduction "A", .action "keep", .endProduction,
    .startProduction "F", .reference "B" true, .lookahead .absent, .endProduction]

def mimicBuilder : Builder := .ofSteps mimicSteps

theorem mimicBuilder_holds : mimicBuilder.current = none ∧ mimicBuilder.definitions = #[0, 1, 2] ∧
    mimicBuilder.productions = #[{ name := "S", index := 0, root := 3, defined := true },
      { name := "A", index := 1, root := 5, defined := true }, { name := "F", index := 2, root := 7, defined := true },
      { name := "B", index := 3 }] ∧
    mimicBuilder.entries = [(.reference 1 true, 0), (.reference 2 false, 0), (.sequence [0, 1], 0),
      (.action 2 "all" false, 0), (.terminal .nil, 1), (.action 4 "keep" false, 1), (.reference 3 true, 2),
      (.lookahead 6 .absent, 2)] := by
  decide +kernel

section

variable {b : Builder} {n : Nat} (pads : mimicBuilder.Pads "P" n b)

include pads

theorem mimic_place {k : Nat} (small : k < 3) : b.finalOrder.idxOf k = k := by
  obtain ⟨-, definitions, -, -⟩ := mimicBuilder_holds
  have listed : ∀ k < 3, mimicBuilder.definitions.toList[k]? = some k := by
    rw [definitions]
    decide
  exact pads.idxOf_finalOrder (pads.finalOrder_of_definition (listed k small))

theorem mimic_far : b.finalOrder.idxOf 3 = n + 3 := by
  obtain ⟨-, definitions, productions, -⟩ := mimicBuilder_holds
  have last : mimicBuilder.arena.name? 3 = some "B" := by
    simp [Builder.arena, productions]
  have undefined : mimicBuilder.isDefined 3 = false := by
    simp [Builder.isDefined, productions]
  have listed := pads.finalOrder_of_undefined last (by decide) undefined fun k small => by
    have known : k = 0 ∨ k = 1 ∨ k = 2 := by omega
    rcases known with rfl | rfl | rfl <;> simp [Builder.arena, Builder.isDefined, productions]
  rw [definitions, Nat.add_comm] at listed
  exact pads.idxOf_finalOrder listed

theorem mimic_roots : b.assembled.root? 0 = some 3 ∧ b.assembled.root? 1 = some 5 ∧ b.assembled.root? 2 = some 7 := by
  have root {k : Nat} {p : Production} (listed : mimicBuilder.definitions.toList[k]? = some k)
      (found : mimicBuilder.productions[k]? = some p) (different : p.name ≠ "P") (defined : p.defined = true) :
      b.assembled.root? k = some p.root :=
    pads.assembled_root? listed (congrArg (Option.map Production.name) found) different ⟨p, found, defined, rfl⟩
  obtain ⟨-, definitions, productions, -⟩ := mimicBuilder_holds
  rw [definitions, productions] at root
  exact ⟨@root 0 _ rfl rfl (by decide) rfl, @root 1 _ rfl rfl (by decide) rfl, @root 2 _ rfl rfl (by decide) rfl⟩

theorem mimic_exprs : b.assembled.expr? 0 = some (.reference 1 true) ∧
    b.assembled.expr? 1 = some (.reference 2 false) ∧ b.assembled.expr? 2 = some (.sequence [0, 1]) ∧
    b.assembled.expr? 3 = some (.action 2 "all" false) ∧
    b.assembled.expr? 4 = some (.terminal .nil) ∧ b.assembled.expr? 5 = some (.action 4 "keep" false) ∧
    b.assembled.expr? 6 = some (.reference (n + 3) true) ∧ b.assembled.expr? 7 = some (.lookahead 6 .absent) := by
  have expr {i owner : Nat} {e : Expr} (entry : mimicBuilder.entries[i]? = some (e, owner)) :
      b.assembled.expr? i = some (Builder.renumber b.finalOrder.idxOf { expr := e, owner }).expr := by
    obtain ⟨node, here, same, -⟩ := pads.assembled_node entry
    rw [Grammar.expr?, here, Option.map_some, same]
  have near : b.finalOrder.idxOf 1 = 1 := mimic_place pads (by decide)
  have next : b.finalOrder.idxOf 2 = 2 := mimic_place pads (by decide)
  have far := mimic_far pads
  obtain ⟨-, -, -, entries⟩ := mimicBuilder_holds
  rw [entries] at expr
  have first := expr (i := 0) rfl
  have second := expr (i := 1) rfl
  have seventh := expr (i := 6) rfl
  simp only [Builder.renumber, near, next, far] at first second seventh
  exact ⟨first, second, expr (i := 2) rfl, expr (i := 3) rfl, expr (i := 4) rfl, expr (i := 5) rfl, seventh,
    expr (i := 7) rfl⟩

/-- Further nodes are empty texts. -/
theorem mimic_operator {i : Nat} {e : Expr} (present : b.assembled.expr? i = some e) (some : e.children ≠ []) :
    i = 2 ∧ e = .sequence [0, 1] ∨ i = 3 ∧ e = .action 2 "all" false ∨ i = 5 ∧ e = .action 4 "keep" false ∨
      i = 7 ∧ e = .lookahead 6 .absent := by
  have size : mimicBuilder.nodes.size = 8 := by
    obtain ⟨-, -, -, entries⟩ := mimicBuilder_holds
    rw [← Builder.length_entries, entries]
    rfl
  obtain ⟨e0, e1, e2, e3, e4, e5, e6, e7⟩ := mimic_exprs pads
  rcases pads.assembled_exprs present with early | rfl
  · have cases : i = 0 ∨ i = 1 ∨ i = 2 ∨ i = 3 ∨ i = 4 ∨ i = 5 ∨ i = 6 ∨ i = 7 := by omega
    rcases cases with rfl | rfl | rfl | rfl | rfl | rfl | rfl | rfl
    · cases e0.symm.trans present; exact absurd rfl some
    · cases e1.symm.trans present; exact absurd rfl some
    · cases e2.symm.trans present; exact .inl ⟨rfl, rfl⟩
    · cases e3.symm.trans present; exact .inr (.inl ⟨rfl, rfl⟩)
    · cases e4.symm.trans present; exact absurd rfl some
    · cases e5.symm.trans present; exact .inr (.inr (.inl ⟨rfl, rfl⟩))
    · cases e6.symm.trans present; exact absurd rfl some
    · cases e7.symm.trans present; exact .inr (.inr (.inr ⟨rfl, rfl⟩))
  · exact absurd rfl some

theorem mimic_quiet : b.assembled.Quiet where
  lookahead rooted present := by
    rcases mimic_operator pads present (List.cons_ne_nil _ _) with ⟨-, same⟩ | ⟨-, same⟩ | ⟨-, same⟩ | ⟨-, same⟩
    all_goals cases same
  repetition rooted present := by
    rcases mimic_operator pads present (List.cons_ne_nil _ _) with ⟨-, same⟩ | ⟨-, same⟩ | ⟨-, same⟩ | ⟨-, same⟩
    all_goals cases same

/-- What is not defined does not act. -/
theorem mimic_idle : ¬ b.assembled.Modifies 6 := by
  have wellFormed := pads.balanced.sound.wellFormed_assembled pads.idle
  obtain ⟨-, -, -, -, -, -, reference, -⟩ := mimic_exprs pads
  have nothing {root : Nat} (defined : b.assembled.root? (n + 3) = some root) :
      b.assembled.expr? root = some (.terminal .nil) := by
    obtain ⟨p, found, rfl⟩ := Option.map_eq_some_iff.mp defined
    obtain ⟨node, here, -, owned⟩ := wellFormed.root found
    have present := Grammar.expr?_of_node here
    rcases pads.assembled_exprs present with early | nil
    · -- The nodes there were belong to the productions that are defined.
      have owners : ∀ entry ∈ mimicBuilder.entries, entry.2 < 3 := by
        obtain ⟨-, -, -, entries⟩ := mimicBuilder_holds
        simp [entries]
      rw [← Builder.length_entries] at early
      obtain ⟨⟨e, owner⟩, entry⟩ : ∃ entry, mimicBuilder.entries[p.root]? = some entry :=
        ⟨_, List.getElem?_eq_getElem early⟩
      obtain ⟨node', here', -, owned'⟩ := pads.assembled_node entry
      cases here.symm.trans here'
      have small : owner < 3 := owners _ (List.mem_of_getElem? entry)
      have place := owned'.trans (mimic_place pads small)
      omega
    · rw [present, nil]
  intro modifies
  cases modifies with
  | action present acts => cases reference.symm.trans present; cases acts
  | part present member => cases reference.symm.trans present; cases member
  | reference present defined modifies =>
    cases reference.symm.trans present
    have nil := nothing defined
    cases modifies with
    | action present acts => cases nil.symm.trans present; cases acts
    | part present member => cases nil.symm.trans present; cases member
    | reference present => cases nil.symm.trans present

theorem mimic_undoSites : b.assembled.undoSites = [] := by
  have wellFormed := pads.balanced.sound.wellFormed_assembled pads.idle
  obtain ⟨-, -, -, action, -, -, -, -⟩ := mimic_exprs pads
  rw [List.eq_nil_iff_forall_not_mem]
  intro i member
  obtain ⟨-, free, ⟨children, present, child, inside, -⟩ | ⟨child, sign, present, modifies⟩⟩ :=
    wellFormed.mem_undoSites_iff_needsScope.mp member
  · have some : children ≠ [] := List.ne_nil_of_mem (List.mem_of_mem_dropLast inside)
    rcases mimic_operator pads present some with ⟨rfl, -⟩ | ⟨-, same⟩ | ⟨-, same⟩ | ⟨-, same⟩
    · exact free action rfl (List.mem_singleton_self 2)
    all_goals cases same
  · rcases mimic_operator pads present (List.cons_ne_nil _ _) with ⟨-, same⟩ | ⟨-, same⟩ | ⟨-, same⟩ | ⟨-, same⟩
    all_goals cases same
    exact mimic_idle pads modifies

theorem mimic_build : b.build = .ok b.assembled := by
  have still : b.assembled.injectUndo.2 = b.assembled := by
    simp [Grammar.injectUndo, mimic_undoSites pads]
  rw [pads.balanced.sound.build_eq pads.idle, still]

end

/-- The keeper with a memo table. -/
def mimic (g : Grammar) : Recognizer (Segments (List Char)) (List (List Char)) Unit :=
  { keeper with grammar := g, memoize := true }

section

variable {g : Grammar} {i target root child n : Nat} {t : Terminal} {text : List Char}
  {st : State (Segments (List Char)) (List (List Char)) Unit}

theorem mimic_matches (leaf : g.expr? i = some (.terminal t)) (reads : st.stream.Over text)
    (found : t.matchLength? (text.drop st.stream.position.offset) = some n) :
    ∃ stream, (mimic g).Runs (.rule (.expression i)) st .matched { st with stream } ∧
      stream.position.offset = st.stream.position.offset + n ∧ stream.marks = st.stream.marks ∧ stream.Over text := by
  obtain ⟨answer, moved⟩ := t.recognize_spec reads
  have run : (mimic g).Runs (.operator i (.terminal t)) st _ _ := .terminal
  rw [answer, found] at run
  refine ⟨(t.recognize st.stream).2, .expression leaf run, moved.offset.trans ?_, moved.marks, moved.reads⟩
  rw [Terminal.stopAfter, found, Option.getD_some]

/-- The text of a terminal is kept, and remembered with the production for it. -/
theorem mimic_keeps (reference : g.expr? i = some (.reference target true)) (defined : g.root? target = some root)
    (action : g.expr? root = some (.action child "keep" false)) (leaf : g.expr? child = some (.terminal t))
    (missing : st.memo.get? target st.stream.position.offset = none) (reads : st.stream.Over text)
    (found : t.matchLength? (text.drop st.stream.position.offset) = some n) :
    let kept := (text.drop st.stream.position.offset).take n
    ∃ st', (mimic g).Runs (.rule (.expression i)) st .matched st' ∧
      st'.stream.position.offset = st.stream.position.offset + n ∧
      st'.memo.get? target st.stream.position.offset = some ⟨n, some [kept]⟩ ∧ st'.host = st.host.pushAll [kept] := by
  intro kept
  obtain ⟨stream, matched, offset, marks, reads'⟩ := @mimic_matches _ _ _ _ text
    ⟨st.stream.mark.mark.mark, st.host.mark.mark, st.memo, ()⟩ leaf reads.mark.mark.mark found
  have context : stream.context.chars = kept := by
    rw [reads'.context (marks.trans (congrArg (· :: _) reads.position.eq_after)) reads.position.offset_le, offset]
    exact List.drop_take.trans (congrArg (List.take · _) (Nat.add_sub_cancel_left ..))
  have handled : (mimic g).handle "keep" ⟨stream, st.host.mark.mark, st.memo, ()⟩ =
      .ok (.matched, ⟨stream, st.host.mark.mark.pushAll [kept], st.memo, ()⟩) := by
    have pushed : st.host.mark.mark.push stream.context.chars = st.host.mark.mark.pushAll [kept] := by
      rw [context]
      simp [Segments.push, Segments.pushAll]
    rw [← pushed]
    rfl
  refine ⟨_, .expression reference (.store rfl missing (.production defined (.marked (.expression action
    (.act matched handled))))), offset, ?_, rfl⟩
  refine (Memo.Table.get?_insert_self ..).trans (congrArg some ?_)
  change Memo.Entry.mk (stream.position.offset - st.stream.position.offset)
    (some (st.host.mark.pushAll [kept]).segment) = _
  rw [offset, Segments.segment_pushAll_mark]
  exact congrArg (Memo.Entry.mk · _) (Nat.add_sub_cancel_left ..)

/-- What is remembered is kept again. -/
theorem mimic_repeats {items : List (List Char)} (reference : g.expr? i = some (.reference target true))
    (found : st.memo.get? target st.stream.position.offset = some ⟨n, some items⟩) :
    (mimic g).Runs (.rule (.expression i)) st .matched
      { st with host := st.host.pushAll items, stream := (st.stream.skip n).2 } :=
  .expression reference (.hit rfl found)

end

theorem mimic_leaves_item {b : Builder} {n : Nat} (pads : mimicBuilder.Pads "P" n b)
    (congruent : (n + 3) % UInt32.size = 1) :
    ∃ before after depth, (mimic b.assembled).Reaches (.rule (.production 0)) ⟨.ofSource ⟨[], none⟩, .empty, .empty, ()⟩
        (.rule (.production 2)) before ∧
      (mimic b.assembled).reduce depth (.production 2) before = .ok (.failed, after) ∧ after.host ≠ before.host := by
  obtain ⟨near, next, sequence, all, leaf, keep, far, absent⟩ := mimic_exprs pads
  obtain ⟨start, root, last⟩ := mimic_roots pads
  have reads : (Stream.ofSource ⟨[], none⟩).mark.mark.mark.Over [] := (Stream.over_ofSource ⟨[], none⟩).mark.mark.mark
  obtain ⟨before, kept, offset, found, -⟩ :=
    @mimic_keeps _ _ _ _ _ _ .nil [] ⟨(Stream.ofSource ⟨[], none⟩).mark.mark.mark, Segments.empty.mark, .empty, ()⟩
      near root keep leaf (Memo.Table.get?_empty ..) reads rfl
  have found : before.memo.get? (n + 3) before.stream.position.offset = some ⟨0, some [[]]⟩ := by
    rw [← Memo.Table.get?_mod, congruent, offset]
    exact found
  have again : (mimic b.assembled).Runs (.rule (.expression 6)) before.mark.mark.mark .matched _ :=
    mimic_repeats far found
  have failed : (mimic b.assembled).Runs (.rule (.production 2)) before.mark .failed _ :=
    .production last (.marked (.expression absent (.absent again)))
  obtain ⟨depth, failed⟩ := Recognizer.perform_iff_runs.mpr failed
  refine ⟨before.mark, _, depth, ?_, failed, ?_⟩
  · exact .deeper (.deeper (.deeper (.deeper (.deeper (.deeper (.deeper (.deeper (.deeper (.deeper (.deeper (.deeper
      .here (.production start)) .marked) (.expression all)) .action) (.expression sequence)) .sequence) .marked)
      (.allTail kept)) .allHead) (.expression next)) (.reference rfl)) .marked
  · intro same
    have nothing : [[]] = ([] : List (List Char)) := Segments.pushAll_inj (same.trans (Segments.pushAll_nil _).symm)
    cases nothing

/-- `S : $all(@A "x"* @A) ; A : $keep(.) ;` -/
def leapSteps : List Builder.Step :=
  [.startProduction "S", .reference "A" true, .terminal (.token "x" true), .repetition 0 unbounded, .reference "A" true,
    .sequence, .action "all", .endProduction,
    .startProduction "A", .terminal .any, .action "keep", .endProduction]

def leapBuilder : Builder := .ofSteps leapSteps

def leapGrammar : Grammar := leapBuilder.build.toOption.getD .empty

theorem leapBuilder_build : leapBuilder.build = .ok leapGrammar := eq_ok_getD (by decide +kernel)

/-- The letter `a`, the letter `x` a number of times, and the letter `b`. -/
def leapText (n : Nat) : List Char := 'a' :: (List.replicate n 'x' ++ ['b'])

def leapState (n : Nat) : State (Segments (List Char)) (List (List Char)) Unit :=
  ⟨.ofSource ⟨leapText n, none⟩, .empty, .empty, ()⟩

theorem over_leapText (n : Nat) : (Stream.ofSource ⟨leapText n, none⟩).Over (leapText n) := by
  have plain : '\r' ∉ leapText n := by simp [leapText]
  have reads := Stream.over_ofSource ⟨leapText n, none⟩
  rwa [Newline.normalize_of_not_mem plain] at reads

theorem leap_x {n k : Nat} (small : k < n) : (leapText n).drop (k + 1) = 'x' :: (leapText n).drop (k + 2) := by
  have here : (leapText n)[k + 1]? = some 'x' := by
    rw [leapText, List.getElem?_cons_succ, List.getElem?_append_left (by simpa using small), List.getElem?_replicate,
      if_pos small]
  obtain ⟨inside, here⟩ := List.getElem?_eq_some_iff.mp here
  rw [List.drop_eq_getElem_cons inside, here]

theorem leapGrammar_holds : (leapGrammar.root? 0 = some 5 ∧ leapGrammar.root? 1 = some 7) ∧
    leapGrammar.expr? 0 = some (.reference 1 true) ∧ leapGrammar.expr? 1 = some (.terminal (.token "x" true)) ∧
    leapGrammar.expr? 2 = some (.repetition 1 0 unbounded) ∧ leapGrammar.expr? 3 = some (.reference 1 true) ∧
    leapGrammar.expr? 4 = some (.sequence [0, 2, 3]) ∧ leapGrammar.expr? 5 = some (.action 4 "all" false) ∧
    leapGrammar.expr? 6 = some (.terminal .any) ∧ leapGrammar.expr? 7 = some (.action 6 "keep" false) := by
  decide +kernel

/-- As many letters as are asked for, one after the other. -/
theorem leap_over {n count k : Nat} {st : State (Segments (List Char)) (List (List Char)) Unit}
    (reads : st.stream.Over (leapText n)) (here : st.stream.position.offset = k + 1) (left : k + count ≤ n) :
    ∃ stream, (mimic leapGrammar).Runs (.upTo 1 true count) st .matched { st with stream } ∧
      stream.position.offset = k + 1 + count ∧ stream.Over (leapText n) := by
  induction count generalizing k st with
  | zero => exact ⟨st.stream, .upToZero, here, reads⟩
  | succ count ih =>
    obtain ⟨-, -, letter, -⟩ := leapGrammar_holds
    have found : (Terminal.token "x" true).matchLength? ((leapText n).drop st.stream.position.offset) = some 1 := by
      rw [here, leap_x (by omega)]
      have one : "x".length = 1 := rfl
      simp [Terminal.matchLength?, Terminal.beginsWith, Terminal.sameChar, one]
    obtain ⟨stream, matched, offset, -, reads'⟩ := mimic_matches letter reads found
    have next : stream.position.offset = k + 1 + 1 := by rw [offset, here]
    obtain ⟨stream', more, offset', reads''⟩ := @ih (k + 1) { st with stream } reads' next (by omega)
    refine ⟨stream', .upToNext matched (fun _ => ?_) more, by omega, reads''⟩
    exact Nat.ne_of_gt (by rw [offset]; exact Nat.lt_succ_self _)

/-- The key of the last reference is that of the first one. -/
theorem leap_keeps_twice {n : Nat} (wide : n + 1 = UInt32.size) :
    ∃ st', (mimic leapGrammar).Runs (.rule (.production 0)) (leapState n) .matched st' ∧
      st'.host = Segments.empty.pushAll [['a'], ['a']] := by
  obtain ⟨⟨start, root⟩, first, -, letters, last, sequence, all, any, keep⟩ := leapGrammar_holds
  have marked : (leapState n).stream.mark.mark.mark.Over (leapText n) := (over_leapText n).mark.mark.mark
  obtain ⟨st₁, kept, offset, found, host⟩ :=
    @mimic_keeps _ _ _ _ _ 1 .any (leapText n) ⟨(leapState n).stream.mark.mark.mark, Segments.empty.mark, .empty, ()⟩
      first root keep any (Memo.Table.get?_empty ..) marked rfl
  have reads : st₁.stream.Over (leapText n) := kept.reads marked
  have enough : 0 + unbounded ≤ n := by
    have : unbounded + 1 = UInt32.size := rfl
    omega
  obtain ⟨stream, passed, offset', -⟩ := @leap_over n unbounded 0 st₁.mark reads.mark offset enough
  have second : (mimic leapGrammar).Runs (.rule (.expression 2)) st₁ .matched
      (st₁.settled .matched { st₁ with stream }) :=
    .expression letters (.repetition (.marked (.repeatedEnough .allDone passed)))
  have again : st₁.memo.get? 1 stream.position.offset = some ⟨1, some [['a']]⟩ := by
    have wraps : (0 + 1 + unbounded) % UInt32.size = 0 % UInt32.size := by decide
    rw [offset', Memo.Table.get?_of_key_eq _ (Memo.key_eq_iff.mpr ⟨rfl, wraps⟩)]
    exact found
  have third : (mimic leapGrammar).Runs (.rule (.expression 3)) (st₁.settled .matched { st₁ with stream }) .matched _ :=
    mimic_repeats last again
  have handled {st : State (Segments (List Char)) (List (List Char)) Unit} :
      (mimic leapGrammar).handle "all" st = .ok (.matched, st) := rfl
  refine ⟨_, .production start (.marked (.expression all (.act (.expression sequence (.sequence (.marked
    (.allNext kept (.allNext second (.allNext third .allDone)))))) handled))), ?_⟩
  change (st₁.host.pushAll [['a']]).commit = _
  rw [host]
  rfl

/-- A parse of the second production keeps the character it is for. -/
theorem leap_parse_keeps {text : List Char} {i o stop : Nat} {deeds : List Deed}
    (reference : leapGrammar.expr? i = some (.reference 1 true))
    (parse : Parses ((mimic leapGrammar).setting text (Deed.answer keep)) (.rule (.expression i)) o
      (.matched stop deeds)) :
    stop = o + 1 ∧ Deed.allItems keep deeds = [(text.drop o).take 1] := by
  obtain ⟨⟨-, root⟩, -, -, -, -, -, -, any, action⟩ := leapGrammar_holds
  cases parse.of_expression reference with
  | reference body =>
    obtain ⟨inner, taken, rfl⟩ := ((body.of_production root).of_expression action).of_action
    cases taken.of_expression any with
    | @terminal _ _ n found =>
      obtain rfl : n = 1 := by
        rw [Terminal.matchLength?] at found
        split at found
        · cases found
        · exact (Option.some.inj found).symm
      refine ⟨rfl, ?_⟩
      simp [Deed.allItems, Deed.items, keep, Context.between, List.drop_take, Recognizer.setting]

/-- The last item of a parse is a character behind the first one. -/
theorem leap_parse {text : List Char} {stop : Nat} {deeds : List Deed}
    (parse : Parses ((mimic leapGrammar).setting text (Deed.answer keep)) (.rule (.production 0)) 0
      (.matched stop deeds)) :
    ∃ items o, Deed.allItems keep deeds = items ++ [(text.drop (o + 1)).take 1] := by
  obtain ⟨⟨start, -⟩, first, -, -, last, sequence, all, -, -⟩ := leapGrammar_holds
  obtain ⟨inner, body, rfl⟩ := ((parse.of_production start).of_expression all).of_action
  cases body.of_expression sequence with
  | sequence body =>
    obtain ⟨m, head, _, one, behind, rfl⟩ := body.all_cons
    obtain ⟨m', middle, _, two, ends, rfl⟩ := behind.all_cons
    obtain ⟨_, tail, _, three, done, rfl⟩ := ends.all_cons
    cases done
    obtain ⟨rfl, -⟩ := leap_parse_keeps first one
    obtain ⟨-, item⟩ := leap_parse_keeps last three
    have later := (two.forward rfl).1
    refine ⟨Deed.allItems keep head ++ Deed.allItems keep middle, m' - 1, ?_⟩
    rw [Nat.sub_add_cancel (by omega), ← item]
    simp [Deed.allItems, Deed.items, keep, Deed.allItems_append]

theorem leap_differs {n stop : Nat} {deeds : List Deed}
    (parse : Parses ((mimic leapGrammar).setting (leapText n) (Deed.answer keep)) (.rule (.production 0)) 0
      (.matched stop deeds)) :
    Deed.allItems keep deeds ≠ [['a'], ['a']] := by
  obtain ⟨items, o, kept⟩ := leap_parse parse
  intro same
  have last : [['a']] ++ [['a']] = items ++ [((leapText n).drop (o + 1)).take 1] := same.symm.trans kept
  have taken : ['a'] = ((leapText n).drop (o + 1)).take 1 := by
    obtain ⟨-, last⟩ := List.append_inj' last rfl
    exact (List.cons.inj last).1
  have member : 'a' ∈ List.replicate n 'x' ++ ['b'] := by
    refine List.mem_of_mem_drop (i := o) (List.mem_of_mem_take (i := 1) ?_)
    exact taken ▸ List.mem_singleton_self 'a'
  simp at member

/-- With more than 2^32 productions a production may fail and leave an item behind, and on a text of more than 2^32
characters the items of a match may be others than those of its actions: a match is remembered under the key of another
production, or of another place. -/
theorem traces_of_shared_keys :
    (∃ (b : Builder) (g : Grammar) (depth : Nat) (before after : State (Segments (List Char)) (List (List Char)) Unit),
      b.Balanced ∧ b.build = .ok g ∧ g.Quiet ∧ (mimic g).handlers.Local keep ∧
      (mimic g).Reaches (.rule (.production 0)) ⟨.ofSource ⟨[], none⟩, .empty, .empty, ()⟩
        (.rule (.production 2)) before ∧
      (mimic g).reduce depth (.production 2) before = .ok (.failed, after) ∧ after.host ≠ before.host) ∧
    leapBuilder.Balanced ∧ leapBuilder.build = .ok leapGrammar ∧ leapGrammar.Quiet ∧
    (mimic leapGrammar).handlers.Local keep ∧ ∃ text, (leapState (UInt32.size - 1)).stream.Over text ∧
      ∃ depth st',
        (mimic leapGrammar).reduce depth (.production 0) (leapState (UInt32.size - 1)) = .ok (.matched, st') ∧
        ¬ ∃ deeds, st'.host = Segments.empty.pushAll (Deed.allItems keep deeds) ∧
          Parses ((mimic leapGrammar).setting text (Deed.answer keep)) (.rule (.production 0)) 0
            (.matched st'.stream.position.offset deeds) := by
  constructor
  · have balanced : mimicBuilder.Balanced := Builder.balanced_ofSteps mimicSteps
    obtain ⟨b, pads⟩ := Builder.exists_pads balanced mimicBuilder_holds.1 "P" (UInt32.size - 2)
    obtain ⟨before, after, depth, reaches, failed, differs⟩ := mimic_leaves_item pads (by decide)
    exact ⟨b, b.assembled, depth, before, after, pads.balanced, mimic_build pads, mimic_quiet pads, keeper_local,
      reaches, failed, differs⟩
  · have balanced : leapBuilder.Balanced := Builder.balanced_ofSteps leapSteps
    have wellFormed := (balanced.built leapBuilder_build).1
    refine ⟨balanced, leapBuilder_build, Grammar.quiet_of_hushed wellFormed (by decide +kernel), keeper_local,
      leapText (UInt32.size - 1), over_leapText _, ?_⟩
    obtain ⟨st', run, host⟩ := @leap_keeps_twice (UInt32.size - 1) (by decide)
    obtain ⟨depth, matched⟩ := Recognizer.perform_iff_runs.mpr run
    refine ⟨depth, st', matched, ?_⟩
    rintro ⟨deeds, same, parse⟩
    exact leap_differs parse (Segments.pushAll_inj (same.symm.trans host))

end Sample

end Packrat

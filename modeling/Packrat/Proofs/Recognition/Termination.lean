import Packrat.Proofs.Analysis.LeftCycles
import Packrat.Proofs.Recognition.ComesTo
import Packrat.Proofs.Recognition.Consumption
import Packrat.Proofs.Recognition.Crowds

/-! # Recognition comes to an end

Without a reported left recursion every production halts on every text, whatever the handlers do to
the host, without a memo table or with one that has keys for all productions. The argument goes down
in the rest of the text first and in the order of left calls second: what a rule enters before it has
consumed anything is left-called by it, and behind that the rest of the text is shorter. Where two
productions share a key, a match of nothing can be taken for one of a production that is sure to
consume, and a recursion behind it comes to no end.
-/

namespace Packrat.Recognizer

variable {H S τ : Type} {r : Recognizer H S τ} {text : List Char} {task task' : Task} {st st' : State H S τ}

/-- The task can start from the state. -/
structure Poised (r : Recognizer H S τ) (text : List Char) (task : Task) (st : State H S τ) : Prop where
  rooted : task.Rooted r.grammar
  reads : st.stream.Over text
  advancing : r.Advancing text st.memo

/-- The number of characters ahead. -/
def remaining (text : List Char) (st : State H S τ) : Nat := text.length - st.stream.position.offset

theorem Runs.remaining_le {v : Verdict} (run : r.Runs task st v st') (text : List Char) :
    remaining text st' ≤ remaining text st := by
  have := run.forward
  simp only [remaining]
  omega

theorem Poised.known (poised : r.Poised text task st) : task.Known r.grammar := by
  have rooted := poised.rooted
  induction task with
  | operator => exact rooted.2
  | marked task ih => exact ih ⟨rooted, poised.reads, poised.advancing⟩ rooted
  | rule | all | first | repeated | upTo => trivial

theorem Poised.enters (poised : r.Poised text task st) (wellFormed : r.grammar.WellFormed) (keyed : r.Keyed text)
    (enters : r.Enters task st task' st') : r.Poised text task' st' := by
  obtain ⟨-, reads, advancing⟩ := enters.advancing wellFormed keyed poised.known poised.reads poised.advancing
  exact ⟨enters.rooted wellFormed poised.rooted, reads, advancing⟩

/-- Wherever fewer than `rest` characters are ahead, the rule halts. -/
def HaltsBelow (r : Recognizer H S τ) (text : List Char) (rest : Nat) (rule : Rule) : Prop :=
  ∀ st, r.Poised text (.rule rule) st → remaining text st < rest → r.Halts (.rule rule) st

section

variable (wellFormed : r.grammar.WellFormed) (keyed : r.Keyed text) {rest : Nat}

include wellFormed keyed

/-- A row of rules halts if each does. -/
private theorem halts_all {children : List Nat}
    (each : ∀ child ∈ children, r.HaltsBelow text rest (.expression child))
    (poised : r.Poised text (.all children) st) (fits : remaining text st < rest) : r.Halts (.all children) st := by
  induction children generalizing st with
  | nil => exact ⟨_, _, .allDone⟩
  | cons child others ih =>
    obtain ⟨first, later⟩ := List.forall_mem_cons.mp each
    have head := poised.enters wellFormed keyed .allHead
    refine halts_all_cons (first st head fits) fun st' run => ?_
    have := run.remaining_le text
    exact ih later (poised.enters wellFormed keyed (.allTail run)) (by omega)

private theorem halts_first {children : List Nat}
    (each : ∀ child ∈ children, r.HaltsBelow text rest (.expression child))
    (poised : r.Poised text (.first children) st) (fits : remaining text st < rest) :
    r.Halts (.first children) st := by
  induction children generalizing st with
  | nil => exact ⟨_, _, .firstNone⟩
  | cons child others ih =>
    obtain ⟨first, later⟩ := List.forall_mem_cons.mp each
    have marked := poised.enters wellFormed keyed .firstHead
    refine halts_first_cons (first _ (marked.enters wellFormed keyed .marked) fits) fun st' run => ?_
    have := run.remaining_le text
    exact ih later (poised.enters wellFormed keyed (.firstTail run)) (by omega)

private theorem halts_upTo_of {child count : Nat} {stopOnEmpty : Bool}
    (body : r.HaltsBelow text rest (.expression child))
    (poised : r.Poised text (.upTo child stopOnEmpty count) st) (fits : remaining text st < rest) :
    r.Halts (.upTo child stopOnEmpty count) st := by
  induction count generalizing st with
  | zero => exact ⟨_, _, .upToZero⟩
  | succ count ih =>
    have head := poised.enters wellFormed keyed .upToHead
    refine halts_upTo_succ (body st head fits) fun st' run advanced => ?_
    have := run.remaining_le text
    exact ih (poised.enters wellFormed keyed (.upToTail run advanced)) (by omega)

/-- The elements of a sequence halt one after the other: up to the first one that consumes they are
left-called, and behind it less is ahead. -/
private theorem halts_sequence_of {children : List Nat} {items : List Tree}
    (parts : List.Forall₂ (fun child body => r.grammar.tree? child = some body ∧
      ((∀ call ∈ body.leftCalls r.grammar.consuming, r.HaltsBelow text (rest + 1) (.production call.2)) →
        r.HaltsBelow text (rest + 1) (.expression child))) children items)
    (calls : ∀ call ∈ Tree.sequenceLeftCalls r.grammar.consuming items,
      r.HaltsBelow text (rest + 1) (.production call.2))
    (lower : ∀ child ∈ children, r.HaltsBelow text rest (.expression child))
    (poised : r.Poised text (.all children) st) (fits : remaining text st < rest + 1) :
    r.Halts (.all children) st := by
  induction parts generalizing st with
  | nil => exact ⟨_, _, .allDone⟩
  | @cons child t children items branch _ ih =>
    obtain ⟨shown, halts⟩ := branch
    obtain ⟨-, later⟩ := List.forall_mem_cons.mp lower
    simp only [Tree.sequenceLeftCalls, List.mem_append] at calls
    have head := poised.enters wellFormed keyed .allHead
    refine halts_all_cons (halts (fun call member => calls call (.inl member)) st head fits) fun st' run => ?_
    have tail := poised.enters wellFormed keyed (.allTail run)
    have le := run.remaining_le text
    by_cases consumes : t.consumes r.grammar.consuming = true
    · have bit : r.grammar.nodeConsumes child = true := by rw [Grammar.nodeConsumes, shown]; exact consumes
      have moves := (run.consumes wellFormed keyed head.known head.reads head.advancing).1 rfl bit
      have inside := tail.reads.position.offset_le
      refine halts_all wellFormed keyed later tail ?_
      simp only [remaining] at fits ⊢
      omega
    · refine ih (fun call member => calls call (.inr ?_)) later tail (by omega)
      rw [if_neg consumes]
      exact member

/-- An expression halts if the productions it left-calls do, and every expression where less is ahead. -/
private theorem haltsBelow_expression {i : Nat} {t : Tree} (rooted : r.grammar.Rooted i)
    (shown : r.grammar.tree? i = some t)
    (lower : ∀ {j}, r.grammar.Rooted j → r.HaltsBelow text rest (.expression j))
    (calls : ∀ call ∈ t.leftCalls r.grammar.consuming, r.HaltsBelow text (rest + 1) (.production call.2)) :
    r.HaltsBelow text (rest + 1) (.expression i) := by
  refine wellFormed.tree_induction (motive := fun i t =>
    (∀ call ∈ t.leftCalls r.grammar.consuming, r.HaltsBelow text (rest + 1) (.production call.2)) →
      r.HaltsBelow text (rest + 1) (.expression i)) ?_ rooted shown calls
  intro i e t rooted present layer calls st poised fits
  have poised := poised.enters wellFormed keyed (.expression present)
  refine halts_expression present ?_
  cases layer with
  | @terminal t => exact halts_terminal i t
  | @reference target memo =>
    have target := calls (i, target) (List.mem_singleton_self _)
    cases memoized : memo && r.memoize with
    | false =>
      have marked := poised.enters wellFormed keyed (.reference memoized)
      exact halts_reference i memoized (target _ (marked.enters wellFormed keyed .marked) fits)
    | true =>
      refine halts_remembered i memoized fun missing => ?_
      exact target _ (poised.enters wellFormed keyed (.remembered memoized missing)) fits
  | action part => exact halts_action i (part.2 calls _ (poised.enters wellFormed keyed .action) fits)
  | undo part => exact halts_undo i (part.2 calls _ (poised.enters wellFormed keyed .undo) fits)
  | sequence parts =>
    have inside := (poised.enters wellFormed keyed .sequence).enters wellFormed keyed .marked
    refine halts_sequence i (halts_sequence_of wellFormed keyed parts calls (fun child member => ?_) inside fits)
    exact lower (rooted.child present member)
  | choice parts =>
    have inside := poised.enters wellFormed keyed .choice
    refine halts_choice i (halts_first wellFormed keyed (fun child member => ?_) inside fits)
    obtain ⟨body, listed, branch⟩ := Tree.exists_related parts member
    exact branch.2 fun call called => calls call (Tree.mem_choiceLeftCalls.mpr ⟨body, listed, called⟩)
  | @repetition child min max body part =>
    have inside := (poised.enters wellFormed keyed .repetition).enters wellFormed keyed .marked
    have least := inside.enters wellFormed keyed .least
    refine halts_repetition i (halts_all wellFormed keyed (fun c member => ?_) least fits) fun st' run => ?_
    · exact List.eq_of_mem_replicate member ▸ part.2 calls
    · have := run.remaining_le text
      exact halts_upTo_of wellFormed keyed (part.2 calls) (inside.enters wellFormed keyed (.more run))
        (Nat.lt_of_le_of_lt this fits)
  | lookahead part => exact halts_lookahead i (part.2 calls _ (poised.enters wellFormed keyed .lookahead) fits)

/-- A production halts if its right-hand side does. -/
private theorem haltsBelow_production {index root : Nat} (defined : r.grammar.root? index = some root)
    (body : r.HaltsBelow text rest (.expression root)) : r.HaltsBelow text rest (.production index) := by
  intro st poised fits
  have marked := poised.enters wellFormed keyed (.production defined)
  exact halts_production defined (body _ (marked.enters wellFormed keyed .marked) fits)

/-- The productions halt in the order of left calls, and then so does every expression. -/
private theorem haltsBelow_of_clean {o : Options} (clean : r.grammar.leftRecursionProblems o = []) :
    ∀ {i}, r.grammar.Rooted i → r.HaltsBelow text rest (.expression i) := by
  induction rest with
  | zero => exact fun _ st _ fits => absurd fits (Nat.not_lt_zero _)
  | succ rest lower =>
    have production (index : Fin r.grammar.productions.size) :
        r.HaltsBelow text (rest + 1) (.production index) := by
      induction index using (wellFormed.wellFounded_leftCalls clean).induction with
      | _ index ih =>
        obtain ⟨root, defined⟩ := Grammar.root?_of_lt index.isLt
        obtain ⟨t, shown⟩ := wellFormed.exists_tree? (.root defined)
        refine haltsBelow_production wellFormed keyed defined ?_
        refine haltsBelow_expression wellFormed keyed (.root defined) shown lower fun call member => ?_
        obtain ⟨memo, present⟩ := wellFormed.reference_of_leftCall (.root defined) shown member
        exact ih ⟨call.2, wellFormed.target present⟩ (Grammar.leftCalls_of_mem defined shown member)
    intro i rooted
    obtain ⟨t, shown⟩ := wellFormed.exists_tree? rooted
    refine haltsBelow_expression wellFormed keyed rooted shown lower fun call member => ?_
    obtain ⟨memo, present⟩ := wellFormed.reference_of_leftCall rooted shown member
    exact production ⟨call.2, wellFormed.target present⟩

end

/-- A production of a grammar without a reported left recursion comes to an end on every text, whatever the host
and its handlers, with or without memoization. Keys of the memo table must tell its productions apart. -/
theorem exists_depth_of_clean {o : Options} {index : Nat} (wellFormed : r.grammar.WellFormed)
    (clean : r.grammar.leftRecursionProblems o = []) (defined : index < r.grammar.productions.size)
    (reads : st.stream.Over text) (keyed : r.Keyed text) (fresh : st.memo = .empty) :
    ∃ depth v st', r.reduce depth (.production index) st = .ok (v, st') := by
  have poised : r.Poised text (.rule (.production index)) st := ⟨defined, reads, fresh ▸ advancing_empty⟩
  obtain ⟨root, here⟩ := Grammar.root?_of_lt defined
  have body : r.HaltsBelow text (remaining text st + 1) (.expression root) :=
    haltsBelow_of_clean wellFormed keyed clean (.root here)
  obtain ⟨v, st', run⟩ := haltsBelow_production wellFormed keyed here body st poised (Nat.lt_succ_self _)
  obtain ⟨depth, ended⟩ := perform_iff_runs.mpr run
  exact ⟨depth, v, st', ended⟩

end Packrat.Recognizer

namespace Packrat.Sample

/-- `nest : '(' @inner ')' / (';'*)*; inner : @nest;` -/
def nest : Grammar where
  productions := #[
    { name := "nest", index := 0, root := 0, defined := true },
    { name := "inner", index := 1, root := 8, defined := true }]
  nodes := #[
    { expr := .choice [1, 5], owner := 0 },
    { expr := .sequence [2, 3, 4], owner := 0, parent := some 0 },
    { expr := .terminal (.interval ⟨'(', '('⟩), owner := 0, parent := some 1 },
    { expr := .reference 1 true, owner := 0, parent := some 1 },
    { expr := .terminal (.interval ⟨')', ')'⟩), owner := 0, parent := some 1 },
    { expr := .repetition 6 0 unbounded, owner := 0, parent := some 0 },
    { expr := .repetition 7 0 unbounded, owner := 0, parent := some 5 },
    { expr := .terminal (.interval ⟨';', ';'⟩), owner := 0, parent := some 6 },
    { expr := .reference 0 true, owner := 1 }]
  problems := []
  source := none

/-- Two productions that call each other, and a repetition whose body can match nothing. -/
theorem nest_halts : nest.WellFormed ∧ nest.leftRecursionProblems {} = [] ∧
    ∃ depth v st', (⟨nest, .stateless Unit, .empty, fun _ _ _ o => o, true⟩ : Recognizer Unit Unit Unit).reduce
      depth (.production 0) ⟨.ofSource ⟨['(', '(', ';', ')', ';'], none⟩, (), .empty, ()⟩ = .ok (v, st') := by
  have wellFormed : nest.WellFormed := Grammar.wellFormed_of_linked (by decide)
  have clean : nest.leftRecursionProblems {} = [] := by decide +kernel
  exact ⟨wellFormed, clean, Recognizer.exists_depth_of_clean wellFormed clean (by decide) (Stream.over_ofSource _)
    (fun _ => by decide) rfl⟩

section

variable {m : Nat}

/-- A crowd that begins anew behind its first two references. -/
def ring (n : Nat) : Grammar := crowdBefore (.reference 0 false) n

theorem ring_wellFormed : (ring (m + 2)).WellFormed :=
  crowd_wellFormed (Nat.succ_pos _) rfl fun same => by cases same; exact Nat.zero_le _

/-- Behind the reference that is sure to consume a character, nothing is left-called. -/
theorem ring_callsLeft {p q : Nat} (calls : (ring (m + 2)).CallsLeft p q) : p = 0 ∧ q ≠ 0 := by
  obtain ⟨reference, root, defined, reaches⟩ := calls
  obtain ⟨production, found, rfl⟩ := Option.map_eq_some_iff.mp defined
  obtain ⟨inside, rfl⟩ := crowd_productions.mp found
  have referred {i target : Nat} {memo : Bool} (present : (ring (m + 2)).expr? i = some (.reference target memo))
      (reaches : (ring (m + 2)).LeftReaches reference q i) : q = target := by
    cases reaches with
    | reference present' => cases present.symm.trans present'; rfl
    | _ present' => cases present.symm.trans present'
  cases p with
  | succ k =>
    have leaf : ∃ t, (ring (m + 2)).expr? (k + 4) = some (.terminal t) := by
      have present : (ring (m + 2)).expr? (k + 4) = _ := crowd_expr (by omega)
      cases k with
      | zero => exact ⟨_, present⟩
      | succ k => exact ⟨_, present⟩
    obtain ⟨t, present⟩ := leaf
    cases reaches <;> next present' => cases present.symm.trans present'
  | zero =>
    have first : (ring (m + 2)).expr? 1 = some (.reference 1 true) := crowd_expr (by omega)
    have second : (ring (m + 2)).expr? 2 = some (.reference (m + 2) true) := crowd_expr (by omega)
    have start : (ring (m + 2)).expr? 0 = some (.sequence [1, 2, 3]) := crowd_expr (by omega)
    refine ⟨rfl, ?_⟩
    cases reaches with
    | @sequence _ child before behind present idle inner =>
      have split : [1, 2, 3] = before ++ child :: behind := by
        injection Option.some.inj (start.symm.trans present)
      rcases before with _ | ⟨_, _ | ⟨_, before⟩⟩
      · cases split
        rw [referred first inner]
        exact Nat.one_ne_zero
      · cases split
        rw [referred second inner]
        exact Nat.succ_ne_zero _
      · obtain ⟨rfl, rfl, -⟩ : _ ∧ _ ∧ _ := by simpa using split
        exact absurd (crowd_consumes ring_wellFormed) (Bool.eq_false_iff.mp (idle 2 (by simp)))
    | _ present' => cases start.symm.trans present'

theorem ring_clean (o : Options) : (ring (m + 2)).leftRecursionProblems o = [] := by
  rw [Grammar.leftRecursionProblems_eq, List.map_eq_nil_iff]
  by_contra some
  obtain ⟨cycle, member⟩ := List.exists_mem_of_ne_nil _ some
  obtain ⟨p, recursive⟩ := (ring_wellFormed.genuine_of_mem member).recursive
  obtain ⟨_, out, -⟩ := Relation.TransGen.head'_iff.mp recursive
  obtain ⟨_, -, back⟩ := Relation.TransGen.tail'_iff.mp recursive
  exact (ring_callsLeft back).2 (ring_callsLeft out).1

def ringRecognizer (n : Nat) : Recognizer Unit Unit Unit :=
  ⟨ring n, .stateless Unit, .empty, fun _ _ _ o => o, true⟩

/-- With a table, the match of nothing is taken for one of the last production, and it begins anew where it began. -/
theorem ring_recurs (congruent : (m + 2) % UInt32.size = 1) {v : Verdict} {st st' : State Unit Unit Unit}
    (begins : Begins st) : ¬ (ringRecognizer (m + 2)).Runs (.rule (.production 0)) st v st' := by
  refine Recognizer.not_runs_of_recurring (fun {st} begins => ?_) begins
  have start : (ringRecognizer (m + 2)).grammar.root? 0 = some 0 := crowd_root (by omega)
  have sequence : (ringRecognizer (m + 2)).grammar.expr? 0 = some (.sequence [1, 2, 3]) := crowd_expr (by omega)
  have again : (ringRecognizer (m + 2)).grammar.expr? 3 = some (.reference 0 false) := crowd_expr (by omega)
  have crowded : (ringRecognizer (m + 2)).grammar = crowdBefore (.reference 0 false) (m + 2) := rfl
  have inside : Begins st.mark.mark := begins
  obtain ⟨st₁, first, -, empties⟩ := crowd_stores crowded rfl inside
  obtain ⟨st₂, second, -, empties⟩ := crowd_recalls crowded rfl congruent empties
  have back : Begins ((ringRecognizer (m + 2)).note (.entered (.expression 3)) st₂).mark := .inr empties
  exact ⟨_, _, _, .production start, .enter .marked (.enter (.expression sequence) (.enter .sequence (.enter .marked
    (.enter (.allTail first) (.enter (.allTail second) (.enter .allHead (.enter (.expression again)
      (.enter (.reference rfl) (.enter .marked .here))))))))), back⟩

end

/-- With more than 2^32 productions and a memo table, a grammar without left recursion may come to no end. -/
theorem ring_endless : (ring (UInt32.size + 1)).WellFormed ∧ (ring (UInt32.size + 1)).leftRecursionProblems {} = [] ∧
    (Stream.ofSource ⟨[], none⟩).Over [] ∧
    ¬ ∃ depth v st', (ringRecognizer (UInt32.size + 1)).reduce depth (.production 0)
      ⟨.ofSource ⟨[], none⟩, (), .empty, ()⟩ = .ok (v, st') := by
  refine ⟨@ring_wellFormed (UInt32.size - 1), @ring_clean (UInt32.size - 1) {}, Stream.over_ofSource ⟨[], none⟩, ?_⟩
  rintro ⟨depth, v, st', ended⟩
  exact @ring_recurs (UInt32.size - 1) rfl _ _ _ (.inl (Memo.Table.get?_empty ..)) (Recognizer.runs_of_perform ended)

end Packrat.Sample

import Packrat.Proofs.Analysis.StableBits
import Packrat.Proofs.Builder.Build
import Packrat.Proofs.Recognition.ComesTo
import Packrat.Proofs.Recognition.Consumption
import Packrat.Proofs.Recognition.Crowds

/-! # Matches of consuming rules advance

Wherever a run comes to, a match of a rule that is sure to consume moves the stream (`ComesTo.advances`), also one that
is taken from the memo table, as long as no two productions share its keys. So the consuming bits, which are found
without running anything, hold of every run.
-/

namespace Packrat

namespace Recognizer

variable {H S τ : Type} {r : Recognizer H S τ} {text : List Char} {task task' : Task} {st st' : State H S τ}

/-- Where a run comes to, the stream reads the same text, and the memo table holds no match that stands still. -/
theorem ComesTo.advancing (way : r.ComesTo task st task' st') (wellFormed : r.grammar.WellFormed) (keyed : r.Keyed text)
    (known : task.Known r.grammar) (reads : st.stream.Over text) (advancing : r.Advancing text st.memo) :
    task'.Known r.grammar ∧ st'.stream.Over text ∧ r.Advancing text st'.memo :=
  way.preserves
    (motive := fun task st => task.Known r.grammar ∧ st.stream.Over text ∧ r.Advancing text st.memo)
    (fun enters ⟨known, reads, advancing⟩ => enters.advancing wellFormed keyed known reads advancing)
    ⟨known, reads, advancing⟩

theorem ComesTo.advances {start rule : Rule} {before after : State H S τ} {depth : Nat}
    (way : r.ComesTo (.rule start) st (.rule rule) before) (wellFormed : r.grammar.WellFormed) (keyed : r.Keyed text)
    (reads : st.stream.Over text) (fresh : st.memo = .empty)
    (matched : r.reduce depth rule before = .ok (.matched, after)) (bit : r.grammar.ruleConsumes rule = true) :
    before.stream.position.offset < after.stream.position.offset := by
  obtain ⟨known, reads, advancing⟩ := way.advancing wellFormed keyed trivial reads (fresh ▸ advancing_empty)
  have run : r.Runs (.rule rule) before .matched after := runs_of_perform matched
  exact (run.consumes wellFormed keyed known reads advancing).1 rfl bit

end Recognizer

namespace Grammar

/-- The consuming bits of a well-formed grammar are what is left when the bits of all productions are lowered in place,
in any order; they are the greatest stable bits; and in every run, wherever it has come to, a match of a rule with its
bit set moves the stream. Keys of the memo table, if it is used, must tell productions and offsets apart. -/
theorem consuming_exact {g : Grammar} (wellFormed : g.WellFormed) :
    (∀ order : List Nat, (∀ index < g.productions.size, index ∈ order) →
      g.lowered Tree.consumes order (g.productions.toList.map fun _ => true) = g.consumingProductions) ∧
    g.Stable g.ruleConsumes ∧
    (∀ bit, g.Stable bit → ∀ rule, (Task.rule rule).Rooted g → bit rule = true → g.ruleConsumes rule = true) ∧
    ∀ {H S τ : Type} {r : Recognizer H S τ} {text : List Char} {start rule : Rule} {depth : Nat}
      {st before after : State H S τ}, r.grammar = g → r.Keyed text → st.stream.Over text → st.memo = .empty →
      r.ComesTo (.rule start) st (.rule rule) before → r.reduce depth rule before = .ok (.matched, after) →
      g.ruleConsumes rule = true → before.stream.position.offset < after.stream.position.offset := by
  refine ⟨fun order whole => ?_, wellFormed.stable_ruleConsumes, fun bit stable rule rooted has => ?_, ?_⟩
  · refine lowered_eq_rounds Tree.consumes_mono whole (.replicate ?_ ?_)
    · simp [length_rounds Tree.consumes_mono]
    · intro b member
      obtain ⟨-, -, rfl⟩ := List.mem_map.mp member
      rfl
  · obtain ⟨productions, expressions⟩ := stable.le_ruleConsumes wellFormed
    cases rule with
    | production index => exact productions index rooted has
    | expression i => exact expressions i rooted has
  · rintro H S τ r text start rule depth st before after rfl keyed reads fresh way matched bit
    exact way.advances wellFormed keyed reads fresh matched bit

end Grammar

namespace Sample

/-- `a : 'x' / @b; b : @a 'y'?; c : b?;`, where `a` and `b` have their bits from each other. -/
def knot : Grammar where
  productions := #[
    { name := "a", index := 0, root := 0, defined := true },
    { name := "b", index := 1, root := 3, defined := true },
    { name := "c", index := 2, root := 7, defined := true }]
  nodes := #[
    { expr := .choice [1, 2], owner := 0 },
    { expr := .terminal (.interval ⟨'x', 'x'⟩), owner := 0, parent := some 0 },
    { expr := .reference 1 true, owner := 0, parent := some 0 },
    { expr := .sequence [4, 5], owner := 1 },
    { expr := .reference 0 true, owner := 1, parent := some 3 },
    { expr := .repetition 6 0 1, owner := 1, parent := some 3 },
    { expr := .terminal (.interval ⟨'y', 'y'⟩), owner := 1, parent := some 5 },
    { expr := .repetition 8 0 1, owner := 2 },
    { expr := .reference 1 true, owner := 2, parent := some 7 }]
  problems := []
  source := none

def knotRecognizer : Recognizer Unit Unit Unit := ⟨knot, .stateless Unit, .empty, fun _ _ _ o => o, true⟩

/-- A stream over `x`. -/
def knotState : State Unit Unit Unit := ⟨.ofSource ⟨['x'], none⟩, (), .empty, ()⟩

/-- The bits are lowered to the same from the last production on, `c` has its bit in no stable assignment, and a match
of the right-hand side of `b` moves the stream. -/
theorem knot_consumes : knot.WellFormed ∧ knot.consumingProductions = [true, true, false] ∧
    knot.lowered Tree.consumes [2, 1, 0] [true, true, true] = [true, true, false] ∧
    (∀ bit, knot.Stable bit → bit (.production 2) = false) ∧
    ∃ after, knotRecognizer.reduce 9 (.expression 3) knotState.mark = .ok (.matched, after) ∧
      0 < after.stream.position.offset := by
  have wellFormed : knot.WellFormed := Grammar.wellFormed_of_linked (by decide)
  have bits : knot.consumingProductions = [true, true, false] := by decide
  have keyed : knotRecognizer.Keyed ['x'] := fun _ => by decide
  have way : knotRecognizer.ComesTo (.rule (.production 1)) knotState (.rule (.expression 3)) knotState.mark :=
    .enter (.production (show knot.root? 1 = some 3 from rfl)) (.enter .marked .here)
  have evaluated : (knotRecognizer.reduce 9 (.expression 3) knotState.mark).toOption.map Prod.fst = some .matched := by
    decide +kernel
  obtain ⟨⟨v, after⟩, ended, rfl⟩ := Option.map_eq_some_iff.mp evaluated
  have matched := eq_ok_of_toOption ended
  obtain ⟨lowered, -, greatest, advances⟩ := Grammar.consuming_exact wellFormed
  refine ⟨wellFormed, bits, bits ▸ lowered [2, 1, 0] (by decide), fun bit stable => ?_, after, matched, ?_⟩
  · refine Bool.eq_false_iff.mpr fun has => ?_
    exact absurd (greatest bit stable (.production 2) (show 2 < knot.productions.size by decide) has) (by decide)
  · exact advances rfl keyed (Stream.over_ofSource _) rfl way matched (by decide)

/-- A crowd with nothing behind its first two references. -/
def couple (n : Nat) : Grammar := crowdBefore (.terminal .nil) n

def coupleRecognizer (n : Nat) : Recognizer Unit Unit Unit :=
  ⟨couple n, .stateless Unit, .empty, fun _ _ _ o => o, true⟩

theorem couple_stands {m : Nat} (congruent : (m + 2) % UInt32.size = 1) {st : State Unit Unit Unit}
    (begins : Begins st) :
    ∃ before after depth, (coupleRecognizer (m + 2)).ComesTo (.rule (.production 0)) st (.rule (.expression 2)) before ∧
      (coupleRecognizer (m + 2)).reduce depth (.expression 2) before = .ok (.matched, after) ∧
      after.stream.position = before.stream.position := by
  have crowded : (coupleRecognizer (m + 2)).grammar = crowdBefore (.terminal .nil) (m + 2) := rfl
  have start : (coupleRecognizer (m + 2)).grammar.root? 0 = some 0 := crowd_root (by omega)
  have sequence : (coupleRecognizer (m + 2)).grammar.expr? 0 = some (.sequence [1, 2, 3]) := crowd_expr (by omega)
  have inside : Begins st.mark.mark := begins
  obtain ⟨before, first, -, empties⟩ := crowd_stores crowded rfl inside
  obtain ⟨after, second, stands, -⟩ := crowd_recalls crowded rfl congruent empties
  obtain ⟨depth, matched⟩ := Recognizer.perform_iff_runs.mpr second
  exact ⟨before, after, depth, .enter (.production start) (.enter .marked (.enter (.expression sequence)
    (.enter .sequence (.enter .marked (.enter (.allTail first) (.enter .allHead .here)))))), matched, stands⟩

/-- With more than 2^32 productions and a memo table, a rule with its bit set may match and stand still. -/
theorem couple_stands_still : (couple (UInt32.size + 1)).WellFormed ∧ (Stream.ofSource ⟨[], none⟩).Over [] ∧
    (couple (UInt32.size + 1)).ruleConsumes (.expression 2) = true ∧
    ∃ before after depth, (coupleRecognizer (UInt32.size + 1)).ComesTo (.rule (.production 0))
        ⟨.ofSource ⟨[], none⟩, (), .empty, ()⟩ (.rule (.expression 2)) before ∧
      (coupleRecognizer (UInt32.size + 1)).reduce depth (.expression 2) before = .ok (.matched, after) ∧
      after.stream.position = before.stream.position := by
  have wellFormed : (couple (UInt32.size + 1)).WellFormed := crowd_wellFormed (by decide) rfl nofun
  refine ⟨wellFormed, Stream.over_ofSource ⟨[], none⟩, @crowd_consumes _ (UInt32.size - 1) wellFormed, ?_⟩
  exact @couple_stands (UInt32.size - 1) rfl _ (.inl (Memo.Table.get?_empty ..))

end Sample

end Packrat

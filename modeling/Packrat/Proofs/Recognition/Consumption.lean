import Packrat.Proofs.Analysis.Consuming
import Packrat.Proofs.Memo
import Packrat.Proofs.Recognition.Progress

/-! # Runs of rules that are sure to consume

A match of a rule with its bit set moves the stream. The bits are justified by an induction over
finished runs: a production that calls itself has matched in fewer steps before. Remembered matches
must keep the promise too, so every entry of the memo table for a consuming production has a character
at least.
-/

namespace Packrat

theorem Terminal.length_pos_of_consumes {t : Terminal} {ahead : List Char} {n : Nat}
    (consumes : t.consumes = true) (found : t.matchLength? ahead = some n) : 0 < n := by
  have one {p : Char → Bool} (found : (if ahead.head?.any p then some 1 else none) = some n) : 0 < n := by
    split at found <;> cases found
    exact Nat.one_pos
  cases t with
  | nil => cases consumes
  | any =>
    simp only [matchLength?] at found
    split at found <;> cases found
    exact Nat.one_pos
  | token image caseSensitive =>
    simp only [matchLength?] at found
    split at found <;> cases found
    refine Nat.pos_of_ne_zero fun empty => ?_
    rw [String.length_eq_zero_iff] at empty
    simp [empty, Terminal.consumes] at consumes
  | interval bounds => exact one found
  | set members => exact one found
  | charClass named => exact one found

/-- A match of the task is sure to consume a character. -/
def Task.consumes (g : Grammar) : Task → Bool
  | .rule named => g.ruleConsumes named
  | .operator _ e => e.consumes g.ruleConsumes
  | .marked task => task.consumes g
  | .all children => children.any g.nodeConsumes
  | .first children => children.all g.nodeConsumes
  | .repeated child min _ => min > 0 && g.nodeConsumes child
  | .upTo .. => false

/-- The operator of an expression is where the grammar has it. -/
def Task.Known (g : Grammar) : Task → Prop
  | .operator i e => g.expr? i = some e
  | .marked task => task.Known g
  | _ => True

namespace Recognizer

variable {H S τ : Type} {r : Recognizer H S τ} {text : List Char} {task task' : Task} {st st' : State H S τ}
  {v : Verdict}

/-- Remembered matches of consuming productions have text, and lie within the text. -/
def Advancing (r : Recognizer H S τ) (text : List Char) (memo : Memo.Table S) : Prop :=
  r.memoize = true → ∀ target o entry, target < UInt32.size → o < UInt32.size → memo.get? target o = some entry →
    r.grammar.consuming target = true → 0 < entry.length ∧ o + entry.length ≤ text.length

theorem advancing_empty : r.Advancing text .empty := by
  intro _ target o entry _ _ found
  rw [Memo.Table.get?_empty] at found
  cases found

/-- A match of a task that is sure to consume moves the stream. -/
theorem Runs.consumes (run : r.Runs task st v st') (wellFormed : r.grammar.WellFormed) (keyed : r.Keyed text)
    (known : task.Known r.grammar) (reads : st.stream.Over text) (advancing : r.Advancing text st.memo) :
    (v = .matched → task.consumes r.grammar = true →
      st.stream.position.offset < st'.stream.position.offset) ∧ r.Advancing text st'.memo := by
  induction run with
  | production defined _ ih =>
    obtain ⟨moves, advancing⟩ := ih trivial reads advancing
    exact ⟨fun matched bit => moves matched ((Grammar.consuming_eq defined).symm.trans bit), advancing⟩
  | expression present _ ih =>
    obtain ⟨moves, advancing⟩ := ih present reads advancing
    exact ⟨fun matched bit => moves matched (Grammar.consumes_of_nodeConsumes present bit), advancing⟩
  | marked _ ih =>
    obtain ⟨moves, advancing⟩ := ih known reads.mark advancing
    refine ⟨?_, advancing⟩
    rintro rfl bit
    exact moves rfl bit
  | @terminal i t st =>
    refine ⟨fun matched bit => ?_, advancing⟩
    obtain ⟨verdict, moved⟩ := t.recognize_spec reads
    have stop := moved.offset
    cases found : t.matchLength? (text.drop st.stream.position.offset) with
    | none =>
      rw [verdict, found] at matched
      cases matched
    | some n =>
      rw [Terminal.stopAfter, found] at stop
      have := Terminal.length_pos_of_consumes bit found
      dsimp only
      rw [stop]
      simpa using this
  | reference _ _ ih => exact ih trivial reads advancing
  | @hit i target memo st entry memoized found =>
    refine ⟨fun _ bit => ?_, advancing⟩
    have used : r.memoize = true := (Bool.and_eq_true_iff.mp memoized).2
    obtain ⟨few, short⟩ := keyed used
    have defined := wellFormed.target known
    have within := reads.position.offset_le
    obtain ⟨text, inside⟩ := advancing used target _ entry (by omega) (by omega) found bit
    have stop := (reads.skip inside).offset
    change _ < (st.stream.skip entry.length).2.position.offset
    omega
  | @store i target memo st st' memoized missing run ih =>
    have used : r.memoize = true := (Bool.and_eq_true_iff.mp memoized).2
    obtain ⟨few, short⟩ := keyed used
    have defined := wellFormed.target known
    have within := reads.position.offset_le
    have within' := (run.reads reads.mark).position.offset_le
    obtain ⟨moves, advancing⟩ := ih trivial reads.mark advancing
    refine ⟨moves, fun used target' o entry small small' found bit => ?_⟩
    rcases Memo.Table.get?_insert_cases ⟨by omega, by omega⟩ ⟨small, small'⟩ found with ⟨rfl, rfl, rfl⟩ | earlier
    · have := moves rfl bit
      change st.stream.position.offset < _ at this
      dsimp only
      omega
    · exact advancing used target' o entry small small' earlier bit
  | miss _ _ _ unmatched ih =>
    exact ⟨fun matched => absurd matched unmatched, (ih trivial reads.mark advancing).2⟩
  | act run answered ih =>
    obtain ⟨moves, advancing⟩ := ih trivial reads.mark advancing
    refine ⟨?_, (handle_memo answered).symm ▸ advancing⟩
    rintro rfl bit
    refine Nat.lt_of_lt_of_eq (moves rfl bit) ?_
    rw [← handle_stream answered]
    rfl
  | idle _ unmatched ih =>
    exact ⟨fun matched => absurd matched unmatched, (ih trivial reads.mark advancing).2⟩
  | undo _ ih =>
    obtain ⟨moves, advancing⟩ := ih trivial reads.mark advancing
    refine ⟨?_, advancing⟩
    rintro rfl bit
    exact moves rfl bit
  | sequence _ ih => exact ih trivial reads advancing
  | choice _ ih => exact ih trivial reads advancing
  | repetition _ ih => exact ih trivial reads advancing
  | present _ ih => exact ⟨fun _ bit => (Bool.false_ne_true bit).elim, (ih trivial reads.mark advancing).2⟩
  | absent _ ih => exact ⟨fun _ bit => (Bool.false_ne_true bit).elim, (ih trivial reads.mark advancing).2⟩
  | allDone => exact ⟨fun _ bit => (Bool.false_ne_true bit).elim, advancing⟩
  | allNext run rest head tail =>
    obtain ⟨headMoves, advancing⟩ := head trivial reads advancing
    obtain ⟨tailMoves, advancing⟩ := tail trivial (run.reads reads) advancing
    refine ⟨fun matched bit => ?_, advancing⟩
    rw [Task.consumes, List.any_cons, Bool.or_eq_true] at bit
    rcases bit with here | later
    · exact Nat.lt_of_lt_of_le (headMoves rfl here) rest.forward
    · exact Nat.lt_of_le_of_lt run.forward (tailMoves matched later)
  | allStop _ unmatched ih =>
    exact ⟨fun matched => absurd matched unmatched, (ih trivial reads advancing).2⟩
  | firstNone =>
    refine ⟨fun matched => ?_, advancing⟩
    cases matched
  | firstNext run _ head tail =>
    obtain ⟨-, advancing⟩ := head trivial reads advancing
    obtain ⟨moves, advancing⟩ := tail trivial (run.reads reads) advancing
    refine ⟨fun matched bit => ?_, advancing⟩
    rw [Task.consumes, List.all_cons, Bool.and_eq_true] at bit
    exact Nat.lt_of_le_of_lt run.forward (moves matched bit.2)
  | firstStop _ _ ih =>
    obtain ⟨moves, advancing⟩ := ih trivial reads advancing
    refine ⟨fun matched bit => moves matched ?_, advancing⟩
    rw [Task.consumes, List.all_cons, Bool.and_eq_true] at bit
    exact bit.1
  | repeatedEnough run rest least more =>
    obtain ⟨moves, advancing⟩ := least trivial reads advancing
    obtain ⟨-, advancing⟩ := more trivial (run.reads reads) advancing
    refine ⟨fun _ bit => ?_, advancing⟩
    rw [Task.consumes, Bool.and_eq_true, decide_eq_true_eq] at bit
    refine Nat.lt_of_lt_of_le (moves rfl ?_) rest.forward
    exact List.any_eq_true.mpr ⟨_, List.mem_replicate.mpr ⟨by omega, rfl⟩, bit.2⟩
  | repeatedShort _ unmatched ih =>
    exact ⟨fun matched => absurd matched unmatched, (ih trivial reads advancing).2⟩
  | upToZero => exact ⟨fun _ bit => (Bool.false_ne_true bit).elim, advancing⟩
  | upToEmpty _ _ ih => exact ⟨fun _ bit => (Bool.false_ne_true bit).elim, (ih trivial reads advancing).2⟩
  | upToNext run _ _ body more =>
    obtain ⟨-, advancing⟩ := body trivial reads advancing
    exact ⟨fun _ bit => (Bool.false_ne_true bit).elim, (more trivial (run.reads reads) advancing).2⟩
  | upToEnd _ ih => exact ⟨fun _ bit => (Bool.false_ne_true bit).elim, (ih trivial reads advancing).2⟩
  | upToAbort _ ih => exact ⟨fun _ bit => (Bool.false_ne_true bit).elim, (ih trivial reads advancing).2⟩

/-- What is entered on the way is where the grammar has it, reads the same text, and finds a table that still
advances. -/
theorem Enters.advancing (enters : r.Enters task st task' st') (wellFormed : r.grammar.WellFormed)
    (keyed : r.Keyed text) (known : task.Known r.grammar) (reads : st.stream.Over text)
    (advancing : r.Advancing text st.memo) :
    task'.Known r.grammar ∧ st'.stream.Over text ∧ r.Advancing text st'.memo := by
  cases enters with
  | expression present => exact ⟨present, reads, advancing⟩
  | marked => exact ⟨known, reads.mark, advancing⟩
  | production | reference | sequence | choice | repetition | allHead | firstHead | least | upToHead =>
    exact ⟨trivial, reads, advancing⟩
  | remembered | action | undo | lookahead => exact ⟨trivial, reads.mark, advancing⟩
  | allTail head | firstTail head | more head | upToTail head =>
    exact ⟨trivial, head.reads reads, (head.consumes wellFormed keyed trivial reads advancing).2⟩

end Recognizer

end Packrat

import Packrat.Proofs.Grammar.Actions
import Packrat.Proofs.Recognition.Leavings

/-! # What runs leave on the host in a sheltered grammar

In a sheltered and quiet grammar what leaves items behind a match acts, and what leaves items behind a failure
is exposed. So a run that fails pushes nothing, unless its task is one of those whose scope is around it; nor
does a match that comes upon no action. Remembered matches obey the same rule, since the entry of a production
that does not act has nothing saved.
-/

namespace Packrat

namespace Task

/-- The task can come upon an action. -/
def Acts (g : Grammar) : Task → Prop
  | .rule (.production index) => g.ProductionActs index
  | .rule (.expression i) | .operator i _ => g.Acts i
  | .marked task => task.Acts g
  | .all children | .first children => ∃ child ∈ children, g.Acts child
  | .repeated child .. | .upTo child .. => g.Acts child

/-- The task can fail with an action done in it. -/
def Spoils (g : Grammar) : Task → Prop
  | .rule (.expression i) | .operator i _ => g.Exposed i
  | .marked task => task.Spoils g
  | .all children => ∃ child ∈ children.dropLast, g.Acts child
  | _ => False

/-- The task stands where the grammar has it, so that no part of it is exposed. -/
def Placed (g : Grammar) : Task → Prop
  | .rule (.production index) => index < g.productions.size
  | .rule (.expression i) => g.Rooted i
  | .operator i e => g.Rooted i ∧ g.expr? i = some e
  | .marked task => task.Placed g
  | .all children | .first children => ∀ child ∈ children, g.Rooted child ∧ ¬ g.Exposed child
  | .repeated child min _ => (g.Rooted child ∧ ¬ g.Exposed child) ∧ (2 ≤ min → ¬ g.Acts child)
  | .upTo child .. => g.Rooted child ∧ ¬ g.Exposed child

theorem Placed.shown {g : Grammar} {task : Task} (placed : task.Placed g) : task.Shown g := by
  induction task with
  | operator => exact placed.2
  | marked _ ih => exact ih placed
  | _ => trivial

end Task

namespace Recognizer

variable {α τ : Type} {r : Recognizer (Segments α) (List α) τ}
  {effect : String → Context → List α → Except String Bool × List α} {task task' : Task}
  {st st' : State (Segments α) (List α) τ} {v : Verdict}

/-- A recognizer whose host takes back what it should. -/
structure Transactional (r : Recognizer (Segments α) (List α) τ)
    (effect : String → Context → List α → Except String Bool × List α) : Prop where
  wellFormed : r.grammar.WellFormed
  sheltered : r.grammar.Sheltered
  quiet : r.grammar.Quiet
  segments : r.transaction = Segments.transaction
  handlers : r.handlers.Local effect
  /-- Keys of the memo table tell the productions apart. -/
  few : r.memoize = true → r.grammar.productions.size ≤ UInt32.size

/-- Matches of productions that do not act have nothing saved. -/
def Mute (r : Recognizer (Segments α) (List α) τ) (memo : Memo.Table (List α)) : Prop :=
  r.memoize = true → ∀ target o entry, target < UInt32.size → memo.get? target o = some entry →
    ¬ r.grammar.ProductionActs target → entry.snapshot.getD [] = []

theorem mute_empty : r.Mute .empty := by
  intro _ target o entry _ found
  rw [Memo.Table.get?_empty] at found
  cases found

/-- The run pushes some items: none if it fails without spoiling, and none if it matches without acting. -/
def Pushes (r : Recognizer (Segments α) (List α) τ) (task : Task) (st : State (Segments α) (List α) τ) (v : Verdict)
    (st' : State (Segments α) (List α) τ) : Prop :=
  ∃ items, st'.host = st.host.pushAll items ∧ (v = .failed → ¬ task.Spoils r.grammar → items = []) ∧
    (v = .matched → ¬ task.Acts r.grammar → items = [])

/-- What a failed task leaves, if it does not spoil. -/
theorem Pushes.restored (pushes : r.Pushes task st .failed st') (clean : ¬ task.Spoils r.grammar) :
    st'.host = st.host := by
  obtain ⟨items, pushed, failed, -⟩ := pushes
  rw [pushed, failed rfl clean, Segments.pushAll_nil]

/-- What a match leaves, if it does not act. -/
theorem Pushes.unchanged (pushes : r.Pushes task st .matched st') (idle : ¬ task.Acts r.grammar) :
    st'.host = st.host := by
  obtain ⟨items, pushed, -, matched⟩ := pushes
  rw [pushed, matched rfl idle, Segments.pushAll_nil]

/-- The task stands where the grammar has it, with a mute memo table. -/
def Standing (r : Recognizer (Segments α) (List α) τ) (task : Task) (st : State (Segments α) (List α) τ) : Prop :=
  task.Placed r.grammar ∧ r.Mute st.memo

/-- What a run enters stands where the grammar has it. -/
theorem Transactional.standing (transactional : r.Transactional effect) (enters : r.Enters task st task' st')
    (placed : task.Placed r.grammar) (mute : r.Mute st'.memo) : r.Standing task' st' := by
  refine ⟨?_, mute⟩
  obtain ⟨wellFormed, sheltered, quiet, -, -, -⟩ := transactional
  have part {i child : Nat} {e : Expr} (placed : r.grammar.Rooted i ∧ r.grammar.expr? i = some e)
      (plain : e.isAction = false) (member : child ∈ e.children) :
      r.grammar.Rooted child ∧ ¬ r.grammar.Exposed child :=
    ⟨placed.1.child placed.2 member, sheltered (.part placed.1 placed.2 plain member)⟩
  cases enters with
  | production defined => exact .root defined
  | expression present => exact ⟨placed, present⟩
  | marked => exact placed
  | reference => exact wellFormed.target placed.2
  | remembered => exact wellFormed.target placed.2
  | action => exact placed.1.child placed.2 (List.mem_singleton_self _)
  | undo => exact placed.1.child placed.2 (List.mem_singleton_self _)
  | sequence => exact fun child member => part placed rfl member
  | choice => exact fun child member => part placed rfl member
  | repetition =>
    refine ⟨part placed rfl (List.mem_singleton_self _), fun twice => ?_⟩
    exact quiet.repetition placed.1 placed.2 twice
  | lookahead => exact placed.1.child placed.2 (List.mem_singleton_self _)
  | allHead => exact (placed _ (List.mem_cons_self ..)).1
  | allTail => exact fun child member => placed child (List.mem_cons_of_mem _ member)
  | firstHead => exact (placed _ (List.mem_cons_self ..)).1
  | firstTail => exact fun child member => placed child (List.mem_cons_of_mem _ member)
  | least => exact fun child member => List.eq_of_mem_replicate member ▸ placed.1
  | more => exact placed.1
  | upToHead => exact placed.1
  | upToTail => exact placed

/-- Numbers with the same key are equal. -/
theorem Transactional.eq_of_alike {target index root : Nat} (transactional : r.Transactional effect)
    (used : r.memoize = true) (defined : r.grammar.root? index = some root) (small : target < UInt32.size)
    (alike : index % UInt32.size = target % UInt32.size) : index = target := by
  obtain ⟨p, found, -⟩ := Option.map_eq_some_iff.mp defined
  have inside := (Array.getElem?_eq_some_iff.mp found).1
  rwa [Nat.mod_eq_of_lt (Nat.lt_of_lt_of_le inside (transactional.few used)), Nat.mod_eq_of_lt small] at alike

/-- A node that leaves something behind a match acts, and one that does behind a failure is exposed. -/
theorem Transactional.of_leaves {success : Bool} {i : Nat} (transactional : r.Transactional effect)
    (leaves : r.Leaves success i) (rooted : r.grammar.Rooted i) :
    if success then r.grammar.Acts i else r.grammar.Exposed i := by
  have ⟨wellFormed, sheltered, quiet, _, _, _⟩ := transactional
  induction leaves with
  | action present => exact .action present
  | @part i child e success inner present kept _ ih =>
    have member := Expr.mem_children_of_kept kept
    have part := ih (rooted.child present member)
    cases inner with
    | false =>
      exact absurd part (sheltered (.part rooted present (Expr.isAction_of_kept kept) member))
    | true =>
      cases e with
      | terminal | reference | action => cases kept
      | undo =>
        cases success with
        | true => exact .part present member part
        | false => cases kept
      | sequence =>
        cases success with
        | true => exact .part present member part
        | false => exact .inl ⟨_, present, child, by simpa using kept, part⟩
      | choice =>
        obtain rfl : true = success := by simpa using (Expr.mem_kept_choice.mp kept).1
        exact .part present member part
      | repetition =>
        cases success with
        | true => exact .part present member part
        | false =>
          obtain ⟨rfl, twice⟩ := Expr.mem_kept_repetition_false.mp kept
          exact absurd part (quiet.repetition rooted present (twice rfl))
      | lookahead body sign =>
        obtain rfl := List.mem_singleton.mp member
        cases sign with
        | present => exact absurd part (quiet.lookahead rooted present)
        | absent =>
          obtain rfl : success = false := by simpa [Expr.kept] using kept
          exact .inr ⟨child, _, present, part⟩
  | @reference i target index root memo success present recalls defined _ ih =>
    have part := ih (.root defined)
    cases success with
    | false => exact absurd part (sheltered (.root defined))
    | true =>
      refine .reference present ?_ part
      obtain rfl | ⟨memoized, alike⟩ := recalls
      · exact defined
      · have used := (Bool.and_eq_true_iff.mp memoized).2
        have small := Nat.lt_of_lt_of_le (wellFormed.target present) (transactional.few used)
        exact transactional.eq_of_alike used defined small alike ▸ defined

/-- What acts can leave something behind a match. -/
theorem leaves_of_acts {i : Nat} (acts : r.grammar.Acts i) : r.Leaves true i := by
  induction acts with
  | action present => exact .action present
  | @part i child e present member _ ih =>
    cases e with
    | terminal | reference | lookahead => cases member
    | action => exact .action present
    | undo =>
      obtain rfl := List.mem_singleton.mp member
      exact .part present (List.mem_singleton_self _) ih
    | sequence => exact .part present (Expr.mem_kept_sequence_true.mpr ⟨rfl, member⟩) ih
    | choice => exact .part present (Expr.mem_kept_choice.mpr ⟨.inl rfl, member⟩) ih
    | repetition => exact .part present (Expr.mem_kept_repetition_true.mpr (List.mem_singleton.mp member)) ih
  | reference present defined _ ih => exact .reference present (.inl rfl) defined ih

theorem Transactional.acts_of_leaves (transactional : r.Transactional effect) (placed : task.Placed r.grammar)
    (leaves : task.Leaves r true) : task.Acts r.grammar := by
  -- A part that can only fail leaves nothing.
  have part {inner : Bool} {c : Nat} (leaves : r.Leaves inner c)
      (placed : r.grammar.Rooted c ∧ ¬ r.grammar.Exposed c) : r.grammar.Acts c := by
    have left := transactional.of_leaves leaves placed.1
    cases inner with
    | true => exact left
    | false => exact absurd left placed.2
  induction task with
  | rule rule =>
    cases rule with
    | production index =>
      obtain ⟨root, defined, leaves⟩ := leaves
      exact ⟨root, defined, transactional.of_leaves leaves (.root defined)⟩
    | expression i => exact transactional.of_leaves leaves placed
  | operator i e => exact transactional.of_leaves leaves placed.1
  | marked task ih => exact ih placed leaves
  | all children | first children =>
    obtain ⟨inner, c, kept, leaves⟩ := leaves
    have member := Expr.mem_children_of_kept kept
    exact ⟨c, member, part leaves (placed c member)⟩
  | repeated child min max =>
    obtain ⟨inner, c, kept, leaves⟩ := leaves
    obtain rfl := Expr.mem_kept_repetition_true.mp kept
    exact part leaves placed.1
  | upTo child =>
    obtain ⟨-, inner, leaves⟩ := leaves
    exact part leaves placed

theorem Transactional.spoils_of_leaves (transactional : r.Transactional effect) (placed : task.Placed r.grammar)
    (leaves : task.Leaves r false) : task.Spoils r.grammar := by
  induction task with
  | rule rule =>
    cases rule with
    | production index =>
      obtain ⟨root, defined, leaves⟩ := leaves
      exact absurd (transactional.of_leaves leaves (.root defined)) (transactional.sheltered (.root defined))
    | expression i => exact transactional.of_leaves leaves placed
  | operator i e => exact transactional.of_leaves leaves placed.1
  | marked task ih => exact ih placed leaves
  | all children =>
    obtain ⟨inner, c, kept, leaves⟩ := leaves
    have left := transactional.of_leaves leaves (placed c (Expr.mem_children_of_kept kept)).1
    obtain ⟨rfl, early⟩ | ⟨rfl, member⟩ := Expr.mem_kept_sequence_false.mp kept
    · exact ⟨c, early, left⟩
    · exact absurd left (placed c member).2
  | first children =>
    obtain ⟨inner, c, kept, leaves⟩ := leaves
    obtain ⟨rfl | rfl, member⟩ := Expr.mem_kept_choice.mp kept <;>
    · exact absurd (transactional.of_leaves leaves (placed c member).1) (placed c member).2
  | repeated child min max =>
    obtain ⟨inner, c, kept, leaves⟩ := leaves
    obtain ⟨rfl, twice⟩ := Expr.mem_kept_repetition_false.mp kept
    have left := transactional.of_leaves leaves placed.1.1
    cases inner with
    | true => exact absurd left (placed.2 (twice rfl))
    | false => exact absurd left placed.1.2
  | upTo child =>
    obtain ⟨failed, -⟩ := leaves
    cases failed

theorem Mute.sparing {memo : Memo.Table (List α)} (mute : r.Mute memo) : r.Sparing memo := by
  intro used target o entry found some
  rw [← Memo.Table.get?_mod] at found
  by_contra never
  refine some (mute used _ o entry (Nat.mod_lt _ (by decide)) found ?_)
  rintro ⟨root, defined, acts⟩
  exact never ⟨_, Nat.mod_mod _ _, root, defined, leaves_of_acts acts⟩

theorem Transactional.mute (transactional : r.Transactional effect) {memo : Memo.Table (List α)}
    (sparing : r.Sparing memo) : r.Mute memo := by
  intro used target o entry small found idle
  by_contra some
  obtain ⟨index, alike, root, defined, leaves⟩ := sparing used target o entry found some
  obtain rfl := transactional.eq_of_alike used defined small alike
  exact idle ⟨root, defined, transactional.of_leaves leaves (.root defined)⟩

/-- Every run pushes what it should, and keeps the memo table mute. -/
theorem Runs.pushes (run : r.Runs task st v st') (transactional : r.Transactional effect)
    (standing : r.Standing task st) : r.Pushes task st v st' ∧ r.Mute st'.memo := by
  obtain ⟨placed, mute⟩ := standing
  obtain ⟨⟨items, pushed, none⟩, sparing⟩ :=
    run.leaves transactional.segments transactional.handlers placed.shown mute.sparing
  refine ⟨⟨items, pushed, fun failed clean => ?_, fun matched idle => ?_⟩, transactional.mute sparing⟩
  · exact none false failed fun leaves => clean (transactional.spoils_of_leaves placed leaves)
  · exact none true matched fun leaves => idle (transactional.acts_of_leaves placed leaves)

end Recognizer

end Packrat

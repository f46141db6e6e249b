import Packrat.Proofs.Memo
import Packrat.Proofs.Recognition.Progress
import Packrat.Proofs.Segments

/-! # What runs can leave behind

The host is a stack in segments, and its handlers are local. Every run then pushes some items and does
nothing else to the stack. Which runs can push any is told by the grammar: an action leaves items when it
matches, and any other expression leaves those of the parts that keep theirs when it comes out as it does
(`Expr.kept`). A scope takes back what was pushed before a failure. A repetition that must match twice has
no scope and can fail behind a match, and `&e` keeps what its body pushed. Matches that are remembered
leave what they left when they were made (`Recognizer.Sparing`).
-/

namespace Packrat

/-- The parts whose changes stay when the expression comes out with that success, each with its own success. -/
def Expr.kept : Expr → Bool → List (Bool × Nat)
  | .terminal _, _ | .reference .., _ | .action .., _ | .undo _, false => []
  | .undo child, true => [(true, child)]
  | .sequence children, true => children.map (true, ·)
  | .sequence children, false => children.dropLast.map (true, ·) ++ children.map (false, ·)
  | .choice children, success => children.map (success, ·) ++ children.map (false, ·)
  | .repetition child _ _, true => [(true, child), (false, child)]
  | .repetition child min _, false => if 2 ≤ min then [(true, child), (false, child)] else [(false, child)]
  | .lookahead child .present, success => [(success, child)]
  | .lookahead child .absent, success => [(!success, child)]

namespace Expr

variable {children : List Nat} {c child min max : Nat} {inner success : Bool}

@[simp] theorem mem_kept_sequence_true : (inner, c) ∈ (sequence children).kept true ↔ inner = true ∧ c ∈ children := by
  simp [kept, and_comm]

@[simp] theorem mem_kept_sequence_false : (inner, c) ∈ (sequence children).kept false ↔
    inner = true ∧ c ∈ children.dropLast ∨ inner = false ∧ c ∈ children := by
  cases inner <;> simp [kept, -List.map_dropLast]

@[simp] theorem mem_kept_choice :
    (inner, c) ∈ (choice children).kept success ↔ (inner = success ∨ inner = false) ∧ c ∈ children := by
  simp [kept, or_and_right, and_comm, @eq_comm _ success]

@[simp] theorem mem_kept_repetition_true : (inner, c) ∈ (repetition child min max).kept true ↔ c = child := by
  cases inner <;> simp [kept]

@[simp] theorem mem_kept_repetition_false :
    (inner, c) ∈ (repetition child min max).kept false ↔ c = child ∧ (inner = true → 2 ≤ min) := by
  rw [kept]
  split <;> cases inner <;> simp [*]

theorem mem_children_of_kept {e : Expr} (kept : (inner, c) ∈ e.kept success) : c ∈ e.children := by
  cases e with
  | terminal | reference | action => cases kept
  | undo child =>
    cases success with
    | true => exact List.mem_singleton.mpr (Prod.mk.inj (List.mem_singleton.mp kept)).2
    | false => cases kept
  | sequence children =>
    cases success with
    | true => exact (mem_kept_sequence_true.mp kept).2
    | false => exact (mem_kept_sequence_false.mp kept).elim (fun early => List.dropLast_subset _ early.2) And.right
  | choice children => exact (mem_kept_choice.mp kept).2
  | repetition child =>
    refine List.mem_singleton.mpr ?_
    cases success with
    | true => exact mem_kept_repetition_true.mp kept
    | false => exact (mem_kept_repetition_false.mp kept).1
  | lookahead child sign =>
    cases sign <;> exact List.mem_singleton.mpr (Prod.mk.inj (List.mem_singleton.mp kept)).2

/-- A scope keeps nothing of a part that fails. -/
theorem isAction_of_kept {e : Expr} (kept : (false, c) ∈ e.kept success) : e.isAction = false := by
  cases e with
  | action => cases kept
  | undo child =>
    cases success with
    | true => cases (Prod.mk.inj (List.mem_singleton.mp kept)).1
    | false => cases kept
  | _ => rfl

/-- What the elements behind the first one leave, the sequence leaves. -/
theorem mem_kept_of_tail (member : (inner, c) ∈ (sequence children).kept success) :
    (inner, c) ∈ (sequence (child :: children)).kept success := by
  cases success with
  | true =>
    rw [mem_kept_sequence_true] at member ⊢
    exact ⟨member.1, List.mem_cons_of_mem _ member.2⟩
  | false =>
    rw [mem_kept_sequence_false] at member ⊢
    cases children with
    | nil => simp at member
    | cons next rest => exact member.imp (And.imp_right (List.mem_cons_of_mem _)) (And.imp_right (List.mem_cons_of_mem _))

end Expr

namespace Recognizer

section

variable {H S τ : Type}

/-- A reference to the production `target` can be answered with a match of the production `index`. -/
def Recalls (r : Recognizer H S τ) (memo : Bool) (target index : Nat) : Prop :=
  index = target ∨ (memo && r.memoize) = true ∧ index % UInt32.size = target % UInt32.size

/-- The node can leave changes on the host when it comes out with that success. -/
inductive Leaves (r : Recognizer H S τ) : Bool → Nat → Prop
  | action {i child : Nat} {name : String} {bound : Bool}
      (present : r.grammar.expr? i = some (.action child name bound)) : Leaves r true i
  | part {i child : Nat} {e : Expr} {success inner : Bool} (present : r.grammar.expr? i = some e)
      (kept : (inner, child) ∈ e.kept success) (leaves : Leaves r inner child) : Leaves r success i
  | reference {i target index root : Nat} {memo success : Bool}
      (present : r.grammar.expr? i = some (.reference target memo)) (recalls : r.Recalls memo target index)
      (defined : r.grammar.root? index = some root) (leaves : Leaves r success root) : Leaves r success i

/-- One of the parts can leave changes. -/
def SomeLeaves (r : Recognizer H S τ) (parts : List (Bool × Nat)) : Prop :=
  ∃ inner child, (inner, child) ∈ parts ∧ r.Leaves inner child

end

end Recognizer

namespace Task

variable {H S τ : Type}

/-- The task can leave changes on the host when it comes out with that success. -/
def Leaves (r : Recognizer H S τ) (success : Bool) : Task → Prop
  | .rule (.production index) => ∃ root, r.grammar.root? index = some root ∧ r.Leaves success root
  | .rule (.expression i) | .operator i _ => r.Leaves success i
  | .marked task => task.Leaves r success
  | .all children => r.SomeLeaves ((Expr.sequence children).kept success)
  | .first children => r.SomeLeaves ((Expr.choice children).kept success)
  | .repeated child min max => r.SomeLeaves ((Expr.repetition child min max).kept success)
  | .upTo child .. => success = true ∧ ∃ inner, r.Leaves inner child

/-- Operators are those of their nodes. -/
def Shown (g : Grammar) : Task → Prop
  | .operator i e => g.expr? i = some e
  | .marked task => task.Shown g
  | _ => True

end Task

namespace Recognizer

section

variable {α : Type} {may may' first second : Bool → Prop} {host host' middle : Segments α} {v : Verdict} {items : List α}
  {b : Bool}

/-- The stack has some more items, and none if what has happened may not come out so with any. -/
def Pushed (may : Bool → Prop) (host : Segments α) (v : Verdict) (host' : Segments α) : Prop :=
  ∃ items, host' = host.pushAll items ∧ ∀ success, v = .ofBool success → ¬ may success → items = []

theorem Pushed.nothing : Pushed may host v host := ⟨[], (Segments.pushAll_nil _).symm, fun _ _ _ => rfl⟩

theorem Pushed.mono (pushed : Pushed may host v host') (weaker : ∀ success, may success → may' success) :
    Pushed may' host v host' := by
  obtain ⟨items, same, none⟩ := pushed
  exact ⟨items, same, fun success verdict never => none success verdict fun allowed => never (weaker _ allowed)⟩

theorem Pushed.of_ofBool (items : List α) (same : host' = host.pushAll items) (none : ¬ may b → items = []) :
    Pushed may host (.ofBool b) host' := by
  refine ⟨items, same, fun success verdict never => none ?_⟩
  have agree : b = success := by simpa using congrArg Verdict.isMatched verdict
  exact agree ▸ never

theorem Pushed.unchanged (pushed : Pushed may host (.ofBool b) host') (never : ¬ may b) : host' = host := by
  obtain ⟨items, same, none⟩ := pushed
  rw [same, none b rfl never, Segments.pushAll_nil]

theorem Pushed.of_ne_failed (pushed : Pushed may host v host') (unfailed : v ≠ .failed) :
    Pushed (fun success => success = true ∧ may success) host v host' := by
  obtain ⟨items, same, none⟩ := pushed
  refine ⟨items, same, fun success verdict never => none success verdict fun allowed => never ⟨?_, allowed⟩⟩
  cases success with
  | true => rfl
  | false => exact absurd verdict unfailed

/-- What is pushed first and what is pushed then. -/
theorem Pushed.append (head : Pushed first host (.ofBool b) middle) (tail : Pushed second middle v host')
    (before : ∀ last, v = .ofBool last → first b → may last) (behind : ∀ last, second last → may last) :
    Pushed may host v host' := by
  obtain ⟨items, same, none⟩ := head
  obtain ⟨more, same', none'⟩ := tail
  refine ⟨items ++ more, by rw [same', same, Segments.pushAll_pushAll], fun last verdict never => ?_⟩
  have early : items = [] := none b rfl fun allowed => never (before last verdict allowed)
  have late : more = [] := none' last verdict fun allowed => never (behind last allowed)
  rw [early, late, List.append_nil]

end

variable {α τ : Type} {r : Recognizer (Segments α) (List α) τ}
  {effect : String → Context → List α → Except String Bool × List α} {task task' : Task}
  {st st' : State (Segments α) (List α) τ} {v : Verdict} {items : List α}

theorem openScope_host (segments : r.transaction = Segments.transaction) : (r.openScope st).host = st.host.mark := by
  change r.transaction.start st.host = _
  rw [segments]
  rfl

/-- What is pushed in a scope stays behind a match. -/
theorem closed_host_of_matched (segments : r.transaction = Segments.transaction)
    (pushed : st'.host = (r.openScope st).host.pushAll items) :
    (r.closed st .matched st').host = st.host.pushAll items := by
  change r.transaction.commit st'.host = _
  rw [pushed, openScope_host segments, segments]
  rfl

/-- What is pushed in a scope is taken back unless there is a match. -/
theorem closed_host_of_unmatched (segments : r.transaction = Segments.transaction) (unmatched : v ≠ .matched)
    (pushed : st'.host = (r.openScope st).host.pushAll items) : (r.closed st v st').host = st.host := by
  have rolledBack : r.transaction.rollback st'.host = st.host := by
    rw [pushed, openScope_host segments, segments]
    exact Segments.rollback_pushAll_mark ..
  cases v with
  | matched => exact absurd rfl unmatched
  | failed => exact rolledBack
  | aborted => exact rolledBack

/-- A handler replaces the items of the scope. -/
theorem handle_pushes {name : String} {host : Segments α} (handlers : r.handlers.Local effect)
    (pushed : st.host = host.mark.pushAll items) (answered : r.handle name st = .ok (v, st')) :
    ∃ more, st'.host = host.mark.pushAll more := by
  unfold handle at answered
  split at answered
  · cases answered
    exact ⟨items, pushed⟩
  · next handler found =>
    have said := handlers.handled found st.stream.context st.host
      (by rw [pushed]; exact Segments.floor_pushAll_mark_le ..)
    rw [pushed, Segments.popAll_pushAll_mark] at said
    dsimp only at answered
    rw [pushed, said] at answered
    split at answered
    · next same =>
      cases answered
      exact ⟨_, (congrArg Prod.snd same).symm⟩
    · next same =>
      cases answered
      exact ⟨_, (congrArg Prod.snd same).symm⟩

/-- Matches that are remembered have something saved only if their productions can leave it. -/
def Sparing (r : Recognizer (Segments α) (List α) τ) (memo : Memo.Table (List α)) : Prop :=
  r.memoize = true → ∀ target o entry, memo.get? target o = some entry → entry.snapshot.getD [] ≠ [] →
    ∃ index, index % UInt32.size = target % UInt32.size ∧ (Task.rule (.production index)).Leaves r true

theorem sparing_empty : r.Sparing .empty := by
  intro _ target o entry found
  rw [Memo.Table.get?_empty] at found
  cases found

theorem Sparing.insert {memo : Memo.Table (List α)} {target o : Nat} {entry : Memo.Entry (List α)}
    (sparing : r.Sparing memo)
    (saved : entry.snapshot.getD [] ≠ [] → (Task.rule (.production target)).Leaves r true) :
    r.Sparing (memo.insert target o entry) := by
  intro used target' o' found here some
  rw [Memo.Table.get?_insert] at here
  split at here
  · next same =>
    cases here
    exact ⟨target, (Memo.key_eq_iff.mp same).1, saved some⟩
  · exact sparing used target' o' found here some

/-- Every run pushes only what its task can leave, and so do the matches it remembers. -/
theorem Runs.leaves (run : r.Runs task st v st') (segments : r.transaction = Segments.transaction)
    (handlers : r.handlers.Local effect) (shown : task.Shown r.grammar) (sparing : r.Sparing st.memo) :
    Pushed (task.Leaves r) st.host v st'.host ∧ r.Sparing st'.memo := by
  -- Both go together: what a hit loads is what an earlier store saved, and a store saves what its run pushed.
  induction run with
  | production defined _ ih =>
    obtain ⟨pushed, sparing⟩ := ih trivial sparing
    exact ⟨pushed.mono fun _ leaves => ⟨_, defined, leaves⟩, sparing⟩
  | expression present _ ih => exact ih present sparing
  | marked _ ih => exact ih shown sparing
  | terminal => exact ⟨.nothing, sparing⟩
  | @reference i target memo st st' v plain _ ih =>
    obtain ⟨pushed, sparing⟩ := ih trivial sparing
    refine ⟨pushed.mono ?_, sparing⟩
    rintro _ ⟨root, defined, leaves⟩
    exact .reference shown (.inl rfl) defined leaves
  | @hit i target memo st entry memoized found =>
    refine ⟨Pushed.of_ofBool (b := true) (entry.snapshot.getD []) ?_ fun never => ?_, sparing⟩
    · simp only [replay, segments, note_host]
      cases entry.snapshot with
      | none => exact (Segments.pushAll_nil _).symm
      | some items => rfl
    · by_contra some
      have used := (Bool.and_eq_true_iff.mp memoized).2
      obtain ⟨index, alike, root, defined, leaves⟩ := sparing used target _ entry found some
      exact never (.reference shown (.inr ⟨memoized, alike⟩) defined leaves)
  | @store i target memo st st' memoized missing run ih =>
    obtain ⟨⟨items, pushed, none⟩, sparing⟩ := ih trivial sparing
    have saved : r.transaction.save st'.host = (some items, st'.host) := by
      rw [segments, pushed, openScope_host segments]
      change (some (st.host.mark.pushAll items).segment, _) = _
      rw [Segments.segment_pushAll_mark]
    refine ⟨Pushed.of_ofBool (b := true) items ?_ fun never => ?_, ?_⟩
    · change r.transaction.commit (r.transaction.save st'.host).2 = _
      rw [saved]
      exact closed_host_of_matched segments pushed
    · refine none true rfl ?_
      rintro ⟨root, defined, leaves⟩
      exact never (.reference shown (.inl rfl) defined leaves)
    · simp only [stored, saved, note_memo, State.settled_memo]
      refine sparing.insert fun some => ?_
      by_contra never
      exact some (none true rfl never)
  | @miss i target memo st st' v memoized missing _ unmatched ih =>
    obtain ⟨⟨items, pushed, -⟩, sparing⟩ := ih trivial sparing
    have restored : (r.closed st v st').host = st.host := closed_host_of_unmatched segments unmatched pushed
    rw [restored]
    exact ⟨.nothing, sparing⟩
  | @act i child name bound st st' st'' v _ answered ih =>
    obtain ⟨⟨items, pushed, -⟩, sparing⟩ := ih trivial sparing
    rw [openScope_host segments] at pushed
    obtain ⟨more, replaced⟩ := handle_pushes handlers pushed answered
    rw [← openScope_host segments] at replaced
    refine ⟨?_, (handle_memo answered).symm ▸ sparing⟩
    by_cases matched : v = .matched
    · subst matched
      exact .of_ofBool (b := true) more (closed_host_of_matched segments replaced) fun never =>
        absurd (.action shown) never
    · rw [closed_host_of_unmatched segments matched replaced]
      exact .nothing
  | idle _ unmatched ih =>
    obtain ⟨⟨items, pushed, -⟩, sparing⟩ := ih trivial sparing
    rw [closed_host_of_unmatched segments unmatched pushed]
    exact ⟨.nothing, sparing⟩
  | @undo i child st st' v _ ih =>
    obtain ⟨⟨items, pushed, none⟩, sparing⟩ := ih trivial sparing
    refine ⟨?_, sparing⟩
    by_cases matched : v = .matched
    · subst matched
      refine .of_ofBool (b := true) items (closed_host_of_matched segments pushed) fun never => ?_
      exact none true rfl fun leaves => never (.part shown (List.mem_singleton_self _) leaves)
    · rw [closed_host_of_unmatched segments matched pushed]
      exact .nothing
  | sequence _ ih =>
    obtain ⟨pushed, sparing⟩ := ih trivial sparing
    refine ⟨pushed.mono ?_, sparing⟩
    rintro _ ⟨inner, child, kept, leaves⟩
    exact .part shown kept leaves
  | choice _ ih =>
    obtain ⟨pushed, sparing⟩ := ih trivial sparing
    refine ⟨pushed.mono ?_, sparing⟩
    rintro _ ⟨inner, child, kept, leaves⟩
    exact .part shown kept leaves
  | repetition _ ih =>
    obtain ⟨pushed, sparing⟩ := ih trivial sparing
    refine ⟨pushed.mono ?_, sparing⟩
    rintro _ ⟨inner, child, kept, leaves⟩
    exact .part shown kept leaves
  | present _ ih =>
    obtain ⟨pushed, sparing⟩ := ih trivial sparing
    exact ⟨pushed.mono fun _ leaves => .part shown (List.mem_singleton_self _) leaves, sparing⟩
  | @absent i child st st' v _ ih =>
    obtain ⟨⟨items, pushed, none⟩, sparing⟩ := ih trivial sparing
    refine ⟨⟨items, pushed, fun success verdict never => ?_⟩, sparing⟩
    have turned : v = .ofBool !success := by
      rw [← Verdict.negate_negate v, verdict]
      cases success <;> rfl
    exact none _ turned fun leaves => never (.part shown (List.mem_singleton_self _) leaves)
  | allDone => exact ⟨.nothing, sparing⟩
  | @allNext child rest st st' st'' v run others head tail =>
    obtain ⟨first, sparing⟩ := head trivial sparing
    obtain ⟨second, sparing⟩ := tail trivial sparing
    refine ⟨first.append (b := true) second (fun last verdict leaves => ⟨true, child, ?_, leaves⟩) ?_, sparing⟩
    · cases last with
      | true => simp
      | false =>
        -- An element that matched before another one failed was not the last one.
        cases rest with
        | nil =>
          cases others
          cases verdict
        | cons next rest => simp
    · rintro _ ⟨inner, c, kept, leaves⟩
      exact ⟨inner, c, Expr.mem_kept_of_tail kept, leaves⟩
  | allStop _ unmatched ih =>
    obtain ⟨⟨items, pushed, none⟩, sparing⟩ := ih trivial sparing
    refine ⟨⟨items, pushed, fun success verdict never => none success verdict fun leaves => never ?_⟩, sparing⟩
    cases success with
    | true => exact absurd verdict unmatched
    | false => exact ⟨false, _, by simp, leaves⟩
  | firstNone => exact ⟨.nothing, sparing⟩
  | firstNext run _ head tail =>
    obtain ⟨first, sparing⟩ := head trivial sparing
    obtain ⟨second, sparing⟩ := tail trivial sparing
    refine ⟨first.append (b := false) second (fun _ _ leaves => ⟨false, _, by simp, leaves⟩) ?_, sparing⟩
    rintro _ ⟨inner, c, kept, leaves⟩
    rw [Expr.mem_kept_choice] at kept
    exact ⟨inner, c, Expr.mem_kept_choice.mpr ⟨kept.1, List.mem_cons_of_mem _ kept.2⟩, leaves⟩
  | firstStop _ decided ih =>
    obtain ⟨pushed, sparing⟩ := ih trivial sparing
    exact ⟨pushed.mono fun _ leaves => ⟨_, _, by simp, leaves⟩, sparing⟩
  | repeatedEnough run rest least more =>
    -- The matches behind the least number never fail, so only `true` is left.
    obtain ⟨first, sparing⟩ := least trivial sparing
    obtain ⟨second, sparing⟩ := more trivial sparing
    refine ⟨first.append (b := true) second ?_ ?_, sparing⟩
    · rintro last verdict ⟨inner, c, kept, leaves⟩
      rw [Expr.mem_kept_sequence_true] at kept
      obtain rfl := List.eq_of_mem_replicate kept.2
      cases last with
      | true => exact ⟨inner, _, Expr.mem_kept_repetition_true.mpr rfl, leaves⟩
      | false => exact absurd verdict rest.upTo_ne_failed
    · rintro _ ⟨rfl, inner, leaves⟩
      exact ⟨inner, _, Expr.mem_kept_repetition_true.mpr rfl, leaves⟩
  | repeatedShort _ unmatched ih =>
    obtain ⟨⟨items, pushed, none⟩, sparing⟩ := ih trivial sparing
    refine ⟨⟨items, pushed, fun success verdict never => none success verdict ?_⟩, sparing⟩
    rintro ⟨inner, c, kept, leaves⟩
    cases success with
    | true => exact absurd verdict unmatched
    | false =>
      rw [Expr.mem_kept_sequence_false, List.dropLast_replicate, List.mem_replicate, List.mem_replicate] at kept
      obtain ⟨rfl, several, rfl⟩ | ⟨rfl, -, rfl⟩ := kept
      · exact never ⟨true, _, by simp; omega, leaves⟩
      · exact never ⟨false, _, by simp, leaves⟩
  | upToZero => exact ⟨.nothing, sparing⟩
  | upToEmpty _ _ ih =>
    obtain ⟨pushed, sparing⟩ := ih trivial sparing
    exact ⟨(pushed.of_ne_failed Verdict.noConfusion).mono fun _ kept => ⟨kept.1, _, kept.2⟩, sparing⟩
  | upToNext run advanced rest body more =>
    obtain ⟨first, sparing⟩ := body trivial sparing
    obtain ⟨second, sparing⟩ := more trivial sparing
    refine ⟨first.append (b := true) second (fun last verdict leaves => ⟨?_, _, leaves⟩) fun _ => id, sparing⟩
    cases last with
    | true => rfl
    | false => exact absurd verdict rest.upTo_ne_failed
  | upToEnd _ ih =>
    obtain ⟨⟨items, pushed, none⟩, sparing⟩ := ih trivial sparing
    refine ⟨Pushed.of_ofBool (b := true) items pushed fun never => ?_, sparing⟩
    exact none false rfl fun leaves => never ⟨rfl, _, leaves⟩
  | upToAbort _ ih =>
    obtain ⟨pushed, sparing⟩ := ih trivial sparing
    exact ⟨(pushed.of_ne_failed Verdict.noConfusion).mono fun _ kept => ⟨kept.1, _, kept.2⟩, sparing⟩

end Recognizer

end Packrat

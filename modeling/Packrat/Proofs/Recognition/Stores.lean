import Packrat.Proofs.Recognition.Reentry
import Packrat.Proofs.Recognition.Visits
import Packrat.Recognition.Statistics
import Mathlib

/-! # A match is stored once

Read together with the memo table, a replay of what a recognition tells accounts for every entry: each was stored by
a visit that had asked for it in vain, and whoever asked behind that visit was given the match (`Visits.Fills`). A
reference that is given a match is left at once, and nothing is entered on the way (`Settled`). Both hold along all
runs in which no production comes to itself again where it started, so a grammar without a cycle of left calls
reduces no production for a reference that remembers where it has matched before (`stores_once`).
-/

namespace Packrat

/-- The visit asked the memo table for a match of the production at the offset. -/
structure Visit.Asks (g : Grammar) (production offset : Nat) (visit : Visit) : Prop where
  asked : visit.lookup ≠ none
  reference : ∃ i memo, visit.rule = .expression i ∧ g.expr? i = some (.reference production memo)
  offset : visit.start.offset = offset

theorem Visit.Asks.unique {g : Grammar} {p o p' o' : Nat} {visit : Visit} (asks : visit.Asks g p o)
    (asks' : visit.Asks g p' o') : p = p' ∧ o = o' := by
  obtain ⟨-, ⟨i, memo, rule, present⟩, rfl⟩ := asks
  obtain ⟨-, ⟨i', memo', rule', present'⟩, rfl⟩ := asks'
  cases rule.symm.trans rule'
  cases present.symm.trans present'
  exact ⟨rfl, rfl⟩

/-- A match from the memo table is all there is to the visit of a reference: it is left next. -/
def Notice.Prompt (earlier later : Notice) : Prop :=
  ∀ i, earlier.1 = .lookedUp i true → later.1 = .left (.expression i) true

/-- References that were given a match were left at once. -/
structure Settled (told : List Notice) : Prop where
  prompt : told.IsChain Notice.Prompt
  last : ∀ notice ∈ told.getLast?, ∀ i, notice.1 ≠ .lookedUp i true

namespace Settled

variable {told : List Notice} {event : Event} {i : Nat} {s s' : Stream}

theorem nil : Settled [] := ⟨.nil, nofun⟩

theorem concat (settled : Settled told) (other : ∀ i, event ≠ .lookedUp i true) : Settled (told ++ [(event, s)]) := by
  constructor
  · refine settled.prompt.append (.singleton _) fun earlier among later _ i hit => ?_
    exact absurd hit (settled.last earlier among i)
  · intro notice among i
    rw [List.getLast?_concat, Option.mem_some_iff] at among
    exact among ▸ other i

theorem recalled (settled : Settled told) :
    Settled (told ++ [(.lookedUp i true, s)] ++ [(.left (.expression i) true, s')]) := by
  rw [List.append_assoc]
  constructor
  · refine settled.prompt.append (List.isChain_pair.mpr ?_) fun earlier among later _ i hit => ?_
    · intro j same
      cases same
      rfl
    · exact absurd hit (settled.last earlier among i)
  · intro notice among j
    rw [← List.append_assoc, List.getLast?_concat, Option.mem_some_iff] at among
    exact among ▸ Event.noConfusion

end Settled

namespace Visits

variable {S : Type} {g : Grammar} {ended : List (Visit × Bool)} {memo : Memo.Table S} {visit : Visit} {success : Bool}
  {p o : Nat}

theorem replay?_concat (visits : Visits) (told : List Notice) (notice : Notice) :
    visits.replay? (told ++ [notice]) = (visits.replay? told).bind fun middle => middle.step? notice := by
  rw [replay?_append]
  exact congrArg _ (funext fun middle => (replay?_cons ..).trans (Option.bind_fun_some _))

/-- The table holds what the visits stored, and once a match was stored, it was found by all who asked for it. -/
structure Fills (g : Grammar) (ended : List (Visit × Bool)) (memo : Memo.Table S) : Prop where
  known : ∀ {p o}, p < UInt32.size → o < UInt32.size →
    ((memo.get? p o).isSome ↔ ∃ entry ∈ ended, entry.1.stored = true ∧ entry.1.Asks g p o)
  once : ended.Pairwise fun earlier later => earlier.1.stored = true →
    ∀ p o, earlier.1.Asks g p o → later.1.Asks g p o → later.1.lookup = some true
  size : memo.size = ended.countP fun entry => entry.1.stored

theorem fills_empty : Fills g [] (.empty : Memo.Table S) where
  known _ _ := by simp
  once := .nil
  size := rfl

namespace Fills

variable (fills : Fills g ended memo)

include fills

/-- A visit that stores nothing, and asks for no match in vain that is stored. -/
theorem concat (unstored : visit.stored = false)
    (found : ∀ entry ∈ ended, entry.1.stored = true → ∀ p o, entry.1.Asks g p o → visit.Asks g p o →
      visit.lookup = some true) : Fills g (ended ++ [(visit, success)]) memo where
  known small small' := by
    rw [fills.known small small']
    simp [or_and_right, exists_or, unstored]
  once := by
    refine List.pairwise_append.mpr ⟨fills.once, List.pairwise_singleton .., fun entry among last member => ?_⟩
    rw [List.mem_singleton.mp member]
    exact found entry among
  size := by
    rw [fills.size, List.countP_append]
    simp [unstored]

theorem unasked (unasked : visit.lookup = none) (unstored : visit.stored = false) :
    Fills g (ended ++ [(visit, success)]) memo :=
  fills.concat unstored fun _ _ _ _ _ _ asks => absurd unasked asks.asked

theorem recalled (hit : visit.lookup = some true) (unstored : visit.stored = false) :
    Fills g (ended ++ [(visit, success)]) memo :=
  fills.concat unstored fun _ _ _ _ _ _ _ => hit

variable (asks : visit.Asks g p o) (small : p < UInt32.size ∧ o < UInt32.size) (missing : memo.get? p o = none)

include asks small missing

/-- Nobody has stored what the table does not know. -/
theorem not_stored : ∀ entry ∈ ended, entry.1.stored = true → ∀ p o, entry.1.Asks g p o → ¬ visit.Asks g p o := by
  intro entry member stored p' o' asked asks'
  obtain ⟨rfl, rfl⟩ := asks.unique asks'
  have known := (fills.known small.1 small.2).mpr ⟨entry, member, stored, asked⟩
  rw [missing] at known
  cases known

theorem missed (unstored : visit.stored = false) : Fills g (ended ++ [(visit, success)]) memo :=
  fills.concat unstored fun entry member stored p o asked asks' =>
    absurd asks' (fills.not_stored asks small missing entry member stored p o asked)

theorem insert (stored : visit.stored = true) (entry : Memo.Entry S) :
    Fills g (ended ++ [(visit, success)]) (memo.insert p o entry) where
  known {p' o'} small' small'' := by
    have same : Memo.key p o = Memo.key p' o' ↔ visit.Asks g p' o' := by
      rw [Memo.key_eq_iff, Nat.mod_eq_of_lt small.1, Nat.mod_eq_of_lt small.2, Nat.mod_eq_of_lt small',
        Nat.mod_eq_of_lt small'']
      refine ⟨?_, asks.unique⟩
      rintro ⟨rfl, rfl⟩
      exact asks
    have here : (∃ entry ∈ ended ++ [(visit, success)], entry.1.stored = true ∧ entry.1.Asks g p' o') ↔
        (∃ entry ∈ ended, entry.1.stored = true ∧ entry.1.Asks g p' o') ∨ visit.Asks g p' o' := by
      simp [or_and_right, exists_or, stored]
    rw [here, ← fills.known small' small'', Memo.Table.get?_insert, ← same]
    split
    · next equal => exact iff_of_true rfl (.inr equal)
    · next other => exact (or_iff_left other).symm
  once := by
    refine List.pairwise_append.mpr ⟨fills.once, List.pairwise_singleton .., fun entry among last member => ?_⟩
    rw [List.mem_singleton.mp member]
    intro earlier p' o' asked asks'
    exact absurd asks' (fills.not_stored asks small missing entry among earlier p' o' asked)
  size := by
    rw [Memo.Table.size_insert_of_missing missing, fills.size, List.countP_append]
    simp [stored]

end Fills

end Visits

namespace Recognizer

open Visits

variable {H S : Type} {r : Recognizer H S (List Notice)} {task : Task} {st st' : State H S (List Notice)}
  {w : List Notice} {memo : Memo.Table S} {pending : List Visit} {v : Verdict} {i : Nat} {start : Position}

/-- All that was told is accounted for, with the visits `pending` still open. -/
def Books (r : Recognizer H S (List Notice)) (pending : List Visit) (w : List Notice) (memo : Memo.Table S) : Prop :=
  ∃ ended, Visits.replay? {} w = some ⟨pending, ended⟩ ∧ Fills r.grammar ended memo ∧ Settled w

/-- The same, except that the expression `i` is open too, and about to be left with the verdict `v`. -/
def Closing (r : Recognizer H S (List Notice)) (i : Nat) (start : Position) (v : Verdict) (pending : List Visit)
    (w : List Notice) (memo : Memo.Table S) : Prop :=
  ∃ lookup stored ended, Visits.replay? {} w = some ⟨⟨.expression i, start, lookup, stored⟩ :: pending, ended⟩ ∧
    Fills r.grammar (ended ++ [(⟨.expression i, start, lookup, stored⟩, v.isMatched)]) memo ∧
    ∀ s, Settled (w ++ [(.left (.expression i) v.isMatched, s)])

/-- What is accounted for where a piece of work begins. -/
def Begins (r : Recognizer H S (List Notice)) (start : Position) (pending : List Visit) (w : List Notice)
    (memo : Memo.Table S) : Task → Prop
  | .operator i _ => r.Books (⟨.expression i, start, none, false⟩ :: pending) w memo
  | .marked task => Begins r start pending w memo task
  | .rule _ | .all _ | .first _ | .repeated .. | .upTo .. => r.Books pending w memo

/-- What is accounted for where a piece of work has come to an end. -/
def Ends (r : Recognizer H S (List Notice)) (start : Position) (v : Verdict) (pending : List Visit) (w : List Notice)
    (memo : Memo.Table S) : Task → Prop
  | .operator i _ => r.Closing i start v pending w memo
  | .marked task => Ends r start v pending w memo task
  | .rule _ | .all _ | .first _ | .repeated .. | .upTo .. => r.Books pending w memo

theorem Books.entered (books : r.Books pending w memo) (rule : Rule) (s : Stream) :
    r.Books (⟨rule, s.position, none, false⟩ :: pending) (w ++ [(.entered rule, s)]) memo := by
  obtain ⟨ended, replayed, fills, settled⟩ := books
  refine ⟨ended, ?_, fills, settled.concat nofun⟩
  rw [replay?_concat, replayed, Option.bind_some, step?]

/-- A rule that did not ask the memo table is left. -/
theorem Books.left {rule : Rule} {s : Stream} {success : Bool}
    (books : r.Books (⟨rule, start, none, false⟩ :: pending) w memo) (back : success = false → s.position = start) :
    r.Books pending (w ++ [(.left rule success, s)]) memo := by
  obtain ⟨ended, replayed, fills, settled⟩ := books
  refine ⟨ended ++ [(⟨rule, start, none, false⟩, success)], ?_, fills.unasked rfl rfl, settled.concat nofun⟩
  have place : success = true ∨ s.position = start := success.eq_false_or_eq_true.imp_right back
  rw [replay?_concat, replayed, Option.bind_some]
  exact if_pos ⟨rfl, place⟩

theorem Closing.left {s : Stream} (closing : r.Closing i start v pending w memo)
    (back : v.isMatched = false → s.position = start) :
    r.Books pending (w ++ [(.left (.expression i) v.isMatched, s)]) memo := by
  obtain ⟨lookup, stored, ended, replayed, fills, settled⟩ := closing
  refine ⟨_, ?_, fills, settled s⟩
  have place : v.isMatched = true ∨ s.position = start := v.isMatched.eq_false_or_eq_true.imp_right back
  rw [replay?_concat, replayed, Option.bind_some]
  exact if_pos ⟨rfl, place⟩

/-- An expression that did not ask the memo table is about to be left. -/
theorem Books.closing (books : r.Books (⟨.expression i, start, none, false⟩ :: pending) w memo) :
    r.Closing i start v pending w memo := by
  obtain ⟨ended, replayed, fills, settled⟩ := books
  exact ⟨none, false, ended, replayed, fills.unasked rfl rfl, fun _ => settled.concat nofun⟩

section Asking

variable {target : Nat} {remember : Bool} {s : Stream} (present : r.grammar.expr? i = some (.reference target remember))

include present in
private theorem asks_of_missed {stored : Bool} :
    (⟨.expression i, start, some false, stored⟩ : Visit).Asks r.grammar target start.offset :=
  ⟨nofun, ⟨i, remember, rfl, present⟩, rfl⟩

/-- The memo table knows a match. -/
theorem Books.recalled (books : r.Books (⟨.expression i, start, none, false⟩ :: pending) w memo) :
    r.Closing i start .matched pending (w ++ [(.lookedUp i true, s)]) memo := by
  obtain ⟨ended, replayed, fills, settled⟩ := books
  refine ⟨some true, false, ended, ?_, fills.recalled rfl rfl, fun _ => settled.recalled⟩
  rw [replay?_concat, replayed, Option.bind_some]
  exact if_pos ⟨rfl, rfl⟩

/-- The memo table knows no match. -/
theorem Books.asked (books : r.Books (⟨.expression i, start, none, false⟩ :: pending) w memo) :
    r.Books (⟨.expression i, start, some false, false⟩ :: pending) (w ++ [(.lookedUp i false, s)]) memo := by
  obtain ⟨ended, replayed, fills, settled⟩ := books
  refine ⟨ended, ?_, fills, settled.concat fun _ same => nomatch same⟩
  rw [replay?_concat, replayed, Option.bind_some]
  exact if_pos ⟨rfl, rfl⟩

variable (small : target < UInt32.size ∧ start.offset < UInt32.size) (missing : memo.get? target start.offset = none)

include present small missing

/-- No match was found. -/
theorem Books.missed (books : r.Books (⟨.expression i, start, some false, false⟩ :: pending) w memo) :
    r.Closing i start v pending w memo := by
  obtain ⟨ended, replayed, fills, settled⟩ := books
  refine ⟨some false, false, ended, replayed, ?_, fun _ => settled.concat nofun⟩
  exact fills.missed (asks_of_missed present) small missing rfl

/-- The match that was found is stored. -/
theorem Books.stored (books : r.Books (⟨.expression i, start, some false, false⟩ :: pending) w memo)
    (entry : Memo.Entry S) :
    r.Closing i start .matched pending (w ++ [(.stored i, s)]) (memo.insert target start.offset entry) := by
  obtain ⟨ended, replayed, fills, settled⟩ := books
  have told : Settled (w ++ [(.stored i, s)]) := settled.concat nofun
  refine ⟨some false, true, ended, ?_, ?_, fun _ => told.concat nofun⟩
  · rw [replay?_concat, replayed, Option.bind_some]
    exact if_pos ⟨rfl, rfl, rfl⟩
  · exact fills.insert (asks_of_missed present) small missing rfl entry

end Asking

/-- Along a run without reentry, all is accounted for. -/
theorem Runs.books (run : r.Runs task st v st') (observes : r.observer = .keeping) (rooted : task.Rooted r.grammar)
    (wellFormed : r.grammar.WellFormed) (apart : r.NoReentry task st)
    (begins : r.Begins st.stream.position pending st.observed st.memo task) :
    r.Ends st.stream.position v pending st'.observed st'.memo task := by
  have noted (event : Event) (st : State H S (List Notice)) := observed_note observes event st
  have unmatched {v : Verdict} (failed : v.isMatched = false) : v ≠ .matched := by
    rintro rfl
    cases failed
  have step {task task' : Task} {st st' : State H S (List Notice)} (rooted : task.Rooted r.grammar)
      (apart : r.NoReentry task st) (enters : r.Enters task st task' st') :
      task'.Rooted r.grammar ∧ r.NoReentry task' st' := ⟨enters.rooted wellFormed rooted, apart.enters enters⟩
  induction run generalizing pending with
  | production defined run ih =>
    obtain ⟨rooted, apart⟩ := step rooted apart (.production defined)
    rw [noted] at ih ⊢
    exact Books.left (ih rooted apart (Books.entered begins ..)) fun failed => run.restored rfl (unmatched failed)
  | expression present run ih =>
    obtain ⟨rooted, apart⟩ := step rooted apart (.expression present)
    rw [noted] at ih ⊢
    exact Closing.left (ih rooted apart (Books.entered begins ..)) fun failed => run.restored rfl (unmatched failed)
  | marked _ ih =>
    obtain ⟨rooted, apart⟩ := step rooted apart .marked
    exact ih rooted apart begins
  | terminal => exact Books.closing begins
  | reference plain _ ih =>
    obtain ⟨rooted, apart⟩ := step rooted apart (.reference plain)
    exact Books.closing (ih rooted apart begins)
  | hit =>
    rw [replay, noted]
    exact Books.recalled begins
  | @store i target memo st st' memoized missing run ih =>
    obtain ⟨small, fresh⟩ := apart .here memoized missing
    obtain ⟨within, apart⟩ := step rooted apart (.remembered memoized missing)
    have body : r.Books _ st'.observed st'.memo := ih within apart (by
      change r.Books _ (r.note _ _).observed _
      rw [noted]
      exact Books.asked begins)
    rw [stored, noted]
    exact Books.stored rooted.2 small (fresh run) body _
  | @miss i target memo st st' v memoized missing run _ ih =>
    obtain ⟨small, fresh⟩ := apart .here memoized missing
    obtain ⟨within, apart⟩ := step rooted apart (.remembered memoized missing)
    have body : r.Books _ st'.observed st'.memo := ih within apart (by
      change r.Books _ (r.note _ _).observed _
      rw [noted]
      exact Books.asked begins)
    have missing : st'.memo.get? target st.stream.position.offset = none := fresh run
    exact Books.missed rooted.2 small missing body
  | act _ answered ih =>
    obtain ⟨rooted, apart⟩ := step rooted apart .action
    have body : r.Books _ _ _ := ih rooted apart begins
    rw [← handle_observed answered, ← handle_memo answered] at body
    exact body.closing
  | idle _ _ ih =>
    obtain ⟨rooted, apart⟩ := step rooted apart .action
    exact Books.closing (ih rooted apart begins)
  | undo _ ih =>
    obtain ⟨rooted, apart⟩ := step rooted apart .undo
    exact Books.closing (ih rooted apart begins)
  | sequence _ ih =>
    obtain ⟨rooted, apart⟩ := step rooted apart .sequence
    exact Books.closing (ih rooted apart begins)
  | choice _ ih =>
    obtain ⟨rooted, apart⟩ := step rooted apart .choice
    exact Books.closing (ih rooted apart begins)
  | repetition _ ih =>
    obtain ⟨rooted, apart⟩ := step rooted apart .repetition
    exact Books.closing (ih rooted apart begins)
  | present _ ih =>
    obtain ⟨rooted, apart⟩ := step rooted apart .lookahead
    exact Books.closing (ih rooted apart begins)
  | absent _ ih =>
    obtain ⟨rooted, apart⟩ := step rooted apart .lookahead
    exact Books.closing (ih rooted apart begins)
  | allDone | firstNone | upToZero => exact begins
  | allNext run _ head tail =>
    obtain ⟨first, before⟩ := step rooted apart .allHead
    obtain ⟨others, behind⟩ := step rooted apart (.allTail run)
    exact tail others behind (head first before begins)
  | allStop _ _ ih =>
    obtain ⟨rooted, apart⟩ := step rooted apart .allHead
    exact ih rooted apart begins
  | firstNext run _ head tail =>
    obtain ⟨first, before⟩ := step rooted apart .firstHead
    obtain ⟨others, behind⟩ := step rooted apart (.firstTail run)
    exact tail others behind (head first before begins)
  | firstStop _ _ ih =>
    obtain ⟨rooted, apart⟩ := step rooted apart .firstHead
    exact ih rooted apart begins
  | repeatedEnough run _ least more =>
    obtain ⟨first, before⟩ := step rooted apart .least
    obtain ⟨others, behind⟩ := step rooted apart (.more run)
    exact more others behind (least first before begins)
  | repeatedShort _ _ ih =>
    obtain ⟨rooted, apart⟩ := step rooted apart .least
    exact ih rooted apart begins
  | upToNext run advanced _ body more =>
    obtain ⟨first, before⟩ := step rooted apart .upToHead
    obtain ⟨others, behind⟩ := step rooted apart (.upToTail run advanced)
    exact more others behind (body first before begins)
  | upToEmpty _ _ ih =>
    obtain ⟨rooted, apart⟩ := step rooted apart .upToHead
    exact ih rooted apart begins
  | upToEnd _ ih =>
    obtain ⟨rooted, apart⟩ := step rooted apart .upToHead
    exact ih rooted apart begins
  | upToAbort _ ih =>
    obtain ⟨rooted, apart⟩ := step rooted apart .upToHead
    exact ih rooted apart begins

section

variable {τ : Type} {r : Recognizer H S τ} {text : List Char} {st st' : State H S τ} {depth index : Nat}

/-- Without a cycle of left calls, a recognition stores a match once, holds what it stored, and gives it from then on
to every reference that remembers, without reducing anything. -/
theorem stores_once (wellFormed : r.grammar.WellFormed) (acyclic : ∀ p, ¬ Relation.TransGen r.grammar.CallsLeft p p)
    (keyed : r.Keyed text) (defined : index < r.grammar.productions.size) (reads : st.stream.Over text)
    (fresh : st.memo = .empty) (ended : r.reduce depth (.production index) st = .ok (v, st')) :
    ∃ (told : List Notice) (visited : List (Visit × Bool)),
      st'.observed = r.observer.deliver r.grammar told st.observed ∧
      Visits.replay? {} told = some ⟨[], visited⟩ ∧
      (∀ entry ∈ visited, entry.1.Faithful r.grammar r.memoize entry.2) ∧
      Fills r.grammar visited st'.memo ∧ told.IsChain Notice.Prompt := by
  let Related (w : τ) (told : List Notice) : Prop := w = r.observer.deliver r.grammar told st.observed
  have keeps {s : Stream} {event : Event} {w : τ} {told : List Notice} (related : Related w told) :
      Related (r.observer r.grammar s event w) (Observer.keeping r.grammar s event told) :=
    (congrArg _ related).trans (Observer.deliver_concat ..).symm
  have start : Related st.observed [] := rfl
  obtain ⟨told, same, run⟩ := (runs_of_perform ended : r.Runs (.rule (.production index)) st v st').reobserve
    .keeping Related keeps start
  have poised : (r.withObserver .keeping).Poised text (.rule (.production index)) (st.seenAs []) :=
    ⟨defined, reads, fresh ▸ advancing_empty⟩
  have begins : (r.withObserver .keeping).Books [] [] st.memo := ⟨[], rfl, fresh ▸ fills_empty, .nil⟩
  obtain ⟨visited, replayed, fills, settled⟩ : (r.withObserver .keeping).Books [] told st'.memo :=
    run.books rfl poised.rooted wellFormed (poised.noReentry wellFormed keyed acyclic) begins
  obtain ⟨told', visited', kept, balanced, faithful⟩ := run.told rfl
  obtain rfl : told = told' := kept
  cases replayed.symm.trans (balanced {})
  exact ⟨told, visited', same, replayed, faithful, fills, settled.prompt⟩

end

end Recognizer

namespace Sample

def pairRecognizer : Recognizer (Segments (List Char)) (List (List Char)) Statistics :=
  pairMemoParser.recognizer .empty Statistics.observe

/-- `A` matches for the first alternative and is stored, and the second alternative is given this match. -/
theorem pair_stores_once : pairRecognizer.grammar.WellFormed ∧
    (∀ p, ¬ Relation.TransGen pairRecognizer.grammar.CallsLeft p p) ∧
    ∃ v st' told visited, pairRecognizer.reduce 9 (.production 0) ⟨pairStream, .empty, .empty, {}⟩ = .ok (v, st') ∧
      (st'.observed.hits, st'.observed.stores) = (1, 1) ∧ Visits.replay? {} told = some ⟨[], visited⟩ ∧
      Visits.Fills pairRecognizer.grammar visited st'.memo ∧ told.IsChain Notice.Prompt := by
  have flags : pairGrammar.SameButMemo pairRecognizer.grammar := Grammar.sameButMemo_injectMemo _
  have balanced : pairBuilder.Balanced := Builder.balanced_ofSteps pairSteps
  have wellFormed := flags.wellFormed (balanced.built pairBuilder_build).1
  have acyclic : ∀ p, ¬ Relation.TransGen pairRecognizer.grammar.CallsLeft p p := by
    intro p recursive
    obtain ⟨cycle, member, -⟩ := wellFormed.exists_cycle_of_recursive recursive
    have none : pairRecognizer.grammar.leftCycles = [] := by decide +kernel
    exact List.not_mem_nil (none ▸ member)
  have evaluated : (pairRecognizer.reduce 9 (.production 0) ⟨pairStream, .empty, .empty, {}⟩).toOption.map
      (fun answer => (answer.2.observed.hits, answer.2.observed.stores)) = some (1, 1) := by cbv
  obtain ⟨⟨v, st'⟩, ended, counted⟩ := Option.map_eq_some_iff.mp evaluated
  have ended := eq_ok_of_toOption ended
  have keyed : pairRecognizer.Keyed ['a', 'y'] := fun _ => by decide +kernel
  obtain ⟨told, visited, -, replayed, -, fills, prompt⟩ := Recognizer.stores_once wellFormed acyclic keyed
    (by decide +kernel) (Stream.over_ofSource ⟨['a', 'y'], none⟩) rfl ended
  exact ⟨wellFormed, acyclic, v, st', told, visited, ended, counted, replayed, fills, prompt⟩

end Sample

end Packrat

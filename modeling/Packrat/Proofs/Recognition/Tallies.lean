import Packrat.Proofs.Recognition.Furthest
import Packrat.Proofs.Recognition.Visits
import Packrat.Recognition.Statistics
import Mathlib

/-! # What observers count

A recognition that comes to an end has a report: all that its observers are told, whoever they are. Taken in notice
by notice, the report keeps the counts of the observers in step with the visits of a replay: the lookaheads that are
open are those pending (`Farthest.Counts`), and the statistics account for the visits pending and ended
(`Statistics.Accounts`).
-/

namespace Packrat

namespace Farthest

variable {g : Grammar} {f : Farthest} {visits visits' : Visits}

/-- As many lookaheads are open as the observer counts. -/
def Counts (g : Grammar) (f : Farthest) (visits : Visits) : Prop :=
  f.lookaheads = visits.pending.countP fun visit => g.isLookahead visit.rule

theorem Counts.step {notice : Notice} (counts : f.Counts g visits) (takes : visits.Takes notice visits') :
    (observe g notice.2 notice.1 f).Counts g visits' := by
  unfold Counts at counts ⊢
  cases takes with
  | entered =>
    rw [observe_entered, List.countP_cons]
    dsimp only at counts ⊢
    omega
  | @left success s visit pending ended back =>
    rw [List.countP_cons] at counts
    dsimp only at counts ⊢
    rw [observe_left]
    by_cases lookahead : g.isLookahead visit.rule = true
    · rw [if_pos lookahead] at counts ⊢
      exact Nat.sub_eq_of_eq_add counts
    · rw [if_neg lookahead] at counts ⊢
      cases g.terminal? visit.rule with
      | none => exact counts
      | some t =>
        rw [Option.elim_some]
        split
        · rw [fail_lookaheads]
          exact counts
        · exact counts
  | lookedUp => exact counts
  | stored => exact counts

theorem Counts.replay {told : List Notice} (counts : f.Counts g visits)
    (replayed : visits.replay? told = some visits') : (observe.deliver g told f).Counts g visits' := by
  induction told generalizing f visits with
  | nil =>
    cases replayed
    exact counts
  | cons notice told ih =>
    rw [Visits.replay?_cons] at replayed
    obtain ⟨middle, took, rest⟩ := Option.bind_eq_some_iff.mp replayed
    exact ih (counts.step (Visits.takes_of_step? took)) rest

/-- A lookahead that is left was open. -/
theorem Counts.pos_of_left {rule : Rule} {success : Bool} {s : Stream} (counts : f.Counts g visits)
    (lookahead : g.isLookahead rule = true) (takes : visits.Takes (.left rule success, s) visits') :
    0 < f.lookaheads := by
  unfold Counts at counts
  cases takes with
  | left back =>
    rw [counts, List.countP_cons, if_pos lookahead]
    exact Nat.succ_pos _

end Farthest

namespace Visits

/-- Counts the visits, both those that are open and those that have ended. -/
def count (kind : Visit → Bool) (visits : Visits) : Nat :=
  visits.pending.countP kind + visits.ended.countP fun entry => kind entry.1

section Counting

variable (kind : Visit → Bool) (visit : Visit) (success : Bool) (pending : List Visit) (ended : List (Visit × Bool))

@[simp] theorem count_cons :
    count kind ⟨visit :: pending, ended⟩ = count kind ⟨pending, ended⟩ + if kind visit then 1 else 0 := by
  simp only [count, List.countP_cons]
  omega

@[simp] theorem count_concat :
    count kind ⟨pending, ended ++ [(visit, success)]⟩ =
      count kind ⟨pending, ended⟩ + if kind visit then 1 else 0 := by
  simp only [count, List.countP_append, List.countP_singleton]
  omega

end Counting

/-- The numbers of rules that are open at some point of a replay. -/
def depths (told : List Notice) : Set Nat :=
  { n | ∃ before visits, before <+: told ∧ replay? {} before = some visits ∧ visits.pending.length = n }

variable {told : List Notice} {visits visits' : Visits} {notice : Notice}

theorem length_mem_depths (replayed : replay? {} told = some visits) : visits.pending.length ∈ depths told :=
  ⟨told, visits, List.prefix_rfl, replayed, rfl⟩

theorem depths_nil : depths [] = {0} := by
  ext n
  constructor
  · rintro ⟨before, visits, first, replayed, rfl⟩
    obtain rfl := List.prefix_nil.mp first
    cases replayed
    rfl
  · rintro rfl
    exact ⟨[], {}, List.prefix_rfl, rfl, rfl⟩

theorem depths_concat (replayed : replay? {} (told ++ [notice]) = some visits') :
    depths (told ++ [notice]) = insert visits'.pending.length (depths told) := by
  ext n
  constructor
  · rintro ⟨before, visits, first, reached, rfl⟩
    rcases List.prefix_concat_iff.mp first with rfl | earlier
    · rw [replayed] at reached
      cases reached
      exact Set.mem_insert ..
    · exact Set.mem_insert_of_mem _ ⟨before, visits, earlier, reached, rfl⟩
  · rintro (rfl | ⟨before, visits, first, reached, rfl⟩)
    · exact length_mem_depths replayed
    · exact ⟨before, visits, first.trans (List.prefix_append ..), reached, rfl⟩

end Visits

namespace Statistics

theorem foldr_bump (kind : String) (invocations : List (String × Nat)) :
    (bump kind invocations).foldr (fun entry total => entry.2 + total) 0 =
      invocations.foldr (fun entry total => entry.2 + total) 0 + 1 := by
  induction invocations with
  | nil => rfl
  | cons entry rest ih =>
    rw [bump]
    split
    · simp only [List.foldr_cons]
      omega
    · simp only [List.foldr_cons, ih]
      omega

/-- The statistics account for the visits. -/
structure Accounts (stats : Statistics) (visits : Visits) : Prop where
  total : stats.total = visits.count fun _ => true
  successes : stats.successes = visits.ended.countP fun entry => entry.2
  failures : stats.failures = visits.ended.countP fun entry => !entry.2
  depth : stats.depth = visits.pending.length
  hits : stats.hits = visits.count fun visit => visit.lookup == some true
  misses : stats.misses = visits.count fun visit => visit.lookup == some false
  stores : stats.stores = visits.count Visit.stored

variable {g : Grammar} {stats : Statistics} {visits visits' : Visits} {told : List Notice}

theorem Accounts.step {notice : Notice} (accounts : stats.Accounts visits) (takes : visits.Takes notice visits') :
    (observe g notice.2 notice.1 stats).Accounts visits' := by
  obtain ⟨total, successes, failures, depth, hits, misses, stores⟩ := accounts
  rw [Statistics.total] at total
  cases takes with
  | entered => constructor <;> simp_all [observe, Statistics.total, foldr_bump]
  | @left success => cases success <;> constructor <;> simp_all [observe, Statistics.total]
  | @lookedUp i hit => cases hit <;> constructor <;> simp_all [observe, Statistics.total]
  | stored => constructor <;> simp_all [observe, Statistics.total]

/-- The greatest depth grows where a rule is entered. -/
theorem maxDepth_observe {notice : Notice} (depth : stats.depth = visits.pending.length)
    (reached : stats.depth ≤ stats.maxDepth) (takes : visits.Takes notice visits') :
    (observe g notice.2 notice.1 stats).maxDepth = max visits'.pending.length stats.maxDepth := by
  cases takes with
  | entered =>
    simp only [observe, depth, List.length_cons]
    omega
  | @left success s visit pending ended =>
    rw [List.length_cons] at depth
    cases success <;> simp only [observe, Bool.false_eq_true, ↓reduceIte] <;> omega
  | @lookedUp i hit =>
    rw [List.length_cons] at depth ⊢
    cases hit <;> simp only [observe, Bool.false_eq_true, ↓reduceIte] <;> omega
  | stored =>
    rw [List.length_cons] at depth ⊢
    simp only [observe]
    omega

/-- What is told from the opening on is accounted for, and the greatest depth is the most rules that are open at a
time. -/
theorem accounts_replay (replayed : Visits.replay? {} told = some visits) :
    (observe.deliver g told {}).Accounts visits ∧
      IsGreatest (Visits.depths told) (observe.deliver g told {}).maxDepth := by
  induction told using List.reverseRecOn generalizing visits with
  | nil =>
    cases replayed
    refine ⟨by constructor <;> rfl, ?_⟩
    rw [Visits.depths_nil]
    exact isGreatest_singleton
  | append_singleton told notice ih =>
    obtain ⟨middle, earlier, last⟩ := Visits.exists_replay?_of_append replayed
    have took : middle.step? notice = some visits := by simpa [Visits.replay?] using last
    have takes := Visits.takes_of_step? took
    obtain ⟨accounts, greatest⟩ := ih earlier
    have reached := greatest.2 (accounts.depth ▸ Visits.length_mem_depths earlier)
    rw [Observer.deliver_concat, Visits.depths_concat replayed, maxDepth_observe accounts.depth reached takes]
    exact ⟨accounts.step takes, greatest.insert _⟩

end Statistics

/-- What the observers of a recognition are told. -/
structure Report where
  /-- The stream at the start. -/
  start : Stream
  /-- The notices between the opening and the closing. -/
  inside : List Notice
  success : Bool
  stop : Stream

namespace Report

def notices (report : Report) : List Notice :=
  (.opened, report.start) :: report.inside ++ [(.closed report.success, report.stop)]

/-- What an observer makes of all that it is told. -/
def tell {τ : Type} (report : Report) (g : Grammar) (observer : Observer τ) (w : τ) : τ :=
  observer.deliver g report.notices w

theorem tell_eq {τ : Type} (report : Report) (g : Grammar) (observer : Observer τ) (w : τ) :
    report.tell g observer w = observer g report.stop (.closed report.success)
      (observer.deliver g report.inside (observer g report.start .opened w)) :=
  Observer.deliver_concat ((.opened, report.start) :: report.inside) ..

/-- The report is well nested, and the counters add up. -/
structure Sound (report : Report) (g : Grammar) (memoize : Bool) (visited : List (Visit × Bool)) : Prop where
  /-- Every rule that is entered is left once, the innermost one first, and where it was entered if it failed. -/
  nested : Visits.replay? {} report.inside = some ⟨[], visited⟩
  /-- The memo table is asked and filled by references that remember. -/
  faithful : ∀ entry ∈ visited, entry.1.Faithful g memoize entry.2
  /-- The observer of failures never leaves a lookahead without one that is open. -/
  lookaheads (f : Farthest) (before : List Notice) (rule : Rule) (success : Bool) (s : Stream) (after : List Notice) :
    report.inside = before ++ (.left rule success, s) :: after → g.isLookahead rule = true →
      0 < (Farthest.observe.deliver g ((.opened, report.start) :: before) f).lookaheads
  closed (f : Farthest) : (report.tell g Farthest.observe f).lookaheads = 0
  visits (stats : Statistics) : (report.tell g Statistics.observe stats).total = visited.length
  total (stats : Statistics) : (report.tell g Statistics.observe stats).total =
    (report.tell g Statistics.observe stats).successes + (report.tell g Statistics.observe stats).failures
  maxDepth (stats : Statistics) :
    IsGreatest (Visits.depths report.inside) (report.tell g Statistics.observe stats).maxDepth
  /-- The memo table is used by each reference that remembers, unless nothing is remembered. -/
  uses (stats : Statistics) :
    (report.tell g Statistics.observe stats).hits + (report.tell g Statistics.observe stats).misses =
      if memoize then visited.countP fun entry => g.remembers entry.1.rule else 0
  /-- A match is stored where the memo table knew none. -/
  stores (stats : Statistics) : (report.tell g Statistics.observe stats).stores =
    visited.countP fun entry => entry.1.lookup == some false && entry.2

variable {report : Report} {g : Grammar} {memoize : Bool} {visited : List (Visit × Bool)}

/-- The memo table knows a match or not. -/
private theorem countP_lookup (visited : List (Visit × Bool)) :
    (visited.countP fun entry => entry.1.lookup == some true) +
      (visited.countP fun entry => entry.1.lookup == some false) =
        visited.countP fun entry => entry.1.lookup.isSome := by
  induction visited with
  | nil => rfl
  | cons entry visited ih =>
    simp only [List.countP_cons, ← ih]
    rcases entry.1.lookup with _ | _ | _ <;> simp <;> omega

theorem sound_of_nested (nested : Visits.replay? {} report.inside = some ⟨[], visited⟩)
    (faithful : ∀ entry ∈ visited, entry.1.Faithful g memoize entry.2) : report.Sound g memoize visited := by
  have counts : Farthest.Counts g {} {} := rfl
  have tallied (stats : Statistics) : report.tell g Statistics.observe stats =
      Statistics.observe.deliver g report.inside {} := report.tell_eq ..
  obtain ⟨accounts, greatest⟩ := Statistics.accounts_replay (g := g) nested
  constructor
  · exact nested
  · exact faithful
  · intro f before rule success s after split lookahead
    rw [split] at nested
    obtain ⟨middle, earlier, rest⟩ := Visits.exists_replay?_of_append nested
    rw [Visits.replay?_cons] at rest
    obtain ⟨next, took, -⟩ := Option.bind_eq_some_iff.mp rest
    exact (counts.replay earlier).pos_of_left lookahead (Visits.takes_of_step? took)
  · intro f
    rw [tell_eq]
    exact counts.replay nested
  · intro stats
    rw [tallied, accounts.total]
    simp [Visits.count]
  · intro stats
    rw [tallied, accounts.total, accounts.successes, accounts.failures, Visits.count, List.countP_nil, Nat.zero_add,
      List.countP_true]
    simpa using visited.length_eq_countP_add_countP Prod.snd
  · intro stats
    rw [tallied]
    exact greatest
  · intro stats
    rw [tallied, accounts.hits, accounts.misses, Visits.count, Visits.count, List.countP_nil, List.countP_nil,
      Nat.zero_add, Nat.zero_add, countP_lookup]
    cases memoize with
    | false => exact List.countP_eq_zero.mpr fun entry member => by simp [(faithful entry member).asked]
    | true => exact List.countP_congr fun entry member => by rw [(faithful entry member).asked, Bool.true_and]
  · intro stats
    rw [tallied, accounts.stores]
    simp only [Visits.count, List.countP_nil, Nat.zero_add]
    exact List.countP_congr fun entry member => by rw [(faithful entry member).stored]

end Report

namespace Parser

variable {H S τ : Type} {p : Parser H S} {host : H} {s : Stream} {observer : Observer τ} {observed : τ} {v : Verdict}

/-- The report of a recognition that keeps all it is told. -/
def report (s : Stream) (v : Verdict) (st : State H S (List Notice)) : Report :=
  ⟨s, st.observed, v.isMatched, st.stream⟩

theorem report_sound {st : State H S (List Notice)}
    (run : (p.recognizer host .keeping).Runs (.rule (.production 0)) ⟨s, host, .empty, []⟩ v st) :
    ∃ visited, (report s v st).Sound p.grammar (p.memoize && p.transaction.memoable host) visited := by
  obtain ⟨told, visited, kept, balanced, faithful⟩ := run.told rfl
  refine ⟨visited, Report.sound_of_nested ?_ faithful⟩
  rw [report, kept]
  exact balanced {}

/-- What an observer has made of a report, when the farthest failure is kept beside it. -/
theorem observed_recognized {st : State H S (Farthest × τ)} {told : List Notice}
    (same : st.observed = (Farthest.observe.both observer).deliver p.grammar told
      (p.initial host s observer observed).observed) :
    st.observed.1 = Farthest.observe.deliver p.grammar told {} ∧
      (p.recognized s.position observer v st).observed =
        (Report.mk s told v.isMatched st.stream).tell p.grammar observer observed := by
  have parts : st.observed = (Farthest.observe.deliver p.grammar told {},
      observer.deliver p.grammar told (observer p.grammar s .opened observed)) :=
    same.trans (Observer.deliver_both ..)
  refine ⟨congrArg Prod.fst parts, ?_⟩
  rw [Report.tell_eq, recognized, parts]

/-- Whoever observes a recognition, what it tells can be kept. -/
theorem exists_kept {st : State H S (Farthest × τ)}
    (run : (p.recognizer host (Farthest.observe.both observer)).Runs (.rule (.production 0))
      (p.initial host s observer observed) v st) :
    ∃ told, (p.recognizer host .keeping).Runs (.rule (.production 0)) ⟨s, host, .empty, []⟩ v (st.seenAs told) ∧
      st.observed = (Farthest.observe.both observer).deliver p.grammar told
        (p.initial host s observer observed).observed := by
  let Related (w : Farthest × τ) (told : List Notice) : Prop :=
    w = (Farthest.observe.both observer).deliver p.grammar told (p.initial host s observer observed).observed
  have keeps {s' : Stream} {event : Event} {w : Farthest × τ} {told : List Notice} (related : Related w told) :
      Related (Farthest.observe.both observer p.grammar s' event w) (Observer.keeping p.grammar s' event told) :=
    (congrArg _ related).trans (Observer.deliver_concat ..).symm
  have start : Related (p.initial host s observer observed).observed [] := rfl
  obtain ⟨told, same, run⟩ := run.reobserve .keeping Related keeps start
  exact ⟨told, run, same⟩

/-- Whatever is told, any observer would have been told. -/
theorem exists_told {st : State H S (List Notice)}
    (run : (p.recognizer host .keeping).Runs (.rule (.production 0)) ⟨s, host, .empty, []⟩ v st)
    (observer : Observer τ) (observed : τ) :
    ∃ depth done, p.parseWithin depth host s observer observed = .ok done ∧
      done.observed = (report s v st).tell p.grammar observer observed := by
  let Related (told : List Notice) (w : Farthest × τ) : Prop :=
    w = (Farthest.observe.both observer).deliver p.grammar told (p.initial host s observer observed).observed
  have keeps {s' : Stream} {event : Event} {told : List Notice} {w : Farthest × τ} (related : Related told w) :
      Related (Observer.keeping p.grammar s' event told) (Farthest.observe.both observer p.grammar s' event w) :=
    (congrArg _ related).trans (Observer.deliver_concat ..).symm
  have start : Related [] (p.initial host s observer observed).observed := rfl
  obtain ⟨w, same, run⟩ := run.reobserve (Farthest.observe.both observer) Related keeps start
  obtain ⟨depth, ended⟩ := parseWithin_iff_run.mpr ⟨v, st.seenAs w, run, rfl⟩
  exact ⟨depth, _, ended, (observed_recognized same).2⟩

/-- All observers of a recognition that comes to an end are told the same, which is well nested, and their counters add
up; also the farthest failure, of which the answer tells, is kept by one of them. -/
theorem observers_told {depth : Nat} {done : Recognized H τ}
    (ended : p.parseWithin depth host s observer observed = .ok done) :
    ∃ (report : Report) (visited : List (Visit × Bool)), report.start = s ∧
      report.Sound p.grammar (p.memoize && p.transaction.memoable host) visited ∧
      done.observed = report.tell p.grammar observer observed ∧
      (∃ v : Verdict, v.isMatched = report.success ∧
        done.result = (answer s.position (report.tell p.grammar Farthest.observe {}) v report.stop).1) ∧
      ∀ {σ : Type} (tracer : Observer σ) (w : σ), ∃ depth' done',
        p.parseWithin depth' host s tracer w = .ok done' ∧ done'.observed = report.tell p.grammar tracer w := by
  obtain ⟨v, st, run, rfl⟩ := parseWithin_iff_run.mp ⟨depth, ended⟩
  obtain ⟨told, kept, same⟩ := exists_kept run
  obtain ⟨visited, sound⟩ := report_sound kept
  obtain ⟨farthest, seen⟩ := observed_recognized (v := v) same
  refine ⟨_, visited, rfl, sound, seen, ⟨v, rfl, ?_⟩, exists_told kept⟩
  rw [recognized, farthest, Report.tell_eq]
  rfl

end Parser

namespace Sample

/-- The reference to `A` is reduced twice: first its match is stored, then it is loaded. -/
theorem pair_told : ∃ (done : Recognized (Segments (List Char)) Statistics) (report : Report)
    (visited : List (Visit × Bool)),
    pairMemoParser.parseWithin 9 .empty pairStream Statistics.observe {} = .ok done ∧
      (done.observed.total, done.observed.maxDepth, done.observed.hits, done.observed.misses, done.observed.stores) =
        (13, 8, 1, 1, 1) ∧
      report.start = pairStream ∧ report.Sound pairMemoParser.grammar true visited ∧
      done.observed = report.tell pairMemoParser.grammar Statistics.observe {} := by
  have evaluated : (pairMemoParser.parseWithin 9 .empty pairStream Statistics.observe {}).toOption.map (fun done =>
      (done.observed.total, done.observed.maxDepth, done.observed.hits, done.observed.misses, done.observed.stores)) =
      some (13, 8, 1, 1, 1) := by cbv
  obtain ⟨done, ended, counted⟩ := Option.map_eq_some_iff.mp evaluated
  have ended := eq_ok_of_toOption ended
  obtain ⟨report, visited, start, sound, observed, -⟩ := Parser.observers_told ended
  exact ⟨done, report, visited, ended, counted, start, sound, observed⟩

end Sample

end Packrat

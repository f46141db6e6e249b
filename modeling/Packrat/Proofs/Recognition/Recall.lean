import Packrat.Proofs.Recognition.Misses
import Packrat.Proofs.Recognition.Trail
import Packrat.Proofs.Recognition.Transparency

/-! # What a run notes of what it misses

A run notes what its goal misses, unless a lookahead is around it: then it notes nothing. A remembered match that is
recalled is not parsed again, so what its production misses there has been noted before or never. It has been if the
match was remembered outside of lookaheads (`Trail.Faithful`).
-/

namespace Packrat

open Peg (Deed Goal Misses Outcome Parses Setting misses)

/-- The production that the expression refers to. -/
def Grammar.target? (g : Grammar) (i : Nat) : Option Nat :=
  match g.expr? i with
  | some (.reference target _) => some target
  | _ => none

/-- What a recognizer makes of the grammar, whatever the flags tell to remember. -/
def Grammar.plainSetting (g : Grammar) (text : List Char) (answer : String → Context → Except String Bool) : Setting :=
  ⟨g.plain, text, fun name context _ => answer name context, Peg.counted⟩

namespace MemoUse

/-- No lookahead is around the reference. -/
def isOutside (g : Grammar) (use : MemoUse) : Bool := !use.around.any g.isLookahead

/-- The references are to the same production at the same place. -/
def Meets (g : Grammar) (use other : MemoUse) : Prop :=
  g.target? use.reference = g.target? other.reference ∧ use.start.offset = other.start.offset

instance (g : Grammar) (use other : MemoUse) : Decidable (use.Meets g other) := inferInstanceAs (Decidable (_ ∧ _))

end MemoUse

namespace Trail

variable {g : Grammar} {trail trail' : Trail}

/-- No lookahead has been entered that is not left yet. -/
def isOutside (g : Grammar) (trail : Trail) : Bool := !trail.pending.any fun entry => g.isLookahead entry.1

/-- The offsets and the terminals of the failures. -/
def misses (g : Grammar) (trail : Trail) : Set (Nat × Terminal) :=
  {miss | ∃ failure ∈ trail.failures g, failure.1.offset = miss.1 ∧ failure.2 = miss.2}

/-- What is recalled outside of lookaheads was remembered outside of lookaheads. -/
def Faithful (g : Grammar) (trail : Trail) : Prop :=
  ∀ hit ∈ trail.hits, hit.isOutside g = true → ∀ store ∈ trail.stores, store.Meets g hit → store.isOutside g = true

/-- The innermost rule is the expression of the operator. -/
def Heads (trail : Trail) (place : Position) : Task → Prop
  | .operator i _ => trail.pending.head? = some (.expression i, place)
  | .marked task => trail.Heads place task
  | _ => True

instance (g : Grammar) (trail : Trail) : Decidable (trail.Faithful g) :=
  inferInstanceAs (Decidable (∀ hit ∈ trail.hits, hit.isOutside g = true → ∀ store ∈ trail.stores,
    store.Meets g hit → store.isOutside g = true))

theorem Extends.misses_subset (extended : trail.Extends trail') : trail.misses g ⊆ trail'.misses g := by
  rintro miss ⟨failure, member, same⟩
  exact ⟨failure, extended.mem_failures member, same⟩

theorem Extends.faithful (extended : trail.Extends trail') (faithful : trail'.Faithful g) : trail.Faithful g :=
  fun hit recalled outside store remembered =>
    faithful hit (extended.hits.subset recalled) outside store (extended.stores.subset remembered)

/-- A reduction tells of a miss where its terminal failed outside of lookaheads. -/
theorem mem_misses_reduced {rule : Rule} {start : Position} {success : Bool} {around pending : List (Rule × Position)}
    {miss : Nat × Terminal} :
    miss ∈ misses g { trail with
        pending, reduced := trail.reduced ++ [⟨rule, start, success, around.map Prod.fst⟩] } ↔
      miss ∈ trail.misses g ∨ around.any (fun entry => g.isLookahead entry.1) = false ∧
        g.terminal? rule = some miss.2 ∧ start.offset = miss.1 ∧ success = false := by
  have own {failure : Position × Terminal} :
      Reduced.failure? g ⟨rule, start, success, around.map Prod.fst⟩ = some failure ↔
        around.any (fun entry => g.isLookahead entry.1) = false ∧ g.terminal? rule = some failure.2 ∧
          start = failure.1 ∧ success = false := by
    rcases failure with ⟨place, t⟩
    simp only [Reduced.failure?, List.any_map, Function.comp_def, Option.ite_none_left_eq_some, Option.map_eq_some_iff,
      Bool.or_eq_true, not_or, Bool.not_eq_true, Prod.mk.injEq]
    grind
  have cut {failure : Position × Terminal} : failure ∈ failures g { trail with
        pending, reduced := trail.reduced ++ [⟨rule, start, success, around.map Prod.fst⟩] } ↔
      failure ∈ trail.failures g ∨ Reduced.failure? g ⟨rule, start, success, around.map Prod.fst⟩ = some failure := by
    simp only [failures, List.filterMap_append, List.mem_append, List.mem_filterMap, List.mem_singleton,
      exists_eq_left]
  constructor
  · rintro ⟨failure, member, offset, same⟩
    rcases cut.mp member with earlier | last
    · exact .inl ⟨failure, earlier, offset, same⟩
    · obtain ⟨outside, consists, rfl, failed⟩ := own.mp last
      exact .inr ⟨outside, same ▸ consists, offset, failed⟩
  · rintro (⟨failure, member, same⟩ | ⟨outside, consists, offset, failed⟩)
    · exact ⟨failure, cut.mpr (.inl member), same⟩
    · exact ⟨(start, miss.2), cut.mpr (.inr (own.mpr ⟨outside, consists, rfl, failed⟩)), offset, rfl⟩

theorem isOutside_eq_of_pending (same : trail'.pending = trail.pending) : trail'.isOutside g = trail.isOutside g := by
  rw [isOutside, same, isOutside]

/-- The innermost rule is a reference, which is no lookahead. -/
theorem exists_use {i target : Nat} {place : Position} (heads : trail.pending.head? = some (.expression i, place))
    (refers : g.target? i = some target) :
    ∃ use, trail.use i = some use ∧ use.reference = i ∧ use.start = place ∧ use.isOutside g = trail.isOutside g := by
  obtain ⟨rest, pending⟩ := List.head?_eq_some_iff.mp heads
  refine ⟨⟨i, place, rest.map Prod.fst⟩, by simp [use, pending], rfl, rfl, ?_⟩
  have other : g.isLookahead (.expression i) = false := by
    simp only [Grammar.target?] at refers
    split at refers
    · next present => simp [Grammar.isLookahead, present]
    · cases refers
  simp [MemoUse.isOutside, isOutside, pending, other, Function.comp_def]

end Trail

namespace Recognizer

variable {H S τ : Type} {r : Recognizer H S τ} {log : τ → Log} {σ : Setting}
  {st st' st'' : State H S τ} {i target : Nat} {rule : Rule}

/-- Remembered matches were stored, and what is missed where that was outside of lookaheads is noted. -/
structure Remembers (r : Recognizer H S τ) (log : τ → Log) (σ : Setting) (st : State H S τ) : Prop where
  stored : ∀ {target o : Nat} {entry : Memo.Entry S}, target < UInt32.size → o < UInt32.size →
    st.memo.get? target o = some entry →
    ∃ store ∈ (st.trail log).stores, r.grammar.target? store.reference = some target ∧ store.start.offset = o
  missed : ∀ {target : Nat}, ∀ store ∈ (st.trail log).stores, store.isOutside r.grammar = true →
    r.grammar.target? store.reference = some target →
    misses σ (.rule (.production target)) store.start.offset ⊆ (st.trail log).misses r.grammar

theorem Remembers.mono (remembers : r.Remembers log σ st) (memo : st'.memo = st.memo)
    (stores : (st'.trail log).stores = (st.trail log).stores)
    (noted : (st.trail log).misses r.grammar ⊆ (st'.trail log).misses r.grammar) : r.Remembers log σ st' := by
  constructor
  · rw [memo, stores]
    exact remembers.stored
  · intro target store member outside refers
    rw [stores] at member
    exact (remembers.missed store member outside refers).trans noted

/-- On the way from one state to the other nothing is noted but what is `missed` outside of lookaheads; and all of it,
if what is recalled was noted. -/
structure Accounts (r : Recognizer H S τ) (log : τ → Log) (σ : Setting) (missed : Set (Nat × Terminal))
    (st st' : State H S τ) : Prop where
  only : ∀ miss ∈ (st'.trail log).misses r.grammar,
    miss ∈ (st.trail log).misses r.grammar ∨ (st.trail log).isOutside r.grammar = true ∧ miss ∈ missed
  all : (st'.trail log).Faithful r.grammar → r.Remembers log σ st →
    r.Remembers log σ st' ∧ ((st.trail log).isOutside r.grammar = true → missed ⊆ (st'.trail log).misses r.grammar)

namespace Accounts

variable {missed more : Set (Nat × Terminal)}

theorem of_eq (accounts : r.Accounts log σ missed st st') (same : more = missed) : r.Accounts log σ more st st' :=
  same ▸ accounts

theorem refl (st : State H S τ) : r.Accounts log σ ∅ st st :=
  ⟨fun _ noted => .inl noted, fun _ remembers => ⟨remembers, fun _ => Set.empty_subset _⟩⟩

/-- Other states with the same trails and tables. -/
theorem between {start last : State H S τ} (accounts : r.Accounts log σ missed st st')
    (trail : start.trail log = st.trail log) (memo : start.memo = st.memo) (trail' : last.trail log = st'.trail log)
    (memo' : last.memo = st'.memo) : r.Accounts log σ missed start last := by
  obtain ⟨only, all⟩ := accounts
  constructor
  · rw [trail, trail']
    exact only
  · rw [trail, trail']
    intro faithful remembers
    obtain ⟨remembers, noted⟩ := all faithful (remembers.mono memo.symm (by rw [trail]) (by rw [trail]))
    exact ⟨remembers.mono memo' (by rw [trail']) (by rw [trail']), noted⟩

/-- In a lookahead nothing is to be noted. -/
theorem of_inside (accounts : r.Accounts log σ missed st st')
    (inside : (st.trail log).isOutside r.grammar = false) : r.Accounts log σ more st st' := by
  constructor
  · intro miss noted
    rcases accounts.only miss noted with earlier | ⟨outside, -⟩
    · exact .inl earlier
    · cases inside.symm.trans outside
  · intro faithful remembers
    refine ⟨(accounts.all faithful remembers).1, fun outside => ?_⟩
    cases inside.symm.trans outside

theorem trans (first : r.Accounts log σ missed st st') (second : r.Accounts log σ more st' st'')
    (pending : (st'.trail log).pending = (st.trail log).pending)
    (extended : (st'.trail log).Extends (st''.trail log)) : r.Accounts log σ (missed ∪ more) st st'' := by
  have same := Trail.isOutside_eq_of_pending (g := r.grammar) pending
  constructor
  · intro miss noted
    rcases second.only miss noted with earlier | ⟨outside, member⟩
    · rcases first.only miss earlier with earlier | ⟨outside, member⟩
      · exact .inl earlier
      · exact .inr ⟨outside, .inl member⟩
    · exact .inr ⟨same ▸ outside, .inr member⟩
  · intro faithful remembers
    obtain ⟨remembers, before⟩ := first.all (extended.faithful faithful) remembers
    obtain ⟨remembers, behind⟩ := second.all faithful remembers
    refine ⟨remembers, fun outside => Set.union_subset ?_ (behind (same ▸ outside))⟩
    exact (before outside).trans extended.misses_subset

/-- A rule misses what is missed in it, and the terminal that it consists of, if that fails. -/
theorem around (logs : r.Logs log) {success : Bool}
    (inside : r.Accounts log σ missed (r.note (.entered rule) st) st')
    (pending : (st'.trail log).pending = ((r.note (.entered rule) st).trail log).pending)
    (shut : r.grammar.isLookahead rule = true → missed = ∅) :
    r.Accounts log σ (missed ∪ {miss | r.grammar.terminal? rule = some miss.2 ∧
        st.stream.position.offset = miss.1 ∧ success = false}) st (r.note (.left rule success) st') := by
  have entered : (r.note (.entered rule) st).trail log =
      { st.trail log with pending := (rule, st.stream.position) :: (st.trail log).pending } := logs.trail_note _ _
  have left : (r.note (.left rule success) st').trail log = { st'.trail log with
      pending := (st.trail log).pending
      reduced := (st'.trail log).reduced ++
        [⟨rule, st.stream.position, success, (st.trail log).pending.map Prod.fst⟩] } := by
    rw [logs.trail_note]
    simp only [Trail.step, pending, entered]
  have noted {miss : Nat × Terminal} : miss ∈ ((r.note (.left rule success) st').trail log).misses r.grammar ↔ _ :=
    left ▸ Trail.mem_misses_reduced
  have outside : ((r.note (.entered rule) st).trail log).isOutside r.grammar =
      (!r.grammar.isLookahead rule && (st.trail log).isOutside r.grammar) := by
    rw [entered]
    simp [Trail.isOutside]
  constructor
  · intro miss member
    rcases noted.mp member with earlier | ⟨outside, own⟩
    · rcases inside.only miss earlier with earlier | ⟨within, member⟩
      · rw [entered] at earlier
        exact .inl earlier
      · rw [outside, Bool.and_eq_true] at within
        exact .inr ⟨within.2, .inl member⟩
    · exact .inr ⟨by rw [Trail.isOutside, outside]; rfl, .inr own⟩
  · intro faithful remembers
    have remembers : r.Remembers log σ (r.note (.entered rule) st) :=
      remembers.mono rfl (by rw [entered]) (by rw [entered]; exact subset_rfl)
    have faithful' : (st'.trail log).Faithful r.grammar := by
      rw [left] at faithful
      exact faithful
    obtain ⟨remembers, before⟩ := inside.all faithful' remembers
    refine ⟨remembers.mono rfl (by rw [left]) fun miss member => noted.mpr (.inl member), fun open' => ?_⟩
    refine Set.union_subset (fun miss member => noted.mpr (.inl ?_)) fun miss own => noted.mpr (.inr ⟨?_, own⟩)
    · cases lookahead : r.grammar.isLookahead rule with
      | true =>
        rw [shut lookahead] at member
        cases member
      | false => exact before (by rw [outside, lookahead, open']; rfl) member
    · simpa [Trail.isOutside] using open'

/-- A match that is stored counts as noted from then on, if it was outside of lookaheads. -/
theorem stored (logs : r.Logs log) (inside : r.Accounts log σ (misses σ (.rule (.production target))
      st.stream.position.offset) (r.openScope (r.note (.lookedUp i false) st)) st')
    (pending : (st'.trail log).pending = (st.trail log).pending)
    (heads : (st.trail log).pending.head? = some (.expression i, st.stream.position))
    (refers : r.grammar.target? i = some target)
    (small : target < UInt32.size ∧ st.stream.position.offset < UInt32.size) :
    r.Accounts log σ (misses σ (.rule (.production target)) st.stream.position.offset) st
      (r.stored i target st st') := by
  have start : (r.openScope (r.note (.lookedUp i false) st)).trail log = st.trail log := logs.trail_note _ _
  obtain ⟨use, used, reference, place, outside⟩ := Trail.exists_use (pending ▸ heads) refers
  have behind : (r.stored i target st st').trail log =
      { st'.trail log with stores := (st'.trail log).stores ++ [use] } := by
    refine (logs.trail_note _ _).trans ?_
    change { st'.trail log with stores := (st'.trail log).stores ++ ((st'.trail log).use i).toList } = _
    rw [used, Option.toList_some]
  have same : (st'.trail log).isOutside r.grammar = (st.trail log).isOutside r.grammar :=
    Trail.isOutside_eq_of_pending pending
  constructor
  · intro miss member
    rw [behind] at member
    have := inside.only miss member
    rwa [start] at this
  · intro faithful remembers
    have extended : (st'.trail log).Extends ((r.stored i target st st').trail log) := by
      rw [behind]
      exact ⟨List.prefix_rfl, List.prefix_append .., List.prefix_rfl⟩
    obtain ⟨remembers, noted⟩ := inside.all (extended.faithful faithful)
      (remembers.mono rfl (by rw [start]) (by rw [start]))
    rw [start] at noted
    refine ⟨⟨?_, ?_⟩, fun outside => (noted outside).trans extended.misses_subset⟩
    · intro target' o entry small' small'' found
      rw [behind]
      rcases Memo.Table.get?_insert_cases small ⟨small', small''⟩ found with ⟨rfl, rfl, -⟩ | earlier
      · exact ⟨use, List.mem_append_right _ (List.mem_singleton_self _), reference ▸ refers, place ▸ rfl⟩
      · obtain ⟨store, member, told⟩ := remembers.stored small' small'' earlier
        exact ⟨store, List.mem_append_left _ member, told⟩
    · intro target' store member without refers'
      rw [behind] at member ⊢
      rcases List.mem_append.mp member with member | last
      · exact remembers.missed store member without refers'
      · obtain rfl := List.mem_singleton.mp last
        rw [reference, refers] at refers'
        cases refers'
        rw [place]
        exact noted (same ▸ outside ▸ without)

/-- A match that is recalled has been noted, if it was stored outside of lookaheads. -/
theorem recalled {entry : Memo.Entry S} (logs : r.Logs log)
    (heads : (st.trail log).pending.head? = some (.expression i, st.stream.position))
    (refers : r.grammar.target? i = some target)
    (small : target < UInt32.size ∧ st.stream.position.offset < UInt32.size)
    (found : st.memo.get? target st.stream.position.offset = some entry) :
    r.Accounts log σ (misses σ (.rule (.production target)) st.stream.position.offset) st (r.replay i entry st) := by
  obtain ⟨hit, used, reference, place, outside⟩ := Trail.exists_use heads refers
  have behind : (r.replay i entry st).trail log = { st.trail log with hits := (st.trail log).hits ++ [hit] } := by
    refine (logs.trail_note _ _).trans ?_
    change { st.trail log with hits := (st.trail log).hits ++ ((st.trail log).use i).toList } = _
    rw [used, Option.toList_some]
  constructor
  · intro miss member
    rw [behind] at member
    exact .inl member
  · intro faithful remembers
    refine ⟨remembers.mono rfl (by rw [behind]) (by rw [behind]; exact subset_rfl), fun without => ?_⟩
    rw [behind] at faithful ⊢
    obtain ⟨store, member, refers', there⟩ := remembers.stored small.1 small.2 found
    have recalls : store.Meets r.grammar hit := by
      rw [MemoUse.Meets, refers', there, reference, place, refers]
      exact ⟨rfl, rfl⟩
    have last : hit ∈ (st.trail log).hits ++ [hit] := List.mem_append_right _ (List.mem_singleton_self _)
    have kept := faithful hit last (outside ▸ without) store member recalls
    exact there ▸ remembers.missed store member kept refers'

end Accounts

section

variable {task : Task} {v : Verdict} {text : List Char} {answer : String → Context → Except String Bool}

/-- An expression that consists of a terminal fails where the terminal does not match. -/
private theorem own_misses {e : Expr} (present : r.grammar.expr? i = some e)
    (run : r.Runs (.operator i e) (r.note (.entered (.expression i)) st) v st') (reads : st.stream.Over text) :
    {miss : Nat × Terminal | e.plain = .terminal miss.2 ∧ miss.1 = st.stream.position.offset ∧
        miss.2.matchLength? (text.drop st.stream.position.offset) = none} =
      {miss | r.grammar.terminal? (.expression i) = some miss.2 ∧ st.stream.position.offset = miss.1 ∧
        v.isMatched = false} := by
  ext ⟨place, t⟩
  cases e with
  | terminal t' =>
    cases run
    have verdict := (t'.recognize_spec reads).1
    have consists : r.grammar.terminal? (.expression i) = some t' := by simp [Grammar.terminal?, present]
    have fails : (Verdict.ofBool (t'.recognize st.stream).1).isMatched = false ↔
        t'.matchLength? (text.drop st.stream.position.offset) = none := by
      rw [verdict]
      cases t'.matchLength? (text.drop st.stream.position.offset) <;> simp [Verdict.ofBool, Verdict.isMatched]
    constructor
    · rintro ⟨same, rfl, missing⟩
      cases same
      exact ⟨consists, rfl, fails.mpr missing⟩
    · rintro ⟨same, rfl, failed⟩
      cases consists.symm.trans same
      exact ⟨rfl, rfl, fails.mp failed⟩
  | _ => simp [Expr.plain, Grammar.terminal?, present]

/-- A lookahead is a lookahead. -/
private theorem inside {child : Nat} {sign : Lookahead}
    (heads : (st.trail log).Heads st.stream.position (.operator i (.lookahead child sign)))
    (present : r.grammar.expr? i = some (.lookahead child sign)) : (st.trail log).isOutside r.grammar = false := by
  obtain ⟨rest, pending⟩ := List.head?_eq_some_iff.mp heads
  simp [Trail.isOutside, pending, Grammar.isLookahead, present]

/-- The key of a remembered match tells what it is a match of. -/
private theorem keyed_reference {memo : Bool} (wellFormed : r.grammar.WellFormed) (keyed : r.Keyed text)
    (present : r.grammar.expr? i = some (.reference target memo)) (memoized : (memo && r.memoize) = true)
    (reads : st.stream.Over text) :
    r.grammar.target? i = some target ∧ target < UInt32.size ∧ st.stream.position.offset < UInt32.size := by
  obtain ⟨few, short⟩ := keyed (Bool.and_eq_true_iff.mp memoized).2
  refine ⟨by simp [Grammar.target?, present], Nat.lt_of_lt_of_le (wellFormed.target present) few, ?_⟩
  exact Nat.lt_of_le_of_lt reads.position.offset_le short

private theorem parses_plainly (ledger : Ledger r text fun name context _ => answer name context)
    (run : r.Runs task st v st') (ready : ledger.ready task st) (reads : st.stream.Over text)
    (sound : ledger.Sound st.memo) :
    ∃ out, Parses (r.grammar.plainSetting text answer) task.goal.plain st.stream.position.offset out ∧
      ledger.Explains st v st' out ∧ ledger.Sound st'.memo := by
  obtain ⟨⟨out, parse, explained⟩, sound⟩ := ledger.explains run ready reads sound
  exact ⟨out, parse.plain, explained, sound⟩

/-- A run notes what its goal misses. -/
theorem Runs.accounts (run : r.Runs task st v st') (logs : r.Logs log) (answered : r.handlers.Answers answer)
    (wellFormed : r.grammar.WellFormed) (keyed : r.Keyed text) (present : task.Present r.grammar)
    (heads : (st.trail log).Heads st.stream.position task) (reads : st.stream.Over text)
    (sound : (Ledger.coarse text answered wellFormed keyed).Sound st.memo) :
    r.Accounts log (r.grammar.plainSetting text answer)
      (misses (r.grammar.plainSetting text answer) task.goal.plain st.stream.position.offset) st st' := by
  let ledger := Ledger.coarse text answered wellFormed keyed
  induction run with
  | @production index root st st' v defined body ih =>
    refine ((ih trivial trivial reads sound).around logs (body.pending logs) nofun).of_eq ?_
    refine (Peg.misses_production defined).trans (Set.union_eq_self_of_subset_right ?_).symm
    rintro miss ⟨consists, -⟩
    cases consists
  | @expression i e st st' v present' body ih =>
    have inside : ((r.note (.entered (.expression i)) st).trail log).Heads st.stream.position (.operator i e) := by
      rw [logs.trail_note]
      rfl
    have here : (r.grammar.plainSetting text answer).grammar.expr? i = some e.plain := by
      rw [Grammar.plainSetting, Grammar.expr?_plain, present', Option.map_some]
    refine ((ih present' inside reads sound).around logs (body.pending logs) ?_).of_eq ?_
    · intro lookahead
      cases e with
      | lookahead => exact Peg.misses_lookahead
      | _ => simp [Grammar.isLookahead, present'] at lookahead
    · exact (Peg.misses_expression here).trans (congrArg _ (own_misses present' body reads))
  | marked _ ih => exact (ih present heads reads.mark sound).between rfl rfl rfl rfl
  | @terminal i t st => exact ((Accounts.refl st).of_eq Peg.misses_terminal).between rfl rfl rfl rfl
  | reference _ _ ih => exact (ih trivial trivial reads sound).of_eq Peg.misses_reference
  | @hit i target memo st entry memoized found =>
    obtain ⟨refers, small⟩ := keyed_reference wellFormed keyed present memoized reads
    exact (Accounts.recalled logs heads refers small found).of_eq Peg.misses_reference
  | @store i target memo st st' memoized missing body ih =>
    obtain ⟨refers, small⟩ := keyed_reference wellFormed keyed present memoized reads
    refine (Accounts.stored logs (ih trivial trivial reads.mark sound) ?_ heads refers small).of_eq
      Peg.misses_reference
    exact (body.pending logs).trans (congrArg Trail.pending (logs.trail_note _ _))
  | @miss i target memo st st' v memoized missing _ _ ih =>
    exact ((ih trivial trivial reads.mark sound).of_eq Peg.misses_reference).between
      (logs.trail_note (.lookedUp i false) st).symm rfl rfl rfl
  | @act i child name bound st st' st'' v _ answered' ih =>
    have trail : st''.trail log = st'.trail log := congrArg (Trail.ofLog ∘ log) (handle_observed answered')
    have memo : st''.memo = st'.memo := handle_memo answered'
    exact ((ih trivial trivial reads.mark sound).of_eq Peg.misses_action).between rfl rfl trail memo
  | idle _ _ ih => exact ((ih trivial trivial reads.mark sound).of_eq Peg.misses_action).between rfl rfl rfl rfl
  | undo _ ih => exact ((ih trivial trivial reads.mark sound).of_eq Peg.misses_undo).between rfl rfl rfl rfl
  | sequence _ ih => exact (ih trivial trivial reads sound).of_eq Peg.misses_sequence
  | choice _ ih => exact (ih trivial trivial reads sound).of_eq Peg.misses_choice
  | repetition _ ih => exact ih trivial trivial reads sound
  | @present i child st st' v _ ih =>
    exact ((ih trivial trivial reads.mark sound).of_inside (inside heads present)).between rfl rfl rfl rfl
  | @absent i child st st' v _ ih =>
    exact ((ih trivial trivial reads.mark sound).of_inside (inside heads present)).between rfl rfl rfl rfl
  | allDone => exact (Accounts.refl _).of_eq Peg.misses_all_nil
  | allNext run rest head tail =>
    obtain ⟨_, parse, explained, sound'⟩ := parses_plainly ledger run trivial reads sound
    cases explained with
    | matched =>
      exact ((head trivial trivial reads sound).trans (tail trivial trivial (run.reads reads) sound') (run.pending logs)
        (rest.extends logs)).of_eq (Peg.misses_all_of_matched parse)
  | allStop run unmatched ih =>
    obtain ⟨_, parse, explained, -⟩ := parses_plainly ledger run trivial reads sound
    exact (ih trivial trivial reads sound).of_eq (Peg.misses_all_of_unmatched parse (explained.unmatched unmatched))
  | firstNone => exact (Accounts.refl _).of_eq Peg.misses_first_nil
  | @firstNext child rest st st' st'' v run behind head tail =>
    obtain ⟨_, parse, explained, sound'⟩ := parses_plainly ledger run trivial reads sound
    have back : st'.stream.position.offset = st.stream.position.offset :=
      congrArg Position.offset (run.restored rfl Verdict.noConfusion)
    cases explained with
    | failed =>
      exact ((head trivial trivial reads sound).trans
        (back ▸ tail trivial trivial (run.reads reads) sound') (run.pending logs)
        (behind.extends logs)).of_eq (Peg.misses_first_of_failed parse)
  | firstStop run decided ih =>
    obtain ⟨_, parse, explained, -⟩ := parses_plainly ledger run trivial reads sound
    refine (ih trivial trivial reads sound).of_eq (Peg.misses_first_of_decided parse ?_)
    rintro rfl
    cases explained
    exact decided rfl
  | repeatedEnough run rest least more =>
    obtain ⟨_, parse, explained, sound'⟩ := parses_plainly ledger run trivial reads sound
    cases explained with
    | matched =>
      exact ((least trivial trivial reads sound).trans (more trivial trivial (run.reads reads) sound')
        (run.pending logs) (rest.extends logs)).of_eq (Peg.misses_repetition_of_enough parse)
  | repeatedShort run unmatched ih =>
    obtain ⟨_, parse, explained, -⟩ := parses_plainly ledger run trivial reads sound
    exact (ih trivial trivial reads sound).of_eq
      (Peg.misses_repetition_of_tooFew parse (explained.unmatched unmatched))
  | upToZero => exact (Accounts.refl _).of_eq Peg.misses_greedy_full
  | upToEmpty run empty ih =>
    obtain ⟨_, parse, explained, -⟩ := parses_plainly ledger run trivial reads sound
    refine (ih trivial trivial reads sound).of_eq (Peg.misses_greedy_of_last nofun parse ?_)
    rintro middle deeds rfl
    exact ⟨rfl, explained.of_matched.2.1.symm.trans empty⟩
  | upToNext run advanced rest body more =>
    obtain ⟨_, parse, explained, sound'⟩ := parses_plainly ledger run trivial reads sound
    cases explained with
    | matched =>
      exact ((body trivial trivial reads sound).trans (more trivial trivial (run.reads reads) sound') (run.pending logs)
        (rest.extends logs)).of_eq (Peg.misses_greedy_of_matched nofun parse advanced)
  | upToEnd run ih =>
    obtain ⟨_, parse, explained, -⟩ := parses_plainly ledger run trivial reads sound
    refine (ih trivial trivial reads sound).of_eq (Peg.misses_greedy_of_last nofun parse ?_)
    rintro middle deeds rfl
    cases explained
  | upToAbort run ih =>
    obtain ⟨_, parse, explained, -⟩ := parses_plainly ledger run trivial reads sound
    refine (ih trivial trivial reads sound).of_eq (Peg.misses_greedy_of_last nofun parse ?_)
    rintro middle deeds rfl
    cases explained

end

end Recognizer

end Packrat

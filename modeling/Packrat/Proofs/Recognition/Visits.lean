import Packrat.Proofs.Recognition.Transparency
import Packrat.Proofs.Recognition.Trail

/-! # What observers are told

All observers of a recognition are told the same, and what they are told can be replayed: every rule that is left is
the one that was entered last among those that are open, and the memo table is asked and filled by the rule that is
open innermost (`Visits.step?`). A replay keeps account of what each visit of a rule came to. `Runs.told` says that
whatever a run tells can be replayed, and leaves open what was open before.
-/

namespace Packrat

/-- An event with the stream as observers see it then. -/
abbrev Notice := Event × Stream

namespace Observer

variable {σ τ : Type}

/-- Tells an observer of several events. -/
def deliver (observer : Observer τ) (g : Grammar) (told : List Notice) (w : τ) : τ :=
  told.foldl (fun w notice => observer g notice.2 notice.1 w) w

/-- Keeps all it is told. -/
def keeping : Observer (List Notice) := fun _ s event told => told ++ [(event, s)]

variable {observer : Observer τ} {g : Grammar} {w : τ}

theorem deliver_append (told told' : List Notice) :
    observer.deliver g (told ++ told') w = observer.deliver g told' (observer.deliver g told w) :=
  List.foldl_append

theorem deliver_concat (told : List Notice) (event : Event) (s : Stream) :
    observer.deliver g (told ++ [(event, s)]) w = observer g s event (observer.deliver g told w) :=
  deliver_append told [(event, s)]

/-- Observers in a chain are told the same. -/
theorem deliver_both (first : Observer σ) (second : Observer τ) (told : List Notice) (v : σ) (w : τ) :
    (first.both second).deliver g told (v, w) = (first.deliver g told v, second.deliver g told w) := by
  induction told generalizing v w with
  | nil => rfl
  | cons notice told ih => exact ih ..

end Observer

/-- The expression is a reference that remembers its matches. -/
def Expr.remembers : Expr → Bool
  | reference _ memo => memo
  | _ => false

def Grammar.remembers (g : Grammar) : Rule → Bool
  | .expression i => (g.expr? i).any Expr.remembers
  | .production _ => false

/-- A rule that was entered, with what became known of it since. -/
structure Visit where
  rule : Rule
  start : Position
  /-- What the memo table answered: whether it knew a match. -/
  lookup : Option Bool := none
  /-- The match was stored in the memo table. -/
  stored : Bool := false
deriving DecidableEq, Repr

/-- The memo table is asked exactly by references that remember, and what it did not know and then matched is
stored. -/
structure Visit.Faithful (g : Grammar) (memoize : Bool) (visit : Visit) (success : Bool) : Prop where
  asked : visit.lookup.isSome = (memoize && g.remembers visit.rule)
  stored : visit.stored = (visit.lookup == some false && success)

/-- The visits a recognition has come to. -/
structure Visits where
  /-- The rules that are open, the innermost first. -/
  pending : List Visit := []
  /-- The rules that were left, with their success, in the order in which they were left. -/
  ended : List (Visit × Bool) := []
deriving DecidableEq, Repr

namespace Visits

/-- Takes a notice in, if it fits: the rule that is left was entered last, and without success it is left where it was
entered; the memo table is asked at most once, and what is stored once was asked for in vain. -/
def step? (visits : Visits) : Notice → Option Visits
  | (.entered rule, s) => some { visits with pending := ⟨rule, s.position, none, false⟩ :: visits.pending }
  | (.left rule success, s) =>
    match visits.pending with
    | [] => none
    | visit :: pending =>
      if visit.rule = rule ∧ (success = true ∨ s.position = visit.start) then
        some ⟨pending, visits.ended ++ [(visit, success)]⟩
      else none
  | (.lookedUp i hit, _) =>
    match visits.pending with
    | [] => none
    | visit :: pending =>
      if visit.rule = .expression i ∧ visit.lookup = none then
        some { visits with pending := { visit with lookup := some hit } :: pending }
      else none
  | (.stored i, _) =>
    match visits.pending with
    | [] => none
    | visit :: pending =>
      if visit.rule = .expression i ∧ visit.lookup = some false ∧ visit.stored = false then
        some { visits with pending := { visit with stored := true } :: pending }
      else none
  | (.opened, _) | (.closed _, _) => none

/-- A notice that fits, with the visits before and behind it. -/
inductive Takes : Visits → Notice → Visits → Prop
  | entered {rule : Rule} {s : Stream} {pending : List Visit} {ended : List (Visit × Bool)} :
      Takes ⟨pending, ended⟩ (.entered rule, s) ⟨⟨rule, s.position, none, false⟩ :: pending, ended⟩
  | left {success : Bool} {s : Stream} {visit : Visit} {pending : List Visit} {ended : List (Visit × Bool)}
      (back : success = true ∨ s.position = visit.start) :
      Takes ⟨visit :: pending, ended⟩ (.left visit.rule success, s) ⟨pending, ended ++ [(visit, success)]⟩
  | lookedUp {i : Nat} {hit : Bool} {s : Stream} {start : Position} {stored : Bool} {pending : List Visit}
      {ended : List (Visit × Bool)} :
      Takes ⟨⟨.expression i, start, none, stored⟩ :: pending, ended⟩ (.lookedUp i hit, s)
        ⟨⟨.expression i, start, some hit, stored⟩ :: pending, ended⟩
  | stored {i : Nat} {s : Stream} {start : Position} {pending : List Visit} {ended : List (Visit × Bool)} :
      Takes ⟨⟨.expression i, start, some false, false⟩ :: pending, ended⟩ (.stored i, s)
        ⟨⟨.expression i, start, some false, true⟩ :: pending, ended⟩

theorem takes_of_step? {visits visits' : Visits} {notice : Notice} (took : visits.step? notice = some visits') :
    visits.Takes notice visits' := by
  obtain ⟨pending, ended⟩ := visits
  obtain ⟨event, s⟩ := notice
  cases event with
  | entered rule =>
    cases took
    exact .entered
  | left rule success =>
    cases pending with
    | nil => cases took
    | cons visit pending =>
      obtain ⟨⟨rfl, back⟩, rfl⟩ := by simpa [step?] using took
      exact .left back
  | lookedUp i hit =>
    rcases pending with _ | ⟨⟨rule, start, lookup, stored⟩, pending⟩
    · cases took
    · obtain ⟨⟨rfl, rfl⟩, rfl⟩ := by simpa [step?] using took
      exact .lookedUp
  | stored i =>
    rcases pending with _ | ⟨⟨rule, start, lookup, stored⟩, pending⟩
    · cases took
    · obtain ⟨⟨rfl, rfl, rfl⟩, rfl⟩ := by simpa [step?] using took
      exact .stored
  | opened | closed success => cases took

/-- Takes all notices in. -/
def replay? (visits : Visits) (told : List Notice) : Option Visits := told.foldlM step? visits

theorem replay?_append (visits : Visits) (told told' : List Notice) :
    visits.replay? (told ++ told') = (visits.replay? told).bind fun middle => middle.replay? told' :=
  List.foldlM_append

theorem replay?_cons (visits : Visits) (notice : Notice) (told : List Notice) :
    visits.replay? (notice :: told) = (visits.step? notice).bind fun middle => middle.replay? told :=
  List.foldlM_cons

/-- A replay that goes through goes through up to any point. -/
theorem exists_replay?_of_append {visits visits' : Visits} {told told' : List Notice}
    (replayed : visits.replay? (told ++ told') = some visits') :
    ∃ middle, visits.replay? told = some middle ∧ middle.replay? told' = some visits' := by
  rw [replay?_append] at replayed
  exact Option.bind_eq_some_iff.mp replayed

/-- The notices leave what is open as it is, and account for the visits `ended`. -/
def Balanced (told : List Notice) (ended : List (Visit × Bool)) : Prop :=
  ∀ visits : Visits, visits.replay? told = some { visits with ended := visits.ended ++ ended }

variable {told told' : List Notice} {ended ended' : List (Visit × Bool)}

theorem Balanced.nil : Balanced [] [] := by
  intro visits
  simp [replay?]

theorem Balanced.append (first : Balanced told ended) (second : Balanced told' ended') :
    Balanced (told ++ told') (ended ++ ended') := by
  intro visits
  rw [replay?_append, first visits, Option.bind_some, second, List.append_assoc]

/-- What happens while `visit` is open innermost turns it into `visit'`, whatever is open around it. -/
def Turns (visit : Visit) (told : List Notice) (visit' : Visit) (ended : List (Visit × Bool)) : Prop :=
  ∀ pending earlier, (⟨visit :: pending, earlier⟩ : Visits).replay? told =
    some ⟨visit' :: pending, earlier ++ ended⟩

theorem Balanced.turns (balanced : Balanced told ended) (visit : Visit) : Turns visit told visit ended :=
  fun _ _ => balanced _

variable {visit visit' visit'' : Visit}

theorem Turns.append (first : Turns visit told visit' ended) (second : Turns visit' told' visit'' ended') :
    Turns visit (told ++ told') visit'' (ended ++ ended') := by
  intro pending earlier
  rw [replay?_append, first, Option.bind_some, second, List.append_assoc]

theorem turns_lookedUp {i : Nat} (hit : Bool) (s : Stream) (rule : visit.rule = .expression i)
    (first : visit.lookup = none) : Turns visit [(.lookedUp i hit, s)] { visit with lookup := some hit } [] := by
  intro pending earlier
  simp [replay?, step?, rule, first]

theorem turns_stored {i : Nat} (s : Stream) (rule : visit.rule = .expression i)
    (missed : visit.lookup = some false) (fresh : visit.stored = false) :
    Turns visit [(.stored i, s)] { visit with stored := true } [] := by
  intro pending earlier
  simp [replay?, step?, rule, missed, fresh]

/-- A rule that is entered and left again. -/
theorem Turns.closed {rule : Rule} {s s' : Stream} {success : Bool} {lookup : Option Bool} {stored : Bool}
    (inside : Turns ⟨rule, s.position, none, false⟩ told ⟨rule, s.position, lookup, stored⟩ ended)
    (back : success = false → s'.position = s.position) :
    Balanced ((.entered rule, s) :: told ++ [(.left rule success, s')])
      (ended ++ [(⟨rule, s.position, lookup, stored⟩, success)]) := by
  have place : success = true ∨ s'.position = s.position := by
    cases success with
    | true => exact .inl rfl
    | false => exact .inr (back rfl)
  intro visits
  rw [List.cons_append, replay?_cons, step?, Option.bind_some, replay?_append, inside, Option.bind_some]
  simp [replay?, step?, place]

end Visits

namespace Recognizer

variable {H S : Type} {r : Recognizer H S (List Notice)} {task : Task} {st st' : State H S (List Notice)}
  {w w' w'' : List Notice} {v : Verdict} {i : Nat} {e : Expr}

/-- Behind `w`, something was told that leaves open what was open before. -/
def Keeps (r : Recognizer H S (List Notice)) (w w' : List Notice) : Prop :=
  ∃ told ended, w' = w ++ told ∧ Visits.Balanced told ended ∧
    ∀ entry ∈ ended, entry.1.Faithful r.grammar r.memoize entry.2

/-- Behind `w`, something was told of the expression `e` at the index `i` while it was open innermost. -/
def Works (r : Recognizer H S (List Notice)) (i : Nat) (e : Expr) (v : Verdict) (w w' : List Notice) : Prop :=
  ∃ told ended lookup stored, w' = w ++ told ∧
    (∀ start, Visits.Turns ⟨.expression i, start, none, false⟩ told ⟨.expression i, start, lookup, stored⟩ ended) ∧
    (∀ entry ∈ ended, entry.1.Faithful r.grammar r.memoize entry.2) ∧
    lookup.isSome = (r.memoize && e.remembers) ∧ stored = (lookup == some false && v.isMatched)

/-- What a piece of work tells. -/
def Told (r : Recognizer H S (List Notice)) (v : Verdict) (w w' : List Notice) : Task → Prop
  | .operator i e => r.Works i e v w w'
  | .marked task => Told r v w w' task
  | .rule _ | .all _ | .first _ | .repeated .. | .upTo .. => r.Keeps w w'

theorem Keeps.refl (w : List Notice) : r.Keeps w w := ⟨[], [], (List.append_nil _).symm, .nil, nofun⟩

theorem Keeps.trans (first : r.Keeps w w') (second : r.Keeps w' w'') : r.Keeps w w'' := by
  obtain ⟨told, ended, rfl, balanced, faithful⟩ := first
  obtain ⟨told', ended', rfl, balanced', faithful'⟩ := second
  exact ⟨told ++ told', ended ++ ended', List.append_assoc .., balanced.append balanced',
    List.forall_mem_append.mpr ⟨faithful, faithful'⟩⟩

/-- An expression that does not ask the memo table. -/
theorem Keeps.works (kept : r.Keeps w w') (unasked : (r.memoize && e.remembers) = false) : r.Works i e v w w' := by
  obtain ⟨told, ended, rfl, balanced, faithful⟩ := kept
  exact ⟨told, ended, none, false, rfl, fun _ => balanced.turns _, faithful, unasked.symm, rfl⟩

/-- A production around its right-hand side. -/
theorem Keeps.production {index : Nat} {s s' : Stream} {success : Bool}
    (inside : r.Keeps (w ++ [(.entered (.production index), s)]) w')
    (back : success = false → s'.position = s.position) :
    r.Keeps w (w' ++ [(.left (.production index) success, s')]) := by
  obtain ⟨told, ended, rfl, balanced, faithful⟩ := inside
  have whole := (balanced.turns ⟨.production index, s.position, none, false⟩).closed back
  refine ⟨_, _, ?_, whole, ?_⟩
  · simp
  · apply List.forall_mem_append.mpr ⟨faithful, ?_⟩
    intro entry member
    rw [List.mem_singleton.mp member]
    exact ⟨(Bool.and_false _).symm, rfl⟩

/-- An expression around its work. -/
theorem Works.expression {s s' : Stream} (present : r.grammar.expr? i = some e)
    (inside : r.Works i e v (w ++ [(.entered (.expression i), s)]) w')
    (back : v.isMatched = false → s'.position = s.position) :
    r.Keeps w (w' ++ [(.left (.expression i) v.isMatched, s')]) := by
  obtain ⟨told, ended, lookup, stored, rfl, turns, faithful, asked, kept⟩ := inside
  refine ⟨_, _, ?_, (turns _).closed back, ?_⟩
  · simp
  · apply List.forall_mem_append.mpr ⟨faithful, ?_⟩
    intro entry member
    rw [List.mem_singleton.mp member]
    refine ⟨?_, kept⟩
    simp [asked, Grammar.remembers, present]

section Remembering

variable {target : Nat} {s s' : Stream} (memoized : r.memoize = true)

include memoized

/-- The memo table knows a match. -/
theorem works_hit : r.Works i (.reference target true) .matched w (w ++ [(.lookedUp i true, s)]) := by
  refine ⟨[(.lookedUp i true, s)], [], some true, false, rfl, ?_, nofun, ?_, rfl⟩
  · intro start
    exact Visits.turns_lookedUp true s rfl rfl
  · simp [memoized, Expr.remembers]

/-- The memo table knows no match, and the reference finds none either. -/
theorem Keeps.works_miss (unmatched : v.isMatched = false) (inside : r.Keeps (w ++ [(.lookedUp i false, s)]) w') :
    r.Works i (.reference target true) v w w' := by
  obtain ⟨told, ended, rfl, balanced, faithful⟩ := inside
  refine ⟨(.lookedUp i false, s) :: told, ended, some false, false, ?_, ?_, faithful, ?_, ?_⟩
  · simp
  · intro start
    exact (Visits.turns_lookedUp false s rfl rfl).append (balanced.turns _)
  · simp [memoized, Expr.remembers]
  · simp [unmatched]

/-- The memo table knows no match, and the one that the reference finds is stored. -/
theorem Keeps.works_store (inside : r.Keeps (w ++ [(.lookedUp i false, s)]) w') :
    r.Works i (.reference target true) .matched w (w' ++ [(.stored i, s')]) := by
  obtain ⟨told, ended, rfl, balanced, faithful⟩ := inside
  refine ⟨(.lookedUp i false, s) :: told ++ [(.stored i, s')], ended, some false, true, ?_, ?_, faithful, ?_, rfl⟩
  · simp
  · intro start
    have asked : Visits.Turns ⟨.expression i, start, none, false⟩ [(.lookedUp i false, s)] _ [] :=
      Visits.turns_lookedUp false s rfl rfl
    simpa using (asked.append (balanced.turns _)).append (Visits.turns_stored s' rfl rfl rfl)
  · simp [memoized, Expr.remembers]

end Remembering

theorem observed_note (observes : r.observer = .keeping) (event : Event) (st : State H S (List Notice)) :
    (r.note event st).observed = st.observed ++ [(event, st.stream)] := by
  rw [note, observes]
  rfl

/-- What a run tells can be replayed. -/
theorem Runs.told (run : r.Runs task st v st') (observes : r.observer = .keeping) :
    r.Told v st.observed st'.observed task := by
  have remembers {memo : Bool} (memoized : (memo && r.memoize) = true) : memo = true ∧ r.memoize = true :=
    Bool.and_eq_true_iff.mp memoized
  have unmatched {v : Verdict} : v.isMatched = false ↔ v ≠ .matched := by
    cases v <;> simp [Verdict.isMatched]
  have unasked {e : Expr} (plain : e.remembers = false) : (r.memoize && e.remembers) = false := by
    rw [plain, Bool.and_false]
  have noted (event : Event) (st : State H S (List Notice)) := observed_note observes event st
  induction run with
  | production _ run ih =>
    rw [noted] at ih ⊢
    exact Keeps.production ih fun failed => run.restored rfl (unmatched.mp failed)
  | expression present run ih =>
    rw [noted] at ih ⊢
    exact Works.expression present ih fun failed => run.restored rfl (unmatched.mp failed)
  | marked _ ih => exact ih
  | terminal => exact (Keeps.refl _).works (unasked rfl)
  | reference plain _ ih => exact Keeps.works ih ((Bool.and_comm ..).trans plain)
  | hit memoized =>
    obtain ⟨rfl, memoizes⟩ := remembers memoized
    rw [replay, noted]
    exact works_hit memoizes
  | store memoized _ _ ih =>
    obtain ⟨rfl, memoizes⟩ := remembers memoized
    rw [stored, noted]
    change r.Keeps (r.note _ _).observed _ at ih
    rw [noted] at ih
    exact Keeps.works_store memoizes ih
  | miss memoized _ _ failed ih =>
    obtain ⟨rfl, memoizes⟩ := remembers memoized
    change r.Keeps (r.note _ _).observed _ at ih
    rw [noted] at ih
    exact Keeps.works_miss memoizes (unmatched.mpr failed) ih
  | act _ answered ih =>
    have same : r.Keeps _ _ := ih
    rw [← handle_observed answered] at same
    exact Keeps.works same (unasked rfl)
  | idle _ _ ih => exact Keeps.works ih (unasked rfl)
  | undo _ ih => exact Keeps.works ih (unasked rfl)
  | sequence _ ih => exact Keeps.works ih (unasked rfl)
  | choice _ ih => exact Keeps.works ih (unasked rfl)
  | repetition _ ih => exact Keeps.works ih (unasked rfl)
  | present _ ih => exact Keeps.works ih (unasked rfl)
  | absent _ ih => exact Keeps.works ih (unasked rfl)
  | allDone | firstNone | upToZero => exact Keeps.refl _
  | allNext _ _ head tail => exact Keeps.trans head tail
  | firstNext _ _ head tail => exact Keeps.trans head tail
  | repeatedEnough _ _ least more => exact Keeps.trans least more
  | upToNext _ _ _ body more => exact Keeps.trans body more
  | allStop _ _ ih => exact ih
  | firstStop _ _ ih => exact ih
  | repeatedShort _ _ ih => exact ih
  | upToEmpty _ _ ih => exact ih
  | upToEnd _ ih => exact ih
  | upToAbort _ ih => exact ih

end Recognizer

end Packrat

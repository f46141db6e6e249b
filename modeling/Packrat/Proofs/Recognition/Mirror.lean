import Packrat.Proofs.Recognition.Sight

/-! # Runs of grammars that differ in undo scopes

A run over one of two twins is mirrored by a run over the other one, with the same verdict and out of the same sight
into the same sight. Each step is mirrored by the same step, an undo scope by nothing, and where the other grammar has
undo scopes, they are passed through on the way to the operator inside. Since twins are twins of each other, runs come
to an end in both grammars or in none.
-/

namespace Packrat

open Grammar (SameCore Twins)

/-- The same piece of work in twins. What is left to do inside of an undo scope is like the rule without the scope. -/
inductive Task.Like (g g' : Grammar) : Task → Task → Prop
  | production (index : Nat) : Like g g' (.rule (.production index)) (.rule (.production index))
  | expression {i i' : Nat} (same : SameCore g g' i i') : Like g g' (.rule (.expression i)) (.rule (.expression i'))
  | undo {i child i' : Nat} (same : SameCore g g' child i') :
      Like g g' (.operator i (.undo child)) (.rule (.expression i'))
  | operator {i i' : Nat} {e e' : Expr} (alike : e.Alike (SameCore g g') e') :
      Like g g' (.operator i e) (.operator i' e')
  | marked {task task' : Task} (like : Like g g' task task') : Like g g' (.marked task) (.marked task')
  | all {children children' : List Nat} (same : List.Forall₂ (SameCore g g') children children') :
      Like g g' (.all children) (.all children')
  | first {children children' : List Nat} (same : List.Forall₂ (SameCore g g') children children') :
      Like g g' (.first children) (.first children')
  | repeated {child child' : Nat} (same : SameCore g g' child child') (min max : Nat) :
      Like g g' (.repeated child min max) (.repeated child' min max)
  | upTo {child child' : Nat} (same : SameCore g g' child child') (stopOnEmpty : Bool) (count : Nat) :
      Like g g' (.upTo child stopOnEmpty count) (.upTo child' stopOnEmpty count)

namespace Sight

variable {α : Type} {g g' : Grammar} {related : Nat → Nat → Prop} {e e' : Expr} {k : Nat} {sight : Sight α}

theorem note_entered_alike (alike : e.Alike related e') (present : g.expr? k = some e)
    (present' : g'.expr? k = some e') :
    sight.note g' (.entered (.expression k)) = sight.note g (.entered (.expression k)) := by
  cases alike <;> simp only [note, Farthest.observe, present, present']

theorem note_left_alike (alike : e.Alike related e') (present : g.expr? k = some e)
    (present' : g'.expr? k = some e') (success : Bool) :
    sight.note g' (.left (.expression k) success) = sight.note g (.left (.expression k) success) := by
  cases alike <;> simp only [note, Farthest.observe, present, present']

end Sight

/-- Recognizers of twins that act alike on what is in sight. -/
structure Recognizer.Mirrors {H H' S S' τ τ' α : Type} (r : Recognizer H S τ) (r' : Recognizer H' S' τ')
    (view : View H τ α) (view' : View H' τ' α) (handlers : String → Handler α) : Prop where
  seen : r.Seen view handlers
  seen' : r'.Seen view' handlers
  twins : Twins r.grammar r'.grammar
  memoize : r'.memoize = r.memoize

namespace Recognizer

variable {H H' S S' τ τ' α : Type} {r : Recognizer H S τ} {r' : Recognizer H' S' τ'} {view : View H τ α}
  {view' : View H' τ' α} {handlers : String → Handler α} {task task' : Task} {st st' : State H S τ} {v : Verdict}

theorem Mirrors.flip (mirrors : r.Mirrors r' view view' handlers) : r'.Mirrors r view' view handlers :=
  ⟨mirrors.seen', mirrors.seen, mirrors.twins.flip, mirrors.memoize.symm⟩

/-- What a run of the one recognizer does, the other one does too. -/
theorem Runs.mirrored (run : r.Runs task st v st') (mirrors : r.Mirrors r' view view' handlers)
    (like : task.Like r.grammar r'.grammar task') : r'.Shows view' task' (st.sight view) v (st'.sight view) := by
  obtain ⟨seen, seen', twins, memoize⟩ := mirrors
  induction run generalizing task' with
  | @production index root st st' v defined _ ih =>
    cases like
    obtain ⟨root', defined', core⟩ := twins.exists_root defined
    have shown := Shows.production seen' defined' (ih (.marked (.expression core)))
    rw [seen.note] at shown ⊢
    exact shown
  | @expression i e st st' v present _ ih =>
    cases like with
    | expression same =>
      obtain ⟨k, ⟨rooted, core⟩, rooted', core'⟩ := same
      cases core with
      | inside scope core =>
        cases present.symm.trans scope
        have shown := ih (.undo ⟨k, ⟨rooted, core⟩, rooted', core'⟩)
        rw [seen.note_entered_undo scope] at shown
        rwa [seen.note_left_undo scope]
      | here operator visible =>
        cases present.symm.trans operator
        obtain ⟨e', present', visible'⟩ := core'.operator
        have alike := twins.operator ⟨rooted, rooted'⟩ present present' visible visible'
        have body := ih (@Task.Like.operator r.grammar r'.grammar i i e e' alike)
        rw [seen.note, ← Sight.note_entered_alike alike present present'] at body
        rw [seen.note, ← Sight.note_left_alike alike present present']
        exact .through seen' core' (.expression seen' present' body)
  | marked _ ih =>
    cases like with
    | marked like => exact .marked (ih like)
  | @terminal i t st =>
    cases like with
    | @operator _ i' _ _ alike =>
      cases alike
      have shown := @Shows.terminal _ _ _ _ r' view' (st.sight view) i' t
      simp only [State.sight, Terminal.recognize_under] at shown ⊢
      exact shown
  | @reference i target memo st st' v plain _ ih =>
    cases like with
    | operator alike =>
      cases alike
      exact .reference (memoize ▸ plain) (ih (.marked (.production target)))
  | hit memoized found =>
    cases like with
    | operator alike =>
      cases alike
      rw [seen.replay]
      exact .hit seen' (memoize ▸ memoized) (Option.map_eq_some_iff.mpr ⟨_, found, rfl⟩)
  | @store i target memo st st' memoized missing _ ih =>
    cases like with
    | operator alike =>
      cases alike
      have body := ih (.production target)
      rw [seen.openScope, seen.note] at body
      rw [seen.stored]
      exact .store seen' (memoize ▸ memoized) (Option.map_eq_none_iff.mpr missing) body
  | @miss i target memo st st' v memoized missing _ unmatched ih =>
    cases like with
    | operator alike =>
      cases alike
      have body := ih (.production target)
      rw [seen.openScope, seen.note] at body
      rw [seen.closed]
      exact .miss seen' (memoize ▸ memoized) (Option.map_eq_none_iff.mpr missing) body unmatched
  | @act i child name bound st st' st'' v run answered ih =>
    cases like with
    | operator alike =>
      cases alike with
      | action part =>
        have body := ih (.expression part)
        rw [seen.openScope] at body
        obtain ⟨asked, answered', shown⟩ := seen.handle name run.marks
        cases answered.symm.trans answered'
        rw [seen.closed, shown]
        exact .act seen' body
  | idle _ unmatched ih =>
    cases like with
    | operator alike =>
      cases alike with
      | action part =>
        have body := ih (.expression part)
        rw [seen.openScope] at body
        rw [seen.closed]
        exact .idle seen' body unmatched
  | undo run ih =>
    cases like with
    | operator alike => cases alike
    | undo same =>
      have body := ih (.expression same)
      rw [seen.openScope] at body
      rwa [seen.undone run]
  | sequence _ ih =>
    cases like with
    | operator alike =>
      cases alike with
      | sequence parts => exact .sequence (ih (.marked (.all parts)))
  | choice _ ih =>
    cases like with
    | operator alike =>
      cases alike with
      | choice parts => exact .choice (ih (.first parts))
  | @repetition i child min max st st' v _ ih =>
    cases like with
    | operator alike =>
      cases alike with
      | repetition part => exact .repetition (ih (.marked (.repeated part min max)))
  | present _ ih =>
    cases like with
    | operator alike =>
      cases alike with
      | lookahead part => exact .present (ih (.expression part))
  | absent _ ih =>
    cases like with
    | operator alike =>
      cases alike with
      | lookahead part => exact .absent (ih (.expression part))
  | allDone =>
    cases like with
    | all parts =>
      cases parts
      exact .allDone
  | allNext _ _ head tail =>
    cases like with
    | all parts =>
      cases parts with
      | cons first rest => exact .allNext (head (.expression first)) (tail (.all rest))
  | allStop _ unmatched ih =>
    cases like with
    | all parts =>
      cases parts with
      | cons first rest => exact .allStop (ih (.expression first)) unmatched
  | firstNone =>
    cases like with
    | first parts =>
      cases parts
      exact .firstNone
  | firstNext _ _ head tail =>
    cases like with
    | first parts =>
      cases parts with
      | cons first rest => exact .firstNext (head (.marked (.expression first))) (tail (.first rest))
  | firstStop _ decided ih =>
    cases like with
    | first parts =>
      cases parts with
      | cons first rest => exact .firstStop (ih (.marked (.expression first))) decided
  | @repeatedEnough child min max st st' st'' v _ _ least more =>
    cases like with
    | repeated part =>
      exact .repeatedEnough (least (.all (part.replicate min))) (more (.upTo part (max == unbounded) (max - min)))
  | @repeatedShort child min max st st' v _ unmatched ih =>
    cases like with
    | repeated part => exact .repeatedShort (ih (.all (part.replicate min))) unmatched
  | upToZero =>
    cases like
    exact .upToZero
  | upToEmpty _ empty ih =>
    cases like with
    | upTo part => exact .upToEmpty (ih (.expression part)) empty
  | @upToNext child count stopOnEmpty st st' st'' v _ advanced _ body more =>
    cases like with
    | upTo part => exact .upToNext (body (.expression part)) advanced (more (.upTo part stopOnEmpty count))
  | upToEnd _ ih =>
    cases like with
    | upTo part => exact .upToEnd (ih (.expression part))
  | upToAbort _ ih =>
    cases like with
    | upTo part => exact .upToAbort (ih (.expression part))

end Recognizer

end Packrat

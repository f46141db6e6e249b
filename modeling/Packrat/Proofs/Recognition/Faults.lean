import Packrat.Proofs.Grammar.WellFormed
import Packrat.Proofs.Recognition.Run

/-! # Faults of a reduction

Over a well-formed grammar a reduction either answers or goes too deep. No mark is closed that is not
open, since every run leaves the marks as they were, and no rule is missing.
-/

namespace Packrat

/-- The grammar has the rule. -/
def Rule.InRange (g : Grammar) : Rule → Prop
  | .production index => index < g.productions.size
  | .expression i => ∃ e, g.expr? i = some e

namespace Recognizer

variable {H S τ : Type} {r : Recognizer H S τ} {task : Task} {st : State H S τ} {depth : Nat} {fault : Fault}

theorem andThen_eq_error {reduction : Reduction H S τ} {next : State H S τ → Reduction H S τ}
    (faulty : reduction.andThen next = .error fault) :
    reduction = .error fault ∨ ∃ middle, reduction = .ok (.matched, middle) ∧ next middle = .error fault := by
  rcases reduction with fault' | ⟨u, middle⟩
  · exact .inl faulty
  · cases u <;> simp_all [Reduction.andThen]

theorem otherwise_eq_error {reduction : Reduction H S τ} {next : State H S τ → Reduction H S τ}
    (faulty : reduction.otherwise next = .error fault) :
    reduction = .error fault ∨ ∃ middle, reduction = .ok (.failed, middle) ∧ next middle = .error fault := by
  rcases reduction with fault' | ⟨u, middle⟩
  · exact .inl faulty
  · cases u <;> simp_all [Reduction.otherwise]

theorem always_eq_error {reduction : Reduction H S τ} {next : Verdict → State H S τ → Reduction H S τ}
    (faulty : reduction.always next = .error fault) :
    reduction = .error fault ∨ ∃ u middle, reduction = .ok (u, middle) ∧ next u middle = .error fault := by
  rcases reduction with fault' | ⟨u, middle⟩
  · exact .inl faulty
  · exact .inr ⟨u, middle, rfl, faulty⟩

/-- At this depth the rules of the grammar answer or go too deep. -/
private def Reliable (r : Recognizer H S τ) (depth : Nat) : Prop :=
  ∀ rule st fault, rule.InRange r.grammar → r.reduce depth rule st = .error fault → fault = .tooDeep

private theorem Reliable.expression (reliable : r.Reliable depth) {child : Nat}
    (known : ∃ e, r.grammar.expr? child = some e)
    (faulty : r.reduce depth (.expression child) st = .error fault) : fault = .tooDeep :=
  reliable (.expression child) st fault known faulty

private theorem handle_ne_error {name : String} : r.handle name st ≠ .error fault := by
  unfold handle
  split
  · exact nofun
  · dsimp only
    split <;> exact nofun

private theorem fault_of_marked (task : Task)
    (steps : ∀ {st fault}, r.perform depth task st = .error fault → fault = .tooDeep)
    (faulty : r.perform depth (.marked task) st = .error fault) : fault = .tooDeep := by
  rcases always_eq_error faulty with inside | ⟨u, middle, stepped, closing⟩
  · exact steps inside
  · rw [State.settle_eq (runs_of_perform stepped).marks] at closing
    cases closing

private theorem fault_of_all (reliable : r.Reliable depth) {children : List Nat}
    (known : ∀ child ∈ children, ∃ e, r.grammar.expr? child = some e)
    (faulty : r.perform depth (.all children) st = .error fault) : fault = .tooDeep := by
  induction children generalizing st with
  | nil => cases faulty
  | cons child rest ih =>
    rcases andThen_eq_error faulty with head | ⟨middle, -, tail⟩
    · exact reliable.expression (known child (List.mem_cons_self ..)) head
    · exact ih (fun c member => known c (List.mem_cons_of_mem _ member)) tail

private theorem fault_of_first (reliable : r.Reliable depth) {children : List Nat}
    (known : ∀ child ∈ children, ∃ e, r.grammar.expr? child = some e)
    (faulty : r.perform depth (.first children) st = .error fault) : fault = .tooDeep := by
  induction children generalizing st with
  | nil => cases faulty
  | cons child rest ih =>
    rcases otherwise_eq_error faulty with head | ⟨middle, -, tail⟩
    · refine fault_of_marked (.rule (.expression child)) (fun faulty => ?_) head
      exact reliable.expression (known child (List.mem_cons_self ..)) faulty
    · exact ih (fun c member => known c (List.mem_cons_of_mem _ member)) tail

private theorem fault_of_upTo (reliable : r.Reliable depth) {child count : Nat} {stopOnEmpty : Bool}
    (known : ∃ e, r.grammar.expr? child = some e)
    (faulty : r.perform depth (.upTo child stopOnEmpty count) st = .error fault) : fault = .tooDeep := by
  induction count generalizing st with
  | zero => cases faulty
  | succ count ih =>
    simp only [perform, Reduction.atMost] at faulty ih
    cases stepped : r.reduce depth (.expression child) st with
    | error fault' =>
      rw [stepped] at faulty
      cases faulty
      exact reliable.expression known stepped
    | ok answer =>
      obtain ⟨u, middle⟩ := answer
      rw [stepped] at faulty
      cases u with
      | matched =>
        dsimp only at faulty
        split at faulty
        · cases faulty
        · exact ih faulty
      | failed => cases faulty
      | aborted e => cases faulty

private theorem fault_of_repeated (reliable : r.Reliable depth) {child min max : Nat}
    (known : ∃ e, r.grammar.expr? child = some e)
    (faulty : r.perform depth (.repeated child min max) st = .error fault) : fault = .tooDeep := by
  simp only [perform, repetition, exactly_eq (fun child => r.reduce depth (.expression child))] at faulty
  rcases andThen_eq_error faulty with least | ⟨middle, -, more⟩
  · refine fault_of_all reliable (fun c member => ?_) least
    rw [List.eq_of_mem_replicate member]
    exact known
  · exact fault_of_upTo reliable known more

/-- An action or an undo scope, which `accept` decides on without moving the stream. -/
private theorem fault_of_scope (child : Nat) {accept : State H S τ → Reduction H S τ}
    (still : ∀ {st v st'}, accept st = .ok (v, st') → st'.stream = st.stream)
    (accepts : ∀ {st}, accept st = .error fault → fault = .tooDeep)
    (body : ∀ {st}, r.reduce depth (.expression child) st = .error fault → fault = .tooDeep)
    (faulty : r.action accept (r.reduce depth (.expression child)) st = .error fault) : fault = .tooDeep := by
  rcases always_eq_error faulty with inside | ⟨u, middle, stepped, closing⟩
  · rcases andThen_eq_error inside with first | ⟨inner, -, second⟩
    · exact body first
    · exact accepts second
  · have balanced : middle.stream.marks = st.mark.stream.marks := by
      rcases andThen_eq_ok.mp stepped with ⟨inner, ended, accepted⟩ | ⟨-, ended⟩
      · have run : r.Runs (.rule (.expression child)) _ _ _ := runs_of_perform ended
        rw [still accepted]
        exact run.marks
      · have run : r.Runs (.rule (.expression child)) _ _ _ := runs_of_perform ended
        exact run.marks
    cases (closeScope_eq balanced).symm.trans closing

private theorem fault_of_operator (wellFormed : r.grammar.WellFormed) (reliable : r.Reliable depth) {i : Nat}
    {e : Expr} (present : r.grammar.expr? i = some e)
    (faulty : r.perform depth (.operator i e) st = .error fault) : fault = .tooDeep := by
  have known {child : Nat} (member : child ∈ e.children) : ∃ e', r.grammar.expr? child = some e' :=
    wellFormed.expr?_child present member
  cases e with
  | terminal t => cases faulty
  | reference target memo =>
    have defined : (Rule.production target).InRange r.grammar := wellFormed.target present
    simp only [perform, expression] at faulty
    split at faulty
    · simp only [remembered] at faulty
      split at faulty
      · cases faulty
      · rcases always_eq_error faulty with inside | ⟨u, middle, stepped, closing⟩
        · exact reliable _ _ _ defined inside
        · have run : r.Runs (.rule (.production target)) _ _ _ := runs_of_perform stepped
          have balanced : middle.stream.marks = st.mark.stream.marks := run.marks
          cases u with
          | matched => cases (remember_eq i target balanced).symm.trans closing
          | failed => cases (closeScope_eq balanced).symm.trans closing
          | aborted e => cases (closeScope_eq balanced).symm.trans closing
    · exact fault_of_marked (.rule (.production target)) (reliable _ _ _ defined) faulty
  | action child name bound =>
    refine fault_of_scope child ?_ ?_ ?_ faulty
    · exact handle_stream
    · exact fun faulty => absurd faulty handle_ne_error
    · exact reliable.expression (known (List.mem_singleton_self _))
  | undo child =>
    refine fault_of_scope child ?_ ?_ ?_ faulty
    · intro st v st' accepted
      cases accepted
      rfl
    · intro st refused
      cases refused
    · exact reliable.expression (known (List.mem_singleton_self _))
  | sequence children =>
    exact fault_of_marked (.all children) (fun faulty => fault_of_all reliable (fun _ => known) faulty) faulty
  | choice children => exact fault_of_first reliable (fun _ => known) faulty
  | repetition child min max =>
    refine fault_of_marked (.repeated child min max) (fun faulty => ?_) faulty
    exact fault_of_repeated reliable (known (List.mem_singleton_self _)) faulty
  | lookahead child sign =>
    rcases always_eq_error faulty with inside | ⟨u, middle, stepped, closing⟩
    · exact reliable.expression (known (List.mem_singleton_self _)) inside
    · have run : r.Runs (.rule (.expression child)) _ _ _ := runs_of_perform stepped
      cases sign <;>
      · dsimp only at closing
        rw [State.reset_eq run.marks] at closing
        cases closing

private theorem reliable_reduce (wellFormed : r.grammar.WellFormed) (depth : Nat) : r.Reliable depth := by
  induction depth with
  | zero => intro rule st fault _ faulty; cases faulty; rfl
  | succ depth ih =>
    intro rule st fault known faulty
    cases rule with
    | production index =>
      obtain ⟨root, defined⟩ := Grammar.root?_of_lt known
      simp only [reduce, defined] at faulty
      rcases always_eq_error faulty with inside | ⟨u, middle, -, told⟩
      · refine fault_of_marked (.rule (.expression root)) (fun faulty => ?_) inside
        exact ih.expression (wellFormed.expr?_root defined) faulty
      · cases told
    | expression i =>
      obtain ⟨e, present⟩ := known
      simp only [reduce, present] at faulty
      rcases always_eq_error faulty with inside | ⟨u, middle, -, told⟩
      · exact fault_of_operator wellFormed ih present inside
      · cases told

/-- A rule of a well-formed grammar answers or goes too deep. -/
theorem fault_eq_tooDeep (wellFormed : r.grammar.WellFormed) {rule : Rule}
    (known : rule.InRange r.grammar) (faulty : r.reduce depth rule st = .error fault) :
    fault = .tooDeep :=
  reliable_reduce wellFormed depth rule st fault known faulty

end Recognizer

end Packrat

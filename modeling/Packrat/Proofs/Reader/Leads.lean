import Packrat.Proofs.Reader.Surroundings

/-! # What holds where a reader ends

`Leads step c Q` says that `Q` holds of the answer of a step and of the state behind it, if the step ends from the
state `c` without an error. That it ends is another matter: `Ends` says so, and then the same can be said about it. The
lemmas here execute the steps that readers are made of, as those for `Ends` do.
-/

namespace Packrat

namespace Read

variable {α β : Type} {c d : Cursor} {Q : α → Cursor → Prop} {step : Read α}

/-- If the step ends from `c`, then `Q` holds of its answer and of the state behind it. -/
def Leads (step : Read α) (c : Cursor) (Q : α → Cursor → Prop) : Prop := ∀ a d, step c = .ok (a, d) → Q a d

theorem Ends.leads (ends : Ends step c Q) : Leads step c Q := by
  obtain ⟨a, d, ran, holds⟩ := ends
  intro a' d' ran'
  cases ran.symm.trans ran'
  exact holds

theorem Leads.mono {Q' : α → Cursor → Prop} (leads : Leads step c Q) (weaker : ∀ a d, Q a d → Q' a d) :
    Leads step c Q' := fun a d ran => weaker a d (leads a d ran)

theorem leads_ran (step : Read α) (c : Cursor) : Leads step c fun a d => step c = .ok (a, d) := fun _ _ ran => ran

theorem Leads.bind {R : β → Cursor → Prop} {first : Read β} {next : β → Read α} (leads : Leads first c R)
    (rest : ∀ b d, R b d → Leads (next b) d Q) : Leads (first >>= next) c Q := by
  intro a d ran
  obtain ⟨b, c', ran', ran''⟩ := bind_eq_ok.mp ran
  exact rest b c' (leads b c' ran') a d ran''

/-- Goes on behind a step whose result is known. -/
theorem leads_behind {b : β} {first : Read β} {next : β → Read α} (ran : first c = .ok (b, d))
    (leads : Leads (next b) d Q) : Leads (first >>= next) c Q := by
  refine Leads.bind (R := fun b' d' => b' = b ∧ d' = d) ?_ ?_
  · intro b' d' ran'
    cases ran.symm.trans ran'
    exact ⟨rfl, rfl⟩
  · rintro _ _ ⟨rfl, rfl⟩
    exact leads

@[simp] theorem leads_pure (a : α) : Leads (pure a) c Q ↔ Q a c := by
  constructor
  · exact fun leads => leads a c rfl
  · rintro holds _ _ ⟨⟩
    exact holds

theorem leads_throw (e : ReadError) : Leads (throw e : Read α) c Q := by
  rintro _ _ ⟨⟩

@[simp] theorem leads_get {next : Cursor → Read α} : Leads (get >>= next) c Q ↔ Leads (next c) c Q := Iff.rfl

@[simp] theorem leads_here {next : Position → Read α} :
    Leads (here >>= next) c Q ↔ Leads (next c.position) c Q := Iff.rfl

@[simp] theorem leads_tokenEnd {next : Position → Read α} :
    Leads (tokenEnd >>= next) c Q ↔ Leads (next c.tokenEnd) c Q := Iff.rfl

@[simp] theorem leads_peek {next : Option Char → Read α} :
    Leads (peek >>= next) c Q ↔ Leads (next c.rest.head?) c Q := Iff.rfl

@[simp] theorem leads_atEnd {next : Bool → Read α} :
    Leads (atEnd >>= next) c Q ↔ Leads (next c.rest.isEmpty) c Q := Iff.rfl

@[simp] theorem leads_steps {next : Nat → Read α} :
    Leads (steps >>= next) c Q ↔ Leads (next (c.rest.length + 1)) c Q := Iff.rfl

@[simp] theorem leads_skip {count : Nat} {next : Unit → Read α} :
    Leads (skip count >>= next) c Q ↔ Leads (next ()) (c.forward count) Q := Iff.rfl

@[simp] theorem leads_report {kind : ProblemKind} {start stop : Position} {message : String} {next : Unit → Read α} :
    Leads (report kind start stop message >>= next) c Q ↔
      Leads (next ()) { c with problems := c.problems ++ [⟨kind, none, some ⟨start, stop⟩, message⟩] } Q := Iff.rfl

theorem leads_eat {text : String} {next : Bool → Read α} (eaten : text.toList <+: c.rest →
      Leads (next true) (c.forward text.length) Q) (other : ¬ text.toList <+: c.rest → Leads (next false) c Q) :
    Leads (eat text >>= next) c Q := by
  intro a d ran
  obtain ⟨found, c', ran', ran''⟩ := bind_eq_ok.mp ran
  rw [eat_eq] at ran'
  split at ran'
  · next ahead =>
    cases ran'
    exact eaten (List.isPrefixOf_iff_prefix.mp ahead) a d ran''
  · next ahead =>
    cases ran'
    exact other (fun found => ahead (List.isPrefixOf_iff_prefix.mpr found)) a d ran''

theorem leads_build {made : Builder.Step} {next : Unit → Read α}
    (rest : ∀ builder, c.builder.apply made = .ok builder → Leads (next ()) { c with builder } Q) :
    Leads (build made >>= next) c Q := by
  intro a d ran
  obtain ⟨_, c', ran', ran''⟩ := bind_eq_ok.mp ran
  obtain ⟨builder, applied, rfl⟩ := build_eq ran'
  exact rest builder applied a d ran''

theorem leads_refused {R : Cursor → Prop} : Leads (pure false) c fun found d => found = true → R d :=
  (leads_pure false).mpr nofun

theorem Leads.found {R : Cursor → Prop} {first : Read Unit} (leads : Leads first c fun _ d => R d) :
    Leads (do first; return true) c fun found d => found = true → R d :=
  leads.bind fun _ _ holds => (leads_pure true).mpr fun _ => holds

/-- A step at the end of a reader, where nothing follows that a lemma on `>>=` could match. -/
theorem leads_last : Leads step c Q ↔ Leads (step >>= pure) c Q := by rw [bind_pure]

/-- A step that leaves the marks alone can be tried. -/
theorem Leads.attempt {succeeds : α → Bool} {R : α → Cursor → Prop}
    (leads : Leads step { c with marks := c.toPlace :: c.marks } fun a d => d.marks = c.toPlace :: c.marks ∧ R a d) :
    Leads (Read.attempt succeeds step) c fun a d => ∃ tried, R a tried ∧
      d = if succeeds a then { tried with marks := c.marks }
        else { tried with toPlace := c.toPlace, marks := c.marks } := by
  intro a d ran
  obtain ⟨tried, ran', same⟩ := attempt_eq_ok (fun a tried ran' => (leads a tried ran').1) ran
  exact ⟨tried, (leads a tried ran').2, same⟩

/-- A loop keeps what each success keeps, up to a failure. The invariant `I` knows the number of successes so far. -/
theorem leads_countWhile {I D : Nat → Cursor → Prop} {step : Read Bool}
    (keeps : ∀ count c, I count c → Leads step c fun more d => if more then I (count + 1) d else D count d)
    (limit : Nat) (before : I 0 c) : Leads (countWhile step limit) c D := by
  induction limit generalizing I D c with
  | zero => exact leads_throw _
  | succ limit ih =>
    refine (keeps 0 c before).bind fun more d holds => ?_
    cases more with
    | false => exact (leads_pure 0).mpr holds
    | true =>
      -- One success is behind the rest of the loop.
      refine (@ih _ (fun count => I (count + 1)) (fun count => D (count + 1)) ?_ holds).bind ?_
      · exact fun count => keeps (count + 1)
      · exact fun count d holds => (leads_pure _).mpr holds

end Read

end Packrat

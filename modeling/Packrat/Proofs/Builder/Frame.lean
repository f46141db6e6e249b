import Packrat.Proofs.Builder.Balanced

/-! # What operations leave alone

Most operations work on expressions: they put nodes behind those that are there, and change neither the marks nor what
productions are called and known to be. This holds of any builder, also of one whose marks are out of balance. The
others come to such work and one change of their own.
-/

namespace Packrat

/-- What a production is called, and what is known of it before its right-hand side. -/
structure Heading where
  name : String
  defined : Bool
  duplicated : Bool
deriving DecidableEq, Repr

def Production.heading (p : Production) : Heading := ⟨p.name, p.defined, p.duplicated⟩

/-- What a node says without its links to other nodes. -/
def Node.entry (node : Node) : Expr × Nat := (node.expr, node.owner)

namespace Builder

variable {b b' : Builder} {owner : Nat} {expr : Expr}

def headings (b : Builder) : List Heading := (b.productions.map Production.heading).toList

def entries (b : Builder) : List (Expr × Nat) := (b.nodes.map Node.entry).toList

@[simp] theorem length_entries (b : Builder) : b.entries.length = b.nodes.size := by
  simp [entries]

/-- `b'` is `b` with other expressions on the stack and more of them in the arena. -/
structure Works (b b' : Builder) : Prop where
  current : b'.current = b.current
  marks : b'.stack.marks = b.stack.marks
  arenaMarks : b'.arenaMarks = b.arenaMarks
  definitions : b'.definitions = b.definitions
  headings : b'.headings = b.headings
  entries : b.entries <+: b'.entries

theorem Works.refl (b : Builder) : Works b b := ⟨rfl, rfl, rfl, rfl, rfl, List.prefix_refl _⟩

theorem Works.trans {b'' : Builder} (first : Works b b') (second : Works b' b'') : Works b b'' where
  current := second.current.trans first.current
  marks := second.marks.trans first.marks
  arenaMarks := second.arenaMarks.trans first.arenaMarks
  definitions := second.definitions.trans first.definitions
  headings := second.headings.trans first.headings
  entries := first.entries.trans second.entries

theorem entries_alloc (b : Builder) (owner : Nat) (expr : Expr) :
    (b.alloc owner expr).2.entries = b.entries ++ [(expr, owner)] := by
  simp [entries, alloc, Node.entry]

/-- Parts learn of the node over them, and say what they said. -/
theorem entries_allocParent (b : Builder) (owner : Nat) (expr : Expr) :
    (b.allocParent owner expr).2.entries = b.entries ++ [(expr, owner)] := by
  have adopted (id : Nat) (children : List Nat) (nodes : Array Node) :
      (children.foldl (fun nodes child => nodes.modify child fun node => { node with parent := some id }) nodes).map
        Node.entry = nodes.map Node.entry := by
    induction children generalizing nodes with
    | nil => rfl
    | cons child rest ih => exact (ih _).trans (map_modify_of_same (fun _ => by rfl) nodes child)
  have nodes := adopted b.nodes.size expr.children (b.alloc owner expr).2.nodes
  rw [← map_modify_of_same (f := fun node => { node with span := b.coveringSpan expr.children }) (fun _ => rfl) _
    b.nodes.size] at nodes
  exact (congrArg Array.toList nodes).trans (entries_alloc b owner expr)

theorem works_alloc : Works b (b.alloc owner expr).2 where
  current := rfl
  marks := rfl
  arenaMarks := rfl
  definitions := rfl
  headings := rfl
  entries := entries_alloc b owner expr ▸ List.prefix_append ..

theorem works_allocParent : Works b (b.allocParent owner expr).2 where
  current := rfl
  marks := rfl
  arenaMarks := rfl
  definitions := rfl
  headings := rfl
  entries := entries_allocParent b owner expr ▸ List.prefix_append ..

theorem works_restack {stack : Segments Nat} (marks : stack.marks = b.stack.marks) : Works b { b with stack } :=
  { Works.refl b with marks }

theorem works_grown {stack : Segments Nat} (marks : stack.marks = b.stack.marks) : Works b (b.grown stack owner expr) :=
  { (works_restack marks).trans works_allocParent with }

theorem entries_grown (stack : Segments Nat) : (b.grown stack owner expr).entries = b.entries ++ [(expr, owner)] :=
  entries_allocParent { b with stack } owner expr

/-- Accepted operations on expressions. -/
theorem works_pushTokens {images : List String} {caseSensitive : Bool} (pushed : b.pushTokens images caseSensitive = .ok b') :
    Works b b' := by
  unfold Builder.pushTokens at pushed
  induction images generalizing b with
  | nil => cases pushed; exact .refl _
  | cons image rest ih =>
    rw [List.foldlM_cons] at pushed
    cases first : b.pushTerminal (.token image caseSensitive) with
    | error e => rw [first] at pushed; cases pushed
    | ok b₁ =>
      rw [first] at pushed
      obtain ⟨owner, -, rfl⟩ := of_pushExpr rfl first
      exact (works_grown rfl).trans (ih pushed)

theorem works_combine {make : List Nat → Expr} (combined : b.combine make = .ok b') : Works b b' := by
  obtain ⟨-, rfl⟩ | ⟨owner, -, -, rfl⟩ := of_combine combined
  · exact .refl _
  · exact works_grown rfl

theorem works_wrapTop {operation : String} {make : Nat → Expr} (wrapped : b.wrapTop operation make = .ok b') : Works b b' := by
  obtain ⟨owner, child, stack, -, popped, rfl⟩ := of_wrapTop wrapped
  exact works_grown (Segments.Takes.pop popped).marks

theorem works_action {name : String} (handed : b.action name = .ok b') : Works b b' := by
  obtain ⟨owner, b₁, child, stack, -, ⟨popped, rfl⟩ | ⟨-, rfl, rfl, rfl⟩, rfl⟩ := of_action handed
  · exact works_grown (Segments.Takes.pop popped).marks
  · exact (works_grown rfl).trans (works_grown rfl)

theorem works_modifyNodes {f : Node → Node} (same : ∀ node, (f node).entry = node.entry) (i : Nat) :
    Works b { b with nodes := b.nodes.modify i f } where
  current := rfl
  marks := rfl
  arenaMarks := rfl
  definitions := rfl
  headings := rfl
  entries := by
    have kept : ({ b with nodes := b.nodes.modify i f } : Builder).entries = b.entries :=
      congrArg Array.toList (map_modify_of_same same b.nodes i)
    exact kept ▸ List.prefix_refl _

theorem works_modifyProductions {f : Production → Production} (same : ∀ p, (f p).heading = p.heading) (k : Nat) :
    Works b { b with productions := b.productions.modify k f } :=
  { Works.refl b with headings := congrArg Array.toList (map_modify_of_same same b.productions k) }

theorem works_modifySpan {f : Option Span → Span} (moved : b.modifySpan f = .ok b') : Works b b' := by
  obtain ⟨owner, -, moved⟩ := current_of_ok moved
  split at moved
  · obtain rfl := Except.ok.inj moved
    refine works_modifyNodes (fun _ => ?_) _
    rfl
  · obtain rfl := Except.ok.inj moved
    refine works_modifyProductions (fun _ => ?_) _
    rfl

/-- A right-hand side is made in the arena alone. -/
theorem works_rightHandSide (owner : Nat) (items : List Nat) : Works b (b.rightHandSide owner items).2 := by
  rcases items with _ | ⟨first, _ | ⟨second, rest⟩⟩
  · exact works_alloc
  · exact .refl b
  · exact works_allocParent

/-- The end of a production makes its right-hand side, and closes a mark if there is one. -/
theorem works_endProduction (ended : b.endProduction = .ok b') : ∃ owner root b₁, b.current = some owner ∧ Works b b₁ ∧
    b' = { b₁ with
      productions := b₁.productions.modify owner fun p => { p with root }
      stack := b₁.stack.release?.getD b₁.stack
      arenaMarks := b₁.arenaMarks.tail
      current := none } := by
  obtain ⟨owner, current, ended⟩ := current_of_ok ended
  have bare : Works b { b with stack := b.stack.popAll.2 } := works_restack rfl
  have work : Works b ({ b with stack := b.stack.popAll.2 }.rightHandSide owner b.stack.popAll.1).2 :=
    bare.trans (works_rightHandSide ..)
  exact ⟨owner, _, _, current, work, (Except.ok.inj ended).symm⟩

/-- A reference is a node that leads to the production of its name. -/
theorem of_pushReference {name : String} {memo : Bool} (pushed : b.pushReference name memo = .ok b') :
    ∃ owner, b.current = some owner ∧
      b' = (b.lookup name).2.grown (b.lookup name).2.stack owner (.reference (b.lookup name).1 memo) := by
  obtain ⟨-, -, pushed⟩ := current_of_ok pushed
  obtain ⟨owner, current, same⟩ := of_pushExpr rfl pushed
  exact ⟨owner, (lookup_current name).symm.trans current, same⟩

/-- What an operation works on beside its expressions, if anything. -/
def Step.reaches : Step → Bool
  | .startProduction _ | .endProduction | .reference .. | .mark | .release | .reset | .clear => true
  | _ => false

theorem works_apply {step : Step} (inside : step.reaches = false) (applied : b.apply step = .ok b') : Works b b' := by
  cases step with
  | startProduction | endProduction | reference | mark | release | reset | clear => cases inside
  | terminal t =>
    obtain ⟨owner, -, rfl⟩ := of_pushExpr rfl applied
    exact works_grown rfl
  | tokens images caseSensitive => exact works_pushTokens applied
  | sequence | choice => exact works_combine applied
  | repetition min max => exact works_wrapTop (of_repeatTop applied).2
  | lookahead sign => exact works_wrapTop applied
  | action name => exact works_action applied
  | setStart start =>
    rw [Builder.apply, setStart] at applied
    exact works_modifySpan applied
  | setStop stop =>
    rw [Builder.apply, setStop] at applied
    exact works_modifySpan applied
  | setProductionSpan span =>
    obtain ⟨owner, -, applied⟩ := current_of_ok applied
    obtain rfl := Except.ok.inj applied
    refine works_modifyProductions (fun _ => ?_) _
    rfl
  | setSource text =>
    obtain rfl := Except.ok.inj applied
    exact { Works.refl b with }

end Builder

end Packrat

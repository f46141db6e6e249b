import Packrat.Proofs.Builder.Sound
import Mathlib.Logic.Relation

/-! # Balanced use of a builder

Every operation is made of changes that keep a builder sound, as long as marks are set inside productions and
closed before these end. So what no such change breaks holds of every builder in balanced use.
-/

namespace Packrat

namespace Builder

variable {b b' : Builder} {id owner : Nat} {expr : Expr}

/-- The builder comes from the other one by some changes. -/
abbrev Changes : Builder → Builder → Prop := Relation.ReflTransGen Change

theorem Sound.changes (sound : b.Sound) (changes : Changes b b') : b'.Sound := by
  induction changes with
  | refl => exact sound
  | tail _ change ih => exact ih.change change

/-- Looking up a name adds a production at most, which is not defined. -/
theorem lookup_keeps (b : Builder) (name : String) :
    ∃ productions, (b.lookup name).2 = { b with productions } ∧ b.productions.size ≤ productions.size ∧
      (∀ {id root}, Defines productions id root ↔ Defines b.productions id root) ∧
      (b.lookup name).1 < productions.size := by
  unfold Builder.lookup
  split
  · next id found => exact ⟨b.productions, rfl, Nat.le_refl _, .rfl, (Array.findIdx?_eq_some_iff_findIdx_eq.mp found).1⟩
  · refine ⟨_, rfl, ?_, ?_, ?_⟩
    · simp
    · intro id root
      rw [defines_push]
      simp
    · simp [create]

theorem changes_lookup (b : Builder) (name : String) :
    Changes b (b.lookup name).2 ∧ (b.lookup name).1 < (b.lookup name).2.productions.size := by
  obtain ⟨productions, same, more, kept, small⟩ := lookup_keeps b name
  rw [same]
  exact ⟨.single (.revise more kept), small⟩

@[simp] theorem lookup_current (name : String) : (b.lookup name).2.current = b.current := by
  unfold Builder.lookup
  split <;> rfl

/-- A definition fills in a production that is not defined, and leaves the flags of the others alone. -/
theorem define_fills (b : Builder) (name : String) :
    ∃ productions, (b.define name).2 = { b with productions, definitions := b.definitions.push (b.define name).1 } ∧
      b.productions.size ≤ productions.size ∧ b.isDefined (b.define name).1 = false ∧
      (∃ root, Defines productions (b.define name).1 root) ∧
      ∀ {k root}, k ≠ (b.define name).1 → (Defines productions k root ↔ Defines b.productions k root) := by
  obtain ⟨productions, same, more, kept, small⟩ := lookup_keeps b name
  have flags (id : Nat) : b.isDefined id = { b with productions }.isDefined id := by
    rw [Bool.eq_iff_iff, isDefined_iff, isDefined_iff]
    simp only [kept]
  unfold Builder.define
  generalize b.lookup name = found at *
  obtain ⟨id, _⟩ := found
  obtain rfl := same
  dsimp only at *
  split
  · -- The name is taken, so a production is added for this definition.
    have size : (productions.modify id ({ · with duplicated := true })).size = productions.size := Array.size_modify
    simp only [create, size]
    refine ⟨_, rfl, ?_, ?_, ?_, ?_⟩
    · simp only [Array.size_push, size]
      omega
    · rw [flags]
      simp [isDefined]
    · exact ⟨0, defines_push.mpr (.inr ⟨size.symm, rfl, rfl⟩)⟩
    · intro k root other
      rw [defines_push, defines_modify_of_same (f := ({ · with duplicated := true })) (fun _ => rfl) (fun _ => rfl), kept]
      exact or_iff_left fun last => other (last.1.trans size)
  · next free =>
    have found := Array.getElem?_eq_getElem small
    refine ⟨_, rfl, ?_, (flags id).trans (Bool.not_eq_true _ ▸ free), ⟨productions[id].root, ?_⟩, ?_⟩
    · rw [Array.size_modify]
      exact more
    · rw [defines_modify, if_pos rfl]
      exact ⟨_, found, rfl, rfl⟩
    · intro k root other
      rw [defines_modify, if_neg (Ne.symm other), kept]

theorem of_startProduction {name : String} (started : b.startProduction name = .ok b') :
    b.current = none ∧ b' = { (b.define name).2 with current := some (b.define name).1 }.mark := by
  unfold Builder.startProduction at started
  split at started
  · cases started
  · next idle => exact ⟨idle, (Except.ok.inj started).symm⟩

theorem changes_startProduction {name : String} (started : b.startProduction name = .ok b') : Changes b b' := by
  obtain ⟨idle, rfl⟩ := of_startProduction started
  obtain ⟨productions, same, more, fresh, defined, others⟩ := define_fills b name
  rw [same]
  exact .single (.begin idle more fresh defined others)

theorem owner_of_current (current : b.current = some owner) : b.owner = .ok owner := by
  rw [Builder.owner, current]

/-- At the end of a production its mark is the only one. -/
theorem Sound.outermost (sound : b.Sound) (current : b.current = some owner)
    (closed : b.arenaMarks.length ≤ 1) : b.stack.marks = [0] := by
  have bottom := sound.bottom current
  rw [sound.aligned] at closed
  match marks : b.stack.marks with
  | [] => rw [marks] at bottom; cases bottom
  | [m] => rw [marks] at bottom; cases bottom; rfl
  | _ :: _ :: _ => simp [marks] at closed

/-- The items are left as they are, or replaced by one node over them. -/
def Gathers (b : Builder) (owner : Nat) (items : List Nat) (stack : Segments Nat) (b' : Builder) : Prop :=
  b' = b ∨ ∃ expr : Expr, expr.children = items ∧ expr.Regular ∧ (∀ target memo, expr ≠ .reference target memo) ∧
    b' = b.grown stack owner expr

/-- The right-hand side made of the expressions on the stack, as if it were pushed. -/
private theorem gathers_rightHandSide (owner : Nat) {items : List Nat} {stack : Segments Nat}
    (takes : b.stack.Takes items stack) :
    ∃ b₁, b.Gathers owner items stack b₁ ∧ b₁.stack.Takes [({ b with stack }.rightHandSide owner items).1] stack ∧
      ({ b with stack }.rightHandSide owner items).2 = { b₁ with stack } := by
  have floor : stack.floor ≤ stack.all.length := by
    have within := takes.floor
    rwa [Segments.floor, ← takes.marks] at within
  have pushed (expr : Expr) : (b.grown stack owner expr).stack.Takes [b.nodes.size] stack :=
    ⟨rfl, all_grown stack, floor⟩
  have gathers {expr : Expr} (parts : expr.children = items) (regular : expr.Regular)
      (leaf : ∀ target memo, expr ≠ .reference target memo) :
      b.Gathers owner items stack (b.grown stack owner expr) := .inr ⟨expr, parts, regular, leaf, rfl⟩
  rcases items with _ | ⟨first, _ | ⟨second, rest⟩⟩
  · refine ⟨b.grown stack owner (.terminal .nil), gathers rfl trivial (fun _ _ => Expr.noConfusion), ?_⟩
    rw [rightHandSide, alloc_eq_allocParent rfl]
    exact ⟨pushed (.terminal .nil), rfl⟩
  · exact ⟨b, .inl rfl, takes, rfl⟩
  · refine ⟨b.grown stack owner (.sequence (first :: second :: rest)),
      gathers rfl (Nat.le_add_left 2 rest.length) (fun _ _ => Expr.noConfusion), ?_⟩
    exact ⟨pushed (.sequence (first :: second :: rest)), rfl⟩

/-- The end of a production gathers the top segment, and closes the innermost mark. -/
theorem of_endProduction (ordered : b.stack.Ordered) (ended : b.endProduction = .ok b') :
    ∃ owner root b₁, b.current = some owner ∧ b.Gathers owner b.stack.popAll.1 b.stack.popAll.2 b₁ ∧
      b₁.stack.Takes [root] b.stack.popAll.2 ∧ b' = { b₁ with
        productions := b₁.productions.modify owner fun p => { p with root }
        stack := b.stack.popAll.2.release?.getD b.stack.popAll.2
        arenaMarks := b₁.arenaMarks.tail
        current := none } := by
  cases current : b.current with
  | none =>
    rw [Builder.endProduction, Builder.owner, current] at ended
    cases ended
  | some owner =>
    obtain ⟨b₁, gathers, takes, built⟩ := gathers_rightHandSide owner (.popAll ordered)
    simp only [Builder.endProduction, owner_of_current current, bind, Except.bind, pure, Except.pure] at ended
    obtain rfl := Except.ok.inj ended
    refine ⟨owner, _, b₁, rfl, gathers, takes, ?_⟩
    simp only [built]

theorem Sound.endProduction (sound : b.Sound) (closed : b.arenaMarks.length ≤ 1) (ended : b.endProduction = .ok b') :
    Changes b b' := by
  obtain ⟨owner, root, b₁, current, gathers, takes, rfl⟩ := of_endProduction sound.ordered ended
  have marks := sound.outermost current closed
  have bare : b.stack.popAll.2.all = [] := by
    simp [Segments.popAll, Segments.floor, marks, Segments.all]
  have stack : b.stack.popAll.2.release?.getD b.stack.popAll.2 = .empty := by
    simp [Segments.popAll, Segments.release?, Segments.floor, marks, Segments.empty]
  have sizes : b.arenaMarks.tail = [] := by
    rw [← List.length_eq_zero_iff, List.length_tail]
    omega
  have left : b₁.stack.all = [root] := by
    rw [takes.all, bare]
    rfl
  rcases gathers with rfl | ⟨expr, parts, regular, leaf, rfl⟩
  · have done := Change.finish current left
    rw [stack, sizes]
    exact .single done
  · have change : Change b (b.grown b.stack.popAll.2 owner expr) :=
      .grow current (parts ▸ .popAll sound.ordered) regular fun same => absurd same (leaf _ _)
    have done := Change.finish (b := b.grown b.stack.popAll.2 owner expr) current left
    rw [stack, show (b.grown b.stack.popAll.2 owner expr).arenaMarks.tail = [] from sizes]
    exact .tail (.single change) done

/-- Operations inside a production. -/
theorem current_of_ok {α : Type} {f : Nat → Except BuildError α} {x : α} (done : (b.owner >>= f) = .ok x) :
    ∃ owner, b.current = some owner ∧ f owner = .ok x := by
  cases current : b.current with
  | none =>
    rw [Builder.owner, current] at done
    cases done
  | some owner =>
    rw [owner_of_current current] at done
    exact ⟨owner, rfl, done⟩

theorem pushExpr_eq (current : b.current = some owner) (leaf : expr.children = []) :
    b.pushExpr expr = .ok (b.grown b.stack owner expr) := by
  rw [pushExpr, owner_of_current current]
  change Except.ok ((b.alloc owner expr).2.pushId (b.alloc owner expr).1) = _
  rw [alloc_eq_allocParent leaf]
  rfl

theorem of_pushExpr (leaf : expr.children = []) (pushed : b.pushExpr expr = .ok b') :
    ∃ owner, b.current = some owner ∧ b' = b.grown b.stack owner expr := by
  obtain ⟨owner, current, -⟩ := current_of_ok pushed
  rw [pushExpr_eq current leaf] at pushed
  exact ⟨owner, current, (Except.ok.inj pushed).symm⟩

theorem Sound.pushExpr (sound : b.Sound) (leaf : expr.children = []) (regular : expr.Regular)
    (target : ∀ {target memo}, expr = .reference target memo → target < b.productions.size)
    (pushed : b.pushExpr expr = .ok b') : Change b b' := by
  obtain ⟨owner, current, rfl⟩ := of_pushExpr leaf pushed
  exact .grow current (leaf ▸ .nothing sound.ordered) regular target

theorem Sound.pushTerminal {t : Terminal} (sound : b.Sound) (pushed : b.pushTerminal t = .ok b') : Change b b' := by
  refine sound.pushExpr rfl ?_ ?_ pushed
  · trivial
  · nofun

theorem Sound.pushTokens {images : List String} {caseSensitive : Bool} (sound : b.Sound)
    (pushed : b.pushTokens images caseSensitive = .ok b') : Changes b b' := by
  unfold Builder.pushTokens at pushed
  induction images generalizing b with
  | nil => cases pushed; exact .refl
  | cons image rest ih =>
    rw [List.foldlM_cons] at pushed
    cases first : b.pushTerminal (.token image caseSensitive) with
    | error e => rw [first] at pushed; cases pushed
    | ok b₁ =>
      rw [first] at pushed
      have change := sound.pushTerminal first
      exact (ih (sound.change change) pushed).head change

theorem Sound.pushReference {name : String} {memo : Bool} (sound : b.Sound)
    (pushed : b.pushReference name memo = .ok b') : Changes b b' := by
  obtain ⟨-, -, pushed⟩ := current_of_ok pushed
  obtain ⟨changes, small⟩ := changes_lookup b name
  refine changes.tail ((sound.changes changes).pushExpr rfl ?_ ?_ pushed)
  · trivial
  · rintro target memo same
    cases same
    exact small

private theorem not_reference {target : Nat} {memo : Bool} (parts : expr.children ≠ []) :
    expr ≠ .reference target memo := by
  rintro rfl
  exact parts rfl

theorem combine_eq {make : List Nat → Expr} (current : b.current = some owner) (several : 1 < b.stack.size) :
    b.combine make = .ok (b.grown b.stack.popAll.2 owner (make b.stack.popAll.1)) := by
  rw [Builder.combine, owner_of_current current]
  change (if _ then _ else _) = _
  rw [if_neg (Nat.not_le_of_lt several)]
  rfl

theorem of_combine {make : List Nat → Expr} (combined : b.combine make = .ok b') :
    b.stack.size ≤ 1 ∧ b' = b ∨ ∃ owner, b.current = some owner ∧ 1 < b.stack.size ∧
      b' = b.grown b.stack.popAll.2 owner (make b.stack.popAll.1) := by
  obtain ⟨owner, current, rest⟩ := current_of_ok combined
  by_cases few : b.stack.size ≤ 1
  · dsimp only at rest
    rw [if_pos few] at rest
    exact .inl ⟨few, (Except.ok.inj rest).symm⟩
  · have several := Nat.lt_of_not_le few
    rw [combine_eq current several] at combined
    exact .inr ⟨owner, current, several, (Except.ok.inj combined).symm⟩

theorem Sound.combine {make : List Nat → Expr} (sound : b.Sound) (parts : ∀ items, (make items).children = items)
    (regular : ∀ items, 2 ≤ items.length → (make items).Regular) (combined : b.combine make = .ok b') :
    Changes b b' := by
  obtain ⟨-, rfl⟩ | ⟨owner, current, several, rfl⟩ := of_combine combined
  · exact .refl
  · have length : 2 ≤ b.stack.popAll.1.length := by
      simp only [Segments.popAll, Array.length_toList, Array.size_extract]
      simp only [Segments.size] at several
      omega
    refine .single (.grow current (parts _ ▸ .popAll sound.ordered) (regular _ length)
      fun same => absurd same (not_reference ?_))
    rw [parts]
    exact List.ne_nil_of_length_pos (by omega)

theorem of_wrapTop {operation : String} {make : Nat → Expr} (wrapped : b.wrapTop operation make = .ok b') :
    ∃ owner child stack, b.current = some owner ∧ b.stack.pop? = some (child, stack) ∧
      b' = b.grown stack owner (make child) := by
  obtain ⟨owner, current, wrapped⟩ := current_of_ok wrapped
  split at wrapped
  · cases wrapped
  · next child stack popped =>
    obtain rfl := Except.ok.inj wrapped
    exact ⟨owner, child, stack, current, popped, rfl⟩

theorem changes_wrapTop {operation : String} {make : Nat → Expr} (parts : ∀ child, (make child).children = [child])
    (regular : ∀ child, (make child).Regular) (wrapped : b.wrapTop operation make = .ok b') : Change b b' := by
  obtain ⟨owner, child, stack, current, popped, rfl⟩ := of_wrapTop wrapped
  refine .grow current (parts _ ▸ .pop popped) (regular _) fun same => absurd same (not_reference ?_)
  rw [parts]
  nofun

/-- Valid bounds are the only way to repeat. -/
theorem of_repeatTop {min max : Nat} (repeated : b.repeatTop min max = .ok b') :
    (min ≤ max ∧ 0 < max) ∧ b.wrapTop "repeat" (.repetition · min max) = .ok b' := by
  unfold Builder.repeatTop at repeated
  split at repeated
  · cases repeated
  · exact ⟨by omega, repeated⟩

theorem changes_repeatTop {min max : Nat} (repeated : b.repeatTop min max = .ok b') : Change b b' := by
  obtain ⟨valid, wrapped⟩ := of_repeatTop repeated
  refine changes_wrapTop (fun _ => rfl) (fun _ => ?_) wrapped
  exact valid

theorem action_eq_of_pop {name : String} {child : Nat} {stack : Segments Nat} (current : b.current = some owner)
    (popped : b.stack.pop? = some (child, stack)) :
    b.action name = .ok (b.grown stack owner (.action child name (b.knownActions.contains name))) := by
  rw [Builder.action, owner_of_current current, popped]
  rfl

/-- As if the empty text had been pushed first. -/
theorem action_eq_of_empty {name : String} (current : b.current = some owner) (popped : b.stack.pop? = none) :
    b.action name = .ok ((b.grown b.stack owner (.terminal .nil)).grown b.stack owner
      (.action b.nodes.size name (b.knownActions.contains name))) := by
  rw [Builder.action, owner_of_current current, popped]
  simp only [bind, Except.bind, alloc_eq_allocParent (show (Expr.terminal .nil).children = [] from rfl)]
  rfl

theorem of_action {name : String} (handed : b.action name = .ok b') :
    ∃ owner b₁ child stack, b.current = some owner ∧
      (b.stack.pop? = some (child, stack) ∧ b₁ = b ∨
        b.stack.pop? = none ∧ b₁ = b.grown b.stack owner (.terminal .nil) ∧ child = b.nodes.size ∧ stack = b.stack) ∧
      b' = b₁.grown stack owner (.action child name (b.knownActions.contains name)) := by
  obtain ⟨owner, current, -⟩ := current_of_ok handed
  cases popped : b.stack.pop? with
  | some top =>
    rw [action_eq_of_pop current popped] at handed
    exact ⟨owner, b, top.1, top.2, current, .inl ⟨rfl, rfl⟩, (Except.ok.inj handed).symm⟩
  | none =>
    rw [action_eq_of_empty current popped] at handed
    exact ⟨owner, _, b.nodes.size, b.stack, current, .inr ⟨rfl, rfl, rfl, rfl⟩, (Except.ok.inj handed).symm⟩

/-- What has been pushed can be taken. -/
theorem takes_grown (ordered : b.stack.Ordered) :
    (b.grown b.stack owner expr).stack.Takes [b.nodes.size] b.stack :=
  ⟨rfl, all_grown b.stack, ordered.floor_le⟩

theorem Sound.action {name : String} (sound : b.Sound) (handed : b.action name = .ok b') : Changes b b' := by
  obtain ⟨owner, b₁, child, stack, current, ⟨popped, rfl⟩ | ⟨-, rfl, rfl, rfl⟩, rfl⟩ := of_action handed
  · exact .single (.grow current (.pop popped) trivial nofun)
  · have pushed : Change b (b.grown b.stack owner (.terminal .nil)) :=
      .grow current (.nothing sound.ordered) trivial nofun
    exact .tail (.single pushed) (.grow current (takes_grown sound.ordered) trivial nofun)

theorem changes_modifySpan {f : Option Span → Span} (moved : b.modifySpan f = .ok b') : Change b b' := by
  obtain ⟨owner, -, moved⟩ := current_of_ok moved
  split at moved
  · obtain rfl := Except.ok.inj moved
    exact .respan (f := fun node => some (f node.span))
  · obtain rfl := Except.ok.inj moved
    exact .revise (by simp) (defines_modify_of_same (fun _ => rfl) (fun _ => rfl))

theorem changes_setProductionSpan {span : Span} (moved : b.setProductionSpan span = .ok b') : Change b b' := by
  obtain ⟨owner, -, moved⟩ := current_of_ok moved
  obtain rfl := Except.ok.inj moved
  exact .revise (by simp) (defines_modify_of_same (fun _ => rfl) (fun _ => rfl))

/-- The step sets a mark inside a production only, and ends a production with no mark of its own left. -/
def Step.balances (b : Builder) : Step → Bool
  | .mark => b.current.isSome
  | .endProduction => b.arenaMarks.length ≤ 1
  | _ => true

/-- The builder comes from an empty one by steps that keep marks balanced. -/
inductive Balanced : Builder → Prop
  | empty : Balanced .empty
  | withActions {b : Builder} (names : List String) (balanced : Balanced b) : Balanced (b.withActions names)
  | step {b b' : Builder} {step : Step} (balanced : Balanced b) (balances : step.balances b = true)
      (applied : b.apply step = .ok b') : Balanced b'

/-- Runs steps that keep marks balanced, if all are accepted. -/
def runBalanced? (b : Builder) : List Step → Option Builder
  | [] => some b
  | step :: rest =>
    match b.apply step with
    | .ok b' => if step.balances b then b'.runBalanced? rest else none
    | .error _ => none

theorem Balanced.run {steps : List Step} (balanced : Balanced b) (ran : b.runBalanced? steps = some b') :
    Balanced b' := by
  induction steps generalizing b with
  | nil =>
    cases ran
    exact balanced
  | cons step rest ih =>
    rw [runBalanced?] at ran
    split at ran
    · next applied =>
      split at ran
      · next balances => exact ih (balanced.step balances applied) ran
      · cases ran
    · cases ran

/-- The builder after the steps, or an empty one if they are not accepted. -/
def ofSteps (steps : List Step) : Builder := (Builder.empty.runBalanced? steps).getD .empty

theorem balanced_ofSteps (steps : List Step) : (ofSteps steps).Balanced := by
  unfold ofSteps
  cases ran : Builder.empty.runBalanced? steps with
  | none => exact .empty
  | some b => exact Balanced.empty.run ran

theorem Sound.apply {step : Step} (sound : b.Sound) (balances : step.balances b = true)
    (applied : b.apply step = .ok b') : Changes b b' := by
  cases step with
  | startProduction name => exact changes_startProduction applied
  | endProduction => exact sound.endProduction (of_decide_eq_true balances) applied
  | terminal t => exact .single (sound.pushTerminal applied)
  | tokens images caseSensitive => exact sound.pushTokens applied
  | reference name memo => exact sound.pushReference applied
  | sequence =>
    refine sound.combine (fun _ => rfl) (fun _ several => ?_) applied
    exact several
  | choice =>
    refine sound.combine (fun _ => rfl) (fun _ several => ?_) applied
    exact several
  | repetition min max => exact .single (changes_repeatTop applied)
  | lookahead sign =>
    refine .single (changes_wrapTop (fun _ => rfl) (fun _ => ?_) applied)
    trivial
  | action name => exact sound.action applied
  | mark =>
    obtain ⟨id, current⟩ := Option.isSome_iff_exists.mp balances
    obtain rfl := Except.ok.inj applied
    exact .single (.mark current)
  | release => exact .single (.release applied)
  | reset => exact .single (.reset applied)
  | setStart start =>
    rw [Builder.apply, setStart] at applied
    exact .single (changes_modifySpan applied)
  | setStop stop =>
    rw [Builder.apply, setStop] at applied
    exact .single (changes_modifySpan applied)
  | setProductionSpan span => exact .single (changes_setProductionSpan applied)
  | setSource text =>
    obtain rfl := Except.ok.inj applied
    exact .single .adjust
  | clear =>
    obtain rfl := Except.ok.inj applied
    exact .single .clear

theorem Balanced.sound (balanced : Balanced b) : b.Sound := by
  induction balanced with
  | empty => exact .empty
  | withActions names _ ih => exact ih.change .adjust
  | step _ balances applied ih => exact ih.changes (ih.apply balances applied)

/-- What an empty builder has and no change of a sound one breaks, every builder in balanced use has. -/
theorem Balanced.invariant {motive : Builder → Prop} (start : motive .empty)
    (keeps : ∀ {b b'}, b.Sound → Change b b' → motive b → motive b') (balanced : Balanced b) : motive b := by
  have kept {b b' : Builder} (sound : b.Sound) (changes : Changes b b') (before : motive b) : motive b' := by
    induction changes with
    | refl => exact before
    | tail earlier change ih => exact keeps (sound.changes earlier) change ih
  induction balanced with
  | empty => exact start
  | withActions names balanced ih => exact keeps balanced.sound .adjust ih
  | step balanced balances applied ih => exact kept balanced.sound (balanced.sound.apply balances applied) ih

end Builder

end Packrat

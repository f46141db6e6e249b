import Packrat.Proofs.Builder.Build

/-! # Any use of a builder

Steps may come in any order and go on after one that is refused. Marks that are set between productions, or left open
at the end of one, let a later step reach expressions of another production: `release` and `reset` can then close the
mark of the production under construction, so that its right-hand side takes in what was left on the stack, and `reset`
can discard the right-hand side of a finished production. As long as no accepted step does either, what is built
is well formed.
-/

namespace Packrat

namespace Builder

variable {b b' : Builder} {id owner item : Nat}

/-- The node belongs to the production under construction. -/
def owns (b : Builder) (item : Nat) : Bool := (b.nodes[item]?.map fun node => b.current == some node.owner).getD false

/-- The right-hand sides of finished productions are older than the innermost mark. -/
def spares (b : Builder) : Bool :=
  (List.range b.productions.size).all fun id =>
    b.current == some id || !b.isDefined id ||
      (b.productions[id]?.map Production.root).getD 0 < b.arenaMarks.headD b.nodes.size

/-- The expressions that an accepted step takes from the stack. -/
def Step.taken (b : Builder) : Step → List Nat
  | .sequence | .choice => if b.stack.size ≤ 1 then [] else b.stack.segment
  | .repetition .. | .lookahead _ | .action _ => (b.stack.pop?.map Prod.fst).toList
  | .endProduction => b.stack.segment
  | _ => []

/-- The step takes expressions of the production under construction only, and discards no right-hand side of a
finished one. -/
def Step.respects (b : Builder) (step : Step) : Bool :=
  (step.taken b).all b.owns && (step != .reset || b.spares)

/-- The builder after a step, which leaves it as it is if it is refused. -/
def attempt (b : Builder) (step : Step) : Builder := (b.apply step).toOption.getD b

/-- Every step that is accepted respects what other productions are made of. -/
def respectsAll (b : Builder) : List Step → Bool
  | [] => true
  | step :: rest => ((b.apply step).toOption.isNone || step.respects b) && (b.attempt step).respectsAll rest

theorem owns_iff : b.owns item = true ↔ ∃ node, b.nodes[item]? = some node ∧ b.current = some node.owner := by
  cases found : b.nodes[item]? <;> simp [owns, found]

/-- What a respectful step takes is a free node of the production under construction. -/
theorem Intact.free_of_taken (intact : b.Intact) (current : b.current = some owner) (member : item ∈ b.stack.all)
    (owned : b.owns item = true) : Free b.nodes owner item := by
  obtain ⟨id, node, found, top, -⟩ := intact.pending member
  obtain ⟨node', found', same⟩ := owns_iff.mp owned
  cases found.symm.trans found'
  cases current.symm.trans same
  exact ⟨node, found, top, rfl⟩

theorem lt_of_spares {root : Nat} (spares : b.spares = true) (finished : b.Finished id root) :
    root < b.arenaMarks.headD b.nodes.size := by
  obtain ⟨other, defines⟩ := finished
  have small := List.all_eq_true.mp spares id (List.mem_range.mpr defines.lt_size)
  have defined : b.isDefined id = true := isDefined_iff.mpr ⟨root, defines⟩
  obtain ⟨p, found, -, rfl⟩ := defines
  simpa [other, defined, found] using small

section

variable {expr : Expr} {stack : Segments Nat}

/-- A new node over parts that a respectful step takes. -/
private theorem Intact.gather (intact : b.Intact) (current : b.current = some owner)
    (takes : b.stack.Takes expr.children stack) (owned : ∀ child ∈ expr.children, b.owns child = true)
    (target : ∀ {target memo}, expr = .reference target memo → target < b.productions.size) :
    (b.grown stack owner expr).Intact := by
  refine intact.grow current takes (fun child member => ?_) target
  exact intact.free_of_taken current (takes.all ▸ List.mem_append_right _ member) (owned child member)

private theorem Intact.pushExpr (intact : b.Intact) (leaf : expr.children = [])
    (target : ∀ {target memo}, expr = .reference target memo → target < b.productions.size)
    (pushed : b.pushExpr expr = .ok b') : b'.Intact := by
  obtain ⟨owner, current, rfl⟩ := of_pushExpr leaf pushed
  refine intact.gather current (leaf ▸ .nothing intact.ordered) ?_ target
  rw [leaf]
  exact List.forall_mem_nil _

private theorem Intact.pushTerminal {t : Terminal} (intact : b.Intact) (pushed : b.pushTerminal t = .ok b') :
    b'.Intact := by
  refine intact.pushExpr rfl ?_ pushed
  intro target memo same
  cases same

private theorem Intact.pushTokens {images : List String} {caseSensitive : Bool} (intact : b.Intact)
    (pushed : b.pushTokens images caseSensitive = .ok b') : b'.Intact := by
  unfold Builder.pushTokens at pushed
  induction images generalizing b with
  | nil =>
    cases pushed
    exact intact
  | cons image rest ih =>
    rw [List.foldlM_cons] at pushed
    cases first : b.pushTerminal (.token image caseSensitive) with
    | error e =>
      rw [first] at pushed
      cases pushed
    | ok b₁ =>
      rw [first] at pushed
      exact ih (intact.pushTerminal first) pushed

private theorem Intact.pushReference {name : String} {memo : Bool} (intact : b.Intact)
    (pushed : b.pushReference name memo = .ok b') : b'.Intact := by
  obtain ⟨-, -, pushed⟩ := current_of_ok pushed
  obtain ⟨productions, same, more, kept, small⟩ := lookup_keeps b name
  dsimp only at pushed
  rw [same] at pushed
  refine (intact.revise more kept).pushExpr rfl ?_ pushed
  intro target memo same
  cases same
  exact small

private theorem Intact.combine {make : List Nat → Expr} (intact : b.Intact)
    (parts : ∀ items, (make items).children = items) (leaf : ∀ items target memo, make items ≠ .reference target memo)
    (owned : ∀ item ∈ Step.taken b .sequence, b.owns item = true) (combined : b.combine make = .ok b') :
    b'.Intact := by
  obtain ⟨-, rfl⟩ | ⟨owner, current, several, rfl⟩ := of_combine combined
  · exact intact
  · rw [Step.taken, if_neg (Nat.not_le_of_lt several)] at owned
    refine intact.gather current (parts _ ▸ .popAll intact.ordered) ?_ fun same => absurd same (leaf _ _ _)
    rw [parts]
    exact owned

private theorem Intact.wrapTop {operation : String} {make : Nat → Expr} (intact : b.Intact)
    (parts : ∀ child, (make child).children = [child]) (leaf : ∀ child target memo, make child ≠ .reference target memo)
    (owned : ∀ item ∈ (b.stack.pop?.map Prod.fst).toList, b.owns item = true)
    (wrapped : b.wrapTop operation make = .ok b') : b'.Intact := by
  obtain ⟨owner, child, stack, current, popped, rfl⟩ := of_wrapTop wrapped
  rw [popped] at owned
  refine intact.gather current (parts _ ▸ .pop popped) ?_ fun same => absurd same (leaf _ _ _)
  rw [parts]
  exact owned

private theorem Intact.action {name : String} (intact : b.Intact)
    (owned : ∀ item ∈ (b.stack.pop?.map Prod.fst).toList, b.owns item = true) (handed : b.action name = .ok b') :
    b'.Intact := by
  obtain ⟨owner, b₁, child, stack, current, ⟨popped, rfl⟩ | ⟨-, rfl, rfl, rfl⟩, rfl⟩ := of_action handed
  · rw [popped] at owned
    exact intact.gather current (.pop popped) owned nofun
  · have pushed : (b.grown b.stack owner (.terminal .nil)).Intact := intact.pushTerminal (pushExpr_eq current rfl)
    refine pushed.grow current (takes_grown intact.ordered) ?_ nofun
    intro child member
    obtain rfl := List.mem_singleton.mp member
    exact free_allocParent (List.forall_mem_nil _)

/-- The items are gathered into a free node of the production. -/
private theorem Intact.gathers {items : List Nat} {root : Nat} (intact : b.Intact) (current : b.current = some owner)
    (taken : b.stack.Takes items stack) (owned : ∀ item ∈ items, b.owns item = true)
    (gathers : b.Gathers owner items stack b') (takes : b'.stack.Takes [root] stack) :
    b'.Intact ∧ Free b'.nodes owner root := by
  rcases gathers with rfl | ⟨expr, rfl, -, leaf, rfl⟩
  · obtain rfl : items = [root] := List.append_cancel_left (taken.all.symm.trans takes.all)
    refine ⟨intact, intact.free_of_taken current ?_ (owned root (List.mem_singleton_self _))⟩
    rw [takes.all]
    exact List.mem_append_right _ (List.mem_singleton_self _)
  · have last : [b.nodes.size] = [root] := List.append_cancel_left ((all_grown stack).symm.trans takes.all)
    obtain rfl := List.singleton_inj.mp last
    refine ⟨intact.gather current taken owned fun same => absurd same (leaf _ _), free_allocParent fun child member => ?_⟩
    exact intact.free_of_taken current (taken.all ▸ List.mem_append_right _ member) (owned child member)

/-- The right-hand side is a node of the production, and no longer on the stack. -/
private theorem Intact.endProduction (intact : b.Intact) (owned : ∀ item ∈ b.stack.segment, b.owns item = true)
    (ended : b.endProduction = .ok b') : b'.Intact := by
  obtain ⟨owner, root, b₁, current, gathers, takes, rfl⟩ := of_endProduction intact.ordered ended
  have busy : b₁.current = some owner := by
    rcases gathers with rfl | ⟨expr, -, -, -, rfl⟩ <;> exact current
  obtain ⟨gathered, free⟩ := intact.gathers current (.popAll intact.ordered) owned gathers takes
  have split := gathered.nodup
  rw [takes.all, List.nodup_append] at split
  obtain ⟨-, -, apart⟩ := split
  have settled := (gathered.take takes).settle busy free fun member =>
    apart root member root (List.mem_singleton_self _) rfl
  exact settled.close

end

private theorem Intact.startProduction {name : String} (intact : b.Intact)
    (started : b.startProduction name = .ok b') : b'.Intact := by
  obtain ⟨idle, rfl⟩ := of_startProduction started
  obtain ⟨productions, same, more, fresh, defined, others⟩ := define_fills b name
  rw [same]
  exact (intact.begin idle more fresh defined others).mark

private theorem Intact.release (intact : b.Intact) (released : b.release = .ok b') : b'.Intact := by
  obtain ⟨floor, marks, size, sizes, above, sizes', rfl⟩ := intact.release_eq released
  exact intact.unmark above sizes'

private theorem Intact.reset (intact : b.Intact) (spares : b.spares = true) (discarded : b.reset = .ok b') :
    b'.Intact := by
  obtain ⟨floor, marks, size, sizes, above, sizes', rfl⟩ := intact.reset_eq discarded
  refine intact.discard above sizes' fun finished => ?_
  have small := lt_of_spares spares finished
  rwa [sizes'] at small

private theorem Intact.modifySpan {f : Option Span → Span} (intact : b.Intact) (moved : b.modifySpan f = .ok b') :
    b'.Intact := by
  obtain ⟨owner, -, moved⟩ := current_of_ok moved
  split at moved
  · obtain rfl := Except.ok.inj moved
    exact intact.respan (f := fun node => some (f node.span))
  · obtain rfl := Except.ok.inj moved
    exact intact.revise (by simp) (defines_modify_of_same (fun _ => rfl) (fun _ => rfl))

/-- An accepted step that respects the other productions keeps a builder intact. -/
theorem Intact.accept {step : Step} (intact : b.Intact) (respects : step.respects b = true) (applied : b.apply step = .ok b') :
    b'.Intact := by
  obtain ⟨owned, spares⟩ := Bool.and_eq_true_iff.mp respects
  have owned := List.all_eq_true.mp owned
  cases step with
  | startProduction name => exact intact.startProduction applied
  | endProduction => exact intact.endProduction owned applied
  | terminal t => exact intact.pushTerminal applied
  | tokens images caseSensitive => exact intact.pushTokens applied
  | reference name memo => exact intact.pushReference applied
  | sequence => exact intact.combine (fun _ => rfl) (fun _ _ _ => Expr.noConfusion) owned applied
  | choice => exact intact.combine (fun _ => rfl) (fun _ _ _ => Expr.noConfusion) owned applied
  | repetition min max =>
    exact intact.wrapTop (fun _ => rfl) (fun _ _ _ => Expr.noConfusion) owned (of_repeatTop applied).2
  | lookahead sign => exact intact.wrapTop (fun _ => rfl) (fun _ _ _ => Expr.noConfusion) owned applied
  | action name => exact intact.action owned applied
  | mark =>
    obtain rfl := Except.ok.inj applied
    exact intact.mark
  | release => exact intact.release applied
  | reset => exact intact.reset spares applied
  | setStart start =>
    rw [Builder.apply, setStart] at applied
    exact intact.modifySpan applied
  | setStop stop =>
    rw [Builder.apply, setStop] at applied
    exact intact.modifySpan applied
  | setProductionSpan span =>
    obtain ⟨owner, -, applied⟩ := current_of_ok applied
    obtain rfl := Except.ok.inj applied
    exact intact.revise (by simp) (defines_modify_of_same (fun _ => rfl) (fun _ => rfl))
  | setSource text =>
    obtain rfl := Except.ok.inj applied
    exact { intact with }
  | clear =>
    obtain rfl := Except.ok.inj applied
    exact { Intact.empty with }

/-- Refused steps change nothing, and those that are accepted keep a builder intact. -/
theorem Intact.attempts {steps : List Step} (intact : b.Intact) (respects : b.respectsAll steps = true) :
    (steps.foldl attempt b).Intact := by
  induction steps generalizing b with
  | nil => exact intact
  | cons step rest ih =>
    obtain ⟨here, later⟩ := Bool.and_eq_true_iff.mp respects
    rw [List.foldl_cons]
    refine ih ?_ later
    cases applied : b.apply step with
    | error refusal =>
      rw [attempt, applied]
      exact intact
    | ok b₁ =>
      rw [applied] at here
      rw [attempt, applied]
      exact intact.accept here applied

/-- Whatever steps are taken, in any order and after any refusals: if no accepted step takes an expression of
another production or discards the right-hand side of a finished one, a grammar can be built between productions,
and it is well formed. -/
theorem attempts_build (names : List String) (steps : List Step)
    (respects : (Builder.empty.withActions names).respectsAll steps = true)
    (idle : (steps.foldl attempt (Builder.empty.withActions names)).current = none) :
    ∃ g, (steps.foldl attempt (Builder.empty.withActions names)).build = .ok g ∧ g.WellFormed ∧ g.Sheltered := by
  have start : (Builder.empty.withActions names).Intact := { Intact.empty with }
  have intact := start.attempts respects
  exact ⟨_, intact.build_eq idle, (intact.wellFormed_assembled idle).injectUndo⟩

end Builder

namespace Sample

open Builder

/-- Marks around productions and left open in them, and steps that are refused. -/
def sprawling : List Step :=
  [.mark, .endProduction, .startProduction "A", .terminal (.token "a" true), .mark, .reference "B" false, .endProduction,
    .release, .startProduction "B", .terminal .any, .repetition 2 1, .repetition 0 1, .mark, .terminal .nil, .reset,
    .endProduction, .mark, .reset, .release]

theorem sprawling_builds :
    (Builder.empty.withActions []).respectsAll sprawling = true ∧
      (sprawling.foldl attempt (Builder.empty.withActions [])).current = none ∧
      ∃ g, (sprawling.foldl attempt (Builder.empty.withActions [])).build = .ok g ∧ g.WellFormed ∧ g.Sheltered :=
  ⟨by decide +kernel, by decide +kernel,
    attempts_build [] sprawling (by decide +kernel) (by decide +kernel)⟩

/-- The mark is set before the production, so closing it discards the right-hand side. -/
def strayReset : List Step :=
  [.mark, .startProduction "A", .terminal (.token "a" true), .endProduction, .reset]

/-- The mark left open in one production lets the next one lose its own. -/
def strayRelease : List Step :=
  [.startProduction "A", .terminal (.token "a" true), .mark, .endProduction, .startProduction "B", .release,
    .endProduction]

theorem strays_break_trees :
    ((strayReset.foldl attempt .empty).current = none ∧
      (strayReset.foldl attempt .empty).build = .error (.danglingRoot "A")) ∧
    (strayRelease.foldl attempt .empty).current = none ∧
      ∃ g, (strayRelease.foldl attempt .empty).build = .ok g ∧ ¬ g.WellFormed := by
  refine ⟨⟨by decide +kernel, by decide +kernel⟩, by decide +kernel, ?_⟩
  -- The node on the stack is one of the first production, and becomes the right-hand side of the second.
  have shared : ((strayRelease.foldl attempt .empty).build.toOption.map fun g =>
      (g.productions[1]?.map Production.root, g.nodes[0]?.map Node.owner)) = some (some 0, some 0) := by
    decide +kernel
  obtain ⟨g, built, same⟩ := Option.map_eq_some_iff.mp shared
  refine ⟨g, eq_ok_of_toOption built, fun wellFormed => ?_⟩
  obtain ⟨root, owner⟩ := Prod.mk.inj same
  obtain ⟨p, found, top⟩ := Option.map_eq_some_iff.mp root
  obtain ⟨node, here, -, owned⟩ := wellFormed.root found
  rw [top] at here
  rw [here, Option.map_some, owned] at owner
  cases owner

end Sample

end Packrat

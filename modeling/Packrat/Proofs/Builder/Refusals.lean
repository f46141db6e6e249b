import Packrat.Builder.Procedure
import Packrat.Proofs.Builder.Frame

/-! # Refused operations change nothing

As a procedure, every operation tests what it needs before it changes anything: it leaves the builder that `apply`
answers with, and the builder as it was when `apply` refuses. What `release` and `reset` test is right in any builder
that operations can lead to, as the stack and the arena have as many marks, and a production under construction has one
of its own.
-/

namespace Packrat

namespace Builder

namespace Procedure

variable {α β : Type} {b b' : Builder} {owner : Nat} {expr : Expr}

theorem on_bind (p : Procedure α) (rest : α → Procedure β) :
    (p >>= rest).on b = match p.on b with
      | (.ok a, b') => (rest a).on b'
      | (.error refusal, b') => (.error refusal, b') := by
  change ExceptT.bindCont rest (p.on b).1 (p.on b).2 = _
  rcases p.on b with ⟨refusal | a, b'⟩ <;> rfl

@[simp] theorem on_pure (a : α) : (pure a : Procedure α).on b = (.ok a, b) := rfl

@[simp] theorem on_throw (refusal : BuildError) : (throw refusal : Procedure α).on b = (.error refusal, b) := rfl

@[simp] theorem on_get : (get : Procedure Builder).on b = (.ok b, b) := rfl

@[simp] theorem on_set : (set b' : Procedure PUnit).on b = (.ok ⟨⟩, b') := rfl

@[simp] theorem on_modifyGet (f : Builder → α × Builder) : (modifyGet f : Procedure α).on b = (.ok (f b).1, (f b).2) := rfl

@[simp] theorem on_modify (f : Builder → Builder) : (modify f : Procedure PUnit).on b = (.ok ⟨⟩, f b) := rfl

theorem on_owner_of_current (current : b.current = some owner) : Procedure.owner.on b = (.ok owner, b) := by
  simp [Procedure.owner, on_bind, current]

theorem on_owner_of_idle (idle : b.current = none) : Procedure.owner.on b = (.error .noProduction, b) := by
  simp [Procedure.owner, on_bind, idle]

/-- Inside a production, statements that start by asking for it go on. -/
theorem on_owner_bind (current : b.current = some owner) (rest : Nat → Procedure α) :
    (Procedure.owner >>= rest).on b = (rest owner).on b := by
  rw [on_bind, on_owner_of_current current]

/-- Outside of one, they stop. -/
theorem on_owner_bind_of_idle (idle : b.current = none) (rest : Nat → Procedure α) :
    (Procedure.owner >>= rest).on b = (.error .noProduction, b) := by
  rw [on_bind, on_owner_of_idle idle]

theorem on_alloc (current : b.current = some owner) :
    (Procedure.alloc expr).on b = (.ok (b.alloc owner expr).1, (b.alloc owner expr).2) :=
  on_owner_bind current _

theorem on_allocParent (current : b.current = some owner) :
    (Procedure.allocParent expr).on b = (.ok (b.allocParent owner expr).1, (b.allocParent owner expr).2) :=
  on_owner_bind current _

/-- The outcome of a procedure that keeps to what an operation says: the builder is the one that the operation leaves,
or as it was if the operation is refused. -/
def settled (b : Builder) : Except BuildError Builder → Except BuildError Unit × Builder
  | .ok b' => (.ok (), b')
  | .error refusal => (.error refusal, b)

@[simp] theorem settled_ok : settled b (.ok b') = (.ok (), b') := rfl

@[simp] theorem settled_pure : settled b (pure b') = (.ok (), b') := rfl

@[simp] theorem settled_error (refusal : BuildError) : settled b (.error refusal) = (.error refusal, b) := rfl

/-- An operation that asks for the production under construction before all else is settled if it is inside of one. -/
theorem on_owned {f : Nat → Except BuildError Builder} {rest : Nat → Procedure Unit}
    (inside : ∀ owner, b.current = some owner → (rest owner).on b = settled b (f owner)) :
    (Procedure.owner >>= rest).on b = settled b (b.owner >>= f) := by
  cases current : b.current with
  | none =>
    rw [on_owner_bind_of_idle current, Builder.owner, current]
    rfl
  | some owner =>
    rw [on_owner_bind current, inside owner current, owner_of_current current]
    rfl

theorem on_startProduction (name : String) :
    (Procedure.startProduction name).on b = settled b (b.startProduction name) := by
  cases current : b.current <;> simp [Procedure.startProduction, Builder.startProduction, on_bind, current]

theorem on_endProduction : Procedure.endProduction.on b = settled b b.endProduction := by
  refine on_owned fun owner current => ?_
  rw [on_bind, Procedure.popAll, on_modifyGet]
  rcases b.stack.popAll with ⟨_ | ⟨first, _ | ⟨second, rest⟩⟩, stack⟩ <;>
    simp [on_bind, on_alloc, on_allocParent, current, rightHandSide]

theorem on_setProductionSpan (span : Span) :
    (Procedure.setProductionSpan span).on b = settled b (b.setProductionSpan span) :=
  on_owned fun _ _ => rfl

theorem on_pushExpr : (Procedure.pushExpr expr).on b = settled b (b.pushExpr expr) := by
  rw [Procedure.pushExpr, Procedure.alloc, bind_assoc]
  exact on_owned fun _ _ => rfl

/-- Inside a production no token is refused. -/
theorem on_pushTokens_of_current (images : List String) (caseSensitive : Bool) (current : b.current = some owner) :
    ∃ b', b.pushTokens images caseSensitive = .ok b' ∧ (Procedure.pushTokens images caseSensitive).on b = (.ok (), b') := by
  induction images generalizing b with
  | nil => exact ⟨b, rfl, rfl⟩
  | cons image rest ih =>
    have first : b.pushExpr (.terminal (.token image caseSensitive)) =
        .ok (b.grown b.stack owner (.terminal (.token image caseSensitive))) := pushExpr_eq current rfl
    obtain ⟨b', pushed, same⟩ := ih (b := b.grown b.stack owner (.terminal (.token image caseSensitive))) current
    refine ⟨b', ?_, ?_⟩
    · rw [Builder.pushTokens, List.foldlM_cons, pushTerminal, first]
      exact pushed
    · rw [Procedure.pushTokens, List.forM_cons, on_bind, on_pushExpr, first]
      exact same

/-- The first token is refused, or none is. -/
theorem on_pushTokens (images : List String) (caseSensitive : Bool) :
    (Procedure.pushTokens images caseSensitive).on b = settled b (b.pushTokens images caseSensitive) := by
  cases current : b.current with
  | some owner =>
    obtain ⟨b', pushed, same⟩ := on_pushTokens_of_current images caseSensitive current
    rw [same, pushed, settled_ok]
  | none =>
    cases images with
    | nil => rfl
    | cons image rest =>
      have refused : b.pushExpr (.terminal (.token image caseSensitive)) = .error .noProduction := by
        rw [Builder.pushExpr, Builder.owner, current]
        rfl
      rw [Procedure.pushTokens, List.forM_cons, on_bind, on_pushExpr, Builder.pushTokens, List.foldlM_cons, pushTerminal,
        refused]
      rfl

theorem on_pushReference (name : String) (memo : Bool) :
    (Procedure.pushReference name memo).on b = settled b (b.pushReference name memo) := by
  refine on_owned fun owner current => ?_
  have inside : (b.lookup name).2.current = some owner := (lookup_current name).trans current
  rw [on_bind, on_modifyGet]
  dsimp only
  rw [on_pushExpr, pushExpr_eq inside rfl]
  rfl

theorem on_combine (make : List Nat → Expr) : (Procedure.combine make).on b = settled b (b.combine make) := by
  refine on_owned fun owner current => ?_
  rw [on_bind, on_get]
  by_cases several : 1 < b.stack.size
  · simp [several, Nat.not_le_of_lt several, on_bind, Procedure.popAll, Procedure.pushId, on_allocParent, current]
  · simp [several, Nat.le_of_not_lt several]

theorem on_wrapTop (operation : String) (make : Nat → Expr) :
    (Procedure.wrapTop operation make).on b = settled b (b.wrapTop operation make) := by
  refine on_owned fun owner current => ?_
  cases popped : b.stack.pop? <;>
    simp [on_bind, Procedure.pop?, popped, Procedure.pushId, on_allocParent, current]

theorem on_repeatTop (min max : Nat) : (Procedure.repeatTop min max).on b = settled b (b.repeatTop min max) := by
  by_cases invalid : max < min ∨ max = 0
  · simp [Procedure.repeatTop, Builder.repeatTop, invalid]
  · simp [Procedure.repeatTop, Builder.repeatTop, invalid, on_wrapTop]

@[simp] theorem alloc_current : (b.alloc owner expr).2.current = b.current := rfl

theorem on_action (name : String) : (Procedure.action name).on b = settled b (b.action name) := by
  refine on_owned fun owner current => ?_
  cases popped : b.stack.pop? <;>
    simp [on_bind, Procedure.pop?, popped, Procedure.pushId, on_alloc, on_allocParent, current]

theorem on_modifySpan (f : Option Span → Span) : (Procedure.modifySpan f).on b = settled b (b.modifySpan f) := by
  refine on_owned fun owner current => ?_
  cases top : b.stack.peek? <;> simp [on_bind, top]

theorem on_release : Procedure.release.on b = settled b b.release := by
  by_cases reserved : b.arenaMarks.length ≤ b.reservedMarks
  · simp [Procedure.release, Procedure.closeMark, Builder.release, on_bind, reserved]
  · cases closed : b.stack.release? <;>
      simp [Procedure.release, Procedure.closeMark, Builder.release, on_bind, reserved, closed]

theorem on_reset : Procedure.reset.on b = settled b b.reset := by
  by_cases reserved : b.arenaMarks.length ≤ b.reservedMarks
  · simp [Procedure.reset, Procedure.closeMark, Builder.reset, on_bind, reserved]
  · cases closed : b.stack.reset? <;>
      simp [Procedure.reset, Procedure.closeMark, Builder.reset, on_bind, reserved, closed]

/-- Each procedure keeps to what its operation says. -/
theorem on_ofStep (step : Step) : (ofStep step).on b = settled b (b.apply step) := by
  cases step with
  | startProduction name => exact on_startProduction name
  | endProduction => exact on_endProduction
  | terminal t => exact on_pushExpr
  | tokens images caseSensitive => exact on_pushTokens images caseSensitive
  | reference name memo => exact on_pushReference name memo
  | sequence => exact on_combine _
  | choice => exact on_combine _
  | repetition min max => exact on_repeatTop min max
  | lookahead sign => exact on_wrapTop "except" _
  | action name => exact on_action name
  | release => exact on_release
  | reset => exact on_reset
  | setStart start => rw [ofStep, on_modifySpan, apply, setStart]
  | setStop stop => rw [ofStep, on_modifySpan, apply, setStop]
  | setProductionSpan span => exact on_setProductionSpan span
  | mark | setSource text | clear => rfl

end Procedure

/-- The stack and the arena have as many marks, enough for those that `release` and `reset` leave alone. -/
structure Matched (b : Builder) : Prop where
  together : b.arenaMarks.length = b.stack.depth
  reserved : b.reservedMarks ≤ b.stack.depth

section

variable {b b' : Builder}

theorem Matched.empty : Matched .empty := ⟨rfl, Nat.le_refl _⟩

theorem Matched.works (matched : b.Matched) (works : Works b b') : b'.Matched := by
  have depth : b'.stack.depth = b.stack.depth := congrArg List.length works.marks
  have reserved : b'.reservedMarks = b.reservedMarks := by rw [reservedMarks, reservedMarks, works.current]
  refine ⟨?_, ?_⟩
  · rw [works.arenaMarks, depth, matched.together]
  · rw [reserved, depth]
    exact matched.reserved

theorem Matched.startProduction {name : String} (matched : b.Matched) (started : b.startProduction name = .ok b') :
    b'.Matched := by
  obtain ⟨-, rfl⟩ := of_startProduction started
  obtain ⟨productions, same, -⟩ := define_fills b name
  rw [same]
  refine ⟨congrArg (· + 1) matched.together, ?_⟩
  exact Nat.le_add_left 1 b.stack.depth

/-- A mark is closed wherever there is one. -/
theorem depth_release (s : Segments Nat) : (s.release?.getD s).depth = s.depth - 1 := by
  rcases s with ⟨items, _ | ⟨floor, marks⟩⟩ <;> rfl

/-- The end of a production closes a mark of the stack and one of the arena. -/
theorem depth_endProduction (ended : b.endProduction = .ok b') : b'.current = none ∧
    b'.stack.depth = b.stack.depth - 1 ∧ b'.arenaMarks.length = b.arenaMarks.length - 1 := by
  obtain ⟨owner, root, b₁, -, works, rfl⟩ := works_endProduction ended
  refine ⟨rfl, ?_, ?_⟩
  · rw [depth_release, Segments.depth, works.marks]
    rfl
  · rw [List.length_tail, works.arenaMarks]

theorem Matched.endProduction (matched : b.Matched) (ended : b.endProduction = .ok b') : b'.Matched := by
  obtain ⟨idle, depth, length⟩ := depth_endProduction ended
  refine ⟨?_, ?_⟩
  · rw [depth, length, matched.together]
  · rw [reservedMarks, idle]
    exact Nat.zero_le _

theorem exists_release? {s : Segments Nat} (marked : 0 < s.depth) : ∃ s', s.release? = some s' ∧ s'.depth = s.depth - 1 := by
  rcases s with ⟨items, _ | ⟨floor, marks⟩⟩
  · cases marked
  · exact ⟨_, rfl, rfl⟩

theorem exists_reset? {s : Segments Nat} (marked : 0 < s.depth) : ∃ s', s.reset? = some s' ∧ s'.depth = s.depth - 1 := by
  rcases s with ⟨items, _ | ⟨floor, marks⟩⟩
  · cases marked
  · exact ⟨_, rfl, rfl⟩

/-- Closing a mark that is to spare. -/
theorem Matched.close {stack : Segments Nat} {nodes : Array Node} (matched : b.Matched) (spare : b.reservedMarks < b.stack.depth)
    (closed : stack.depth = b.stack.depth - 1) :
    Matched { b with stack, nodes, arenaMarks := b.arenaMarks.tail } where
  together := by rw [List.length_tail, matched.together, closed]
  reserved := by
    change b.reservedMarks ≤ stack.depth
    omega

/-- `release` is refused for lack of a mark, or closes one. -/
theorem Matched.release (matched : b.Matched) :
    b.stack.depth ≤ b.reservedMarks ∧ b.release = .error (.unbalancedMark "release") ∨
      b.reservedMarks < b.stack.depth ∧ ∃ b', b.release = .ok b' ∧ b'.Matched := by
  unfold Builder.release
  rw [matched.together]
  rcases Nat.lt_or_ge b.reservedMarks b.stack.depth with spare | reserved
  · obtain ⟨stack, released, closed⟩ := exists_release? (Nat.zero_lt_of_lt spare)
    rw [if_neg (Nat.not_le_of_lt spare), released]
    exact .inr ⟨spare, _, rfl, matched.close spare closed⟩
  · rw [if_pos reserved]
    exact .inl ⟨reserved, rfl⟩

/-- `reset` is refused for lack of a mark, or closes one. -/
theorem Matched.reset (matched : b.Matched) :
    b.stack.depth ≤ b.reservedMarks ∧ b.reset = .error (.unbalancedMark "reset") ∨
      b.reservedMarks < b.stack.depth ∧ ∃ b', b.reset = .ok b' ∧ b'.Matched := by
  unfold Builder.reset
  rw [matched.together]
  rcases Nat.lt_or_ge b.reservedMarks b.stack.depth with spare | reserved
  · obtain ⟨stack, discarded, closed⟩ := exists_reset? (Nat.zero_lt_of_lt spare)
    rw [if_neg (Nat.not_le_of_lt spare), discarded]
    exact .inr ⟨spare, _, rfl, matched.close spare closed⟩
  · rw [if_pos reserved]
    exact .inl ⟨reserved, rfl⟩

theorem Matched.lookup (matched : b.Matched) (name : String) : (b.lookup name).2.Matched := by
  obtain ⟨productions, same, -⟩ := lookup_keeps b name
  rw [same]
  exact { matched with }

theorem Matched.apply {step : Step} (matched : b.Matched) (applied : b.apply step = .ok b') : b'.Matched := by
  cases reaches : step.reaches with
  | false => exact matched.works (works_apply reaches applied)
  | true =>
    cases step with
    | startProduction name => exact matched.startProduction applied
    | endProduction => exact matched.endProduction applied
    | reference name memo =>
      obtain ⟨owner, -, rfl⟩ := of_pushReference applied
      exact (matched.lookup name).works (works_grown rfl)
    | mark =>
      obtain rfl := Except.ok.inj applied
      exact ⟨congrArg (· + 1) matched.together, Nat.le_succ_of_le matched.reserved⟩
    | release =>
      obtain ⟨-, refused⟩ | ⟨-, _, accepted, matched⟩ := matched.release
      · cases refused.symm.trans applied
      · cases accepted.symm.trans applied
        exact matched
    | reset =>
      obtain ⟨-, refused⟩ | ⟨-, _, accepted, matched⟩ := matched.reset
      · cases refused.symm.trans applied
      · cases accepted.symm.trans applied
        exact matched
    | clear =>
      obtain rfl := Except.ok.inj applied
      exact { Matched.empty with }
    | _ => cases reaches

end

namespace Procedure

variable {b b' : Builder} {call : Call} {refusal : BuildError}

theorem on_build_of_current {id : Nat} (busy : b.current = some id) :
    Procedure.build.on b = (.error (.unfinishedProduction (b.nameOf id)), b) := by
  simp [Procedure.build, on_bind, busy]

/-- Between productions the builder is emptied, whether or not a grammar comes of it. -/
theorem on_build_of_idle (idle : b.current = none) : Procedure.build.on b = (b.build, .empty) := by
  rw [Procedure.build, on_bind, on_get]
  dsimp only
  rw [idle, on_bind, on_set]
  dsimp only
  cases b.build <;> rfl

theorem build_eq_ok_or_dangling (idle : b.current = none) :
    (∃ g, b.build = .ok g) ∨ ∃ name, b.build = .error (.danglingRoot name) := by
  unfold Builder.build
  rw [idle]
  dsimp only
  split
  · exact .inr ⟨_, rfl⟩
  · exact .inl ⟨_, rfl⟩

/-- A call is granted, or refused with nothing changed. Only the builder that has been emptied for a grammar can turn
out to lack a right-hand side. -/
theorem on_perform (b : Builder) (call : Call) :
    (∃ b', (perform call).on b = (.ok (), b') ∧ (b.Matched → b'.Matched)) ∨
      (∃ refusal, (perform call).on b = (.error refusal, b)) ∨
      call = .build ∧ ∃ name, (perform call).on b = (.error (.danglingRoot name), .empty) := by
  cases call with
  | step step =>
    rw [perform, on_ofStep]
    cases applied : b.apply step with
    | ok b' => exact .inl ⟨b', rfl, fun matched => matched.apply applied⟩
    | error refusal => exact .inr (.inl ⟨refusal, rfl⟩)
  | withActions names => exact .inl ⟨b.withActions names, rfl, fun matched => { matched with }⟩
  | build =>
    rw [perform, on_bind]
    cases current : b.current with
    | some id =>
      rw [on_build_of_current current]
      exact .inr (.inl ⟨_, rfl⟩)
    | none =>
      rw [on_build_of_idle current]
      obtain ⟨g, built⟩ | ⟨name, dangling⟩ := build_eq_ok_or_dangling current
      · rw [built]
        exact .inl ⟨.empty, rfl, fun _ => .empty⟩
      · rw [dangling]
        exact .inr (.inr ⟨rfl, name, rfl⟩)

theorem Matched.perform (matched : b.Matched) (call : Call) : ((Procedure.perform call).on b).2.Matched := by
  obtain ⟨b', granted, keeps⟩ | ⟨refusal, refused⟩ | ⟨-, name, dangling⟩ := on_perform b call
  · rw [granted]
    exact keeps matched
  · rw [refused]
    exact matched
  · rw [dangling]
    exact .empty

/-- The builder behind some calls, whatever became of them. -/
def after (calls : List Call) : Builder := calls.foldl (fun b call => ((perform call).on b).2) .empty

theorem matched_after (calls : List Call) : (after calls).Matched := by
  unfold after
  have along {b : Builder} (matched : b.Matched) : (calls.foldl (fun b call => ((perform call).on b).2) b).Matched := by
    induction calls generalizing b with
    | nil => exact matched
    | cons call rest ih => exact ih (Matched.perform matched call)
  exact along .empty

/-- Whatever was asked of a builder before, a call that is refused leaves it as it was; only when it has been emptied for
a grammar may it turn out that a right-hand side is lost. The stack and the arena have as many marks, and a production
under construction has one, which its end closes. `release` and `reset` are refused for lack of a mark exactly if
there is none beside that one. -/
theorem refusals_change_nothing (calls : List Call) :
    let b := after calls
    (∀ call refusal, ((perform call).on b).1 = .error refusal →
      ((perform call).on b).2 = b ∨ call = .build ∧ ∃ name, refusal = .danglingRoot name) ∧
    b.arenaMarks.length = b.stack.depth ∧
    (∀ owner, b.current = some owner → 1 ≤ b.stack.depth ∧ ∃ b', Procedure.endProduction.on b = (.ok (), b') ∧
      b'.stack.depth + 1 = b.stack.depth ∧ b'.arenaMarks.length + 1 = b.arenaMarks.length) ∧
    ((Procedure.release.on b).1 = .error (.unbalancedMark "release") ↔
      b.stack.depth ≤ if b.current.isSome then 1 else 0) ∧
    ((Procedure.reset.on b).1 = .error (.unbalancedMark "reset") ↔
      b.stack.depth ≤ if b.current.isSome then 1 else 0) := by
  intro b
  have matched : b.Matched := matched_after calls
  refine ⟨fun call refusal refused => ?_, matched.together, fun owner current => ?_, ?_, ?_⟩
  · obtain ⟨b', granted, -⟩ | ⟨_, unchanged⟩ | ⟨itself, name, dangling⟩ := on_perform b call
    · rw [granted] at refused
      cases refused
    · exact .inl (congrArg Prod.snd unchanged)
    · rw [dangling] at refused
      cases refused
      exact .inr ⟨itself, name, rfl⟩
  · have marked : 1 ≤ b.stack.depth := by
      have reserved := matched.reserved
      rwa [reservedMarks, current] at reserved
    have accepted : ∃ b', b.endProduction = .ok b' := by
      rw [Builder.endProduction, owner_of_current current]
      exact ⟨_, rfl⟩
    obtain ⟨b', ended⟩ := accepted
    obtain ⟨-, depth, length⟩ := depth_endProduction ended
    refine ⟨marked, b', ?_, ?_, ?_⟩
    · rw [on_endProduction, ended]
      rfl
    · rw [depth]
      omega
    · rw [length, matched.together]
      omega
  · rw [on_release]
    change _ ↔ b.stack.depth ≤ b.reservedMarks
    obtain ⟨reserved, refused⟩ | ⟨spare, b', accepted, -⟩ := matched.release
    · exact iff_of_true (by rw [refused]; rfl) reserved
    · refine iff_of_false (fun refused => ?_) (Nat.not_le_of_lt spare)
      rw [accepted] at refused
      cases refused
  · rw [on_reset]
    change _ ↔ b.stack.depth ≤ b.reservedMarks
    obtain ⟨reserved, refused⟩ | ⟨spare, b', accepted, -⟩ := matched.reset
    · exact iff_of_true (by rw [refused]; rfl) reserved
    · refine iff_of_false (fun refused => ?_) (Nat.not_le_of_lt spare)
      rw [accepted] at refused
      cases refused

end Procedure

end Builder

namespace Sample

open Builder Builder.Procedure

/-- A second production is named and begun before the first one has ended. -/
def halfway : List Call := [.step (.startProduction "A"), .step (.terminal .any), .step (.startProduction "B")]

theorem halfway_refuses :
    ((perform (.step .release)).on (after halfway)).1 = .error (.unbalancedMark "release") ∧
    ((perform (.step .release)).on (after halfway)).2 = after halfway ∧
    ∃ b', Procedure.endProduction.on (after halfway) = (.ok (), b') ∧ b'.stack.depth + 1 = (after halfway).stack.depth := by
  obtain ⟨unchanged, -, ends, -⟩ := refusals_change_nothing halfway
  refine ⟨by decide +kernel, (unchanged (.step .release) (.unbalancedMark "release") (by decide +kernel)).resolve_right nofun,
    ?_⟩
  obtain ⟨-, b', ended, depth, -⟩ := ends 0 (by decide +kernel)
  exact ⟨b', ended, depth⟩

end Sample

end Packrat

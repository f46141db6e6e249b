import Packrat.Proofs.Builder.Drafts

/-! # Where the nodes of a builder lie

An expression gets its place after it has been made, and a sequence or choice of one expression gives this one another
place. As long as the place set last contains the one before, the parts of every node keep lying in it. The lemmas here
say so for an operation together with the place that is set behind it: which places the expressions on the stack have
then, and that all nodes lie where they should.

`known` are the positions that a place can begin and end at. The body of an action or a lookahead may end behind it at
a position that is `lost`.
-/

namespace Packrat

/-- Where a node lies. -/
def spanAt? (nodes : Array Node) (i : Nat) : Option Span := nodes[i]? >>= Node.span

/-- The place of the node ends where the last token has ended before it was made, whatever its body is. -/
def Expr.endsEarly : Expr → Bool
  | .action .. | .lookahead .. => true
  | _ => false

/-- An expression lies in the span `s`, with its parts one behind the other. -/
structure Lies (known lost : Position → Prop) (at? : Nat → Option Span) (e : Expr) (s : Span) : Prop where
  start : known s.start
  stop : known s.stop
  forward : s.start.offset ≤ s.stop.offset
  within : ∀ child ∈ e.children, ∀ t, at? child = some t → s.start.offset ≤ t.start.offset ∧
    (t.stop.offset ≤ s.stop.offset ∨ e.endsEarly = true ∧ lost t.stop)
  apart : e.children.Pairwise fun i j => ∀ s t, at? i = some s → at? j = some t → s.stop.offset ≤ t.start.offset

/-- All nodes have places that nest, but for those that stand for nothing and have none. -/
def Laid (known lost : Position → Prop) (nodes : Array Node) : Prop := ∀ (i : Nat) node, nodes[i]? = some node →
  node.expr = .terminal .nil ∧ node.span = none ∨
    ∃ s, node.span = some s ∧ Lies known lost (spanAt? nodes) node.expr s

section

variable {known lost lost' : Position → Prop} {at? at?' : Nat → Option Span} {nodes nodes' : Array Node} {e : Expr}
  {s s' : Span}

/-- Other expressions in the same places may take the places of the parts. -/
theorem Lies.moved {e' : Expr} {f : Nat → Nat} (lies : Lies known lost at? e s)
    (parts : e'.children = e.children.map f) (early : e'.endsEarly = e.endsEarly)
    (same : ∀ child ∈ e.children, at?' (f child) = at? child) : Lies known lost at?' e' s := by
  refine ⟨lies.start, lies.stop, lies.forward, fun child member t found => ?_, ?_⟩
  · rw [parts, List.mem_map] at member
    obtain ⟨child, member, rfl⟩ := member
    rw [same child member] at found
    rw [early]
    exact lies.within child member t found
  · rw [parts, List.pairwise_map]
    refine lies.apart.imp_of_mem fun first second behind s t found found' => ?_
    rw [same _ first] at found
    rw [same _ second] at found'
    exact behind s t found found'

theorem Lies.congr (lies : Lies known lost at? e s) (same : ∀ child ∈ e.children, at?' child = at? child) :
    Lies known lost at?' e s := lies.moved (List.map_id _).symm rfl same

/-- A span around the span of an expression can be its span. -/
theorem Lies.widen (lies : Lies known lost at? e s) (start : known s'.start) (stop : known s'.stop)
    (before : s'.start.offset ≤ s.start.offset) (behind : s.stop.offset ≤ s'.stop.offset) :
    Lies known lost at? e s' := by
  refine ⟨start, stop, ?_, fun child member t found => ?_, lies.apart⟩
  · exact Nat.le_trans before (Nat.le_trans lies.forward behind)
  · obtain ⟨first, last⟩ := lies.within child member t found
    exact ⟨Nat.le_trans before first, last.imp_left fun last => Nat.le_trans last behind⟩

theorem Lies.mono (lies : Lies known lost at? e s) (more : ∀ p, lost p → lost' p) : Lies known lost' at? e s :=
  { lies with
    within := fun child member t found =>
      (lies.within child member t found).imp_right fun last => last.imp_right fun last => last.imp_right (more _) }

theorem Laid.ends (laid : Laid known lost nodes) {i : Nat} (found : spanAt? nodes i = some s) :
    known s.start ∧ known s.stop := by
  obtain ⟨node, present, placed⟩ := Option.bind_eq_some_iff.mp found
  obtain ⟨s', placed', lies⟩ := (laid i node present).resolve_left fun nothing => by simp [placed] at nothing
  cases placed.symm.trans placed'
  exact ⟨lies.start, lies.stop⟩

theorem Laid.mono (laid : Laid known lost nodes) (more : ∀ p, lost p → lost' p) : Laid known lost' nodes :=
  fun i node present => (laid i node present).imp_right fun ⟨s, found, lies⟩ => ⟨s, found, lies.mono more⟩

end

namespace Builder

variable {b b' b'' : Builder} {known lost : Position → Prop} {owner k : Nat} {expr : Expr} {s : Span}
  {ss ts : List Span}

section Setting

/-- The node gets another place. -/
def relocate (b : Builder) (k : Nat) (s : Span) : Builder :=
  { b with nodes := b.nodes.modify k fun node => { node with span := some s } }

theorem getElem?_relocate (i : Nat) : (b.relocate k s).nodes[i]? =
    b.nodes[i]?.map fun node => if i = k then { node with span := some s } else node := by
  rw [relocate, Array.getElem?_modify]
  by_cases itself : k = i
  · simp [itself]
  · simp [itself, Ne.symm itself]

theorem spanAt?_relocate (inside : k < b.nodes.size) (i : Nat) :
    spanAt? (b.relocate k s).nodes i = if i = k then some s else spanAt? b.nodes i := by
  unfold spanAt?
  rw [getElem?_relocate]
  by_cases itself : i = k
  · simp [itself, Array.getElem?_eq_getElem inside]
  · simp [itself]

/-- Setting both ends is setting the place of the expression on top. -/
theorem relocate_of_set (top : b.stack.peek? = some k) (started : b.apply (.setStart s.start) = .ok b')
    (stopped : b'.apply (.setStop s.stop) = .ok b'') : b'' = b.relocate k s := by
  obtain ⟨owner, current, started⟩ := current_of_ok started
  dsimp only at started
  rw [top] at started
  cases started
  obtain ⟨owner', current', stopped⟩ := current_of_ok stopped
  dsimp only at stopped
  rw [top] at stopped
  cases stopped
  simp only [relocate, Builder.mk.injEq, true_and, and_true]
  refine Array.ext_getElem? fun i => ?_
  simp only [Array.getElem?_modify]
  by_cases itself : k = i
  · simp [itself, Function.comp_def]
  · simp [itself]

/-- An expression on the stack is a part of nothing, so it can be given a place around the one it has. -/
theorem laid_relocate {s' : Span} (laid : Laid known lost b.nodes) (sound : b.Sound) (free : Free b.nodes owner k)
    (found : spanAt? b.nodes k = some s) (start : known s'.start) (stop : known s'.stop)
    (before : s'.start.offset ≤ s.start.offset) (behind : s.stop.offset ≤ s'.stop.offset) :
    Laid known lost (b.relocate k s').nodes := by
  intro i node present
  rw [getElem?_relocate] at present
  obtain ⟨node₀, present₀, rfl⟩ := Option.map_eq_some_iff.mp present
  have same : ∀ child ∈ node₀.expr.children, spanAt? (b.relocate k s').nodes child = spanAt? b.nodes child := by
    intro child member
    obtain ⟨-, part, inside, parent, -⟩ := sound.linked.part present₀ member
    have other : child ≠ k := by
      rintro rfl
      obtain ⟨_, inside', top, -⟩ := free
      cases inside.symm.trans inside'
      cases parent.symm.trans top
    rw [spanAt?_relocate free.lt_size, if_neg other]
  have before₀ := laid i node₀ present₀
  split
  · next itself =>
    subst itself
    have here : node₀.span = some s := by simpa [spanAt?, present₀] using found
    obtain ⟨s₀, found₀, lies⟩ := before₀.resolve_left fun nothing => by simp [here] at nothing
    cases here.symm.trans found₀
    exact .inr ⟨s', rfl, (lies.congr same).widen start stop before behind⟩
  · exact before₀.imp_right fun ⟨s₀, found₀, lies⟩ => ⟨s₀, found₀, lies.congr same⟩

end Setting

section Adding

section

variable {nodes : Array Node}

theorem spanAt?_nothing (i : Nat) :
    spanAt? (nodes.push { expr := .terminal .nil, owner }) i = spanAt? nodes i := by
  unfold spanAt?
  rw [Array.getElem?_push]
  split
  · next last => simp [last]
  · rfl

/-- A node for nothing has no place. -/
theorem laid_nothing (laid : Laid known lost nodes) :
    Laid known lost (nodes.push { expr := .terminal .nil, owner }) := by
  intro i node present
  rw [Array.getElem?_push] at present
  split at present
  · exact .inl (Option.some.inj present ▸ ⟨rfl, rfl⟩)
  · refine (laid i node present).imp_right fun ⟨s, found, lies⟩ => ⟨s, found, lies.congr fun child _ => ?_⟩
    exact spanAt?_nothing child

end

section

variable {stack : Segments Nat} (parts : ∀ child ∈ expr.children, child < b.nodes.size)

include parts

theorem spanAt?_grown (i : Nat) : spanAt? ((b.grown stack owner expr).relocate b.nodes.size s).nodes i =
    if i = b.nodes.size then some s else spanAt? b.nodes i := by
  have inside : b.nodes.size < (b.grown stack owner expr).nodes.size := by
    rw [size_grown parts]
    exact Nat.lt_succ_self _
  rw [spanAt?_relocate inside]
  split
  · rfl
  · next other =>
    unfold spanAt?
    change ({ b with stack }.allocParent owner expr).2.nodes[i]? >>= _ = _
    rw [allocParent_nodes (b := { b with stack }) parts, if_neg other]
    cases b.nodes[i]? with
    | none => rfl
    | some node =>
      simp only [Option.map_some, bind, Option.bind]
      split <;> rfl

/-- A new node is given a place. -/
theorem laid_grown (laid : Laid known lost b.nodes) (linked : Linked b.productions.size b.nodes)
    (lies : Lies known lost (spanAt? b.nodes) expr s) :
    Laid known lost ((b.grown stack owner expr).relocate b.nodes.size s).nodes := by
  intro i node present
  rw [getElem?_relocate] at present
  change (({ b with stack }.allocParent owner expr).2.nodes[i]?.map _) = _ at present
  rw [allocParent_nodes (b := { b with stack }) parts] at present
  split at present
  · next last =>
    subst last
    cases present
    refine .inr ⟨s, rfl, lies.congr fun child member => ?_⟩
    rw [spanAt?_grown parts, if_neg (Nat.ne_of_lt (parts child member))]
  · next other =>
    rw [Option.map_map] at present
    obtain ⟨node₀, present₀, rfl⟩ := Option.map_eq_some_iff.mp present
    simp only [Function.comp_apply]
    have before := laid i node₀ present₀
    have lies : ∀ s₀, Lies known lost (spanAt? b.nodes) node₀.expr s₀ → Lies known lost
        (spanAt? ((b.grown stack owner expr).relocate b.nodes.size s).nodes) node₀.expr s₀ := by
      intro s₀ lies
      refine lies.congr fun child member => ?_
      obtain ⟨-, part, inside, -⟩ := linked.part present₀ member
      rw [spanAt?_grown parts, if_neg (Nat.ne_of_lt (Array.getElem?_eq_some_iff.mp inside).1)]
    split
    · exact before.imp_right fun ⟨s₀, found, below⟩ => ⟨s₀, found, lies s₀ below⟩
    · exact before.imp_right fun ⟨s₀, found, below⟩ => ⟨s₀, found, lies s₀ below⟩

end

end Adding

section Stack

/-- All nodes of `b'` lie where they should, and `b'` has what `b` has apart from the stack. -/
structure Spread (known lost : Position → Prop) (b b' : Builder) : Prop where
  sound : b'.Sound
  laid : Laid known lost b'.nodes
  current : b'.current = b.current
  arenaMarks : b'.arenaMarks = b.arenaMarks
  definitions : b'.definitions = b.definitions
  productions : ∀ id < b.productions.size, b'.productions[id]? = b.productions[id]?
  size : b.nodes.size ≤ b'.nodes.size
  kept : ∀ i < b.nodes.size, spanAt? b'.nodes i = spanAt? b.nodes i

/-- `b'` is `b` with expressions on the stack that lie at these places. -/
structure Lays (known lost : Position → Prop) (b b' : Builder) (ss : List Span) : Prop
    extends Spread known lost b b' where
  pushed : ∃ ids, b'.stack = b.stack.pushAll ids ∧
    List.Forall₂ (fun i s => b.nodes.size ≤ i ∧ spanAt? b'.nodes i = some s) ids ss

theorem Lays.refl (sound : b.Sound) (laid : Laid known lost b.nodes) : Lays known lost b b [] :=
  ⟨⟨sound, laid, rfl, rfl, rfl, fun _ _ => rfl, Nat.le_refl _, fun _ _ => rfl⟩, [], (Segments.pushAll_nil _).symm, .nil⟩

theorem lt_of_spanAt? {nodes : Array Node} (found : spanAt? nodes k = some s) : k < nodes.size := by
  obtain ⟨node, present, -⟩ := Option.bind_eq_some_iff.mp found
  exact (Array.getElem?_eq_some_iff.mp present).1

theorem Lays.trans (first : Lays known lost b b' ss) (second : Lays known lost b' b'' ts) :
    Lays known lost b b'' (ss ++ ts) where
  sound := second.sound
  laid := second.laid
  current := second.current.trans first.current
  arenaMarks := second.arenaMarks.trans first.arenaMarks
  definitions := second.definitions.trans first.definitions
  productions id small := by
    have inside := (Array.getElem?_eq_some_iff.mp ((first.productions id small).trans
      (Array.getElem?_eq_getElem small))).1
    exact (second.productions id inside).trans (first.productions id small)
  size := Nat.le_trans first.size second.size
  kept i small := (second.kept i (Nat.lt_of_lt_of_le small first.size)).trans (first.kept i small)
  pushed := by
    obtain ⟨ids, stack, spans⟩ := first.pushed
    obtain ⟨more, stack', spans'⟩ := second.pushed
    refine ⟨ids ++ more, ?_, List.rel_append (spans.imp ?_) (spans'.imp ?_)⟩
    · rw [stack', stack, Segments.pushAll_pushAll]
    · exact fun i s ⟨fresh, found⟩ => ⟨fresh, (second.kept i (lt_of_spanAt? found)).trans found⟩
    · exact fun i s ⟨fresh, found⟩ => ⟨Nat.le_trans first.size fresh, found⟩

theorem Lays.mono {lost' : Position → Prop} (lays : Lays known lost b b' ss) (more : ∀ p, lost p → lost' p) :
    Lays known lost' b b' ss := { lays with laid := lays.laid.mono more }

/-- A new expression in the place of those that it is made of. -/
theorem Spread.grow {ids : List Nat} (lays : Spread known lost b b')
    (sound : ((b'.grown (b.stack.pushAll ids) owner expr).relocate b'.nodes.size s).Sound)
    (parts : ∀ child ∈ expr.children, child < b'.nodes.size)
    (below : List.Forall₂ (fun i s => b.nodes.size ≤ i ∧ spanAt? b'.nodes i = some s) ids ss)
    (lies : Lies known lost (spanAt? b'.nodes) expr s) :
    Lays known lost b ((b'.grown (b.stack.pushAll ids) owner expr).relocate b'.nodes.size s) (ss ++ [s]) where
  sound := sound
  laid := laid_grown parts lays.laid lays.sound.linked lies
  current := lays.current
  arenaMarks := lays.arenaMarks
  definitions := lays.definitions
  productions := lays.productions
  size := by
    have size : ((b'.grown (b.stack.pushAll ids) owner expr).relocate b'.nodes.size s).nodes.size =
        b'.nodes.size + 1 := by
      rw [relocate, Array.size_modify, size_grown parts]
    rw [size]
    exact Nat.le_succ_of_le lays.size
  kept i small := by
    have small' := Nat.lt_of_lt_of_le small lays.size
    rw [spanAt?_grown parts, if_neg (Nat.ne_of_lt small')]
    exact lays.kept i small
  pushed := by
    refine ⟨ids ++ [b'.nodes.size], ?_, List.rel_append (below.imp fun i s ⟨fresh, found⟩ => ⟨fresh, ?_⟩)
      (.cons ⟨lays.size, ?_⟩ .nil)⟩
    · exact (Segments.pushAll_pushAll ..).symm ▸ by
        simp [relocate, grown, pushId, allocParent, alloc, Segments.push, Segments.pushAll]
    · rw [spanAt?_grown parts, if_pos rfl]
    · rwa [spanAt?_grown parts, if_neg (Nat.ne_of_lt (lt_of_spanAt? found))]

end Stack

section Operations

/-- The operation is accepted, and then its expression is given a place. -/
def Places (b : Builder) (step : Step) (s : Span) (b' : Builder) : Prop := ∃ b₁ b₂, b.apply step = .ok b₁ ∧
  b₁.apply (.setStart s.start) = .ok b₂ ∧ b₂.apply (.setStop s.stop) = .ok b'

theorem Places.sound {step : Step} (places : b.Places step s b') (sound : b.Sound) (balances : step.balances b = true) :
    b'.Sound := by
  obtain ⟨b₁, b₂, applied, started, stopped⟩ := places
  have sound₁ := sound.changes (sound.apply balances applied)
  have sound₂ := sound₁.changes (sound₁.apply rfl started)
  exact sound₂.changes (sound₂.apply rfl stopped)

/-- The place is that of the new expression. -/
theorem Places.grown {step : Step} {stack : Segments Nat} (places : b.Places step s b')
    (applied : b.apply step = .ok (b''.grown stack owner expr)) (ordered : stack.Ordered) :
    b' = (b''.grown stack owner expr).relocate b''.nodes.size s := by
  obtain ⟨b₁, b₂, applied', started, stopped⟩ := places
  cases applied.symm.trans applied'
  refine relocate_of_set ?_ started stopped
  have within := ordered.floor_le
  change (stack.push b''.nodes.size).peek? = some b''.nodes.size
  rw [Segments.peek?, Segments.segment_eq_drop]
  simp only [Segments.push, Segments.all, Segments.floor, Array.toList_push] at within ⊢
  rw [List.drop_append_of_le_length within, List.getLast?_concat]

/-- A leaf is pushed behind the expressions that are there. -/
theorem Lays.push {b₀ : Builder} {step : Step} (lays : Lays known lost b b' ss) (bare : expr.children = [])
    (places : b₀.Places step s b'') (applied : b₀.apply step = .ok (b'.grown b'.stack owner expr)) (sound : b''.Sound)
    (start : known s.start) (stop : known s.stop) (forward : s.start.offset ≤ s.stop.offset) :
    Lays known lost b b'' (ss ++ [s]) := by
  have same := places.grown applied lays.sound.ordered
  obtain ⟨ids, stack, spans⟩ := lays.pushed
  rw [stack] at same
  subst same
  refine lays.toSpread.grow sound ?_ spans ⟨start, stop, forward, ?_, ?_⟩
  · rw [bare]
    exact List.forall_mem_nil _
  · rw [bare]
    exact List.forall_mem_nil _
  · rw [bare]
    exact .nil

theorem Lays.terminal {t : Terminal} (lays : Lays known lost b b' ss) (places : b'.Places (.terminal t) s b'')
    (start : known s.start) (stop : known s.stop) (forward : s.start.offset ≤ s.stop.offset) :
    Lays known lost b b'' (ss ++ [s]) := by
  obtain ⟨_, _, applied, -⟩ := id places
  obtain ⟨owner, current, -⟩ := current_of_ok applied
  exact lays.push rfl places (pushExpr_eq current rfl) (places.sound lays.sound rfl) start stop forward

/-- Looking up a name adds a production at most. -/
theorem lays_lookup (sound : b.Sound) (laid : Laid known lost b.nodes) (name : String) :
    Lays known lost b (b.lookup name).2 [] := by
  have lookedUp := sound.changes (changes_lookup b name).1
  have before : ∀ id < b.productions.size, (b.lookup name).2.productions[id]? = b.productions[id]? := by
    intro id small
    unfold lookup
    split
    · rfl
    · simp only [create, Array.getElem?_push, if_neg (Nat.ne_of_lt small)]
  obtain ⟨productions, same, -⟩ := lookup_keeps b name
  rw [same] at lookedUp before ⊢
  have spread : Spread known lost b { b with productions } :=
    ⟨lookedUp, laid, rfl, rfl, rfl, before, Nat.le_refl _, fun _ _ => rfl⟩
  exact ⟨spread, [], (Segments.pushAll_nil _).symm, .nil⟩

theorem Lays.reference {name : String} {memo : Bool} (lays : Lays known lost b b' ss)
    (places : b'.Places (.reference name memo) s b'') (start : known s.start) (stop : known s.stop)
    (forward : s.start.offset ≤ s.stop.offset) : Lays known lost b b'' (ss ++ [s]) := by
  obtain ⟨_, _, applied, -⟩ := id places
  obtain ⟨owner, current, -⟩ := current_of_ok applied
  have sound := places.sound lays.sound rfl
  have lays := lays.trans (lays_lookup lays.sound lays.laid name)
  rw [List.append_nil] at lays
  have pushes : b'.apply (.reference name memo) = .ok ((b'.lookup name).2.grown (b'.lookup name).2.stack owner
      (.reference (b'.lookup name).1 memo)) := by
    rw [apply, pushReference, owner_of_current current]
    exact pushExpr_eq ((lookup_current name).trans current) rfl
  exact lays.push rfl places pushes sound start stop forward

/-- The operation pushes an expression without parts. -/
def Step.isLeaf : Step → Bool
  | .terminal _ | .reference .. => true
  | _ => false

theorem Lays.leaf {step : Step} (lays : Lays known lost b b' ss) (leaf : step.isLeaf = true)
    (places : b'.Places step s b'') (start : known s.start) (stop : known s.stop)
    (forward : s.start.offset ≤ s.stop.offset) : Lays known lost b b'' (ss ++ [s]) := by
  cases step with
  | terminal => exact lays.terminal places start stop forward
  | reference => exact lays.reference places start stop forward
  | _ => cases leaf

/-- Replacing the expression on top. -/
theorem Lays.wrap {step : Step} {make : Nat → Expr} {t : Span}
    (lays : Lays known lost b b' (ss ++ [t])) (ordered : b.stack.Ordered) (places : b'.Places step s b'')
    (wraps : ∀ {b₁}, b'.apply step = .ok b₁ → ∃ owner child stack, b'.stack.pop? = some (child, stack) ∧
      b₁ = b'.grown stack owner (make child)) (balances : step.balances b' = true)
    (parts : ∀ child, (make child).children = [child]) (start : known s.start) (stop : known s.stop)
    (forward : s.start.offset ≤ s.stop.offset) (before : s.start.offset ≤ t.start.offset)
    (behind : ∀ child, t.stop.offset ≤ s.stop.offset ∨ (make child).endsEarly = true ∧ lost t.stop) :
    Lays known lost b b'' (ss ++ [s]) := by
  have sound := places.sound lays.sound balances
  obtain ⟨ids, stack, spans⟩ := lays.pushed
  obtain ⟨ids, i, rfl, below, -, top⟩ := Segments.exists_of_forall₂_concat spans
  have popped : b'.stack.pop? = some (i, b.stack.pushAll ids) := by
    rw [stack, Segments.pop?_pushAll_concat ordered.floor_le]
  have lower : (b.stack.pushAll ids).Ordered := (Segments.Takes.pop popped).ordered lays.sound.ordered
  obtain ⟨owner, applied⟩ : ∃ owner, b'.apply step = .ok (b'.grown (b.stack.pushAll ids) owner (make i)) := by
    obtain ⟨b₁, _, applied, -⟩ := places
    obtain ⟨owner, child, stack', popped', rfl⟩ := wraps applied
    cases popped.symm.trans popped'
    exact ⟨owner, applied⟩
  have same := places.grown applied lower
  subst same
  refine lays.toSpread.grow sound ?_ below ⟨start, stop, forward, ?_, ?_⟩
  · intro child member
    rw [parts, List.mem_singleton] at member
    exact member ▸ lt_of_spanAt? top
  · intro child member t' found
    rw [parts, List.mem_singleton] at member
    subst member
    cases top.symm.trans found
    exact ⟨before, behind child⟩
  · rw [parts]
    exact List.pairwise_singleton ..

end Operations

section Segments

theorem Lays.mark (sound : b.Sound) (laid : Laid known lost b.nodes) (current : b.current = some owner) :
    Lays known lost b.mark b.mark [] := .refl (sound.mark current) laid

theorem Lays.release (lays : Lays known lost b.mark b' ss) (released : b'.apply .release = .ok b'') :
    Lays known lost b b'' ss := by
  have sound := lays.sound.release released
  obtain ⟨ids, stack, spans⟩ := lays.pushed
  obtain ⟨floor, marks, size, sizes, above, sizes', rfl⟩ := lays.sound.release_eq released
  have below : marks = b.stack.marks := by
    rw [stack] at above
    exact (List.cons.inj above).2.symm
  have sizes : sizes = b.arenaMarks := by
    rw [lays.arenaMarks] at sizes'
    exact (List.cons.inj sizes').2.symm
  refine { lays with sound := sound, arenaMarks := sizes, pushed := ⟨ids, ?_, spans⟩ }
  rw [stack, below]
  rfl

theorem grown_nothing (b : Builder) (stack : Segments Nat) (owner : Nat) :
    (b.grown stack owner (.terminal .nil)).nodes = b.nodes.push { expr := .terminal .nil, owner } := by
  change ({ b with stack }.allocParent owner (.terminal .nil)).2.nodes = _
  rw [← alloc_eq_allocParent rfl]
  rfl

/-- An empty text needs no place. -/
theorem Spread.nothing (lays : Spread known lost b b') (current : b'.current = some owner) :
    Spread known lost b (b'.grown b'.stack owner (.terminal .nil)) := by
  have sound : (b'.grown b'.stack owner (.terminal .nil)).Sound :=
    lays.sound.grow current (.nothing lays.sound.ordered) nofun
  have nodes := grown_nothing b' b'.stack owner
  refine { lays with sound := sound, laid := nodes ▸ laid_nothing lays.laid, size := ?_, kept := fun i small => ?_ }
  · rw [nodes, Array.size_push]
    exact Nat.le_succ_of_le lays.size
  · rw [nodes, spanAt?_nothing]
    exact lays.kept i small

/-- Handing the expressions of a segment, of which there is one at most, to an action. -/
theorem Lays.action {b₀ : Builder} {name : String} (lays : Lays known lost b₀.mark b' ss)
    (ordered : b₀.mark.stack.Ordered) (single : ss.length ≤ 1) (places : b'.Places (.action name) s b'')
    (start : known s.start) (stop : known s.stop) (forward : s.start.offset ≤ s.stop.offset)
    (within : ∀ t ∈ ss, s.start.offset ≤ t.start.offset ∧ (t.stop.offset ≤ s.stop.offset ∨ lost t.stop)) :
    Lays known lost b₀.mark b'' [s] := by
  obtain ⟨ids, stacked, spans⟩ := id lays.pushed
  match ss, ids, spans with
  | _ :: _ :: _, _, _ => simp at single
  | [t], [i], _ =>
    obtain ⟨before, behind⟩ := within t (List.mem_singleton_self t)
    have popped : b'.stack.pop? = some (i, b₀.mark.stack.pushAll []) := by
      rw [stacked]
      exact @Segments.pop?_pushAll_concat Nat b₀.mark.stack [] i ordered.floor_le
    refine @Lays.wrap _ _ _ _ _ _ [] _ (.action · name (b'.knownActions.contains name)) t lays ordered places ?_ rfl
      (fun _ => rfl) start stop forward before fun _ => behind.imp_right fun lost => ⟨rfl, lost⟩
    intro b₁ applied
    obtain ⟨owner, _, child, stack, -, ⟨popped', rfl⟩ | ⟨none, -⟩, rfl⟩ := of_action applied
    · exact ⟨owner, child, stack, popped', rfl⟩
    · cases none.symm.trans popped
  | [], [], _ =>
    have sound := places.sound lays.sound rfl
    have empty : b'.stack.pop? = none := by
      rw [stacked, Segments.pushAll_nil]
      exact if_neg (Nat.lt_irrefl _)
    obtain ⟨b₁, b₂, applied, -⟩ := id places
    obtain ⟨owner, _, _, _, current, ⟨popped, -⟩ | ⟨-, rfl, rfl, rfl⟩, rfl⟩ := of_action applied
    · cases empty.symm.trans popped
    · have leaf := lays.toSpread.nothing current
      have same := places.grown applied lays.sound.ordered
      rw [stacked] at same leaf
      subst same
      refine leaf.grow sound ?_ .nil ⟨start, stop, forward, ?_, List.pairwise_singleton ..⟩
      · intro child member
        rw [List.mem_singleton.mp member, size_grown (List.forall_mem_nil _)]
        exact Nat.lt_succ_self _
      · intro child member t found
        obtain rfl := List.mem_singleton.mp member
        rw [grown_nothing, spanAt?_nothing] at found
        exact absurd (lt_of_spanAt? found) (Nat.lt_irrefl _)

/-- Expressions lie one behind the other if their places do. -/
theorem apart_of_spans {at? : Nat → Option Span} {R : Nat → Span → Prop} {ids : List Nat}
    (spans : List.Forall₂ R ids ss) (found : ∀ i s, R i s → at? i = some s)
    (apart : ss.Pairwise fun s t => s.stop.offset ≤ t.start.offset) :
    ids.Pairwise fun i j => ∀ s t, at? i = some s → at? j = some t → s.stop.offset ≤ t.start.offset := by
  induction spans with
  | nil => exact .nil
  | @cons i s ids ss first rest ih =>
    obtain ⟨behind, apart⟩ := List.pairwise_cons.mp apart
    refine List.pairwise_cons.mpr ⟨fun j member s' t' here there => ?_, ih apart⟩
    cases (found i s first).symm.trans here
    obtain ⟨t, listed, other⟩ := Tree.exists_related rest member
    cases (found j t other).symm.trans there
    exact behind t' listed

theorem segment_of_mark (b : Builder) (ids : List Nat) : (b.mark.stack.pushAll ids).segment = ids :=
  Segments.segment_pushAll_mark ..

/-- The only expression in a segment moves. -/
theorem Lays.move {b₀ : Builder} {t : Span} (lays : Lays known lost b₀.mark b' [t]) (current : b₀.current = some owner)
    (sound : (b'.relocate k s).Sound) (top : b'.stack.peek? = some k) (start : known s.start) (stop : known s.stop)
    (before : s.start.offset ≤ t.start.offset) (behind : t.stop.offset ≤ s.stop.offset) :
    Lays known lost b₀.mark (b'.relocate k s) [s] := by
  obtain ⟨ids, stack, spans⟩ := lays.pushed
  obtain ⟨i, _, ⟨fresh, found⟩, rest, rfl⟩ := List.forall₂_cons_right_iff.mp spans
  cases rest
  obtain rfl : i = k := by
    rw [stack, Segments.peek?, segment_of_mark] at top
    exact Option.some.inj top
  have free : Free b'.nodes owner i := by
    refine lays.sound.free_of_mem (lays.current.trans current) ?_
    rw [stack, Segments.all_pushAll]
    exact List.mem_append_right _ (List.mem_singleton_self _)
  have inside := lt_of_spanAt? found
  refine { lays with
    sound := sound
    laid := laid_relocate lays.laid lays.sound free found start stop before behind
    size := ?_, kept := fun j small => ?_
    pushed := ⟨[i], stack, .cons ⟨fresh, ?_⟩ .nil⟩ }
  · rw [relocate, Array.size_modify]
    exact lays.size
  · rw [spanAt?_relocate inside, if_neg (Nat.ne_of_lt (Nat.lt_of_lt_of_le small fresh))]
    exact lays.kept j small
  · rw [spanAt?_relocate inside, if_pos rfl]

/-- The expressions in a segment become one, in a place around them. -/
theorem Lays.combine {b₀ : Builder} {step : Step} {make : List Nat → Expr} (lays : Lays known lost b₀.mark b' ss)
    (current : b₀.current = some owner) (nonempty : ss ≠ []) (places : b'.Places step s b'')
    (combines : ∀ {b₁}, b'.apply step = .ok b₁ → b'.combine make = .ok b₁) (balances : step.balances b' = true)
    (parts : ∀ children, (make children).children = children) (start : known s.start) (stop : known s.stop)
    (forward : s.start.offset ≤ s.stop.offset)
    (within : ∀ t ∈ ss, s.start.offset ≤ t.start.offset ∧ t.stop.offset ≤ s.stop.offset)
    (apart : ss.Pairwise fun s t => s.stop.offset ≤ t.start.offset) : Lays known lost b₀.mark b'' [s] := by
  have sound := places.sound lays.sound balances
  obtain ⟨ids, stack, spans⟩ := lays.pushed
  have segment : b'.stack.segment = ids := by rw [stack, segment_of_mark]
  obtain ⟨b₁, b₂, applied, started, stopped⟩ := id places
  obtain ⟨few, rfl⟩ | ⟨owner', -, several, rfl⟩ := of_combine (combines applied)
  · match ss, ids, spans with
    | [], _, _ => exact absurd rfl nonempty
    | _ :: _ :: _, i :: j :: ids, _ =>
      have size : b₁.stack.size = (i :: j :: ids).length := by
        rw [← segment]
        simp [Segments.size, Segments.segment]
      simp [size] at few
    | [t], [i], _ =>
      obtain ⟨before, behind⟩ := within t (List.mem_singleton_self t)
      have top : b₁.stack.peek? = some i := by
        rw [Segments.peek?, segment]
        rfl
      obtain rfl := relocate_of_set top started stopped
      exact lays.move current sound top start stop before behind
  · have below : b'.stack.popAll.2 = b₀.mark.stack.pushAll [] := by
      rw [stack, Segments.pushAll_nil]
      exact Segments.popAll_pushAll_mark ..
    have items : b'.stack.popAll.1 = ids := segment
    rw [below, items] at applied
    have ordered : (b₀.mark.stack.pushAll []).Ordered := by
      rw [← below]
      exact (Segments.Takes.popAll lays.sound.ordered).ordered lays.sound.ordered
    obtain rfl := places.grown applied ordered
    refine lays.toSpread.grow sound ?_ .nil ⟨start, stop, forward, ?_, ?_⟩
    · intro child member
      rw [parts] at member
      obtain ⟨t, -, -, found⟩ := Tree.exists_related spans member
      exact lt_of_spanAt? found
    · intro child member t' found'
      rw [parts] at member
      obtain ⟨t, listed, -, found⟩ := Tree.exists_related spans member
      cases found.symm.trans found'
      exact (within t' listed).imp_right .inl
    · rw [parts]
      exact apart_of_spans spans (fun _ _ => And.right) apart

end Segments

end Builder

end Packrat

import Packrat.Proofs.Builder.Balanced
import Packrat.Proofs.Grammar.Phrase

/-! # Phrases on the stack of a builder

Inside a production a builder works on phrases: a leaf is pushed, and an operator takes phrases from the top of the
stack and pushes the phrase made of them. What was on the stack before stays as it is, and so do the productions
that are finished. Each lemma says for one operation that it is accepted, and what is on the stack behind it.
-/

namespace Packrat

namespace Builder

variable {b b' : Builder} {id owner : Nat} {p : Phrase} {ps qs : List Phrase}

def arena (b : Builder) : Arena where
  expr? i := b.nodes[i]?.map Node.expr
  name? id := b.productions[id]?.map Production.name

/-- A production is under construction, with marks in balance. -/
structure Open (b : Builder) : Prop where
  balanced : b.Balanced
  current : ∃ owner, b.current = some owner

/-- `b'` is `b` with the phrases pushed on the stack. -/
structure Extends (b b' : Builder) (ps : List Phrase) : Prop where
  current : b'.current = b.current
  arenaMarks : b'.arenaMarks = b.arenaMarks
  definitions : b'.definitions = b.definitions
  defines : ∀ {id root}, Defines b'.productions id root ↔ Defines b.productions id root
  exprs : ∀ {i e}, b.arena.expr? i = some e → b'.arena.expr? i = some e
  names : ∀ {id name}, b.arena.name? id = some name → b'.arena.name? id = some name
  pushed : ∃ ids, b'.stack = b.stack.pushAll ids ∧ b'.arena.ShowsAll ps ids

theorem Extends.refl (b : Builder) : Extends b b [] :=
  ⟨rfl, rfl, rfl, Iff.rfl, id, id, [], (Segments.pushAll_nil _).symm, rfl⟩

theorem Extends.embeds (ext : Extends b b' ps) : b.arena.Embeds b'.arena := .of_grown ext.exprs ext.names

theorem Extends.trans {b'' : Builder} (first : Extends b b' ps) (second : Extends b' b'' qs) :
    Extends b b'' (ps ++ qs) where
  current := second.current.trans first.current
  arenaMarks := second.arenaMarks.trans first.arenaMarks
  definitions := second.definitions.trans first.definitions
  defines := second.defines.trans first.defines
  exprs present := second.exprs (first.exprs present)
  names present := second.names (first.names present)
  pushed := by
    obtain ⟨ids, stack, shown⟩ := first.pushed
    obtain ⟨more, stack', shown'⟩ := second.pushed
    refine ⟨ids ++ more, by rw [stack', stack, Segments.pushAll_pushAll], ?_⟩
    rw [Arena.showsAll_iff] at *
    exact List.rel_append (shown.imp fun _ _ shown => shown.embed second.embeds) shown'

theorem lt_of_expr? {i : Nat} {e : Expr} (present : b.arena.expr? i = some e) : i < b.nodes.size := by
  obtain ⟨node, found, -⟩ := Option.map_eq_some_iff.mp present
  exact (Array.getElem?_eq_some_iff.mp found).1

theorem lt_of_shows {i : Nat} (shown : b.arena.Shows p i) : i < b.nodes.size := by
  cases p with
  | terminal => exact lt_of_expr? shown
  | reference =>
    obtain ⟨_, present, -⟩ := shown
    exact lt_of_expr? present
  | action =>
    obtain ⟨_, _, present, -⟩ := shown
    exact lt_of_expr? present
  | sequence | choice | repetition | lookahead =>
    obtain ⟨_, present, -⟩ := shown
    exact lt_of_expr? present

theorem grown_expr? {stack : Segments Nat} {expr : Expr} (parts : ∀ child ∈ expr.children, child < b.nodes.size)
    (i : Nat) : (b.grown stack owner expr).arena.expr? i =
      if i = b.nodes.size then some expr else b.arena.expr? i := by
  change ({ b with stack }.allocParent owner expr).2.nodes[i]?.map Node.expr = _
  rw [allocParent_nodes (b := { b with stack }) parts]
  split
  · rfl
  · change (b.nodes[i]?.map _).map _ = b.nodes[i]?.map _
    cases b.nodes[i]? with
    | none => rfl
    | some node =>
      simp only [Option.map_some]
      split <;> rfl

theorem size_grown {stack : Segments Nat} {expr : Expr} (parts : ∀ child ∈ expr.children, child < b.nodes.size) :
    (b.grown stack owner expr).nodes.size = b.nodes.size + 1 := by
  have last : b.nodes.size < (b.grown stack owner expr).nodes.size :=
    lt_of_expr? (by rw [grown_expr? parts, if_pos rfl])
  have none : (b.grown stack owner expr).arena.expr? (b.nodes.size + 1) = none := by
    rw [grown_expr? parts, if_neg (by omega)]
    simp [arena]
  have behind := Array.getElem?_eq_none_iff.mp (Option.map_eq_none_iff.mp none)
  omega

/-- Phrases on the stack that become the parts of one phrase. -/
theorem Extends.grow {expr : Expr} {ids : List Nat} (ext : Extends b b' ps)
    (parts : ∀ child ∈ expr.children, child < b'.nodes.size) (shown : b'.arena.ShowsAll qs ids)
    (made : b'.arena.Embeds (b'.grown (b.stack.pushAll ids) owner expr).arena →
      (b'.grown (b.stack.pushAll ids) owner expr).arena.expr? b'.nodes.size = some expr →
      (b'.grown (b.stack.pushAll ids) owner expr).arena.Shows p b'.nodes.size) :
    Extends b (b'.grown (b.stack.pushAll ids) owner expr) (qs ++ [p]) := by
  have fresh : (b'.grown (b.stack.pushAll ids) owner expr).arena.expr? b'.nodes.size = some expr := by
    rw [grown_expr? parts, if_pos rfl]
  have old {i : Nat} {e : Expr} (present : b'.arena.expr? i = some e) :
      (b'.grown (b.stack.pushAll ids) owner expr).arena.expr? i = some e := by
    rw [grown_expr? parts, if_neg (Nat.ne_of_lt (lt_of_expr? present))]
    exact present
  have embeds : b'.arena.Embeds (b'.grown (b.stack.pushAll ids) owner expr).arena := .of_grown old id
  refine ⟨ext.current, ext.arenaMarks, ext.definitions, ext.defines, fun present => old (ext.exprs present), ext.names,
    ids ++ [b'.nodes.size], ?_, ?_⟩
  · exact (Segments.pushAll_pushAll ..).symm ▸ by simp [grown, pushId, allocParent, alloc, Segments.push, Segments.pushAll]
  · rw [Arena.showsAll_iff] at *
    exact List.rel_append (shown.imp fun _ _ shown => shown.embed embeds) (.cons (made embeds fresh) .nil)

/-- All phrases become the parts of one phrase. -/
theorem Extends.collect {expr : Expr} (ext : Extends b b' ps)
    (parts : ∀ child ∈ expr.children, child < b'.nodes.size)
    (made : b'.arena.Embeds (b'.grown b.stack owner expr).arena →
      (b'.grown b.stack owner expr).arena.expr? b'.nodes.size = some expr →
      (b'.grown b.stack owner expr).arena.Shows p b'.nodes.size) :
    Extends b (b'.grown b.stack owner expr) [p] := by
  have nothing : b'.arena.ShowsAll [] [] := rfl
  rw [← Segments.pushAll_nil b.stack] at *
  exact ext.grow parts nothing made

/-- Looking up a name may add a production of that name. -/
theorem extends_lookup (b : Builder) (name : String) :
    Extends b (b.lookup name).2 [] ∧ (b.lookup name).2.arena.name? (b.lookup name).1 = some name := by
  unfold lookup
  split
  · next id found =>
    refine ⟨.refl b, ?_⟩
    obtain ⟨inside, same, -⟩ := Array.findIdx?_eq_some_iff_getElem.mp found
    change b.productions[id]?.map Production.name = some name
    rw [Array.getElem?_eq_getElem inside, Option.map_some]
    exact congrArg some (beq_iff_eq.mp same)
  · refine ⟨⟨rfl, rfl, rfl, ?_, id, ?_, [], (Segments.pushAll_nil _).symm, rfl⟩, ?_⟩
    · intro id root
      simp only [create]
      rw [defines_push]
      simp
    · intro id other named
      obtain ⟨p, found, rfl⟩ := Option.map_eq_some_iff.mp named
      have inside := (Array.getElem?_eq_some_iff.mp found).1
      simp only [create, arena, Array.getElem?_push, if_neg (Nat.ne_of_lt inside), found, Option.map_some]
    · simp [create, arena]

section

variable (ext : Extends b b' ps) (opened : b.Open)

include ext opened

theorem Extends.current_eq : ∃ owner, b'.current = some owner := by
  obtain ⟨owner, current⟩ := opened.current
  exact ⟨owner, ext.current.trans current⟩

theorem Extends.terminal (t : Terminal) :
    ∃ b'', b'.apply (.terminal t) = .ok b'' ∧ Extends b b'' (ps ++ [.terminal t]) := by
  obtain ⟨owner, current⟩ := ext.current_eq opened
  obtain ⟨ids, stack, shown⟩ := ext.pushed
  refine ⟨_, pushExpr_eq current rfl, ?_⟩
  rw [stack]
  exact ext.grow nofun shown fun _ fresh => fresh

theorem Extends.reference (name : String) (memo : Bool) :
    ∃ b'', b'.apply (.reference name memo) = .ok b'' ∧ Extends b b'' (ps ++ [.reference name memo]) := by
  obtain ⟨owner, current⟩ := ext.current_eq opened
  obtain ⟨known, named⟩ := extends_lookup b' name
  have ext := ext.trans known
  rw [List.append_nil] at ext
  obtain ⟨ids, stack, shown⟩ := ext.pushed
  refine ⟨(b'.lookup name).2.grown (b.stack.pushAll ids) owner (.reference (b'.lookup name).1 memo), ?_,
    ext.grow nofun shown fun _ fresh => ⟨_, fresh, named⟩⟩
  rw [apply, pushReference, owner_of_current current, ← stack]
  exact pushExpr_eq (known.current.trans current) rfl

end

/-- Replaces the phrase on top. -/
private theorem Extends.wrapTop {operation : String} {make : Nat → Expr} (ext : Extends b b' (ps ++ [p]))
    (opened : b.Open) {q : Phrase} (parts : ∀ child, (make child).children = [child])
    (made : ∀ {a : Arena} {i id : Nat}, a.Shows p i → a.expr? id = some (make i) → a.Shows q id) :
    ∃ b'', b'.wrapTop operation make = .ok b'' ∧ Extends b b'' (ps ++ [q]) := by
  obtain ⟨owner, current⟩ := ext.current_eq opened
  obtain ⟨_, stack, shown⟩ := ext.pushed
  obtain ⟨ids, i, rfl, below, top⟩ := Arena.showsAll_concat.mp shown
  refine ⟨b'.grown (b.stack.pushAll ids) owner (make i), ?_, ext.grow ?_ below fun embeds => made (top.embed embeds)⟩
  · rw [Builder.wrapTop, owner_of_current current, stack,
      Segments.pop?_pushAll_concat opened.balanced.sound.ordered.floor_le]
    rfl
  · intro child member
    rw [parts, List.mem_singleton] at member
    exact member ▸ lt_of_shows top

theorem Extends.repetition {min max : Nat} (ext : Extends b b' (ps ++ [p])) (opened : b.Open) (ordered : min ≤ max)
    (positive : 0 < max) :
    ∃ b'', b'.apply (.repetition min max) = .ok b'' ∧ Extends b b'' (ps ++ [.repetition min max p]) := by
  rw [apply, repeatTop, if_neg (by omega)]
  exact ext.wrapTop opened (fun _ => rfl) fun top made => ⟨_, made, top⟩

theorem Extends.lookahead (ext : Extends b b' (ps ++ [p])) (opened : b.Open) (sign : Lookahead) :
    ∃ b'', b'.apply (.lookahead sign) = .ok b'' ∧ Extends b b'' (ps ++ [.lookahead sign p]) :=
  ext.wrapTop opened (fun _ => rfl) fun top made => ⟨_, made, top⟩

theorem Open.mark (opened : b.Open) : b.mark.Open where
  balanced := by
    obtain ⟨owner, current⟩ := opened.current
    exact @Balanced.step b b.mark .mark opened.balanced (congrArg Option.isSome current) rfl
  current := opened.current

/-- One phrase stands for itself, others become the parts of a phrase. -/
def joined (make : List Phrase → Phrase) : List Phrase → Phrase
  | [p] => p
  | ps => make ps

/-- The phrases in a segment become one phrase. -/
private theorem Extends.combine {make : List Nat → Expr} {made : List Phrase → Phrase} (ext : Extends b.mark b' ps)
    (opened : b.Open) (nonempty : ps ≠ []) (parts : ∀ children, (make children).children = children)
    (shows : ∀ {a : Arena} {i : Nat} {children : List Nat}, a.ShowsAll ps children → a.expr? i = some (make children) →
      a.Shows (made ps) i) : ∃ b'', b'.combine make = .ok b'' ∧ Extends b.mark b'' [joined made ps] := by
  obtain ⟨owner, current⟩ := ext.current_eq opened.mark
  obtain ⟨ids, stack, shown⟩ := ext.pushed
  have length := (Arena.showsAll_iff.mp shown).length_eq
  have size : b'.stack.size = ps.length := by
    rw [stack, length]
    simp [Segments.size, Segments.pushAll, mark, Segments.mark, Segments.floor]
  rcases ps with _ | ⟨p, _ | ⟨q, rest⟩⟩
  · exact absurd rfl nonempty
  · refine ⟨b', ?_, ext⟩
    rw [Builder.combine, owner_of_current current]
    change (if _ then _ else _) = _
    rw [if_pos (show b'.stack.size ≤ 1 from Nat.le_of_eq size)]
    rfl
  · have taken : b'.stack.popAll = (ids, b.mark.stack) := by
      rw [stack]
      exact Prod.ext (Segments.segment_pushAll_mark b.stack ids) (Segments.popAll_pushAll_mark b.stack ids)
    refine ⟨_, combine_eq current (by rw [size]; simp), ?_⟩
    rw [taken]
    refine ext.collect ?_ fun embeds => shows (shown.embed embeds)
    intro child member
    rw [parts] at member
    obtain ⟨_, -, top⟩ := Tree.exists_related (Arena.showsAll_iff.mp shown).flip member
    exact lt_of_shows top

theorem Extends.sequence (ext : Extends b.mark b' ps) (opened : b.Open) (nonempty : ps ≠ []) :
    ∃ b'', b'.apply .sequence = .ok b'' ∧ Extends b.mark b'' [joined .sequence ps] :=
  ext.combine opened nonempty (fun _ => rfl) fun parts made => ⟨_, made, parts⟩

theorem Extends.choice (ext : Extends b.mark b' ps) (opened : b.Open) (nonempty : ps ≠ []) :
    ∃ b'', b'.apply .choice = .ok b'' ∧ Extends b.mark b'' [joined .choice ps] :=
  ext.combine opened nonempty (fun _ => rfl) fun parts made => ⟨_, made, parts⟩

/-- An action takes the phrase in a segment, or the empty text. -/
theorem Extends.action (ext : Extends b.mark b' ps) (opened : b.Open) (few : ps.length ≤ 1) (name : String) :
    ∃ b'', b'.apply (.action name) = .ok b'' ∧ Extends b.mark b'' [.action name (ps.headD (.terminal .nil))] := by
  obtain ⟨owner, current⟩ := ext.current_eq opened.mark
  obtain ⟨ids, stack, shown⟩ := ext.pushed
  rcases ps with _ | ⟨p, _ | ⟨q, rest⟩⟩
  · obtain rfl : ids = [] := shown
    rw [Segments.pushAll_nil] at stack
    have popped : b'.stack.pop? = none := by
      rw [stack]
      simp [Segments.pop?, mark, Segments.mark, Segments.floor]
    have leaf : ∀ child ∈ (Expr.terminal .nil).children, child < b'.nodes.size := List.forall_mem_nil _
    have body : Extends b.mark (b'.grown b.mark.stack owner (.terminal .nil)) [.terminal .nil] :=
      ext.collect leaf fun _ fresh => fresh
    have top : (b'.grown b.mark.stack owner (.terminal .nil)).arena.Shows (.terminal .nil) b'.nodes.size := by
      rw [Arena.Shows, grown_expr? leaf, if_pos rfl]
    refine ⟨_, action_eq_of_empty current popped, ?_⟩
    rw [stack]
    refine body.collect ?_ fun embeds made => ⟨_, _, made, top.embed embeds⟩
    intro i member
    exact List.mem_singleton.mp member ▸ lt_of_shows top
  · obtain ⟨child, _, rfl, top, rfl⟩ := shown
    have popped : b'.stack.pop? = some (child, b.mark.stack) := by
      rw [stack, ← List.nil_append [child],
        Segments.pop?_pushAll_concat opened.mark.balanced.sound.ordered.floor_le, Segments.pushAll_nil]
    refine ⟨_, action_eq_of_pop current popped, ext.collect ?_ fun embeds made => ⟨_, _, made, top.embed embeds⟩⟩
    intro i member
    exact List.mem_singleton.mp member ▸ lt_of_shows top
  · exact absurd few (by simp)

/-- A mark that is set inside a production can be closed. -/
private theorem Extends.several (ext : Extends b.mark b' ps) (opened : b.Open) :
    ¬ b'.arenaMarks.length ≤ b'.reservedMarks := by
  obtain ⟨owner, current⟩ := opened.current
  have bottom := opened.balanced.sound.bottom current
  have aligned := opened.balanced.sound.aligned
  have marked : b.stack.marks ≠ [] := by
    intro none
    rw [none] at bottom
    cases bottom
  have := List.length_pos_iff.mpr marked
  rw [reservedMarks, ext.current, ext.arenaMarks]
  simp only [mark, current, Option.isSome_some, ↓reduceIte, List.length_cons]
  omega

theorem Extends.release (ext : Extends b.mark b' ps) (opened : b.Open) :
    ∃ b'', b'.apply .release = .ok b'' ∧ Extends b b'' ps := by
  obtain ⟨ids, stack, shown⟩ := ext.pushed
  have released : b'.stack.release? = some (b.stack.pushAll ids) := by
    rw [stack]
    rfl
  refine ⟨{ b' with stack := b.stack.pushAll ids, arenaMarks := b'.arenaMarks.tail }, ?_, ?_⟩
  · rw [apply, Builder.release, if_neg (ext.several opened), released]
  · exact ⟨ext.current, congrArg List.tail ext.arenaMarks, ext.definitions, ext.defines, ext.exprs, ext.names, ids, rfl,
      shown⟩

theorem Extends.reset (ext : Extends b.mark b' ps) (opened : b.Open) :
    ∃ b'', b'.apply .reset = .ok b'' ∧ Extends b b'' [] := by
  obtain ⟨ids, stack, -⟩ := ext.pushed
  have discarded : b'.stack.reset? = some b.stack := by
    rw [stack]
    simp [Segments.reset?, mark, Segments.mark, Segments.pushAll]
  have size : b'.arenaMarks.headD b'.nodes.size = b.nodes.size := by
    rw [ext.arenaMarks]
    rfl
  refine ⟨{ b' with
    stack := b.stack, nodes := b'.nodes.extract 0 b.nodes.size, arenaMarks := b'.arenaMarks.tail }, ?_, ?_⟩
  · rw [apply, Builder.reset, if_neg (ext.several opened), discarded, size]
  · refine ⟨ext.current, congrArg List.tail ext.arenaMarks, ext.definitions, ext.defines, ?_, ext.names, [],
      (Segments.pushAll_nil _).symm, rfl⟩
    -- What was there at the mark is not discarded.
    intro i e present
    have small := lt_of_expr? present
    have kept := ext.exprs present
    have below := lt_of_expr? kept
    simp only [arena, Array.getElem?_extract] at kept ⊢
    rw [if_pos (by omega), Nat.zero_add]
    exact kept

/-- Places of expressions and productions are no part of phrases. -/
private theorem Extends.respan {nodes : Array Node} {productions : Array Production} (ext : Extends b b' ps)
    (exprs : ∀ i : Nat, nodes[i]?.map Node.expr = b'.nodes[i]?.map Node.expr)
    (names : ∀ id : Nat, productions[id]?.map Production.name = b'.productions[id]?.map Production.name)
    (defines : ∀ {id root}, Defines productions id root ↔ Defines b'.productions id root) :
    Extends b { b' with nodes, productions } ps := by
  obtain ⟨ids, stack, shown⟩ := ext.pushed
  have same : ({ b' with nodes, productions } : Builder).arena = b'.arena := by
    simp only [arena, Arena.mk.injEq]
    exact ⟨funext exprs, funext names⟩
  refine ⟨ext.current, ext.arenaMarks, ext.definitions, defines.trans ext.defines, ?_, ?_, ids, stack, ?_⟩
  · rw [same]
    exact ext.exprs
  · rw [same]
    exact ext.names
  · rw [same]
    exact shown

private theorem Extends.respanProduction (ext : Extends b b' ps) (k : Nat) (f : Production → Option Span) :
    Extends b { b' with productions := b'.productions.modify k fun p => { p with span := f p } } ps := by
  refine ext.respan (fun _ => rfl) (fun id => ?_) (defines_modify_of_same (fun _ => rfl) (fun _ => rfl))
  rw [Array.getElem?_modify]
  split
  · rw [Option.map_map]
    rfl
  · rfl

private theorem Extends.modifySpan (ext : Extends b b' ps) (opened : b.Open) (f : Option Span → Span) :
    ∃ b'', b'.modifySpan f = .ok b'' ∧ Extends b b'' ps := by
  obtain ⟨owner, current⟩ := ext.current_eq opened
  cases top : b'.stack.peek? with
  | some i =>
    refine ⟨{ b' with nodes := b'.nodes.modify i fun node => { node with span := some (f node.span) } }, ?_,
      ext.respan (fun j => ?_) (fun _ => rfl) Iff.rfl⟩
    · rw [Builder.modifySpan, owner_of_current current, top]
      rfl
    · rw [Array.getElem?_modify]
      split
      · rw [Option.map_map]
        rfl
      · rfl
  | none =>
    refine ⟨_, ?_, ext.respanProduction owner fun p => some (f p.span)⟩
    rw [Builder.modifySpan, owner_of_current current, top]
    rfl

theorem Extends.setStart (ext : Extends b b' ps) (opened : b.Open) (start : Position) :
    ∃ b'', b'.apply (.setStart start) = .ok b'' ∧ Extends b b'' ps := by
  rw [apply, Builder.setStart]
  exact ext.modifySpan opened _

theorem Extends.setStop (ext : Extends b b' ps) (opened : b.Open) (stop : Position) :
    ∃ b'', b'.apply (.setStop stop) = .ok b'' ∧ Extends b b'' ps := by
  rw [apply, Builder.setStop]
  exact ext.modifySpan opened _

theorem Extends.setProductionSpan (ext : Extends b b' ps) (opened : b.Open) (span : Span) :
    ∃ b'', b'.apply (.setProductionSpan span) = .ok b'' ∧ Extends b b'' ps := by
  obtain ⟨owner, current⟩ := ext.current_eq opened
  refine ⟨_, ?_, ext.respanProduction owner fun _ => some span⟩
  rw [apply, Builder.setProductionSpan, owner_of_current current]
  rfl

/-- The production has the name and the right-hand side of the definition. -/
def Realizes (b : Builder) (d : String × Phrase) (id : Nat) : Prop :=
  b.arena.name? id = some d.1 ∧ ∃ root, Defines b.productions id root ∧ b.arena.Shows d.2 root

/-- No production is under construction, and these are the definitions so far, in order. -/
structure Outlines (b : Builder) (definitions : List (String × Phrase)) : Prop where
  balanced : b.Balanced
  idle : b.current = none
  each : List.Forall₂ b.Realizes definitions b.definitions.toList

/-- The right-hand side made of the phrases that are left on the stack. -/
def rightHand : List Phrase → Phrase
  | [] => .terminal .nil
  | ps => joined .sequence ps

variable {definitions : List (String × Phrase)}

theorem outlines_empty (actions : List String) (text : String) :
    ((Builder.empty.withActions actions).setSource text).Outlines [] where
  balanced := @Balanced.step _ _ (.setSource text) (.withActions actions .empty) rfl rfl
  idle := rfl
  each := .nil

/-- A production of this name is begun, and nothing else has changed. -/
structure Begun (b b' : Builder) (name : String) : Prop where
  opened : b'.Open
  arenaMarks : b'.arenaMarks.length = 1
  stack : b'.stack = Segments.empty.mark
  embeds : b.arena.Embeds b'.arena
  names : ∀ {id name}, b.arena.name? id = some name → b'.arena.name? id = some name
  definition : ∃ id, b'.current = some id ∧ b'.definitions = b.definitions.push id ∧ b'.arena.name? id = some name ∧
    (∃ root, Defines b'.productions id root) ∧ (∀ {root}, ¬ Defines b.productions id root) ∧
    ∀ {k root}, k ≠ id → (Defines b'.productions k root ↔ Defines b.productions k root)

theorem map_name_modify {f : Production → Production} (productions : Array Production) (k id : Nat)
    (same : ∀ p, (f p).name = p.name) :
    (productions.modify k f)[id]?.map Production.name = productions[id]?.map Production.name := by
  rw [← Array.getElem?_map, map_modify_of_same same, Array.getElem?_map]

private theorem lookup_eq (b : Builder) (name : String) : ∃ productions, (b.lookup name).2 = { b with productions } := by
  unfold lookup
  split
  · exact ⟨b.productions, rfl⟩
  · exact ⟨_, rfl⟩

/-- A definition changes the production it fills in or adds, and no other one. -/
theorem define_spec (b : Builder) (name : String) : ∃ productions, (b.define name).2 = { b with
      productions, definitions := b.definitions.push (b.define name).1 } ∧
    (∀ {id name}, b.arena.name? id = some name → productions[id]?.map Production.name = some name) ∧
    productions[(b.define name).1]?.map Production.name = some name ∧
    (∃ root, Defines productions (b.define name).1 root) ∧ (∀ {root}, ¬ Defines b.productions (b.define name).1 root) ∧
    ∀ {k root}, k ≠ (b.define name).1 → (Defines productions k root ↔ Defines b.productions k root) := by
  have same := lookup_eq b name
  obtain ⟨known, named⟩ := extends_lookup b name
  unfold define
  generalize b.lookup name = found at *
  obtain ⟨id, b₁⟩ := found
  obtain ⟨productions, rfl⟩ := same
  have kept (f : Production → Production) (renames : ∀ p, (f p).name = p.name) {k : Nat} {other : String}
      (known' : b.arena.name? k = some other) : (productions.modify id f)[k]?.map Production.name = some other :=
    (map_name_modify productions id k renames).trans (known.names known')
  have defines {k root : Nat} := @Extends.defines _ _ _ known k root
  dsimp only at *
  split
  · -- The name is taken, so a production is added for this definition.
    have size : (productions.modify id ({ · with duplicated := true })).size = productions.size := Array.size_modify
    simp only [create, size]
    refine ⟨_, rfl, ?_, by rw [← size, Array.getElem?_push_size]; rfl, ?_, ?_, ?_⟩
    · intro k other known'
      have present := kept ({ · with duplicated := true }) (fun _ => rfl) known'
      obtain ⟨p, found, -⟩ := Option.map_eq_some_iff.mp present
      have inside := (Array.getElem?_eq_some_iff.mp found).1
      rw [Array.getElem?_push, if_neg (Nat.ne_of_lt inside)]
      exact present
    · exact ⟨0, defines_push.mpr (.inr ⟨size.symm, rfl, rfl⟩)⟩
    · intro root before
      exact Nat.lt_irrefl _ (defines.mpr before).lt_size
    · intro k root other
      rw [defines_push, defines_modify_of_same (f := ({ · with duplicated := true })) (fun _ => rfl) (fun _ => rfl),
        defines]
      exact or_iff_left fun last => other (last.1.trans size)
  · next free =>
    refine ⟨_, rfl, fun known' => kept ({ · with defined := true }) (fun _ => rfl) known', ?_, ?_, ?_, ?_⟩
    · exact (map_name_modify (f := ({ · with defined := true })) productions id id fun _ => rfl).trans named
    · obtain ⟨p, found, -⟩ := Option.map_eq_some_iff.mp named
      exact ⟨p.root, defines_modify.mpr (by rw [if_pos rfl]; exact ⟨p, found, rfl, rfl⟩)⟩
    · intro root before
      exact free (isDefined_iff.mpr ⟨root, defines.mpr before⟩)
    · intro k root other
      rw [defines_modify, if_neg (Ne.symm other), defines]

theorem Outlines.begin (outlines : b.Outlines definitions) (name : String) :
    ∃ b', b.apply (.startProduction name) = .ok b' ∧ b.Begun b' name := by
  have sound := outlines.balanced.sound
  have started : b.apply (.startProduction name) =
      .ok { (b.define name).2 with current := some (b.define name).1 }.mark := by
    rw [apply, startProduction, outlines.idle]
  have balanced := @Balanced.step _ _ (.startProduction name) outlines.balanced rfl started
  obtain ⟨productions, same, names, definition⟩ := define_spec b name
  have bare := sound.idle outlines.idle
  have unmarked : b.arenaMarks = [] := by
    rw [← List.length_eq_zero_iff, sound.aligned, bare]
    rfl
  rw [same] at started balanced
  exact ⟨_, started, ⟨balanced, _, rfl⟩, congrArg (List.length · + 1) unmarked, congrArg Segments.mark bare,
    .of_grown id names, names, _, rfl, rfl, definition⟩

/-- A new node leaves the others as they are. -/
theorem embeds_grown {expr : Expr} {stack : Segments Nat}
    (parts : ∀ child ∈ expr.children, child < b.nodes.size) : b.arena.Embeds (b.grown stack owner expr).arena := by
  refine .of_grown (fun present => ?_) id
  rw [grown_expr? parts, if_neg (Nat.ne_of_lt (lt_of_expr? present))]
  exact present

/-- The right-hand side of a production, made of the expressions on the stack. -/
theorem rightHandSide_shows {ids : List Nat} (owner : Nat) (shown : b.arena.ShowsAll ps ids) :
    ∃ nodes, (b.rightHandSide owner ids).2 = { b with nodes } ∧
      b.arena.Embeds ({ b with nodes } : Builder).arena ∧
      ({ b with nodes } : Builder).arena.Shows (rightHand ps) (b.rightHandSide owner ids).1 := by
  rcases ps with _ | ⟨p, _ | ⟨q, rest⟩⟩
  · obtain rfl : ids = [] := shown
    have leaf : ∀ child ∈ (Expr.terminal .nil).children, child < b.nodes.size := List.forall_mem_nil _
    have embeds : b.arena.Embeds (b.grown b.stack owner (.terminal .nil)).arena := embeds_grown leaf
    rw [rightHandSide, alloc_eq_allocParent rfl]
    exact ⟨_, rfl, embeds, (grown_expr? leaf _).trans (if_pos rfl)⟩
  · obtain ⟨i, _, rfl, top, rfl⟩ := shown
    exact ⟨b.nodes, rfl, .refl _, top⟩
  · have parts : ∀ child ∈ (Expr.sequence ids).children, child < b.nodes.size := by
      intro child member
      obtain ⟨_, -, top⟩ := Tree.exists_related (Arena.showsAll_iff.mp shown).flip member
      exact lt_of_shows top
    have embeds : b.arena.Embeds (b.grown b.stack owner (.sequence ids)).arena := embeds_grown parts
    have items := shown.embed embeds
    obtain ⟨i, _, rfl, -, j, others, rfl, -⟩ := shown
    exact ⟨_, rfl, embeds, _, (grown_expr? parts _).trans (if_pos rfl), items⟩

theorem Outlines.finish {b₁ : Builder} {name : String} (outlines : b.Outlines definitions) (begun : b.Begun b₁ name)
    (ext : Extends b₁ b' ps) (balanced : b'.Balanced) :
    ∃ b'', b'.apply .endProduction = .ok b'' ∧ b''.Outlines (definitions ++ [(name, rightHand ps)]) := by
  obtain ⟨id, current, listed, named, ⟨dummy, defined⟩, fresh, others⟩ := begun.definition
  obtain ⟨ids, stack, shown⟩ := ext.pushed
  rw [begun.stack] at stack
  have taken : b'.stack.popAll = (ids, Segments.empty.mark) := by
    rw [stack]
    exact Prod.ext (Segments.segment_pushAll_mark .empty ids) (Segments.popAll_pushAll_mark .empty ids)
  obtain ⟨nodes, built, embeds, root⟩ := @rightHandSide_shows { b' with stack := Segments.empty.mark } _ _ id shown
  generalize made : ({ b' with stack := Segments.empty.mark } : Builder).rightHandSide id ids = side at built root
  have ended : b'.apply .endProduction = .ok { b' with
      nodes, productions := b'.productions.modify id fun p => { p with root := side.1 }
      stack := .empty, arenaMarks := b'.arenaMarks.tail, current := none } := by
    rw [apply, endProduction, owner_of_current (ext.current.trans current)]
    simp only [bind, Except.bind, taken, made, built]
    rfl
  have closed : Step.balances b' .endProduction = true := by
    rw [Step.balances, ext.arenaMarks, begun.arenaMarks]
    rfl
  refine ⟨_, ended, @Balanced.step b' _ .endProduction balanced closed ended, rfl, ?_⟩
  have same : ({ b' with
      nodes, productions := b'.productions.modify id fun p => { p with root := side.1 }
      stack := .empty, arenaMarks := b'.arenaMarks.tail, current := none } : Builder).arena =
        ({ b' with stack := Segments.empty.mark, nodes } : Builder).arena := by
    simp only [arena, Arena.mk.injEq, true_and]
    exact funext fun k => map_name_modify b'.productions id k fun _ => rfl
  unfold Realizes
  rw [same]
  simp only [ext.definitions, listed, Array.toList_push]
  refine List.rel_append (outlines.each.imp ?_) (.cons ⟨ext.names named, side.1, ?_, root⟩ .nil)
  · rintro ⟨other, p⟩ k ⟨named', before, defines, shown'⟩
    have apart : k ≠ id := fun itself => fresh (itself ▸ defines)
    refine ⟨ext.names (begun.names named'), before, ?_, ?_⟩
    · rw [defines_modify, if_neg (Ne.symm apart), ext.defines, others apart]
      exact defines
    · exact ((shown'.embed begun.embeds).embed ext.embeds).embed embeds
  · obtain ⟨p, found, flag, -⟩ := ext.defines.mpr defined
    rw [defines_modify, if_pos rfl]
    exact ⟨p, found, flag, rfl⟩

/-- Operators are made with the parts they need. -/
theorem Balanced.regular (balanced : b.Balanced) {i : Nat} {e : Expr} (present : b.arena.expr? i = some e) :
    e.Regular := by
  refine balanced.invariant (motive := fun b => ∀ i e, b.arena.expr? i = some e → e.Regular) ?_ ?_ i e present
  · intro i e present
    simp [arena, Builder.empty] at present
  · intro b b' sound change regular
    cases change with
    | @grow _ expr _ current takes regular' =>
      intro i e present
      have parts : ∀ child ∈ expr.children, child < b.nodes.size := by
        intro child member
        exact (sound.free_of_mem current (takes.all ▸ List.mem_append_right _ member)).lt_size
      rw [grown_expr? parts] at present
      split at present
      · cases present
        exact regular'
      · exact regular i e present
    | mark => exact regular
    | release released =>
      obtain ⟨_, _, _, _, -, -, rfl⟩ := sound.release_eq released
      exact regular
    | reset discarded =>
      obtain ⟨_, _, size, _, -, -, rfl⟩ := sound.reset_eq discarded
      intro i e present
      refine regular i e ?_
      simp only [arena, Array.getElem?_extract] at present
      split at present
      · rwa [Nat.zero_add] at present
      · cases present
    | revise => exact regular
    | respan =>
      intro i e present
      refine regular i e ?_
      simp only [arena, Array.getElem?_modify] at present
      split at present
      · rw [Option.map_map] at present
        exact present
      · exact present
    | begin => exact regular
    | finish => exact regular
    | adjust => exact regular
    | clear =>
      intro i e present
      simp [arena, Builder.clear] at present

/-- Every node says something, since its parts stand before it. -/
theorem Balanced.exists_shows (balanced : b.Balanced) {j : Nat} (small : j < b.nodes.size) :
    ∃ p, b.arena.Shows p j := by
  have linked := balanced.sound.linked
  induction j using Nat.strongRecOn with
  | _ j ih =>
    have found := Array.getElem?_eq_getElem small
    have present : b.arena.expr? j = some b.nodes[j].expr := congrArg (Option.map Node.expr) found
    have regular := balanced.regular present
    have part {child : Nat} (member : child ∈ b.nodes[j].expr.children) : ∃ p, b.arena.Shows p child := by
      obtain ⟨earlier, part, inside, -⟩ := linked.part found member
      exact ih child earlier (Array.getElem?_eq_some_iff.mp inside).1
    have parts {children : List Nat} (all : ∀ child ∈ children, child ∈ b.nodes[j].expr.children) :
        ∃ ps, b.arena.ShowsAll ps children := by
      induction children with
      | nil => exact ⟨[], rfl⟩
      | cons child rest tail =>
        obtain ⟨p, shown⟩ := part (all child (List.mem_cons_self ..))
        obtain ⟨ps, shown'⟩ := tail fun k member => all k (List.mem_cons_of_mem _ member)
        exact ⟨p :: ps, child, rest, rfl, shown, shown'⟩
    have target {target : Nat} {memo : Bool} (same : b.nodes[j].expr = .reference target memo) :
        ∃ name, b.arena.name? target = some name := by
      have inside := linked.target found same
      exact ⟨_, congrArg (Option.map _) (Array.getElem?_eq_getElem inside)⟩
    generalize b.nodes[j].expr = e at *
    cases e with
    | terminal t => exact ⟨.terminal t, present⟩
    | reference =>
      obtain ⟨name, named⟩ := target rfl
      exact ⟨.reference name _, _, present, named⟩
    | action =>
      obtain ⟨p, shown⟩ := part (List.mem_singleton_self _)
      exact ⟨.action _ p, _, _, present, shown⟩
    | undo => exact absurd regular id
    | sequence =>
      obtain ⟨ps, shown⟩ := parts fun _ member => member
      exact ⟨.sequence ps, _, present, shown⟩
    | choice =>
      obtain ⟨ps, shown⟩ := parts fun _ member => member
      exact ⟨.choice ps, _, present, shown⟩
    | repetition =>
      obtain ⟨p, shown⟩ := part (List.mem_singleton_self _)
      exact ⟨.repetition _ _ p, _, present, shown⟩
    | lookahead =>
      obtain ⟨p, shown⟩ := part (List.mem_singleton_self _)
      exact ⟨.lookahead _ p, _, present, shown⟩

/-- Between productions every definition so far has a right-hand side. -/
theorem Balanced.exists_outlines (balanced : b.Balanced) (idle : b.current = none) :
    ∃ definitions, b.Outlines definitions := by
  have sound := balanced.sound
  have each {ids : List Nat} (all : ∀ id ∈ ids, id ∈ b.definitions.toList) :
      ∃ definitions, List.Forall₂ b.Realizes definitions ids := by
    induction ids with
    | nil => exact ⟨[], .nil⟩
    | cons id rest ih =>
      obtain ⟨definitions, tail⟩ := ih fun k member => all k (List.mem_cons_of_mem _ member)
      obtain ⟨root, defines⟩ := isDefined_iff.mp (sound.defined.mp (all id (List.mem_cons_self ..)))
      have free := sound.finished ⟨by rw [idle]; nofun, defines⟩
      obtain ⟨p, shown⟩ := balanced.exists_shows free.lt_size
      have named : b.arena.name? id = some (b.nameOf id) := by
        obtain ⟨production, found, -⟩ := defines
        simp only [arena, nameOf, found, Option.map_some, Option.getD_some]
      exact ⟨(b.nameOf id, p) :: definitions, .cons ⟨named, root, defines, shown⟩ tail⟩
  obtain ⟨definitions, each⟩ := each fun _ member => member
  exact ⟨definitions, balanced, idle, each⟩

end Builder

end Packrat

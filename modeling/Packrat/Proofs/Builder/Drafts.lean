import Packrat.Proofs.Builder.Phrases

/-! # Drafts

A draft is what a builder has been told so far, apart from places and from where things lie in the arena: the
definitions that are finished, and the phrases on the stack. What an operation makes of it depends on the draft alone
(`Draft.apply`), and a builder in balanced use holds what its draft says (`Builder.Reflects.apply`). So two builders
that are told the same in different surroundings hold the same.
-/

namespace Packrat

namespace Segments

variable {α β : Type} {R : α → β → Prop} {s : Segments α} {t t' : Segments β}

theorem pop?_of_all {xs : List α} {x : α} (all : s.all = xs ++ [x]) (within : s.floor ≤ xs.length) :
    s.pop? = some (x, ⟨xs.toArray, s.marks⟩) := by
  have split : s = (Segments.mk xs.toArray s.marks).pushAll ([] ++ [x]) := by
    obtain ⟨items, marks⟩ := s
    have same : items = (xs ++ [x]).toArray := by rw [← all]; rfl
    simp [pushAll, same]
  rw [split]
  exact pop?_pushAll_concat within

theorem exists_of_forall₂_concat {l : List α} {ys : List β} {y : β} (all : List.Forall₂ R l (ys ++ [y])) :
    ∃ xs x, l = xs ++ [x] ∧ List.Forall₂ R xs ys ∧ R x y := by
  obtain ⟨x, _, top, rest, last⟩ := List.forall₂_cons_right_iff.mp (List.forall₂_drop_append _ _ _ all)
  cases rest
  refine ⟨_, x, ?_, List.forall₂_take_append _ _ _ all, top⟩
  rw [← last, List.take_append_drop]

/-- The stacks have the same segments, with related items. -/
structure Related (R : α → β → Prop) (s : Segments α) (t : Segments β) : Prop where
  marks : s.marks = t.marks
  all : List.Forall₂ R s.all t.all

namespace Related

variable (related : Related R s t)

include related

theorem mono {R' : α → β → Prop} (weaker : ∀ x y, R x y → R' x y) : Related R' s t :=
  ⟨related.marks, related.all.imp weaker⟩

theorem size_items : s.items.size = t.items.size := by
  simpa [Segments.all] using related.all.length_eq

theorem floor : s.floor = t.floor := congrArg (List.headD · 0) related.marks

theorem size : s.size = t.size := by
  rw [Segments.size, Segments.size, related.size_items, related.floor]

theorem push {x : α} {y : β} (top : R x y) : Related R (s.push x) (t.push y) := by
  refine ⟨related.marks, ?_⟩
  rw [all_push, all_push]
  exact List.rel_append related.all (.cons top .nil)

theorem pushAll {xs : List α} {ys : List β} (more : List.Forall₂ R xs ys) :
    Related R (s.pushAll xs) (t.pushAll ys) := by
  refine ⟨related.marks, ?_⟩
  rw [all_pushAll, all_pushAll]
  exact List.rel_append related.all more

theorem mark : Related R s.mark t.mark :=
  ⟨congr (congrArg List.cons related.size_items) related.marks, related.all⟩

theorem popAll : List.Forall₂ R s.popAll.1 t.popAll.1 ∧ Related R s.popAll.2 t.popAll.2 := by
  have top : List.Forall₂ R s.segment t.segment := by
    rw [segment_eq_drop, segment_eq_drop, related.floor]
    exact List.forall₂_drop _ related.all
  refine ⟨top, related.marks, ?_⟩
  simp only [Segments.popAll, Segments.all, Array.toList_extract, List.extract_eq_take_drop, List.drop_zero,
    Nat.sub_zero, related.floor]
  exact List.forall₂_take _ related.all

theorem pop?_none (nothing : t.pop? = none) : s.pop? = none := by
  unfold Segments.pop? at nothing ⊢
  rw [related.floor, related.size_items]
  split
  · next above =>
    rw [if_pos above, Option.map_eq_none_iff, Array.back?_eq_none_iff] at nothing
    simp [nothing] at above
  · rfl

theorem pop?_some {y : β} (popped : t.pop? = some (y, t')) :
    ∃ x s', s.pop? = some (x, s') ∧ R x y ∧ Related R s' t' := by
  have takes := Takes.pop popped
  have all := related.all
  rw [takes.all] at all
  obtain ⟨xs, x, split, below, top⟩ := exists_of_forall₂_concat all
  have within : s.floor ≤ xs.length := by
    rw [related.floor, below.length_eq]
    exact takes.floor
  exact ⟨x, _, pop?_of_all split within, top, related.marks.trans takes.marks.symm, below⟩

end Related

end Segments

/-- What a builder has been told so far. -/
structure Draft where
  definitions : List (String × Phrase) := []
  /-- The name of the production under construction. -/
  current : Option String := none
  stack : Segments Phrase := .empty

namespace Draft

def push (d : Draft) (p : Phrase) : Draft := { d with stack := d.stack.push p }

/-- Replaces the current segment by one phrase, if there is more than one in it. -/
def combine (d : Draft) (make : List Phrase → Phrase) : Draft :=
  if d.stack.size ≤ 1 then d else { d with stack := d.stack.popAll.2.push (make d.stack.popAll.1) }

/-- Replaces the phrase on top. -/
def wrapTop (d : Draft) (make : Phrase → Phrase) : Draft :=
  match d.stack.pop? with
  | some (p, stack) => { d with stack := stack.push (make p) }
  | none => d

/-- Hands the phrase on top, or the empty text in an empty segment, to the action. -/
def action (d : Draft) (name : String) : Draft :=
  match d.stack.pop? with
  | some (p, stack) => { d with stack := stack.push (.action name p) }
  | none => d.push (.action name (.terminal .nil))

/-- What an operation that is accepted makes of a draft. -/
def apply (d : Draft) : Builder.Step → Draft
  | .startProduction name => { d with current := some name, stack := d.stack.mark }
  | .endProduction => ⟨d.definitions ++ [(d.current.getD "", Builder.rightHand d.stack.popAll.1)], none, .empty⟩
  | .terminal t => d.push (.terminal t)
  | .tokens images caseSensitive =>
    images.foldl (fun d image => d.push (.terminal (.token image caseSensitive))) d
  | .reference name memo => d.push (.reference name memo)
  | .sequence => d.combine .sequence
  | .choice => d.combine .choice
  | .repetition min max => d.wrapTop (.repetition min max)
  | .lookahead sign => d.wrapTop (.lookahead sign)
  | .action name => d.action name
  | .mark => { d with stack := d.stack.mark }
  | .release => { d with stack := d.stack.release?.getD d.stack }
  | .reset => { d with stack := d.stack.reset?.getD d.stack }
  | .setStart _ | .setStop _ | .setProductionSpan _ | .setSource _ => d
  | .clear => {}

end Draft

/-- An expression reflects what it said, as long as the arena holds what came before it. -/
theorem Arena.Shows.keep {a a' : Arena} {size : Nat}
    (parts : ∀ {i e}, a.expr? i = some e → ∀ child ∈ e.children, child < i)
    (same : ∀ i < size, a'.expr? i = a.expr? i) (names : ∀ id, a'.name? id = a.name? id) {p : Phrase} {i : Nat}
    (small : i < size) (shown : a.Shows p i) : a'.Shows p i := by
  have each {items : List Phrase} (ih : ∀ item ∈ items, ∀ {i}, i < size → a.Shows item i → a'.Shows item i)
      {children : List Nat} (below : ∀ child ∈ children, child < size) (all : a.ShowsAll items children) :
      a'.ShowsAll items children := by
    rw [showsAll_iff] at *
    induction all with
    | nil => exact .nil
    | cons head _ tail =>
      exact .cons (ih _ (List.mem_cons_self ..) (below _ (List.mem_cons_self ..)) head)
        (tail (fun item member => ih item (List.mem_cons_of_mem _ member))
          fun child member => below child (List.mem_cons_of_mem _ member))
  have inside {i : Nat} {e : Expr} (small : i < size) (present : a.expr? i = some e) :
      a'.expr? i = some e ∧ ∀ child ∈ e.children, child < size :=
    ⟨(same i small).trans present, fun child member => Nat.lt_trans (parts present child member) small⟩
  induction p using Phrase.induction generalizing i with
  | terminal t => exact (inside small shown).1
  | reference name memo =>
    obtain ⟨target, present, named⟩ := shown
    exact ⟨target, (inside small present).1, (names target).trans named⟩
  | action name body ih =>
    obtain ⟨child, bound, present, part⟩ := shown
    obtain ⟨present, below⟩ := inside small present
    exact ⟨child, bound, present, ih (below _ (List.mem_singleton_self _)) part⟩
  | sequence items ih =>
    obtain ⟨children, present, all⟩ := shown
    obtain ⟨present, below⟩ := inside small present
    exact ⟨children, present, each (fun item member _ => ih item member) below all⟩
  | choice items ih =>
    obtain ⟨children, present, all⟩ := shown
    obtain ⟨present, below⟩ := inside small present
    exact ⟨children, present, each (fun item member _ => ih item member) below all⟩
  | repetition min max body ih =>
    obtain ⟨child, present, part⟩ := shown
    obtain ⟨present, below⟩ := inside small present
    exact ⟨child, present, ih (below _ (List.mem_singleton_self _)) part⟩
  | lookahead sign body ih =>
    obtain ⟨child, present, part⟩ := shown
    obtain ⟨present, below⟩ := inside small present
    exact ⟨child, present, ih (below _ (List.mem_singleton_self _)) part⟩

namespace Builder

variable {b b' : Builder} {d : Draft} {p : Phrase} {ps : List Phrase}

/-- The builder holds what the draft says. -/
structure Reflects (b : Builder) (d : Draft) : Prop where
  current : Option.Rel (fun id name => b.arena.name? id = some name) b.current d.current
  stack : d.stack.Related b.arena.Shows b.stack
  definitions : ∃ ids, b.definitions.toList = ids ++ b.current.toList ∧ List.Forall₂ b.Realizes d.definitions ids

theorem Realizes.keep {definition : String × Phrase} {id : Nat} (realizes : b.Realizes definition id)
    (embeds : b.arena.Embeds b'.arena)
    (names : ∀ {id name}, b.arena.name? id = some name → b'.arena.name? id = some name)
    (defines : ∀ {root}, Defines b.productions id root → Defines b'.productions id root) :
    b'.Realizes definition id := by
  obtain ⟨named, root, defined, shown⟩ := realizes
  exact ⟨names named, root, defines defined, shown.embed embeds⟩

private theorem rel_mono {α β : Type} {R R' : α → β → Prop} {x : Option α} {y : Option β} (rel : Option.Rel R x y)
    (weaker : ∀ a b, R a b → R' a b) : Option.Rel R' x y := by
  cases rel with
  | none => exact .none
  | some holds => exact .some (weaker _ _ holds)

private theorem forall₂_of_mem_right {α β : Type} {R R' : α → β → Prop} {xs : List α} {ys : List β}
    (all : List.Forall₂ R xs ys) (weaker : ∀ x, ∀ y ∈ ys, R x y → R' x y) : List.Forall₂ R' xs ys := by
  induction all with
  | nil => exact .nil
  | cons head _ ih =>
    have tail := ih fun x y member => weaker x y (List.mem_cons_of_mem _ member)
    exact .cons (weaker _ _ (List.mem_cons_self ..) head) tail

/-- The production under construction is defined last. -/
private theorem apart_of_listed {ids : List Nat} {id : Nat} (sound : b.Sound)
    (listed : b.definitions.toList = ids ++ b.current.toList) (member : id ∈ ids) : b.current ≠ some id := by
  intro current
  have distinct := sound.definitions
  rw [listed, current, Option.toList_some] at distinct
  exact (List.nodup_append.mp distinct).2.2 id member id (List.mem_singleton_self id) rfl

namespace Reflects

variable (reflects : b.Reflects d)

include reflects

/-- A new node over the phrases that are taken from the stack. -/
theorem grow {owner : Nat} {expr : Expr} {stack : Segments Nat} {below : Segments Phrase}
    (left : below.Related b.arena.Shows stack) (parts : ∀ child ∈ expr.children, child < b.nodes.size)
    (made : b.arena.Embeds (b.grown stack owner expr).arena →
      (b.grown stack owner expr).arena.expr? b.nodes.size = some expr →
      (b.grown stack owner expr).arena.Shows p b.nodes.size) :
    (b.grown stack owner expr).Reflects { d with stack := below.push p } := by
  have fresh : (b.grown stack owner expr).arena.expr? b.nodes.size = some expr := by
    rw [grown_expr? parts, if_pos rfl]
  have embeds : b.arena.Embeds (b.grown stack owner expr).arena := embeds_grown parts
  obtain ⟨ids, listed, each⟩ := reflects.definitions
  refine ⟨reflects.current, ?_, ids, listed, each.imp fun _ _ realizes => realizes.keep embeds id id⟩
  exact (left.mono fun _ _ shown => shown.embed embeds).push (made embeds fresh)

/-- Phrases that are pushed on the stack. -/
theorem pushed (ext : b.Extends b' ps) : b'.Reflects { d with stack := d.stack.pushAll ps } := by
  obtain ⟨ids, stack, shown⟩ := ext.pushed
  have kept : d.stack.Related b'.arena.Shows b.stack := reflects.stack.mono fun _ _ shown => shown.embed ext.embeds
  obtain ⟨listed, same, each⟩ := reflects.definitions
  refine ⟨?_, ?_, listed, ?_, each.imp fun _ _ realizes => realizes.keep ext.embeds ext.names ext.defines.mpr⟩
  · rw [ext.current]
    exact rel_mono reflects.current fun _ _ => ext.names
  · rw [stack]
    exact kept.pushAll (Arena.showsAll_iff.mp shown)
  · rw [ext.definitions, ext.current]
    exact same

theorem combine {make : List Nat → Expr} {made : List Phrase → Phrase} (parts : ∀ items, (make items).children = items)
    (shows : ∀ {a : Arena} {i : Nat} {ps children}, a.ShowsAll ps children → a.expr? i = some (make children) →
      a.Shows (made ps) i) (combined : b.combine make = .ok b') : b'.Reflects (d.combine made) := by
  obtain ⟨few, rfl⟩ | ⟨owner, -, several, rfl⟩ := of_combine combined
  · rw [Draft.combine, if_pos (reflects.stack.size ▸ few)]
    exact reflects
  · rw [Draft.combine, if_neg (Nat.not_le_of_lt (reflects.stack.size ▸ several))]
    obtain ⟨items, left⟩ := reflects.stack.popAll
    refine reflects.grow left ?_ fun embeds fresh => shows ((Arena.showsAll_iff.mpr items).embed embeds) fresh
    intro child member
    rw [parts] at member
    obtain ⟨_, -, shown⟩ := Tree.exists_related items.flip member
    exact lt_of_shows shown

theorem wrapTop {operation : String} {make : Nat → Expr} {made : Phrase → Phrase}
    (parts : ∀ child, (make child).children = [child])
    (shows : ∀ {a : Arena} {i id : Nat} {q : Phrase}, a.Shows q i → a.expr? id = some (make i) → a.Shows (made q) id)
    (wrapped : b.wrapTop operation make = .ok b') : b'.Reflects (d.wrapTop made) := by
  obtain ⟨owner, child, stack, -, popped, rfl⟩ := of_wrapTop wrapped
  obtain ⟨q, below, popped', top, left⟩ := reflects.stack.pop?_some popped
  rw [Draft.wrapTop, popped']
  refine reflects.grow left ?_ fun embeds fresh => shows (top.embed embeds) fresh
  intro i member
  rw [parts, List.mem_singleton] at member
  exact member ▸ lt_of_shows top

theorem action {name : String} (handed : b.action name = .ok b') : b'.Reflects (d.action name) := by
  obtain ⟨owner, b₁, child, stack, -, ⟨popped, rfl⟩ | ⟨popped, rfl, rfl, rfl⟩, rfl⟩ := of_action handed
  · obtain ⟨q, below, popped', top, left⟩ := reflects.stack.pop?_some popped
    rw [Draft.action, popped']
    refine reflects.grow left ?_ fun embeds fresh => ⟨_, _, fresh, top.embed embeds⟩
    intro i member
    exact List.mem_singleton.mp member ▸ lt_of_shows top
  · rw [Draft.action, reflects.stack.pop?_none popped]
    have leaf : ∀ child ∈ (Expr.terminal .nil).children, child < b.nodes.size := List.forall_mem_nil _
    have body : (b.grown b.stack owner (.terminal .nil)).Reflects { d with stack := d.stack.push (.terminal .nil) } :=
      reflects.grow reflects.stack leaf fun _ fresh => fresh
    have top : (b.grown b.stack owner (.terminal .nil)).arena.Shows (.terminal .nil) b.nodes.size := by
      rw [Arena.Shows, grown_expr? leaf, if_pos rfl]
    have left : d.stack.Related (b.grown b.stack owner (.terminal .nil)).arena.Shows b.stack :=
      reflects.stack.mono fun _ _ shown => shown.embed (embeds_grown leaf)
    refine body.grow left ?_ fun embeds fresh => ⟨_, _, fresh, top.embed embeds⟩
    intro i member
    exact List.mem_singleton.mp member ▸ lt_of_shows top

theorem release (sound : b.Sound) (released : b.release = .ok b') :
    b'.Reflects { d with stack := d.stack.release?.getD d.stack } := by
  obtain ⟨floor, marks, size, sizes, above, -, rfl⟩ := sound.release_eq released
  have same : d.stack.release? = some { d.stack with marks } := by
    rw [Segments.release?, reflects.stack.marks, above]
  rw [same]
  exact ⟨reflects.current, ⟨rfl, reflects.stack.all⟩, reflects.definitions⟩

/-- What a mark has found in the arena is still there when it is gone back to. -/
theorem reset (sound : b.Sound) (discarded : b.reset = .ok b') :
    b'.Reflects { d with stack := d.stack.reset?.getD d.stack } := by
  obtain ⟨floor, marks, size, sizes, above, sizes', rfl⟩ := sound.reset_eq discarded
  have same : d.stack.reset? = some ⟨d.stack.items.extract 0 floor, marks⟩ := by
    rw [Segments.reset?, reflects.stack.marks, above]
  have here : (floor, size) ∈ b.stack.marks.zip b.arenaMarks := by
    rw [above, sizes']
    exact List.mem_cons_self ..
  have parts {i : Nat} {e : Expr} (present : b.arena.expr? i = some e) : ∀ child ∈ e.children, child < i := by
    intro child member
    obtain ⟨node, found, rfl⟩ := Option.map_eq_some_iff.mp present
    exact (sound.linked.part found member).1
  have exprs : ∀ i < size, ({ b with nodes := b.nodes.extract 0 size } : Builder).arena.expr? i = b.arena.expr? i := by
    intro i small
    simp only [arena, Array.getElem?_extract, Nat.sub_zero, Nat.zero_add, Nat.lt_min, small, true_and]
    split
    · rfl
    · next beyond => rw [Array.getElem?_eq_none (Nat.le_of_not_lt beyond)]
  have kept {q : Phrase} {i : Nat} (small : i < size) (shown : b.arena.Shows q i) :
      ({ b with nodes := b.nodes.extract 0 size } : Builder).arena.Shows q i :=
    Arena.Shows.keep parts exprs (fun _ => rfl) small shown
  obtain ⟨ids, listed, each⟩ := reflects.definitions
  rw [same]
  refine ⟨reflects.current, ⟨rfl, ?_⟩, ids, listed, ?_⟩
  · have below : List.Forall₂ b.arena.Shows (d.stack.all.take floor) (b.stack.all.take floor) :=
      List.forall₂_take floor reflects.stack.all
    have all {α : Type} (s : Segments α) : (⟨s.items.extract 0 floor, marks⟩ : Segments α).all = s.all.take floor := by
      simp [Segments.all]
    rw [Option.getD_some, all, all]
    exact forall₂_of_mem_right below fun q i member shown => kept (sound.below here i member) shown
  · refine forall₂_of_mem_right each fun definition id member realizes => ?_
    obtain ⟨named, root, defines, shown⟩ := realizes
    have finished : b.Finished id root := ⟨apart_of_listed sound listed member, defines⟩
    exact ⟨named, root, defines, kept (sound.keeps here finished) shown⟩

theorem startProduction {name : String} (started : b.startProduction name = .ok b') :
    b'.Reflects { d with current := some name, stack := d.stack.mark } := by
  obtain ⟨idle, rfl⟩ := of_startProduction started
  obtain ⟨productions, same, names, named, -, fresh, others⟩ := define_spec b name
  obtain ⟨ids, listed, each⟩ := reflects.definitions
  rw [idle, Option.toList_none, List.append_nil] at listed
  rw [same]
  have embeds : b.arena.Embeds ({ b with productions } : Builder).arena := .of_grown id names
  refine ⟨.some named, (reflects.stack.mono fun _ _ shown => shown.embed embeds).mark, ids, ?_, each.imp ?_⟩
  · simp only [mark, Array.toList_push, listed, Option.toList_some]
  · intro definition k realizes
    refine realizes.keep embeds names fun {root} defines => (others fun itself => ?_).mpr defines
    exact fresh (itself ▸ defines)

theorem endProduction (sound : b.Sound) (closed : b.arenaMarks.length ≤ 1) (ended : b.endProduction = .ok b') :
    b'.Reflects ⟨d.definitions ++ [(d.current.getD "", rightHand d.stack.popAll.1)], none, .empty⟩ := by
  obtain ⟨owner, current, rest⟩ := current_of_ok ended
  obtain ⟨name, named, same⟩ : ∃ name, b.arena.name? owner = some name ∧ d.current = some name := by
    have reflected := reflects.current
    rw [current] at reflected
    cases told : d.current with
    | none =>
      rw [told] at reflected
      cases reflected
    | some name =>
      rw [told] at reflected
      cases reflected with
      | some named => exact ⟨name, named, rfl⟩
  obtain ⟨ids, listed, each⟩ := reflects.definitions
  obtain ⟨items, -⟩ := reflects.stack.popAll
  obtain ⟨nodes, built, embeds, root⟩ :=
    @rightHandSide_shows { b with stack := b.stack.popAll.2 } _ _ owner (Arena.showsAll_iff.mpr items)
  have stack : b.stack.popAll.2.release?.getD b.stack.popAll.2 = .empty := by
    have marks := sound.outermost current closed
    simp [Segments.popAll, Segments.release?, Segments.floor, marks, Segments.empty]
  generalize made : ({ b with stack := b.stack.popAll.2 } : Builder).rightHandSide owner b.stack.popAll.1 = side
    at built root
  simp only [made, built, stack] at rest
  obtain rfl := Except.ok.inj rest
  have arena : ({ b with
      nodes, productions := b.productions.modify owner fun p => { p with root := side.1 }
      stack := .empty, arenaMarks := b.arenaMarks.tail, current := none } : Builder).arena =
        ({ b with stack := b.stack.popAll.2, nodes } : Builder).arena := by
    simp only [Builder.arena, Arena.mk.injEq, true_and]
    exact funext fun k => map_name_modify b.productions owner k fun _ => rfl
  refine ⟨.none, ⟨rfl, .nil⟩, ids ++ [owner], ?_, ?_⟩
  · rw [listed, current, Option.toList_some, Option.toList_none, List.append_nil]
  · unfold Realizes
    rw [arena, same]
    refine List.rel_append (forall₂_of_mem_right each fun definition k member realizes => ?_)
      (.cons ⟨named, side.1, ?_, root⟩ .nil)
    · obtain ⟨named', before, defines, shown⟩ := realizes
      have apart := apart_of_listed sound listed member
      refine ⟨named', before, ?_, shown.embed embeds⟩
      rw [defines_modify, if_neg ?_]
      · exact defines
      · rintro rfl
        exact apart current
    · have last : owner ∈ b.definitions.toList := by
        rw [listed, current]
        exact List.mem_append_right ids (List.mem_singleton_self owner)
      obtain ⟨_, p, found, flag, -⟩ := isDefined_iff.mp (sound.defined.mp last)
      rw [defines_modify, if_pos rfl]
      exact ⟨p, found, flag, rfl⟩

end Reflects

/-- In balanced use the builder holds what the draft says. -/
structure Holds (b : Builder) (d : Draft) : Prop extends Reflects b d where
  balanced : b.Balanced

theorem holds_empty (names : List String) (text : String) :
    ((Builder.empty.withActions names).setSource text).Holds {} where
  current := .none
  stack := ⟨rfl, .nil⟩
  definitions := ⟨[], rfl, .nil⟩
  balanced := (outlines_empty names text).balanced

theorem Holds.pushTokens {images : List String} {caseSensitive : Bool} (holds : b.Holds d)
    (pushed : b.pushTokens images caseSensitive = .ok b') :
    b'.Reflects (images.foldl (fun d image => d.push (.terminal (.token image caseSensitive))) d) := by
  unfold Builder.pushTokens at pushed
  induction images generalizing b d with
  | nil =>
    cases pushed
    exact holds.toReflects
  | cons image rest ih =>
    rw [List.foldlM_cons] at pushed
    cases first : b.pushTerminal (.token image caseSensitive) with
    | error e =>
      rw [first] at pushed
      cases pushed
    | ok b₁ =>
      rw [first] at pushed
      have applied : b.apply (.terminal (.token image caseSensitive)) = .ok b₁ := first
      obtain ⟨owner, current, -⟩ := current_of_ok first
      obtain ⟨_, same, ext⟩ := (Extends.refl b).terminal ⟨holds.balanced, owner, current⟩ (.token image caseSensitive)
      cases same.symm.trans applied
      exact ih ⟨holds.toReflects.pushed ext, .step holds.balanced rfl applied⟩ pushed

/-- What an accepted step makes of a builder is what it makes of the draft. -/
theorem Holds.apply {step : Step} (holds : b.Holds d) (balances : step.balances b = true)
    (applied : b.apply step = .ok b') : b'.Holds (d.apply step) := by
  refine ⟨?_, .step holds.balanced balances applied⟩
  have sound := holds.balanced.sound
  have reflects := holds.toReflects
  have opened {α : Type} {f : Nat → Except BuildError α} {x : α} (done : (b.owner >>= f) = .ok x) : b.Open := by
    obtain ⟨owner, current, -⟩ := current_of_ok done
    exact ⟨holds.balanced, owner, current⟩
  -- What a step pushes is told by what it extends the builder with.
  have extended {ps : List Phrase} (accepted : ∃ b', b.apply step = .ok b' ∧ b.Extends b' ps) :
      b'.Reflects { d with stack := d.stack.pushAll ps } := by
    obtain ⟨_, same, ext⟩ := accepted
    cases same.symm.trans applied
    exact reflects.pushed ext
  have placed (accepted : ∃ b', b.apply step = .ok b' ∧ b.Extends b' []) : b'.Reflects d := by
    have same := extended accepted
    rwa [Segments.pushAll_nil] at same
  have refl := Extends.refl b
  cases step with
  | startProduction name => exact reflects.startProduction applied
  | endProduction => exact reflects.endProduction sound (of_decide_eq_true balances) applied
  | terminal t => exact extended (refl.terminal (opened applied) t)
  | tokens images caseSensitive => exact holds.pushTokens applied
  | reference name memo => exact extended (refl.reference (opened applied) name memo)
  | sequence => exact reflects.combine (fun _ => rfl) (fun parts made => ⟨_, made, parts⟩) applied
  | choice => exact reflects.combine (fun _ => rfl) (fun parts made => ⟨_, made, parts⟩) applied
  | repetition min max =>
    exact reflects.wrapTop (fun _ => rfl) (fun top made => ⟨_, made, top⟩) (of_repeatTop applied).2
  | lookahead sign => exact reflects.wrapTop (fun _ => rfl) (fun top made => ⟨_, made, top⟩) applied
  | action name => exact reflects.action applied
  | mark =>
    obtain rfl := Except.ok.inj applied
    exact ⟨reflects.current, reflects.stack.mark, reflects.definitions⟩
  | release => exact reflects.release sound applied
  | reset => exact reflects.reset sound applied
  | setStart start => exact placed (refl.setStart (opened applied) start)
  | setStop stop => exact placed (refl.setStop (opened applied) stop)
  | setProductionSpan span => exact placed (refl.setProductionSpan (opened applied) span)
  | setSource text =>
    obtain rfl := Except.ok.inj applied
    exact ⟨reflects.current, reflects.stack, reflects.definitions⟩
  | clear =>
    obtain rfl := Except.ok.inj applied
    exact ⟨.none, ⟨rfl, .nil⟩, [], rfl, .nil⟩

theorem Holds.idle (holds : b.Holds d) (idle : b.current = none) : d = { definitions := d.definitions } := by
  obtain ⟨definitions, current, items, marks⟩ := d
  have bare := holds.balanced.sound.idle idle
  have told := holds.current
  have related := holds.stack
  rw [idle] at told
  rw [bare] at related
  obtain ⟨same, all⟩ := related
  cases told
  obtain rfl : marks = [] := same
  have none : items.toList = [] := List.forall₂_nil_right_iff.mp all
  rw [Array.toList_eq_nil_iff.mp none]
  rfl

/-- Between productions the definitions of the draft are those of the builder. -/
theorem Holds.outlines (holds : b.Holds d) (idle : b.current = none) : b.Outlines d.definitions where
  balanced := holds.balanced
  idle := idle
  each := by
    obtain ⟨ids, listed, each⟩ := holds.definitions
    rw [idle, Option.toList_none, List.append_nil] at listed
    rw [listed]
    exact each

end Builder

namespace Draft

variable {d : Draft} {earlier : List (String × Phrase)}

/-- The draft behind definitions that were finished before. -/
def after (d : Draft) (earlier : List (String × Phrase)) : Draft := { d with definitions := earlier ++ d.definitions }

theorem push_after (p : Phrase) : (d.after earlier).push p = (d.push p).after earlier := rfl

theorem combine_after (make : List Phrase → Phrase) :
    (d.after earlier).combine make = (d.combine make).after earlier := by
  unfold combine
  change (if d.stack.size ≤ 1 then _ else _) = _
  split <;> rfl

theorem wrapTop_after (make : Phrase → Phrase) : (d.after earlier).wrapTop make = (d.wrapTop make).after earlier := by
  unfold wrapTop
  change (match d.stack.pop? with | some (p, stack) => _ | none => _) = _
  split <;> rfl

theorem action_after (name : String) : (d.after earlier).action name = (d.action name).after earlier := by
  unfold action
  change (match d.stack.pop? with | some (p, stack) => _ | none => _) = _
  split <;> rfl

/-- What was defined before is left alone, unless all is forgotten. -/
theorem apply_after {step : Builder.Step} (kept : step ≠ .clear) :
    (d.after earlier).apply step = (d.apply step).after earlier := by
  cases step with
  | tokens images caseSensitive =>
    simp only [apply]
    induction images generalizing d with
    | nil => rfl
    | cons image rest ih =>
      rw [List.foldl_cons, List.foldl_cons, push_after]
      exact ih nofun
  | endProduction => exact congrArg (Draft.mk · none .empty) (List.append_assoc ..)
  | sequence => exact combine_after _
  | choice => exact combine_after _
  | repetition => exact wrapTop_after _
  | lookahead => exact wrapTop_after _
  | action => exact action_after _
  | clear => exact absurd rfl kept
  | startProduction | terminal | reference | mark | release | reset | setStart | setStop | setProductionSpan |
    setSource => rfl

end Draft

namespace Builder

variable {b b' b₁ b₁' : Builder} {earlier : List (String × Phrase)} {step step' : Step}

/-- Both builders have been told the same, but that there are earlier definitions in the second one. -/
def Alike (earlier : List (String × Phrase)) (b b' : Builder) : Prop :=
  ∃ d : Draft, b.Holds d ∧ b'.Holds (d.after earlier)

theorem Reflects.isSome {d : Draft} (reflects : b.Reflects d) : b.current.isSome = d.current.isSome := by
  have told := reflects.current
  generalize b.current = id at told
  generalize d.current = name at told
  cases told <;> rfl

theorem Alike.isSome (alike : Alike earlier b b') : b'.current.isSome = b.current.isSome := by
  obtain ⟨d, holds, holds'⟩ := alike
  exact holds'.isSome.trans holds.isSome.symm

theorem Alike.marks (alike : Alike earlier b b') : b'.arenaMarks.length = b.arenaMarks.length := by
  obtain ⟨d, holds, holds'⟩ := alike
  have same : b'.stack.marks = d.stack.marks := holds'.stack.marks.symm
  rw [holds.balanced.sound.aligned, holds'.balanced.sound.aligned, same, holds.stack.marks]

/-- Both builders accept a step that says the same. -/
theorem Alike.apply (alike : Alike earlier b b') (same : ∀ d : Draft, d.apply step' = d.apply step)
    (kept : step' ≠ .clear) (balances : step.balances b = true) (balances' : step'.balances b' = true)
    (applied : b.apply step = .ok b₁) (applied' : b'.apply step' = .ok b₁') : Alike earlier b₁ b₁' := by
  obtain ⟨d, holds, holds'⟩ := alike
  refine ⟨d.apply step, holds.apply balances applied, ?_⟩
  have told := holds'.apply balances' applied'
  rwa [Draft.apply_after kept, same] at told

/-- The step neither begins nor ends a production, and forgets nothing. -/
def Step.inner : Step → Bool
  | .startProduction _ | .endProduction | .clear => false
  | _ => true

theorem Step.kept_of_inner (inner : step.inner = true) : step ≠ .clear := by
  rintro rfl
  cases inner

theorem Step.balances_of_inner (inner : step.inner = true) (current : b.current.isSome) : step.balances b = true := by
  cases step with
  | mark => exact current
  | endProduction => cases inner
  | _ => rfl

theorem current_apply {d : Draft} (inner : step.inner = true) : (d.apply step).current = d.current := by
  have wrapped (d : Draft) (make : Phrase → Phrase) : (d.wrapTop make).current = d.current := by
    unfold Draft.wrapTop
    split <;> rfl
  have combined (d : Draft) (make : List Phrase → Phrase) : (d.combine make).current = d.current := by
    unfold Draft.combine
    split <;> rfl
  cases step with
  | startProduction | endProduction | clear => cases inner
  | tokens images caseSensitive =>
    simp only [Draft.apply]
    induction images generalizing d with
    | nil => rfl
    | cons image rest ih =>
      rw [List.foldl_cons, ih inner]
      rfl
  | sequence => exact combined d _
  | choice => exact combined d _
  | repetition => exact wrapped d _
  | lookahead => exact wrapped d _
  | action =>
    unfold Draft.apply Draft.action
    dsimp only
    split <;> rfl
  | terminal | reference | mark | release | reset | setStart | setStop | setProductionSpan | setSource => rfl

theorem Alike.isSome_apply (alike : Alike earlier b b') (inner : step.inner = true) (current : b.current.isSome)
    (applied : b.apply step = .ok b₁) : b₁.current.isSome := by
  obtain ⟨d, holds, -⟩ := alike
  have after := holds.apply (Step.balances_of_inner inner current) applied
  rw [after.isSome, current_apply inner, ← holds.isSome]
  exact current

/-- Between productions the definitions of the first one come behind the earlier ones. -/
theorem Alike.outlines (alike : Alike earlier b b') (idle : b.current = none) :
    ∃ definitions, b.Outlines definitions ∧ b'.Outlines (earlier ++ definitions) := by
  have idle' : b'.current = none := by
    rw [← Option.isNone_iff_eq_none, ← Option.not_isSome, alike.isSome, idle]
    rfl
  obtain ⟨d, holds, holds'⟩ := alike
  exact ⟨d.definitions, holds.outlines idle, holds'.outlines idle'⟩

end Builder

end Packrat

import Packrat.Proofs.Builder.Build
import Packrat.Proofs.Builder.Phrases

/-! # No node is lost

In balanced use every node of a builder is a part of another one, unless it lies on the stack or is the right-hand
side of a finished production. At every mark this held of the nodes up to there, so it holds again when what came
behind the mark is discarded. A grammar that is built has no node that is not below one of its roots.
-/

namespace Packrat

namespace Builder

variable {b b' : Builder} {floor size : Nat}

/-- Up to `size`, every node is a part of another one there, unless it lies on the stack below `floor` or is the
right-hand side of a finished production. -/
def Anchors (b : Builder) (floor size : Nat) : Prop := ∀ j, j < size →
  j ∈ b.stack.all.take floor ∨ (∃ id, b.Finished id j) ∨
    ∃ above e, above < size ∧ b.arena.expr? above = some e ∧ j ∈ e.children

structure Anchored (b : Builder) : Prop where
  /-- The production under construction is flagged already. -/
  current : ∀ {id}, b.current = some id → ∃ root, Defines b.productions id root
  whole : b.Anchors b.stack.all.length b.nodes.size
  sizes : (b.nodes.size :: b.arenaMarks).Pairwise (· ≥ ·)
  /-- Behind a mark, the stack holds nodes made behind the mark only. -/
  marks : ∀ {floor size}, (floor, size) ∈ b.stack.marks.zip b.arenaMarks →
    b.Anchors floor size ∧ ∀ item ∈ b.stack.all.drop floor, size ≤ item

/-- Nodes that are anchored stay so if nothing that anchors them is lost. -/
theorem Anchors.mono {floor' : Nat} (anchors : b.Anchors floor size)
    (stack : ∀ item ∈ b.stack.all.take floor, item < size →
      item ∈ b'.stack.all.take floor' ∨ (∃ id, b'.Finished id item) ∨
        ∃ above e, above < size ∧ b'.arena.expr? above = some e ∧ item ∈ e.children)
    (finished : ∀ {id root}, b.Finished id root → b'.Finished id root)
    (exprs : ∀ {i e}, i < size → b.arena.expr? i = some e → b'.arena.expr? i = some e) : b'.Anchors floor' size := by
  intro j small
  rcases anchors j small with listed | ⟨id, done⟩ | ⟨above, e, inside, present, member⟩
  · exact stack j listed small
  · exact .inr (.inl ⟨id, finished done⟩)
  · exact .inr (.inr ⟨above, e, inside, exprs inside present, member⟩)

/-- A new node takes its parts from behind the innermost mark. -/
theorem Anchored.grow {owner : Nat} {expr : Expr} {stack : Segments Nat} (anchored : b.Anchored) (sound : b.Sound)
    (current : b.current = some owner) (takes : b.stack.Takes expr.children stack) :
    (b.grown stack owner expr).Anchored := by
  have parts : ∀ child ∈ expr.children, child < b.nodes.size := by
    intro child member
    exact (sound.free_of_mem current (takes.all ▸ List.mem_append_right _ member)).lt_size
  have pushed : (b.grown stack owner expr).stack.all = stack.all ++ [b.nodes.size] :=
    Segments.all_push stack b.nodes.size
  have more : (b.grown stack owner expr).nodes.size = b.nodes.size + 1 := size_grown parts
  have exprs {i : Nat} {e : Expr} (present : b.arena.expr? i = some e) :
      (b.grown stack owner expr).arena.expr? i = some e := by
    rw [grown_expr? parts, if_neg (Nat.ne_of_lt (lt_of_expr? present))]
    exact present
  constructor
  case current => exact anchored.current
  case whole =>
    intro j small
    rw [pushed, List.take_of_length_le (Nat.le_refl _), more] at *
    by_cases last : j = b.nodes.size
    · exact .inl (List.mem_append_right _ (last ▸ List.mem_singleton_self _))
    rcases anchored.whole j (by omega) with listed | done | ⟨above, e, inside, present, member⟩
    · rw [List.take_of_length_le (Nat.le_refl _), takes.all] at listed
      rcases List.mem_append.mp listed with listed | listed
      · exact .inl (List.mem_append_left _ listed)
      · refine .inr (.inr ⟨b.nodes.size, expr, Nat.lt_succ_self _, ?_, listed⟩)
        rw [grown_expr? parts, if_pos rfl]
    · exact .inr (.inl done)
    · exact .inr (.inr ⟨above, e, Nat.lt_succ_of_lt inside, exprs present, member⟩)
  case sizes =>
    obtain ⟨largest, sorted⟩ := List.pairwise_cons.mp anchored.sizes
    refine List.pairwise_cons.mpr ⟨fun size member => ?_, sorted⟩
    rw [more]
    exact Nat.le_succ_of_le (largest size member)
  case marks =>
    intro floor size member
    change (floor, size) ∈ stack.marks.zip b.arenaMarks at member
    rw [takes.marks] at member
    obtain ⟨anchors, behind⟩ := anchored.marks member
    have low := sound.ordered.mark_le (List.of_mem_zip member).1
    have := takes.floor
    refine ⟨anchors.mono (fun item listed _ => .inl ?_) id fun _ => exprs, ?_⟩
    · rw [pushed, List.take_append_of_le_length (by omega), takes.below low]
      exact listed
    · intro item listed
      rw [pushed, List.drop_append_of_le_length (by omega), List.mem_append, List.mem_singleton] at listed
      rcases listed with listed | rfl
      · refine behind item ?_
        rw [takes.all, List.drop_append_of_le_length (by omega)]
        exact List.mem_append_left _ listed
      · exact (List.pairwise_cons.mp anchored.sizes).1 size (List.of_mem_zip member).2

theorem Anchored.mark (anchored : b.Anchored) : b.mark.Anchored where
  current := anchored.current
  whole := anchored.whole
  sizes := List.pairwise_cons.mpr ⟨fun size member => by
    rcases List.mem_cons.mp member with rfl | member
    · exact Nat.le_refl _
    · exact (List.pairwise_cons.mp anchored.sizes).1 size member, anchored.sizes⟩
  marks member := by
    rcases List.mem_cons.mp member with same | member
    · cases same
      refine ⟨anchored.whole, fun item behind => ?_⟩
      change item ∈ b.stack.all.drop b.stack.items.size at behind
      rw [Segments.all, List.drop_of_length_le (Nat.le_of_eq Array.length_toList)] at behind
      cases behind
    · exact anchored.marks member

theorem Anchored.release (anchored : b.Anchored) (sound : b.Sound) (released : b.release = .ok b') : b'.Anchored := by
  obtain ⟨floor, marks, size, sizes, above, sizes', rfl⟩ := sound.release_eq released
  have sorted := anchored.sizes
  rw [sizes'] at sorted
  obtain ⟨largest, sorted⟩ := List.pairwise_cons.mp sorted
  refine ⟨anchored.current, anchored.whole, ?_, fun member => anchored.marks ?_⟩
  · exact List.pairwise_cons.mpr ⟨fun size member => largest size (List.mem_cons_of_mem _ member),
      (List.pairwise_cons.mp sorted).2⟩
  · rw [above, sizes']
    exact List.mem_cons_of_mem _ member

/-- What was anchored at a mark needs nothing behind it. -/
theorem Anchored.reset (anchored : b.Anchored) (sound : b.Sound) (discarded : b.reset = .ok b') : b'.Anchored := by
  obtain ⟨floor, marks, size, sizes, above, sizes', rfl⟩ := sound.reset_eq discarded
  have all : (⟨b.stack.items.extract 0 floor, marks⟩ : Segments Nat).all = b.stack.all.take floor := by
    simp [Segments.all]
  have sorted := anchored.sizes
  rw [sizes'] at sorted
  obtain ⟨largest, sorted⟩ := List.pairwise_cons.mp sorted
  have least := largest size (List.mem_cons_self ..)
  have more : (b.nodes.extract 0 size).size = size := by
    rw [Array.size_extract]
    omega
  have exprs {i : Nat} {e : Expr} (small : i < size) (present : b.arena.expr? i = some e) :
      (b.nodes.extract 0 size)[i]?.map Node.expr = some e := by
    rw [Array.getElem?_extract, if_pos (by omega), Nat.zero_add]
    exact present
  have kept {floor' size' : Nat} (member : (floor', size') ∈ b.stack.marks.zip b.arenaMarks) (low : floor' ≤ floor)
      (least : size' ≤ size) : ({ b with
        stack := ⟨b.stack.items.extract 0 floor, marks⟩, nodes := b.nodes.extract 0 size, arenaMarks := sizes } :
          Builder).Anchors floor' size' := by
    refine (anchored.marks member).1.mono (fun item listed _ => .inl ?_) id fun small => exprs (by omega)
    rw [all, List.take_take, Nat.min_eq_left low]
    exact listed
  have here : (floor, size) ∈ b.stack.marks.zip b.arenaMarks := by
    rw [above, sizes']
    exact List.mem_cons_self ..
  constructor
  case current => exact anchored.current
  case whole =>
    have whole := kept here (Nat.le_refl _) (Nat.le_refl _)
    rw [more]
    intro j small
    have anchor := whole j small
    rw [all, List.take_take, Nat.min_self] at anchor
    rw [all, List.take_of_length_le (Nat.le_refl _)]
    exact anchor
  case sizes =>
    rw [more]
    exact sorted
  case marks =>
    intro floor' size' member
    have below : (floor', size') ∈ b.stack.marks.zip b.arenaMarks := by
      rw [above, sizes']
      exact List.mem_cons_of_mem _ member
    have ordered := sound.ordered
    rw [Segments.Ordered, above] at ordered
    have low := (List.pairwise_cons.mp (List.pairwise_cons.mp ordered).2).1 floor' (List.of_mem_zip member).1
    have least := (List.pairwise_cons.mp sorted).1 size' (List.of_mem_zip member).2
    refine ⟨kept below low least, fun item behind => (anchored.marks below).2 item ?_⟩
    rw [all, List.drop_take] at behind
    exact List.mem_of_mem_take behind

theorem Anchored.revise {productions : Array Production} (anchored : b.Anchored)
    (same : ∀ {id root}, Defines productions id root ↔ Defines b.productions id root) :
    { b with productions }.Anchored := by
  have kept {floor size : Nat} (anchors : b.Anchors floor size) : { b with productions }.Anchors floor size :=
    anchors.mono (fun _ listed _ => .inl listed) (fun done => ⟨done.1, same.mpr done.2⟩) fun _ present => present
  refine ⟨fun current => ?_, kept anchored.whole, anchored.sizes, fun member => (anchored.marks member).imp_left kept⟩
  obtain ⟨root, defines⟩ := anchored.current current
  exact ⟨root, same.mpr defines⟩

theorem Anchored.begin {productions : Array Production} {id : Nat} (anchored : b.Anchored) (sound : b.Sound)
    (idle : b.current = none) (fresh : b.isDefined id = false) (defined : ∃ root, Defines productions id root)
    (others : ∀ {k root}, k ≠ id → (Defines productions k root ↔ Defines b.productions k root)) :
    ({ b with productions, definitions := b.definitions.push id, current := some id } : Builder).mark.Anchored := by
  have bare := sound.idle idle
  have unmarked : b.arenaMarks = [] := by
    rw [← List.length_eq_zero_iff, sound.aligned, bare]
    rfl
  refine Anchored.mark ⟨fun current => Option.some.inj current ▸ defined, ?_, anchored.sizes, ?_⟩
  · refine anchored.whole.mono (fun _ listed _ => .inl listed) ?_ fun _ present => present
    rintro k root ⟨-, defines⟩
    have other : k ≠ id := by
      rintro rfl
      rw [isDefined_iff.mpr ⟨root, defines⟩] at fresh
      cases fresh
    exact ⟨fun same => other (Option.some.inj same).symm, (others other).mpr defines⟩
  · intro floor size member
    change (floor, size) ∈ b.stack.marks.zip b.arenaMarks at member
    rw [unmarked, List.zip_nil_right] at member
    cases member

theorem Anchored.finish {owner root : Nat} (anchored : b.Anchored) (current : b.current = some owner)
    (left : b.stack.all = [root]) : (b.finished owner root).Anchored := by
  refine ⟨nofun, anchored.whole.mono ?_ ?_ fun _ present => present, List.pairwise_singleton .., nofun⟩
  · intro item listed _
    rw [left] at listed
    obtain rfl := List.mem_singleton.mp (List.mem_of_mem_take listed)
    obtain ⟨-, p, found, defined, -⟩ := anchored.current current
    refine .inr (.inl ⟨owner, nofun, defines_modify.mpr ?_⟩)
    rw [if_pos rfl]
    exact ⟨p, found, defined, rfl⟩
  · rintro k root' ⟨busy, defines⟩
    have other : owner ≠ k := by
      rintro rfl
      exact busy current
    refine ⟨nofun, defines_modify.mpr ?_⟩
    rw [if_neg other]
    exact defines

theorem Anchored.respan {top : Nat} {f : Node → Option Span} (anchored : b.Anchored) :
    { b with nodes := b.nodes.modify top fun node => { node with span := f node } }.Anchored := by
  have same : ({ b with nodes := b.nodes.modify top fun node => { node with span := f node } } : Builder).arena =
      b.arena := by
    simp only [arena, Arena.mk.injEq, and_true]
    refine funext fun i => ?_
    rw [Array.getElem?_modify]
    split
    · rw [Option.map_map]
      rfl
    · rfl
  have kept {floor size : Nat} (anchors : b.Anchors floor size) :
      { b with nodes := b.nodes.modify top fun node => { node with span := f node } }.Anchors floor size :=
    anchors.mono (fun _ listed _ => .inl listed) id fun _ present => same ▸ present
  refine ⟨anchored.current, ?_, ?_, fun member => (anchored.marks member).imp_left kept⟩
  · rw [Array.size_modify]
    exact kept anchored.whole
  · rw [Array.size_modify]
    exact anchored.sizes

theorem anchored_of_no_nodes (nodes : b.nodes = #[]) (marks : b.arenaMarks = []) (idle : b.current = none) :
    b.Anchored := by
  refine ⟨fun current => ?_, fun j small => ?_, ?_, fun member => ?_⟩
  · cases idle.symm.trans current
  · rw [nodes] at small
    cases small
  · rw [marks]
    exact List.pairwise_singleton ..
  · rw [marks, List.zip_nil_right] at member
    cases member

theorem Anchored.change (anchored : b.Anchored) (sound : b.Sound) (change : Change b b') : b'.Anchored := by
  cases change with
  | grow current takes => exact anchored.grow sound current takes
  | mark current => exact anchored.mark
  | release released => exact anchored.release sound released
  | reset discarded => exact anchored.reset sound discarded
  | revise more same => exact anchored.revise same
  | respan => exact anchored.respan
  | begin idle more fresh defined others => exact anchored.begin sound idle fresh defined others
  | finish current left => exact anchored.finish current left
  | adjust => exact { anchored with }
  | clear => exact anchored_of_no_nodes rfl rfl rfl

theorem Balanced.anchored (balanced : Balanced b) : b.Anchored :=
  balanced.invariant (anchored_of_no_nodes rfl rfl rfl) fun sound change anchored => anchored.change sound change

/-- Every node is a part of another one or the right-hand side of a production. The productions on the list may still
lack a right-hand side if they have no definition. -/
def Covers (b : Builder) (pending : List Nat) : Prop := ∀ j, j < b.nodes.size →
  (∃ id p, b.productions[id]? = some p ∧ (p.defined = true ∨ id ∉ pending) ∧ p.root = j) ∨
    ∃ above e, b.arena.expr? above = some e ∧ j ∈ e.children

theorem Balanced.covers (balanced : b.Balanced) (idle : b.current = none) (pending : List Nat) : b.Covers pending := by
  intro j small
  rcases balanced.anchored.whole j small with listed | ⟨id, -, p, found, defined, root⟩ | ⟨above, e, -, part⟩
  · rw [balanced.sound.idle idle] at listed
    cases List.mem_of_mem_take listed
  · exact .inl ⟨id, p, found, .inl defined, root⟩
  · exact .inr ⟨above, e, part⟩

theorem Covers.fill {id : Nat} {rest : List Nat} (covers : b.Covers (id :: rest)) (inside : id < b.productions.size)
    (once : id ∉ rest) : (b.fill id).Covers rest := by
  have others {k : Nat} {p : Production} (known : p.defined = true ∨ k ∉ id :: rest) : p.defined = true ∨ k ∉ rest :=
    known.imp_right fun outside member => outside (List.mem_cons_of_mem _ member)
  unfold Builder.fill
  split
  · intro j small
    exact (covers j small).imp_left fun ⟨k, p, found, known, root⟩ => ⟨k, p, found, others known, root⟩
  · next free =>
    intro j small
    change j < (b.nodes.push _).size at small
    rw [Array.size_push] at small
    by_cases last : j = b.nodes.size
    · refine .inl ⟨id, { b.productions[id] with root := b.nodes.size }, ?_, .inr once, last.symm⟩
      change (b.productions.modify id _)[id]? = _
      rw [Array.getElem?_modify, if_pos rfl, Array.getElem?_eq_getElem inside]
      rfl
    · rcases covers j (by omega) with ⟨k, p, found, known, root⟩ | ⟨above, e, present, member⟩
      · have other : id ≠ k := by
          rintro rfl
          refine known.elim (fun defined => free ?_) fun outside => outside (List.mem_cons_self ..)
          rw [isDefined, found]
          exact defined
        refine .inl ⟨k, p, ?_, others known, root⟩
        change (b.productions.modify id _)[k]? = _
        rw [Array.getElem?_modify, if_neg other]
        exact found
      · refine .inr ⟨above, e, ?_, member⟩
        change (b.nodes.push _)[above]?.map Node.expr = _
        rw [Array.getElem?_push, if_neg (Nat.ne_of_lt (lt_of_expr? present))]
        exact present

theorem Balanced.covers_fillUndefined (balanced : b.Balanced) (idle : b.current = none) : b.fillUndefined.Covers [] :=
  fillUndefined_induction (fun inside once covers => covers.fill inside once) (balanced.covers idle _)

/-- Before the undo scopes are put in, every node is reached from a root. -/
theorem Balanced.rooted_assembled (balanced : b.Balanced) (idle : b.current = none) {j : Nat}
    (small : j < b.assembled.nodes.size) : b.assembled.Rooted j := by
  have sound := balanced.sound
  have linked := (sound.filled_fillUndefined idle).linked
  have covers := balanced.covers_fillUndefined idle
  rw [show b.assembled.nodes.size = b.fillUndefined.nodes.size from Array.size_map] at small
  -- Parts stand before what they are parts of, so the last nodes come first.
  induction left : b.fillUndefined.nodes.size - j using Nat.strongRecOn generalizing j with
  | _ left ih =>
    rcases covers j small with ⟨id, p, found, -, rfl⟩ | ⟨above, e, present, member⟩
    · have inside := (Array.getElem?_eq_some_iff.mp found).1
      rw [size_fillUndefined] at inside
      refine @Grammar.Rooted.root _ (b.finalOrder.idxOf id) _ ?_
      rw [Grammar.root?, sound.assembled_productions, List.getElem?_idxOf (sound.mem_finalOrder.mpr inside),
        Option.bind_some, found]
      rfl
    · obtain ⟨node, found, rfl⟩ := Option.map_eq_some_iff.mp present
      have later := (linked.part found member).1
      have inside := (Array.getElem?_eq_some_iff.mp found).1
      have stored : b.assembled.nodes[above]? = some (renumber b.finalOrder.idxOf node) := by
        rw [assembled_nodes, found]
        rfl
      refine .part (ih _ ?_ inside rfl) stored ?_
      · omega
      · rw [renumber_children]
        exact member

end Builder

/-- Every node of a grammar that is built is reached from a root. -/
theorem Builder.Balanced.rooted {b : Builder} {g : Grammar} (balanced : b.Balanced) (built : b.build = .ok g) {j : Nat}
    (small : j < g.nodes.size) : g.Rooted j := by
  obtain ⟨idle, rfl⟩ := eq_of_built built
  have wellFormed := balanced.sound.wellFormed_assembled idle
  refine wellFormed.injectUndo_induction (motive := fun g => ∀ j < g.nodes.size, g.Rooted j) ?_
    (fun j small => balanced.rooted_assembled idle small) j small
  intro g i wellFormed rooted _ all j small
  have attached := wellFormed.attached rooted
  by_cases last : j = g.nodes.size
  · exact last ▸ wellFormed.rooted_wrapper attached rfl rooted
  · obtain ⟨e, present⟩ : ∃ e, (g.splice i .undo).2.expr? j = some e := ⟨_, Grammar.expr?_of_lt small⟩
    obtain ⟨same, -⟩ | ⟨-, e', before, -⟩ := wellFormed.expr?_of_splice attached present
    · exact absurd same last
    · obtain ⟨node, found, -⟩ := Grammar.node_of_expr? before
      exact (all j (Array.getElem?_eq_some_iff.mp found).1).splice rfl

end Packrat

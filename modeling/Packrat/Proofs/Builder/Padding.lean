import Packrat.Proofs.Builder.Numbering
import Packrat.Proofs.Builder.Outlined

/-! # Builders with any number of productions

Every definition of a name that has one already adds a production. So a builder between productions can be given as many
more of them as there are to be, and what it holds stays as it is.
-/

namespace Packrat.Builder

variable {b b' : Builder} {name : String} {count : Nat}

/-- `b'` is `b` with `count` more definitions of `name`, each with an empty right-hand side. -/
structure Pads (b : Builder) (name : String) (count : Nat) (b' : Builder) : Prop where
  balanced : b'.Balanced
  idle : b'.current = none
  entries : b.entries <+: b'.entries
  exprs : ∀ {i e}, b'.arena.expr? i = some e → b.arena.expr? i = some e ∨ e = .terminal .nil
  definitions : ∃ more, b'.definitions.toList = b.definitions.toList ++ more ∧ more.length = count
  others : ∀ {id other}, b.arena.name? id = some other → other ≠ name →
    b'.arena.name? id = some other ∧ ∀ {root}, Defines b'.productions id root ↔ Defines b.productions id root

/-- A production that is started and ended at once has the empty text as its right-hand side. -/
theorem run_definition (idle : b.current = none) (bare : b.stack = .empty) (unmarked : b.arenaMarks = []) {id : Nat}
    {productions : Array Production}
    (defined : b.define name = (id, { b with productions, definitions := b.definitions.push id })) :
    b.runBalanced? [.startProduction name, .endProduction] = some { b with
      productions := productions.modify id fun p => { p with root := b.nodes.size }
      definitions := b.definitions.push id
      nodes := b.nodes.push { expr := .terminal .nil, owner := id } } := by
  have started : b.apply (.startProduction name) =
      .ok { b with productions, definitions := b.definitions.push id, current := some id }.mark := by
    rw [apply, startProduction, idle, defined]
  obtain ⟨_, _, _, _, _, _, _⟩ := b
  cases idle
  cases bare
  cases unmarked
  rw [runBalanced?, started]
  rfl

theorem Pads.refl (balanced : b.Balanced) (idle : b.current = none) : b.Pads name 0 b where
  balanced := balanced
  idle := idle
  entries := List.prefix_refl _
  exprs := .inl
  definitions := ⟨[], (List.append_nil _).symm, rfl⟩
  others named _ := ⟨named, Iff.rfl⟩

theorem Pads.more (pads : b.Pads name count b') : ∃ b'', b.Pads name (count + 1) b'' := by
  have sound := pads.balanced.sound
  have bare := sound.idle pads.idle
  have unmarked : b'.arenaMarks = [] := by
    rw [← List.length_eq_zero_iff, sound.aligned, bare]
    rfl
  obtain ⟨productions, same, names, called, -, -, untouched⟩ := define_spec b' name
  have ran := run_definition pads.idle bare unmarked (Prod.ext rfl same)
  refine ⟨_, pads.balanced.run ran, pads.idle, ?_, ?_, ?_, ?_⟩
  · refine pads.entries.trans ?_
    simp only [Builder.entries, Array.map_push, Array.toList_push]
    exact List.prefix_append ..
  · intro i e present
    simp only [arena, Array.getElem?_push] at present
    split at present
    · exact .inr (Option.some.inj present).symm
    · exact pads.exprs present
  · obtain ⟨more, definitions, length⟩ := pads.definitions
    refine ⟨more ++ [(b'.define name).1], ?_, by rw [List.length_append, length, List.length_singleton]⟩
    rw [← List.append_assoc, ← definitions]
    exact Array.toList_push
  · intro k other named different
    obtain ⟨kept, defines⟩ := pads.others named different
    have apart : k ≠ (b'.define name).1 := by
      rintro rfl
      exact different (Option.some.inj ((names kept).symm.trans called))
    have renamed :=
      @map_name_modify (fun p => { p with root := b'.nodes.size }) productions (b'.define name).1 k fun _ => rfl
    refine ⟨renamed.trans (names kept), fun {root} => ?_⟩
    rw [defines_modify, if_neg (Ne.symm apart), untouched apart, defines]

/-- A builder between productions can be given any number of definitions. -/
theorem exists_pads (balanced : b.Balanced) (idle : b.current = none) (name : String) (count : Nat) :
    ∃ b', b.Pads name count b' := by
  induction count with
  | zero => exact ⟨b, .refl balanced idle⟩
  | succ count ih =>
    obtain ⟨b', pads⟩ := ih
    exact pads.more

namespace Pads

variable (pads : b.Pads name count b') {k id root : Nat}

include pads

theorem idxOf_finalOrder (listed : b'.finalOrder[k]? = some id) : b'.finalOrder.idxOf id = k := by
  obtain ⟨inside, rfl⟩ := List.getElem?_eq_some_iff.mp listed
  exact pads.balanced.sound.nodup_finalOrder.idxOf_getElem k inside

/-- The definitions there were keep their numbers. -/
theorem finalOrder_of_definition (listed : b.definitions.toList[k]? = some id) : b'.finalOrder[k]? = some id := by
  obtain ⟨more, definitions, -⟩ := pads.definitions
  have inside := (List.getElem?_eq_some_iff.mp listed).1
  rw [finalOrder, definitions, List.append_assoc, List.getElem?_append_left inside, listed]

theorem isDefined_eq {other : String} (named : b.arena.name? id = some other) (different : other ≠ name) :
    b'.isDefined id = b.isDefined id := by
  obtain ⟨-, defines⟩ := pads.others named different
  rw [Bool.eq_iff_iff, isDefined_iff, isDefined_iff]
  simp only [defines]

/-- The first production without a definition comes behind the new ones. -/
theorem finalOrder_of_undefined {other : String} (named : b.arena.name? id = some other) (different : other ≠ name)
    (undefined : b.isDefined id = false)
    (before : ∀ k < id, ∃ other, b.arena.name? k = some other ∧ other ≠ name ∧ b.isDefined k = true) :
    b'.finalOrder[b.definitions.size + count]? = some id := by
  obtain ⟨more, definitions, rfl⟩ := pads.definitions
  obtain ⟨p, found, -⟩ := Option.map_eq_some_iff.mp (pads.others named different).1
  obtain ⟨m, size⟩ := Nat.exists_eq_add_of_lt (Array.getElem?_eq_some_iff.mp found).1
  have none : ((List.range id).filter fun k => !b'.isDefined k) = [] := by
    rw [List.filter_eq_nil_iff]
    intro k member
    obtain ⟨_, named, different, defined⟩ := before k (List.mem_range.mp member)
    simp [pads.isDefined_eq named different, defined]
  have here : (!b'.isDefined id) = true := by rw [pads.isDefined_eq named different, undefined]; rfl
  rw [finalOrder, definitions, size, Nat.add_assoc, List.range_add, List.filter_append, none, List.nil_append,
    List.range_succ_eq_map, List.map_cons, Nat.add_zero, List.filter_cons, if_pos here,
    List.getElem?_append_right (by simp)]
  simp

theorem assembled_root? {other : String} (listed : b.definitions.toList[k]? = some id)
    (named : b.arena.name? id = some other) (different : other ≠ name) (defines : Defines b.productions id root) :
    b'.assembled.root? k = some root := by
  have defined := (completes_fillUndefined b').defines.mpr ((pads.others named different).2.mpr defines)
  obtain ⟨p, found, -, rfl⟩ := defined
  rw [Grammar.root?, pads.balanced.sound.assembled_productions, pads.finalOrder_of_definition listed, Option.bind_some,
    found]
  rfl

theorem assembled_node {i owner : Nat} {e : Expr} (entry : b.entries[i]? = some (e, owner)) :
    ∃ node, b'.assembled.nodes[i]? = some node ∧
      node.expr = (renumber b'.finalOrder.idxOf { expr := e, owner }).expr ∧
      node.owner = b'.finalOrder.idxOf owner := by
  obtain ⟨added, longer⟩ := pads.entries
  refine assembled_entry ?_
  rw [← longer, List.getElem?_append_left (List.getElem?_eq_some_iff.mp entry).1, entry]

/-- Nothing is said by nodes that were not in the arena. -/
theorem assembled_exprs {i : Nat} {e : Expr} (present : b'.assembled.expr? i = some e) :
    i < b.nodes.size ∨ e = .terminal .nil := by
  obtain ⟨node, found, same⟩ := Option.map_eq_some_iff.mp ((Builder.assembled_expr? b' i).symm.trans present)
  have shown : b'.fillUndefined.arena.expr? i = some node.expr := by simp [arena, found]
  have empty (nil : node.expr = .terminal .nil) : e = .terminal .nil := by
    rw [← same, renumber, nil]
  rcases (completes_fillUndefined b').exprs shown with shown | nil
  · rcases pads.exprs shown with shown | nil
    · exact .inl (lt_of_expr? shown)
    · exact .inr (empty nil)
  · exact .inr (empty nil)

end Pads

end Packrat.Builder

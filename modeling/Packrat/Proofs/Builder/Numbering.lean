import Packrat.Proofs.Builder.Register
import Packrat.Proofs.Grammar.Rewriting
import Mathlib.Data.List.Infix

/-! # How a built grammar is numbered

Creation, definition and the final order number the productions in three ways. Whatever a builder was asked for, the
grammar has the productions that were started first, in that order, and then those that were only mentioned; a reference
that is still in the arena leads to the first production of the name that it was made for; and the productions know the
references to them.
-/

namespace Packrat

namespace Builder

variable {b b' : Builder} {name : String} {id i : Nat} {started mentioned : List String}

/-- The production `id` is the first of its name. -/
def First (hs : List Heading) (name : String) (id : Nat) : Prop :=
  named hs id = some name ∧ ∀ k, named hs k = some name → id ≤ k

/-- The node `i` is a reference to the first production of the name. -/
def Leads (b : Builder) (i : Nat) (name : String) : Prop :=
  ∃ target memo owner, b.entries[i]? = some (.reference target memo, owner) ∧ First b.headings name target

/-- What comes later knows the same names in the same order, and more of them; of the arena it has a part, or more. -/
structure Follows (b b' : Builder) : Prop where
  names : b.headings.map Heading.name <+: b'.headings.map Heading.name
  entries : b.entries <+: b'.entries ∨ b'.entries <+: b.entries

theorem Follows.refl (b : Builder) : Follows b b := ⟨List.prefix_refl _, .inl (List.prefix_refl _)⟩

theorem Works.follows (works : Works b b') : Follows b b' :=
  ⟨works.headings ▸ List.prefix_refl _, .inl works.entries⟩

theorem named_eq (hs : List Heading) (id : Nat) : named hs id = (hs.map Heading.name)[id]? := by
  rw [named, List.getElem?_map]

theorem Leads.follows (leads : b.Leads i name) (follows : Follows b b') (there : i < b'.nodes.size) : b'.Leads i name := by
  obtain ⟨target, memo, owner, entry, called, first⟩ := leads
  obtain ⟨more, names⟩ := follows.names
  rw [named_eq] at called
  have inside := (List.getElem?_eq_some_iff.mp called).1
  refine ⟨target, memo, owner, ?_, ?_, fun k same => ?_⟩
  · rcases follows.entries with ⟨added, longer⟩ | ⟨cut, shorter⟩
    · rw [← longer, List.getElem?_append_left (List.getElem?_eq_some_iff.mp entry).1, entry]
    · rw [← shorter, List.getElem?_append_left (by rwa [length_entries])] at entry
      exact entry
  · rw [named_eq, ← names, List.getElem?_append_left inside, called]
  · rw [named_eq, ← names] at same
    rcases Nat.lt_or_ge k (b.headings.map Heading.name).length with old | new
    · rw [List.getElem?_append_left old, ← named_eq] at same
      exact first k same
    · exact Nat.le_of_lt (Nat.lt_of_lt_of_le inside new)

theorem follows_define (b : Builder) (name : String) : Follows b (b.define name).2 where
  names := by
    obtain ⟨-, headings, -⟩ | ⟨before, h, after, split, -, ⟨-, headings, -⟩ | ⟨-, headings, -⟩⟩ := define_cases b name
    · rw [headings, List.map_append]
      exact List.prefix_append ..
    · rw [headings, split]
      simp
    · rw [headings, split, List.map_append]
      simp
  entries := by
    obtain ⟨productions, same, -⟩ := define_fills b name
    rw [same]
    exact .inl (List.prefix_refl _)

theorem follows_lookup (b : Builder) (name : String) : Follows b (b.lookup name).2 ∧
    First (b.lookup name).2.headings name (b.lookup name).1 ∧ (b.lookup name).2.entries = b.entries := by
  obtain ⟨productions, same, -⟩ := lookup_keeps b name
  have entries : (b.lookup name).2.entries = b.entries := by rw [same]; rfl
  obtain ⟨fresh, place, headings⟩ | ⟨id, inside, called, before, found⟩ := lookup_cases b name
  · refine ⟨⟨?_, .inl (entries ▸ List.prefix_refl _)⟩, ⟨?_, fun k same => ?_⟩, entries⟩
    · rw [headings, List.map_append]
      exact List.prefix_append ..
    · rw [headings, place, named, List.getElem?_concat_length]
      rfl
    · rw [place]
      by_contra small
      rw [headings, named_concat (Nat.lt_of_not_le small)] at same
      obtain ⟨h, present, same⟩ := Option.map_eq_some_iff.mp same
      exact fresh h (List.mem_of_getElem? present) same
  · rw [found]
    refine ⟨.refl b, ⟨?_, fun k same => ?_⟩, rfl⟩
    · rw [named, List.getElem?_eq_getElem inside, Option.map_some, called]
    · by_contra small
      obtain ⟨h, present, same⟩ := Option.map_eq_some_iff.mp same
      refine before h ?_ same
      exact List.mem_of_getElem? ((List.getElem?_take_of_lt (Nat.lt_of_not_le small)).trans present)

theorem follows_closed (closed : b.release = .ok b' ∨ b.reset = .ok b') : Follows b b' := by
  obtain ⟨productions, -, size, nodes⟩ := of_closed closed
  refine ⟨?_, .inr ?_⟩
  · rw [headings, headings, productions]
  · rw [entries, entries, nodes, Array.map_extract, Array.toList_extract]
    simpa using List.take_prefix size _

/-- An accepted step leaves a builder that follows the one before. -/
theorem follows_apply {step : Step} (applied : b.apply step = .ok b') (uncleared : step ≠ .clear) : Follows b b' := by
  cases reaches : step.reaches with
  | false => exact (works_apply reaches applied).follows
  | true =>
    cases step with
    | startProduction name =>
      obtain ⟨-, rfl⟩ := of_startProduction applied
      have follows := follows_define b name
      exact ⟨follows.names, follows.entries⟩
    | reference name memo =>
      obtain ⟨owner, -, rfl⟩ := of_pushReference applied
      obtain ⟨known, -, entries⟩ := follows_lookup b name
      have grown : Works (b.lookup name).2 ((b.lookup name).2.grown (b.lookup name).2.stack owner
          (.reference (b.lookup name).1 memo)) := works_grown rfl
      exact ⟨known.names.trans grown.follows.names, .inl (entries ▸ grown.entries)⟩
    | endProduction =>
      obtain ⟨owner, root, b₁, -, works, rfl⟩ := works_endProduction applied
      have rooted : Works b₁ { b₁ with productions := b₁.productions.modify owner fun p => { p with root } } := by
        refine works_modifyProductions (fun p => ?_) owner
        rfl
      have follows := (works.trans rooted).follows
      exact ⟨follows.names, follows.entries⟩
    | mark =>
      obtain rfl := Except.ok.inj applied
      exact ⟨List.prefix_refl _, .inl (List.prefix_refl _)⟩
    | release => exact follows_closed (.inl applied)
    | reset => exact follows_closed (.inr applied)
    | clear => exact absurd rfl uncleared
    | _ => cases reaches

/-- A reference that is made leads to the first production of its name. -/
theorem leads_reference {memo : Bool} (applied : b.apply (.reference name memo) = .ok b') : b'.Leads b.nodes.size name := by
  obtain ⟨owner, -, rfl⟩ := of_pushReference applied
  obtain ⟨-, first, entries⟩ := follows_lookup b name
  refine ⟨(b.lookup name).1, memo, owner, ?_, first⟩
  rw [entries_grown, entries, ← length_entries, List.getElem?_concat_length]

theorem reference_accepted {owner : Nat} (current : b.current = some owner) (name : String) (memo : Bool) :
    ∃ b', b.apply (.reference name memo) = .ok b' := by
  rw [apply, pushReference, owner_of_current current]
  exact ⟨_, pushExpr_eq ((lookup_current name).trans current) rfl⟩

/-- It does so for as long as the arena is not cut off before it. -/
theorem Leads.attempts {steps : List Step} (leads : b.Leads i name) (uncleared : .clear ∉ steps)
    (kept : ∀ later, later <+: steps → i < (later.foldl attempt b).nodes.size) : (steps.foldl attempt b).Leads i name := by
  induction steps generalizing b with
  | nil => exact leads
  | cons step rest ih =>
    obtain ⟨here, later⟩ := not_or.mp (List.mem_cons.not.mp uncleared)
    have follows : Follows b (b.attempt step) := by
      unfold attempt
      cases applied : b.apply step with
      | error => exact .refl b
      | ok b₁ => exact follows_apply applied (Ne.symm here)
    have there : i < (b.attempt step).nodes.size := kept [step] (by simp)
    exact ih (leads.follows follows there) later fun more within => kept (step :: more) (List.cons_prefix_cons.mpr ⟨rfl, within⟩)

theorem works_fill (b : Builder) (id : Nat) : Works b (b.fill id) := by
  unfold fill
  split
  · exact .refl b
  · refine Works.trans works_alloc (works_modifyProductions (fun p => ?_) id)
    rfl

/-- Empty right-hand sides for the productions without a definition are new nodes. -/
theorem works_fillUndefined (b : Builder) : Works b b.fillUndefined :=
  fillUndefined_induction (motive := fun b' _ => Works b b') (fun _ _ before => before.trans (works_fill ..)) (.refl b)

/-- What was in the arena is in the grammar, with productions by their places in the final order. -/
theorem assembled_entry {i owner : Nat} {e : Expr} (entry : b.entries[i]? = some (e, owner)) :
    ∃ node, b.assembled.nodes[i]? = some node ∧ node.expr = (renumber b.finalOrder.idxOf { expr := e, owner }).expr ∧
      node.owner = b.finalOrder.idxOf owner := by
  obtain ⟨added, longer⟩ := (works_fillUndefined b).entries
  have filled : b.fillUndefined.entries[i]? = some (e, owner) := by
    rw [← longer, List.getElem?_append_left (List.getElem?_eq_some_iff.mp entry).1, entry]
  rw [entries, Array.getElem?_toList, Array.getElem?_map] at filled
  obtain ⟨node, found, same⟩ := Option.map_eq_some_iff.mp filled
  cases same
  refine ⟨renumber b.finalOrder.idxOf node, ?_, rfl, rfl⟩
  rw [assembled_nodes, found, Option.map_some]

namespace Numbered

variable (numbered : b.Numbered started mentioned)

include numbered

theorem mem_definitions : id ∈ b.definitions.toList ↔ b.isDefined id = true :=
  (Spells.defined numbered.toSpells).trans (isDefined_iff_flagged b id).symm

theorem mem_finalOrder : id ∈ b.finalOrder ↔ id < b.productions.size := Builder.mem_finalOrder numbered.mem_definitions

theorem nodup_finalOrder : b.finalOrder.Nodup :=
  Builder.nodup_finalOrder numbered.mem_definitions (Spells.distinct numbered.toSpells)

/-- The productions of the grammar bear the headings of the builder, in the final order, and their numbers. -/
theorem assembled_heading (k : Nat) : b.assembled.productions[k]?.map (fun p => (p.heading, p.index)) =
    b.finalOrder[k]?.bind fun id => b.headings[id]?.map (·, k) := by
  rw [assembled_productions numbered.mem_finalOrder.mp]
  cases b.finalOrder[k]? with
  | none => rfl
  | some id =>
    rw [Option.bind_some, Option.bind_some, ← (works_fillUndefined b).headings, getElem?_headings, Option.map_map,
      Option.map_map]
    rfl

theorem assembled_headings :
    b.assembled.productions.toList.map Production.heading = b.finalOrder.filterMap fun id => b.headings[id]? := by
  refine List.ext_getElem? fun k => ?_
  have present : ∀ id ∈ b.finalOrder, ∃ h, b.headings[id]? = some h := by
    intro id member
    have inside := numbered.mem_finalOrder.mp member
    rw [← length_headings] at inside
    exact ⟨_, List.getElem?_eq_getElem inside⟩
  have here := congrArg (Option.map Prod.fst) (numbered.assembled_heading k)
  rw [Option.map_map] at here
  rw [List.getElem?_map, Array.getElem?_toList, filterMap_getElem? present]
  refine here.trans ?_
  cases b.finalOrder[k]? with
  | none => rfl
  | some id =>
    change Option.map Prod.fst (Option.map (·, k) b.headings[id]?) = b.headings[id]?
    rw [Option.map_map]
    exact congrFun Option.map_id _

end Numbered

/-- The definitions in order are what was started. -/
theorem Spells.filterMap {hs : List Heading} {defs : List Nat} (spells : Spells hs defs started) :
    (defs.filterMap fun id => hs[id]?).map (fun h => (h.name, h.defined)) = started.map (·, true) := by
  have each : defs.map (fun id => hs[id]?.map fun h => (h.name, h.defined)) = (started.map (·, true)).map some := by
    rw [List.map_map]
    have told := congrArg (List.map (Option.map (·, true))) spells.spelled
    rw [List.map_map, List.map_map] at told
    refine (List.map_congr_left fun id member => ?_).trans told
    obtain ⟨h, found, defined⟩ := spells.defined.mp member
    simp [named, found, defined]
  have some' := congrArg (List.filterMap id) each
  rw [List.filterMap_map, List.filterMap_map, List.map_filterMap] at *
  simpa using some'

theorem filterMap_range (hs : List Heading) : ((List.range hs.length).filterMap fun id => hs[id]?) = hs := by
  refine List.ext_getElem? fun k => ?_
  rw [filterMap_getElem? fun id member => ⟨_, List.getElem?_eq_getElem (List.mem_range.mp member)⟩]
  rcases Nat.lt_or_ge k hs.length with inside | outside
  · rw [List.getElem?_range inside]
    rfl
  · rw [List.getElem?_eq_none (by rwa [List.length_range]), List.getElem?_eq_none outside]
    rfl

/-- The productions without a definition, in the order of their creation. -/
theorem filterMap_undefined (b : Builder) :
    (((List.range b.productions.size).filter fun id => !b.isDefined id).filterMap fun id => b.headings[id]?) =
      b.headings.filter (!·.defined) := by
  have flag {id : Nat} : (if (!b.isDefined id) = true then b.headings[id]? else none) =
      (b.headings[id]?).filter (!·.defined) := by
    rw [getElem?_headings, isDefined]
    cases b.productions[id]? with
    | none => simp
    | some p => cases defined : p.defined <;> simp [Production.heading, defined, Option.filter_some]
  rw [List.filterMap_filter]
  simp only [flag]
  rw [← List.filter_filterMap, ← length_headings, filterMap_range]

/-- The grammar has what was started and what was only mentioned, in this order. -/
theorem Numbered.assembled_names (numbered : b.Numbered started mentioned) :
    b.assembled.productions.toList.map (fun p => (p.name, p.defined)) =
      started.map (·, true) ++ (mentioned.filter (· ∉ started)).eraseDups.map (·, false) := by
  have rows := congrArg (List.map fun h => (h.name, h.defined)) numbered.assembled_headings
  rw [List.map_map, finalOrder, List.filterMap_append, List.map_append, Spells.filterMap numbered.toSpells,
    filterMap_undefined] at rows
  refine rows.trans ?_
  rw [← Registers.waiting numbered, List.map_map]
  congr 1
  refine List.map_congr_left fun h member => ?_
  have undefined := (List.mem_filter.mp member).2
  simp only [Bool.not_eq_true'] at undefined
  simp [undefined]

/-- The first production of a name comes before others of that name in the final order, too. -/
theorem Numbered.idxOf_le (numbered : b.Numbered started mentioned) {target k : Nat} (first : First b.headings name target)
    (listed : b.finalOrder[k]? = some id) (same : named b.headings id = some name) : b.finalOrder.idxOf target ≤ k := by
  obtain ⟨called, least⟩ := first
  have old := least id same
  obtain ⟨h, here, rfl⟩ := Option.map_eq_some_iff.mp called
  obtain ⟨h', here', alike⟩ := Option.map_eq_some_iff.mp same
  obtain ⟨within, place⟩ := List.getElem?_eq_some_iff.mp listed
  by_cases itself : id = target
  · exact Nat.le_of_eq (by rw [← itself, ← place, numbered.nodup_finalOrder.idxOf_getElem k within])
  · -- Two productions of one name have a definition each, and these are listed in the order of their creation.
    have defined : h.defined = true := by
      rw [← Bool.not_eq_false]
      exact fun undefined => itself (Registers.alone numbered here here' undefined alike)
    have defined' : h'.defined = true := by
      rw [← Bool.not_eq_false]
      exact fun undefined => itself (Registers.alone numbered here' here undefined alike.symm).symm
    have member := (Spells.defined numbered.toSpells).mpr ⟨h, here, defined⟩
    have member' := (Spells.defined numbered.toSpells).mpr ⟨h', here', defined'⟩
    by_contra small
    rw [finalOrder, List.idxOf_append_of_mem member] at small
    have last := List.idxOf_lt_length_of_mem member
    have early : b.definitions.toList[k]? = some id := by
      rw [finalOrder, List.getElem?_append_left (by omega)] at listed
      exact listed
    have late := List.getElem?_idxOf member
    obtain ⟨inside, place⟩ := List.getElem?_eq_some_iff.mp early
    obtain ⟨inside', place'⟩ := List.getElem?_eq_some_iff.mp late
    have younger := List.pairwise_iff_getElem.mp (Spells.ascending numbered.toSpells) k _ inside inside' (by omega)
    rw [place, place'] at younger
    have := younger (same.trans called.symm)
    omega

/-- In the grammar, a reference leads to the first production of the name it was made for. -/
theorem Numbered.assembled_leads (numbered : b.Numbered started mentioned) (leads : b.Leads i name) :
    ∃ target p node, b.assembled.nodes[i]? = some node ∧ node.expr.RefersTo target ∧
      b.assembled.productions[target]? = some p ∧ p.name = name ∧ (p.defined = true ↔ name ∈ started) ∧
      ∀ (k : Nat) q, b.assembled.productions[k]? = some q → q.name = name → target ≤ k := by
  obtain ⟨id, memo, owner, entry, first⟩ := leads
  obtain ⟨h, here, rfl⟩ := Option.map_eq_some_iff.mp first.1
  obtain ⟨node, found, same, -⟩ := assembled_entry entry
  have inside : id < b.productions.size := by
    rw [← length_headings]
    exact (List.getElem?_eq_some_iff.mp here).1
  have place := List.getElem?_idxOf (numbered.mem_finalOrder.mpr inside)
  have row := numbered.assembled_heading (b.finalOrder.idxOf id)
  rw [place, Option.bind_some, here, Option.map_some] at row
  obtain ⟨p, production, heading⟩ := Option.map_eq_some_iff.mp row
  have heading : p.heading = h := (Prod.mk.inj heading).1
  refine ⟨b.finalOrder.idxOf id, p, node, found, ⟨memo, same⟩, production, ?_, ?_, ?_⟩
  · rw [← heading]
    rfl
  · have flag : p.defined = h.defined := by
      rw [← heading]
      rfl
    rw [flag]
    refine ⟨Spells.mem_started numbered.toSpells (List.mem_of_getElem? here), fun begun => ?_⟩
    rw [← Bool.not_eq_false]
    exact fun undefined => (Registers.mem_waiting numbered (List.mem_of_getElem? here) undefined).2 begun
  · intro k q there called
    have row := numbered.assembled_heading k
    rw [there, Option.map_some] at row
    obtain ⟨id', listed, found'⟩ := Option.bind_eq_some_iff.mp row.symm
    obtain ⟨h', here', same'⟩ := Option.map_eq_some_iff.mp found'
    refine numbered.idxOf_le first listed ?_
    have heading' : h' = q.heading := (Prod.mk.inj same').1
    rw [named, here', Option.map_some, heading', ← called]
    rfl

section

variable {g : Grammar}

/-- Undo scopes change none of what is numbered. -/
theorem outgrows_of_built (built : b.build = .ok g) : b.assembled.Outgrows g := by
  obtain ⟨-, rfl⟩ := eq_of_built built
  rw [Grammar.injectUndo_eq]
  exact Grammar.splices_outgrows ..

theorem built_backlinked (built : b.build = .ok g) : g.Backlinked :=
  (outgrows_of_built built).backlinked (Grammar.assemble_backlinked ..)

variable (numbered : b.Numbered started mentioned) (built : b.build = .ok g)

include numbered built

theorem Numbered.built_production {p : Production} (found : g.productions[i]? = some p) :
    p.index = i ∧ (p.duplicated = true ↔ 1 < started.count p.name) := by
  obtain ⟨q, before, same⟩ := (outgrows_of_built built).production found
  have heading : p.heading = q.heading := (congrArg Production.heading same :)
  have index : p.index = q.index := (congrArg Production.index same :)
  have row := numbered.assembled_heading i
  rw [before, Option.map_some] at row
  obtain ⟨id, -, told⟩ := Option.bind_eq_some_iff.mp row.symm
  obtain ⟨h, here, told⟩ := Option.map_eq_some_iff.mp told
  obtain ⟨heading', index'⟩ := Prod.mk.inj told
  refine ⟨index.trans index'.symm, ?_⟩
  have flagged := Registers.duplicated numbered h (List.mem_of_getElem? here)
  rw [heading', ← heading] at flagged
  exact flagged

theorem Numbered.built_names : g.productions.toList.map (fun p => (p.name, p.defined)) =
    started.map (·, true) ++ (mentioned.filter (· ∉ started)).eraseDups.map (·, false) := by
  have rows := congrArg (Array.map fun p => (p.name, p.defined)) (outgrows_of_built built).productions
  rw [Array.map_map, Array.map_map] at rows
  have rows := congrArg Array.toList rows
  rw [Array.toList_map, Array.toList_map] at rows
  exact rows.trans numbered.assembled_names

theorem Numbered.built_leads (leads : b.Leads i name) :
    ∃ target p node, g.nodes[i]? = some node ∧ node.expr.RefersTo target ∧
      g.productions[target]? = some p ∧ p.name = name ∧ (p.defined = true ↔ name ∈ started) ∧
      ∀ (k : Nat) q, g.productions[k]? = some q → q.name = name → target ≤ k := by
  have outgrows := outgrows_of_built built
  obtain ⟨target, p, node, here, refers, production, called, defined, least⟩ := numbered.assembled_leads leads
  obtain ⟨node', here', resembles⟩ := outgrows.earlier here
  have rows := congrArg (·[target]?) outgrows.productions
  simp only [Array.getElem?_map, production, Option.map_some] at rows
  obtain ⟨p', production', same⟩ := Option.map_eq_some_iff.mp rows
  have called' : p'.name = p.name := (congrArg Production.name same :)
  have defined' : p'.defined = p.defined := (congrArg Production.defined same :)
  refine ⟨target, p', node', here', resembles.refersTo.mpr refers, production', called'.trans called, defined' ▸ defined, ?_⟩
  intro k q found named
  obtain ⟨q', before, alike⟩ := outgrows.production found
  have named' : q.name = q'.name := (congrArg Production.name alike :)
  exact least k q' before (named'.symm.trans named)

end

/-- In whatever order productions were started and referred to: the productions of the grammar are numbered from zero,
first those that were started, in that order, and then those that were only mentioned, in the order of their first
mention. The ones whose name was started again are flagged. A reference that was made, and has not been discarded since,
leads to the first production of its name, which has a definition if the name was started. And every production knows
the references to it that are in the arena, and their owners. -/
theorem built_numbered (names : List String) (steps : List Step) {g : Grammar} (uncleared : .clear ∉ steps)
    (built : (steps.foldl attempt (Builder.empty.withActions names)).build = .ok g) :
    let start := Builder.empty.withActions names
    let started := (start.accepted steps).filterMap Step.started?
    let mentioned := (start.accepted steps).filterMap Step.mentioned?
    (∀ (i : Nat) p, g.productions[i]? = some p → p.index = i ∧ (p.duplicated = true ↔ 1 < started.count p.name)) ∧
    g.productions.toList.map (fun p => (p.name, p.defined)) =
      started.map (·, true) ++ (mentioned.filter (· ∉ started)).eraseDups.map (·, false) ∧
    (∀ before name memo after, steps = before ++ .reference name memo :: after →
      let here := before.foldl attempt start
      here.current.isSome = true →
      (∀ later, later <+: after → here.nodes.size < (later.foldl attempt (here.attempt (.reference name memo))).nodes.size) →
      ∃ target p node, g.nodes[here.nodes.size]? = some node ∧ node.expr.RefersTo target ∧
        g.productions[target]? = some p ∧ p.name = name ∧ (p.defined = true ↔ name ∈ started) ∧
        ∀ (k : Nat) q, g.productions[k]? = some q → q.name = name → target ≤ k) ∧
    g.Backlinked := by
  intro start started mentioned
  have fresh : start.Numbered [] [] := by
    have bare : start.headings = [] ∧ start.definitions.toList = [] := by simp [start, headings, withActions, empty]
    rw [Numbered, bare.1, bare.2]
    exact .empty
  have numbered : (steps.foldl attempt start).Numbered started mentioned := by
    simpa only [List.nil_append] using fresh.attempts uncleared
  refine ⟨fun i p found => numbered.built_production built found, numbered.built_names built, ?_, built_backlinked built⟩
  rintro before name memo after rfl here busy kept
  refine numbered.built_leads built ?_
  obtain ⟨owner, current⟩ := Option.isSome_iff_exists.mp busy
  -- The reference is made where the builder stands, and only a cut of the arena could take it away.
  have made : (here.attempt (.reference name memo)).Leads here.nodes.size name := by
    obtain ⟨b', applied⟩ := reference_accepted current name memo
    rw [attempt, applied]
    exact leads_reference applied
  rw [List.foldl_append, List.foldl_cons]
  refine made.attempts (fun member => uncleared ?_) kept
  exact List.mem_append_right _ (List.mem_cons_of_mem _ member)

end Builder

namespace Sample

open Builder

/-- Names that are mentioned before they are started, started twice and never started, and a reference that is
discarded. -/
def crossReferences : List Step :=
  [.reference "Lost" false, .startProduction "S", .reference "Ghost" true, .reference "A" false, .endProduction,
    .startProduction "A", .startProduction "B", .mark, .reference "Void" false, .reset, .reference "Ghost" false,
    .endProduction, .startProduction "S", .terminal .any, .endProduction]

theorem crossReferences_numbered : .clear ∉ crossReferences ∧
    ∃ g, (crossReferences.foldl attempt (Builder.empty.withActions [])).build = .ok g ∧
      g.productions.toList.map (fun p => (p.name, p.defined)) =
        [("S", true), ("A", true), ("S", true), ("Ghost", false), ("Void", false)] ∧
      (∃ target p node, g.nodes[1]? = some node ∧ node.expr.RefersTo target ∧ g.productions[target]? = some p ∧
        p.name = "A") ∧ g.Backlinked := by
  have built := @eq_ok_getD _ _ (crossReferences.foldl attempt (Builder.empty.withActions [])).build .empty
    (by decide +kernel)
  obtain ⟨-, names, leads, backlinked⟩ := built_numbered [] crossReferences (by decide +kernel) built
  refine ⟨by decide +kernel, _, built, names.trans (by decide +kernel), ?_, backlinked⟩
  have kept : ∀ later ∈ (crossReferences.drop 4).inits, 1 < (later.foldl attempt
      (((crossReferences.take 3).foldl attempt (Builder.empty.withActions [])).attempt (.reference "A" false))).nodes.size := by
    decide +kernel
  have size : ((crossReferences.take 3).foldl attempt (Builder.empty.withActions [])).nodes.size = 1 := by decide +kernel
  have made := leads (crossReferences.take 3) "A" false (crossReferences.drop 4) rfl (by decide +kernel)
  rw [size] at made
  obtain ⟨target, p, node, here, refers, production, called, -⟩ :=
    made fun later within => kept later ((List.mem_inits _ _).mpr within)
  exact ⟨target, p, node, here, refers, production, called⟩

end Sample

end Packrat

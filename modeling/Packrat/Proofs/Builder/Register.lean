import Packrat.Proofs.Builder.Unbalanced
import Packrat.Proofs.Builder.Frame
import Mathlib.Data.List.Count
import Mathlib.Data.Option.Basic

/-! # The names that a builder knows

Productions are numbered as their names come up, definitions are listed as they are made, and the register of both is
never put in order. Whatever steps are taken, it tells the same as the names alone, in the order in which productions
were started and references were made: the list of definitions spells out the names that were started, the productions
that wait for a definition are the other names that were mentioned, each once and in order, and a production of a
repeated name is flagged as such.
-/

namespace Packrat

theorem eraseDups_concat {α : Type} [BEq α] [LawfulBEq α] (xs : List α) (x : α) :
    (xs ++ [x]).eraseDups = if x ∈ xs then xs.eraseDups else xs.eraseDups ++ [x] := by
  rw [List.eraseDups_append]
  split
  · next known => simp [List.removeAll, known]
  · next new => simp [List.removeAll, new, List.eraseDups_cons]

/-- Items may be left out before or after repetitions. -/
theorem filter_eraseDups {α : Type} [BEq α] [LawfulBEq α] (p : α → Bool) (xs : List α) :
    (xs.filter p).eraseDups = xs.eraseDups.filter p := by
  induction h : xs.length using Nat.strongRecOn generalizing xs with
  | _ n ih =>
    cases xs with
    | nil => rfl
    | cons x rest =>
      have shorter : (rest.filter fun y => !y == x).length < n :=
        h ▸ Nat.lt_succ_of_le (List.length_filter_le ..)
      have commuted := ih _ shorter (rest.filter fun y => !y == x) rfl
      rw [List.filter_filter] at commuted
      cases keep : p x with
      | true =>
        rw [List.filter_cons_of_pos keep, List.eraseDups_cons, List.eraseDups_cons, List.filter_cons_of_pos keep,
          List.filter_filter, ← commuted]
        simp only [Bool.and_comm]
      | false =>
        rw [List.filter_cons_of_neg (by simp [keep]), List.eraseDups_cons, List.filter_cons_of_neg (by simp [keep]),
          ← commuted]
        congr 1
        refine List.filter_congr fun y _ => ?_
        by_cases same : y = x
        · simp [same, keep]
        · simp [same]

/-- Names outside of a list that gets one more. -/
theorem filter_notMem_concat (names others : List String) (name : String) :
    names.filter (· ∉ others ++ [name]) = (names.filter (· ∉ others)).filter (· ≠ name) := by
  rw [List.filter_filter]
  refine List.filter_congr fun other _ => ?_
  by_cases same : other = name <;> simp [same]

namespace Builder

variable {hs hs' : List Heading} {defs : List Nat} {started mentioned : List String} {name : String} {id : Nat} {h : Heading}

/-- The name of a production in a register. -/
def named (hs : List Heading) (id : Nat) : Option String := hs[id]?.map Heading.name

/-- The production of a register is flagged as defined. -/
def Flagged (hs : List Heading) (id : Nat) : Prop := ∃ h, hs[id]? = some h ∧ h.defined = true

/-- The list of definitions spells out the names that were started. -/
structure Spells (hs : List Heading) (defs : List Nat) (started : List String) : Prop where
  defined : ∀ {id}, id ∈ defs ↔ Flagged hs id
  distinct : defs.Nodup
  spelled : defs.map (named hs) = started.map some
  /-- Definitions of one name are as old as they are listed. -/
  ascending : defs.Pairwise fun i j => named hs i = named hs j → i < j

/-- A register of productions and definitions, as the names that were started and those that were mentioned tell it. -/
structure Registers (hs : List Heading) (defs : List Nat) (started mentioned : List String) : Prop
    extends Spells hs defs started where
  /-- The productions without a definition, in the order of their first mention. -/
  waiting : (hs.filter (!·.defined)).map Heading.name = (mentioned.filter (· ∉ started)).eraseDups
  /-- A production without a definition is the only one of its name. -/
  alone : ∀ {i j : Nat} {g h : Heading}, hs[i]? = some g → hs[j]? = some h → g.defined = false → h.name = g.name → j = i
  duplicated : ∀ h ∈ hs, (h.duplicated = true ↔ 1 < started.count h.name)

theorem Registers.empty : Registers [] [] [] [] where
  defined := by simp [Flagged]
  distinct := List.nodup_nil
  spelled := rfl
  ascending := .nil
  waiting := rfl
  alone := by simp
  duplicated := by simp

namespace Spells

variable (spells : Spells hs defs started)

include spells

theorem lt_length (member : id ∈ defs) : id < hs.length := by
  obtain ⟨h, found, -⟩ := spells.defined.mp member
  exact (List.getElem?_eq_some_iff.mp found).1

theorem mem_started (member : h ∈ hs) (defined : h.defined = true) : h.name ∈ started := by
  obtain ⟨id, found⟩ := List.mem_iff_getElem?.mp member
  have listed := List.mem_map_of_mem (f := named hs) (spells.defined.mpr ⟨h, found, defined⟩)
  rw [spells.spelled, named, found] at listed
  simpa using listed

theorem of_started (member : name ∈ started) : ∃ h ∈ hs, h.name = name := by
  have listed := List.mem_map_of_mem (f := some) member
  rw [← spells.spelled, List.mem_map] at listed
  obtain ⟨id, -, found⟩ := listed
  obtain ⟨h, found, same⟩ := Option.map_eq_some_iff.mp found
  exact ⟨h, List.mem_of_getElem? found, same⟩

/-- A name with two definitions was started twice. -/
theorem two_le_count {i j : Nat} (first : i ∈ defs) (second : j ∈ defs) (different : i ≠ j) (here : named hs i = some name)
    (there : named hs j = some name) : 2 ≤ started.count name := by
  have count : started.count name = (defs.filter fun id => named hs id == some name).length := by
    rw [← List.count_map_of_injective started some (Option.some_injective _), ← spells.spelled, List.count,
      List.countP_map, List.countP_eq_length_filter]
    rfl
  have listed {k : Nat} (member : k ∈ defs) (called : named hs k = some name) :
      k ∈ defs.filter fun id => named hs id == some name := List.mem_filter.mpr ⟨member, beq_iff_eq.mpr called⟩
  have one := listed first here
  have two := listed second there
  rw [count]
  match defs.filter fun id => named hs id == some name, one, two with
  | [k], one, two => exact absurd ((List.mem_singleton.mp one).trans (List.mem_singleton.mp two).symm) different
  | _ :: _ :: _, _, _ => exact Nat.le_add_left ..

/-- No production gets a definition, and those that have one keep their names. -/
theorem revise (names : ∀ {k}, k < hs.length → named hs' k = named hs k) (flags : ∀ {k}, Flagged hs' k ↔ Flagged hs k) :
    Spells hs' defs started where
  defined := spells.defined.trans flags.symm
  distinct := spells.distinct
  spelled := (List.map_congr_left fun _ member => names (spells.lt_length member)).trans spells.spelled
  ascending := spells.ascending.imp_of_mem fun {i j} first second before same => before (by
    rwa [names (spells.lt_length first), names (spells.lt_length second)] at same)

/-- A production gets its definition, and is younger than those of its name that have one. -/
theorem define (names : ∀ {k}, k < hs.length → named hs' k = named hs k) (free : ¬ Flagged hs id)
    (called : named hs' id = some name) (flags : ∀ {k}, Flagged hs' k ↔ k = id ∨ Flagged hs k)
    (younger : ∀ {k}, Flagged hs k → named hs k = some name → k < id) :
    Spells hs' (defs ++ [id]) (started ++ [name]) where
  defined {k} := by
    rw [List.mem_append, List.mem_singleton, spells.defined, flags, or_comm]
  distinct := List.nodup_append.mpr ⟨spells.distinct, List.nodup_singleton _, fun k member _ itself same => by
    rw [List.mem_singleton] at itself
    exact free (spells.defined.mp (itself ▸ same ▸ member))⟩
  spelled := by
    rw [List.map_append, List.map_append, ← spells.spelled, List.map_singleton, called,
      List.map_congr_left fun _ member => names (spells.lt_length member)]
    rfl
  ascending := by
    refine List.pairwise_append.mpr ⟨?_, List.pairwise_singleton .., ?_⟩
    · exact spells.ascending.imp_of_mem fun {i j} first second before same => before (by
        rwa [names (spells.lt_length first), names (spells.lt_length second)] at same)
    · intro k member _ itself same
      obtain rfl := List.mem_singleton.mp itself
      rw [names (spells.lt_length member), called] at same
      exact younger (spells.defined.mp member) same

end Spells

theorem getElem?_concat (hs : List Heading) (h : Heading) (k : Nat) :
    (hs ++ [h])[k]? = if k = hs.length then some h else hs[k]? := by
  split
  · next last => rw [last, List.getElem?_concat_length]
  · next other =>
    rcases Nat.lt_or_ge k hs.length with inside | outside
    · rw [List.getElem?_append_left inside]
    · rw [List.getElem?_eq_none outside, List.getElem?_eq_none]
      rw [List.length_append, List.length_singleton]
      omega

/-- An entry in the place of another one. -/
theorem getElem?_replace (before after : List Heading) (g h : Heading) (k : Nat) :
    (before ++ g :: after)[k]? = if k = before.length then some g else (before ++ h :: after)[k]? := by
  have set : before ++ g :: after = (before ++ h :: after).set before.length g := by simp
  rw [set, List.getElem?_set]
  by_cases here : before.length = k
  · simp [← here]
  · rw [if_neg here, if_neg (Ne.symm here)]

theorem named_concat (inside : id < hs.length) : named (hs ++ [h]) id = named hs id := by
  rw [named, List.getElem?_append_left inside, named]

theorem flagged_concat : Flagged (hs ++ [h]) id ↔ id = hs.length ∧ h.defined = true ∨ Flagged hs id := by
  unfold Flagged
  rw [getElem?_concat]
  split
  · next last =>
    subst last
    simp
  · next other => simp [other]

/-- A new production with a definition. -/
theorem Spells.defineLast (spells : Spells hs defs started) (defined : h.defined = true) :
    Spells (hs ++ [h]) (defs ++ [hs.length]) (started ++ [h.name]) := by
  have inside {k : Nat} (flagged : Flagged hs k) : k < hs.length := by
    obtain ⟨e, found, -⟩ := flagged
    exact (List.getElem?_eq_some_iff.mp found).1
  refine spells.define named_concat (fun flagged => Nat.lt_irrefl _ (inside flagged)) ?_ ?_ fun flagged _ => inside flagged
  · rw [named, List.getElem?_concat_length, Option.map_some]
  · simp [flagged_concat, defined]

section

variable {before after : List Heading} {g : Heading}

theorem getElem?_here : (before ++ h :: after)[before.length]? = some h := by simp

/-- Other entries stand in other places. -/
theorem exists_elsewhere {e : Heading} (member : e ∈ before ++ after) :
    ∃ k, k ≠ before.length ∧ (before ++ h :: after)[k]? = some e := by
  rcases List.mem_append.mp member with first | later
  · obtain ⟨k, found⟩ := List.mem_iff_getElem?.mp first
    have inside := (List.getElem?_eq_some_iff.mp found).1
    exact ⟨k, Nat.ne_of_lt inside, (List.getElem?_append_left inside).trans found⟩
  · obtain ⟨k, found⟩ := List.mem_iff_getElem?.mp later
    refine ⟨before.length + (k + 1), by omega, ?_⟩
    rw [List.getElem?_append_right (Nat.le_add_right ..), Nat.add_sub_cancel_left, List.getElem?_cons_succ, found]

theorem named_replace (same : g.name = h.name) : named (before ++ g :: after) id = named (before ++ h :: after) id := by
  unfold named
  rw [getElem?_replace before after g h]
  split
  · next here =>
    subst here
    simp [same]
  · rfl

theorem flagged_replace (defined : g.defined = true) :
    Flagged (before ++ g :: after) id ↔ id = before.length ∨ Flagged (before ++ h :: after) id := by
  unfold Flagged
  rw [getElem?_replace before after g h]
  split
  · next here => simp [here, defined]
  · next other => simp [other]

end

namespace Registers

variable (registers : Registers hs defs started mentioned)

include registers

theorem mem_waiting (member : h ∈ hs) (undefined : h.defined = false) : h.name ∈ mentioned ∧ h.name ∉ started := by
  have waits : h.name ∈ (hs.filter (!·.defined)).map Heading.name :=
    List.mem_map_of_mem (List.mem_filter.mpr ⟨member, by rw [undefined]; rfl⟩)
  rw [registers.waiting, List.mem_eraseDups, List.mem_filter] at waits
  exact ⟨waits.1, of_decide_eq_true waits.2⟩

theorem of_mentioned (member : name ∈ mentioned) : ∃ h ∈ hs, h.name = name := by
  by_cases known : name ∈ started
  · exact registers.of_started known
  · have waits : name ∈ (mentioned.filter (· ∉ started)).eraseDups :=
      List.mem_eraseDups.mpr (List.mem_filter.mpr ⟨member, decide_eq_true known⟩)
    rw [← registers.waiting, List.mem_map] at waits
    obtain ⟨h, listed, same⟩ := waits
    exact ⟨h, (List.mem_filter.mp listed).1, same⟩

/-- A name that is known already. -/
theorem mention (known : ∃ h ∈ hs, h.name = name) : Registers hs defs started (mentioned ++ [name]) := by
  refine { registers with waiting := ?_ }
  rw [registers.waiting, List.filter_append]
  by_cases begun : name ∈ started
  · rw [List.filter_cons_of_neg (by simpa using begun), List.filter_nil, List.append_nil]
  · obtain ⟨h, member, rfl⟩ := known
    have undefined : h.defined = false := by
      rw [← Bool.not_eq_true]
      exact fun defined => begun (registers.mem_started member defined)
    have before : h.name ∈ mentioned.filter (· ∉ started) :=
      List.mem_filter.mpr ⟨(registers.mem_waiting member undefined).1, decide_eq_true begun⟩
    have single : [h.name].filter (· ∉ started) = [h.name] := List.filter_eq_self.mpr (by simpa using begun)
    rw [single, eraseDups_concat, if_pos before]

section

variable (fresh : ∀ h ∈ hs, h.name ≠ name)

include fresh

theorem not_mem_started : name ∉ started := fun member => by
  obtain ⟨h, known, same⟩ := registers.of_started member
  exact fresh h known same

theorem not_mem_mentioned : name ∉ mentioned := fun member => by
  obtain ⟨h, known, same⟩ := registers.of_mentioned member
  exact fresh h known same

/-- With a production of a new name, no other production gets company. -/
theorem alone_concat (called : h.name = name) {i j : Nat} {e f : Heading} (here : (hs ++ [h])[i]? = some e)
    (there : (hs ++ [h])[j]? = some f) (undefined : e.defined = false) (same : f.name = e.name) : j = i := by
  rw [getElem?_concat] at here there
  split at here <;> split at there
  · next last last' => exact last'.trans last.symm
  · cases here
    exact absurd (same.trans called) (fresh f (List.mem_of_getElem? there))
  · cases there
    exact absurd (same.symm.trans called) (fresh e (List.mem_of_getElem? here))
  · exact registers.alone here there undefined same

/-- A name that nobody has asked for yet. -/
theorem introduce : Registers (hs ++ [⟨name, false, false⟩]) defs started (mentioned ++ [name]) where
  toSpells := registers.revise named_concat (by simp [flagged_concat])
  waiting := by
    have new : name ∉ mentioned.filter (· ∉ started) :=
      fun member => registers.not_mem_mentioned fresh (List.mem_filter.mp member).1
    have single : [name].filter (· ∉ started) = [name] :=
      List.filter_eq_self.mpr (by simpa using registers.not_mem_started fresh)
    rw [List.filter_append, List.map_append, registers.waiting, List.filter_append, single, eraseDups_concat, if_neg new]
    rfl
  alone := registers.alone_concat fresh rfl
  duplicated e member := by
    rcases List.mem_append.mp member with old | last
    · exact registers.duplicated e old
    · obtain rfl := List.mem_singleton.mp last
      have none := List.count_eq_zero.mpr (registers.not_mem_started fresh)
      simp [none]

/-- A definition of a new name. -/
theorem defineNew :
    Registers (hs ++ [⟨name, true, false⟩]) (defs ++ [hs.length]) (started ++ [name]) mentioned where
  toSpells := registers.defineLast rfl
  waiting := by
    have others : ∀ other ∈ mentioned.filter (· ∉ started), decide (other ≠ name) = true := by
      rintro other member
      refine decide_eq_true fun same => ?_
      exact registers.not_mem_mentioned fresh (same ▸ (List.mem_filter.mp member).1)
    rw [List.filter_append, List.map_append, registers.waiting, filter_notMem_concat, List.filter_eq_self.mpr others]
    simp
  alone := registers.alone_concat fresh rfl
  duplicated e member := by
    rw [List.count_append]
    rcases List.mem_append.mp member with old | last
    · rw [registers.duplicated e old, List.count_singleton, if_neg (by simpa using Ne.symm (fresh e old)), Nat.add_zero]
    · obtain rfl := List.mem_singleton.mp last
      have none := List.count_eq_zero.mpr (registers.not_mem_started fresh)
      simp [none]

end

end Registers

section

variable {before after : List Heading}

namespace Registers

variable (registers : Registers (before ++ h :: after) defs started mentioned)

include registers

/-- The place of a production without a definition is the only one for its name. -/
theorem others (undefined : h.defined = false) : ∀ e ∈ before ++ after, e.name ≠ h.name := by
  intro e member same
  obtain ⟨k, elsewhere, found⟩ := exists_elsewhere (h := h) member
  exact elsewhere (registers.alone getElem?_here found undefined same)

/-- A name is started that others are not called by. -/
theorem duplicated_concat {e : Heading} (member : e ∈ before ++ after) (other : e.name ≠ name) :
    e.duplicated = true ↔ 1 < (started ++ [name]).count e.name := by
  obtain ⟨k, -, found⟩ := exists_elsewhere (h := h) member
  rw [registers.duplicated e (List.mem_of_getElem? found), List.count_append, List.count_singleton, if_neg (by simpa using Ne.symm other),
    Nat.add_zero]

/-- A definition of a name that waits for it. -/
theorem defineWaiting (undefined : h.defined = false) :
    Registers (before ++ { h with defined := true } :: after) (defs ++ [before.length]) (started ++ [h.name]) mentioned where
  toSpells := by
    have free : ¬ Flagged (before ++ h :: after) before.length := by
      rintro ⟨e, found, defined⟩
      cases getElem?_here.symm.trans found
      exact Bool.false_ne_true (undefined.symm.trans defined)
    refine registers.define (fun _ => named_replace rfl) free ?_ (flagged_replace rfl) ?_
    · rw [named, getElem?_here, Option.map_some]
    · rintro k ⟨e, found, defined⟩ called
      rw [named, found] at called
      cases registers.alone getElem?_here found undefined (Option.some.inj called)
      exact absurd ⟨e, found, defined⟩ free
  waiting := by
    have others := registers.others undefined
    have kept {part : List Heading} (within : ∀ e ∈ part, e ∈ before ++ after) :
        ((part.filter (!·.defined)).map Heading.name).filter (· ≠ h.name) = (part.filter (!·.defined)).map Heading.name := by
      refine List.filter_eq_self.mpr fun other member => ?_
      obtain ⟨e, listed, rfl⟩ := List.mem_map.mp member
      exact decide_eq_true (others e (within e (List.mem_filter.mp listed).1))
    rw [filter_notMem_concat, filter_eraseDups, ← registers.waiting, List.filter_append, List.filter_append,
      List.map_append, List.map_append, List.filter_append, kept fun _ => List.mem_append_left _]
    rw [List.filter_cons_of_neg (by simp), List.filter_cons_of_pos (by simp [undefined]), List.map_cons,
      List.filter_cons_of_neg (by simp), kept fun _ => List.mem_append_right _]
  alone {i j e f} here there undefined' same := by
    rw [getElem?_replace before after _ h] at here there
    split at here
    · cases here
      cases undefined'
    · split at there
      · next last =>
        cases there
        exact last.trans (registers.alone here getElem?_here undefined' same)
      · exact registers.alone here there undefined' same
  duplicated e member := by
    rcases List.mem_append.mp member with first | rest
    · exact registers.duplicated_concat (List.mem_append_left _ first)
        (registers.others undefined e (List.mem_append_left _ first))
    · rcases List.mem_cons.mp rest with rfl | later
      · have listed : h ∈ before ++ h :: after := List.mem_of_getElem? getElem?_here
        have none := List.count_eq_zero.mpr (registers.mem_waiting listed undefined).2
        have single := registers.duplicated h listed
        rw [none] at single
        rw [List.count_append, none]
        simpa using single
      · exact registers.duplicated_concat (List.mem_append_right _ later)
          (registers.others undefined e (List.mem_append_right _ later))

/-- Another definition of a name that has one. -/
theorem defineAgain (defined : h.defined = true) :
    Registers (before ++ { h with duplicated := true } :: after ++ [⟨h.name, true, true⟩])
      (defs ++ [(before ++ h :: after).length]) (started ++ [h.name]) mentioned where
  toSpells := by
    have flags {k : Nat} : Flagged (before ++ { h with duplicated := true } :: after) k ↔ Flagged (before ++ h :: after) k := by
      refine (flagged_replace (g := { h with duplicated := true }) (h := h) defined).trans (or_iff_right_of_imp ?_)
      rintro rfl
      exact ⟨h, getElem?_here, defined⟩
    have same : (before ++ h :: after).length = (before ++ { h with duplicated := true } :: after).length := by simp
    have kept : Spells (before ++ { h with duplicated := true } :: after) defs started :=
      registers.revise (fun _ => named_replace rfl) flags
    rw [same]
    exact kept.defineLast rfl
  waiting := by
    have known := registers.mem_started (List.mem_of_getElem? getElem?_here) defined
    have others : ∀ other ∈ mentioned.filter (· ∉ started), decide (other ≠ h.name) = true := by
      rintro other member
      refine decide_eq_true fun same => ?_
      exact of_decide_eq_true (List.mem_filter.mp member).2 (same ▸ known)
    rw [filter_notMem_concat, List.filter_eq_self.mpr others, ← registers.waiting]
    simp [defined]
  alone {i j e f} here there undefined same := by
    have original {k : Nat} {e : Heading}
        (found : (before ++ { h with duplicated := true } :: after ++ [⟨h.name, true, true⟩])[k]? = some e) :
        (e.defined = true ∧ e.name = h.name) ∨ (before ++ h :: after)[k]? = some e := by
      rw [getElem?_concat, getElem?_replace before after _ h] at found
      split at found
      · cases found
        exact .inl ⟨rfl, rfl⟩
      · split at found
        · cases found
          exact .inl ⟨defined, rfl⟩
        · exact .inr found
    have here := (original here).resolve_left fun flagged => Bool.false_ne_true (undefined.symm.trans flagged.1)
    rcases original there with ⟨-, called⟩ | there
    · cases registers.alone here getElem?_here undefined (called.symm.trans same)
      cases getElem?_here.symm.trans here
      exact absurd (undefined.symm.trans defined) Bool.false_ne_true
    · exact registers.alone here there undefined same
  duplicated e member := by
    have known := registers.mem_started (List.mem_of_getElem? getElem?_here) defined
    have many : 1 < (started ++ [h.name]).count h.name := by
      have := List.count_pos_iff.mpr known
      rw [List.count_append, List.count_singleton_self]
      omega
    have elsewhere (member : e ∈ before ++ after) : e.duplicated = true ↔ 1 < (started ++ [h.name]).count e.name := by
      by_cases same : e.name = h.name
      · -- The two productions of this name have a definition each, so both are flagged already.
        obtain ⟨k, other, found⟩ := exists_elsewhere (h := h) member
        have defined' : e.defined = true := by
          rw [← Bool.not_eq_false]
          exact fun undefined => other (registers.alone found getElem?_here undefined same.symm).symm
        have here : named (before ++ h :: after) before.length = some e.name := by
          rw [named, getElem?_here, same]
          rfl
        have twice := registers.two_le_count (registers.defined.mpr ⟨e, found, defined'⟩)
          (registers.defined.mpr ⟨h, getElem?_here, defined⟩) other (congrArg (Option.map Heading.name) found) here
        exact iff_of_true ((registers.duplicated e (List.mem_of_getElem? found)).mpr twice) (same ▸ many)
      · exact registers.duplicated_concat member same
    rcases List.mem_append.mp member with old | last
    · rcases List.mem_append.mp old with first | rest
      · exact elsewhere (List.mem_append_left _ first)
      · rcases List.mem_cons.mp rest with rfl | later
        · exact iff_of_true rfl many
        · exact elsewhere (List.mem_append_right _ later)
    · obtain rfl := List.mem_singleton.mp last
      exact iff_of_true rfl many

end Registers

end

variable {b b' : Builder}

@[simp] theorem length_headings (b : Builder) : b.headings.length = b.productions.size := by simp [headings]

theorem getElem?_headings (b : Builder) (id : Nat) : b.headings[id]? = b.productions[id]?.map Production.heading := by
  rw [headings, Array.getElem?_toList, Array.getElem?_map]

theorem isDefined_iff_flagged (b : Builder) (id : Nat) : b.isDefined id = true ↔ Flagged b.headings id := by
  rw [Flagged, getElem?_headings, isDefined]
  cases b.productions[id]? with
  | none => simp
  | some p => simp [Production.heading]

/-- A name is looked up among those that are known, and made known if it is not. -/
theorem lookup_cases (b : Builder) (name : String) :
    (∀ h ∈ b.headings, h.name ≠ name) ∧ (b.lookup name).1 = b.headings.length ∧
        (b.lookup name).2.headings = b.headings ++ [⟨name, false, false⟩] ∨
      ∃ (id : Nat) (inside : id < b.headings.length), b.headings[id].name = name ∧ (∀ h ∈ b.headings.take id, h.name ≠ name) ∧
        b.lookup name = (id, b) := by
  unfold Builder.lookup
  split
  · next id found =>
    obtain ⟨inside, same, earlier⟩ := Array.findIdx?_eq_some_iff_getElem.mp found
    refine .inr ⟨id, (length_headings b).symm ▸ inside, ?_, fun h member => ?_, rfl⟩
    · simpa [headings, Production.heading] using same
    · obtain ⟨k, small, rfl⟩ := List.mem_take_iff_getElem.mp member
      have other := earlier k (Nat.lt_of_lt_of_le small (Nat.min_le_left ..))
      simpa [headings, Production.heading] using other
  · next missing =>
    refine .inl ⟨fun h member => ?_, (length_headings b).symm, by simp [create, headings, Production.heading]⟩
    obtain ⟨p, listed, rfl⟩ := Array.mem_map.mp (Array.mem_toList_iff.mp member)
    have other := Array.findIdx?_eq_none_iff.mp missing p listed
    simpa [Production.heading] using other

theorem headings_modify {f : Production → Production} {g : Heading → Heading} (same : ∀ p, (f p).heading = g p.heading)
    (b : Builder) (id : Nat) : { b with productions := b.productions.modify id f }.headings = b.headings.modify id g := by
  refine List.ext_getElem? fun k => ?_
  rw [getElem?_headings, List.getElem?_modify, getElem?_headings, Array.getElem?_modify]
  by_cases here : id = k
  · cases b.productions[k]? <;> simp [here, same]
  · simp [here]

theorem modify_append_cons (before after : List Heading) (h : Heading) (f : Heading → Heading) :
    (before ++ h :: after).modify before.length f = before ++ f h :: after := by
  induction before with
  | nil => rfl
  | cons e rest ih => exact congrArg (e :: ·) ih

/-- A production that waits for its definition gets it. -/
theorem define_of_undefined (undefined : (b.lookup name).2.isDefined (b.lookup name).1 = false) :
    (b.define name).2.headings = (b.lookup name).2.headings.modify (b.lookup name).1 ({ · with defined := true }) ∧
      (b.define name).2.definitions = (b.lookup name).2.definitions.push (b.lookup name).1 := by
  rw [← headings_modify (f := ({ · with defined := true })) fun _ => rfl]
  simp only [define, undefined, Bool.false_eq_true, ↓reduceIte]
  exact ⟨rfl, trivial⟩

/-- A production that has a definition is joined by another one. -/
theorem define_of_defined (defined : (b.lookup name).2.isDefined (b.lookup name).1 = true) :
    (b.define name).2.headings =
        (b.lookup name).2.headings.modify (b.lookup name).1 ({ · with duplicated := true }) ++ [⟨name, true, true⟩] ∧
      (b.define name).2.definitions = (b.lookup name).2.definitions.push (b.lookup name).2.headings.length := by
  rw [← headings_modify (f := ({ · with duplicated := true })) fun _ => rfl]
  simp only [define, defined, ↓reduceIte, create]
  simp [headings, Production.heading]

/-- What a definition does to the register. -/
theorem define_cases (b : Builder) (name : String) :
    ((∀ h ∈ b.headings, h.name ≠ name) ∧ (b.define name).2.headings = b.headings ++ [⟨name, true, false⟩] ∧
        (b.define name).2.definitions = b.definitions.push b.headings.length) ∨
      ∃ before h after, b.headings = before ++ h :: after ∧ h.name = name ∧
        (h.defined = false ∧ (b.define name).2.headings = before ++ { h with defined := true } :: after ∧
            (b.define name).2.definitions = b.definitions.push before.length ∨
          h.defined = true ∧ (b.define name).2.headings = before ++ { h with duplicated := true } :: after ++ [⟨name, true, true⟩] ∧
            (b.define name).2.definitions = b.definitions.push b.headings.length) := by
  obtain ⟨productions, known, -⟩ := lookup_keeps b name
  have definitions : (b.lookup name).2.definitions = b.definitions := by rw [known]
  have flag {id : Nat} {h : Heading} (here : (b.lookup name).2.headings[id]? = some h) :
      (b.lookup name).2.isDefined id = h.defined := by
    rw [Bool.eq_iff_iff, isDefined_iff_flagged, Flagged, here]
    simp
  rcases lookup_cases b name with ⟨fresh, place, headings⟩ | ⟨id, inside, called, -, found⟩
  · have here : (b.lookup name).2.headings[(b.lookup name).1]? = some ⟨name, false, false⟩ := by
      rw [headings, place, List.getElem?_concat_length]
    obtain ⟨headings', definitions'⟩ := define_of_undefined (flag here)
    refine .inl ⟨fresh, ?_, ?_⟩
    · rw [headings', headings, place, modify_append_cons]
    · rw [definitions', definitions, place]
  · have split : b.headings = b.headings.take id ++ b.headings[id] :: b.headings.drop (id + 1) := by
      rw [← List.drop_eq_getElem_cons inside, List.take_append_drop]
    have length : (b.headings.take id).length = id := List.length_take_of_le (Nat.le_of_lt inside)
    have here : (b.lookup name).2.headings[(b.lookup name).1]? = some b.headings[id] := by
      rw [found, List.getElem?_eq_getElem inside]
    refine .inr ⟨_, _, _, split, called, ?_⟩
    rcases Bool.eq_false_or_eq_true b.headings[id].defined with flagged | flagged
    · obtain ⟨headings', definitions'⟩ := define_of_defined ((flag here).trans flagged)
      rw [found] at headings' definitions'
      exact .inr ⟨flagged, headings'.trans (congrArg (· ++ _) (List.modify_eq_take_cons_drop inside)), definitions'⟩
    · obtain ⟨headings', definitions'⟩ := define_of_undefined ((flag here).trans flagged)
      rw [found] at headings' definitions'
      exact .inl ⟨flagged, headings'.trans (List.modify_eq_take_cons_drop inside), length.symm ▸ definitions'⟩

/-- The name that a step starts a production of. -/
def Step.started? : Step → Option String
  | .startProduction name => some name
  | _ => none

/-- The name that a step refers to. -/
def Step.mentioned? : Step → Option String
  | .reference name _ => some name
  | _ => none

/-- The steps that are not refused, in order. -/
def accepted (b : Builder) : List Step → List Step
  | [] => []
  | step :: rest =>
    match b.apply step with
    | .ok b' => step :: b'.accepted rest
    | .error _ => b.accepted rest

/-- The names that were started and those that were mentioned tell the register of the builder. -/
def Numbered (b : Builder) (started mentioned : List String) : Prop :=
  Registers b.headings b.definitions.toList started mentioned

theorem Numbered.works (numbered : b.Numbered started mentioned) (works : Works b b') : b'.Numbered started mentioned := by
  unfold Numbered
  rw [works.headings, works.definitions]
  exact numbered

theorem Numbered.startProduction (numbered : b.Numbered started mentioned) (begun : b.startProduction name = .ok b') :
    b'.Numbered (started ++ [name]) mentioned := by
  obtain ⟨-, rfl⟩ := of_startProduction begun
  change Registers (b.define name).2.headings (b.define name).2.definitions.toList _ _
  obtain ⟨fresh, headings, definitions⟩ | ⟨before, h, after, split, rfl, ⟨waits, headings, definitions⟩ |
    ⟨defined, headings, definitions⟩⟩ := define_cases b name
  · rw [headings, definitions, Array.toList_push]
    exact Registers.defineNew numbered fresh
  · unfold Numbered at numbered
    rw [split] at numbered
    rw [headings, definitions, Array.toList_push]
    exact numbered.defineWaiting waits
  · unfold Numbered at numbered
    rw [headings, definitions, Array.toList_push, split]
    rw [split] at numbered
    exact numbered.defineAgain defined

theorem Numbered.lookup (numbered : b.Numbered started mentioned) (name : String) :
    (b.lookup name).2.Numbered started (mentioned ++ [name]) := by
  obtain ⟨productions, known, -⟩ := lookup_keeps b name
  have definitions : (b.lookup name).2.definitions = b.definitions := by rw [known]
  unfold Numbered
  rw [definitions]
  obtain ⟨fresh, -, headings⟩ | ⟨id, inside, called, -, found⟩ := lookup_cases b name
  · rw [headings]
    exact Registers.introduce numbered fresh
  · rw [found]
    exact Registers.mention numbered ⟨b.headings[id], List.getElem_mem inside, called⟩

/-- Closing a mark may cut the arena off, and does nothing else to productions and nodes. -/
theorem of_closed (closed : b.release = .ok b' ∨ b.reset = .ok b') : b'.productions = b.productions ∧
    b'.definitions = b.definitions ∧ ∃ size, b'.nodes = b.nodes.extract 0 size := by
  rcases closed with released | discarded
  · unfold Builder.release at released
    split at released
    · cases released
    · split at released
      · cases released
      · obtain rfl := Except.ok.inj released
        exact ⟨rfl, rfl, b.nodes.size, by simp⟩
  · unfold Builder.reset at discarded
    split at discarded
    · cases discarded
    · split at discarded
      · cases discarded
      · obtain rfl := Except.ok.inj discarded
        exact ⟨rfl, rfl, _, rfl⟩

theorem Numbered.closed (numbered : b.Numbered started mentioned) (closed : b.release = .ok b' ∨ b.reset = .ok b') :
    b'.Numbered started mentioned := by
  obtain ⟨productions, definitions, -⟩ := of_closed closed
  unfold Numbered headings
  rw [productions, definitions]
  exact numbered

theorem Numbered.endProduction (numbered : b.Numbered started mentioned) (ended : b.endProduction = .ok b') :
    b'.Numbered started mentioned := by
  obtain ⟨owner, root, b₁, -, works, rfl⟩ := works_endProduction ended
  have rooted : Works b₁ { b₁ with productions := b₁.productions.modify owner fun p => { p with root } } := by
    refine works_modifyProductions (fun p => ?_) owner
    rfl
  have told := numbered.works (works.trans rooted)
  exact told

/-- What an accepted step tells the register. -/
theorem Numbered.apply {step : Step} (numbered : b.Numbered started mentioned) (applied : b.apply step = .ok b')
    (uncleared : step ≠ .clear) :
    b'.Numbered (started ++ step.started?.toList) (mentioned ++ step.mentioned?.toList) := by
  cases reaches : step.reaches with
  | false =>
    have silent : step.started? = none ∧ step.mentioned? = none := by
      cases step <;> first | exact ⟨rfl, rfl⟩ | cases reaches
    rw [silent.1, silent.2, Option.toList_none, List.append_nil, List.append_nil]
    exact numbered.works (works_apply reaches applied)
  | true =>
    cases step with
    | startProduction name => simpa [Step.started?, Step.mentioned?] using numbered.startProduction applied
    | reference name memo =>
      obtain ⟨owner, -, rfl⟩ := of_pushReference applied
      simpa [Step.started?, Step.mentioned?] using (numbered.lookup name).works (works_grown rfl)
    | endProduction => simpa [Step.started?, Step.mentioned?] using numbered.endProduction applied
    | mark =>
      obtain rfl := Except.ok.inj applied
      have marked : b.mark.Numbered started mentioned := numbered
      simpa [Step.started?, Step.mentioned?] using marked
    | release => simpa [Step.started?, Step.mentioned?] using numbered.closed (.inl applied)
    | reset => simpa [Step.started?, Step.mentioned?] using numbered.closed (.inr applied)
    | clear => exact absurd rfl uncleared
    | _ => cases reaches

/-- What a run tells the register, by its accepted steps. -/
theorem Numbered.attempts {steps : List Step} (numbered : b.Numbered started mentioned) (uncleared : .clear ∉ steps) :
    (steps.foldl attempt b).Numbered (started ++ (b.accepted steps).filterMap Step.started?)
      (mentioned ++ (b.accepted steps).filterMap Step.mentioned?) := by
  induction steps generalizing b started mentioned with
  | nil => simpa [accepted] using numbered
  | cons step rest ih =>
    obtain ⟨here, later⟩ := not_or.mp (List.mem_cons.not.mp uncleared)
    cases applied : b.apply step with
    | error refusal =>
      rw [List.foldl_cons, attempt, accepted, applied]
      exact ih numbered later
    | ok b₁ =>
      have first (name? : Step → Option String) (others : List Step) :
          (step :: others).filterMap name? = (name? step).toList ++ others.filterMap name? := by
        cases named : name? step <;> simp [named]
      rw [List.foldl_cons, attempt, accepted, applied]
      dsimp only
      rw [first, first, ← List.append_assoc, ← List.append_assoc]
      exact ih (numbered.apply applied (Ne.symm here)) later

end Builder

end Packrat

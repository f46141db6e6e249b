import Packrat.Proofs.Memo
import Mathlib.Data.Finset.Card
import Mathlib.Data.Finset.Dedup
import Mathlib.Data.List.Find
import Mathlib.Data.Nat.ModEq

/-! # What a memo table holds

Stores and clears make a list of stores: those since the last clear, the last one first (`Operation.stores`). A table
holds such a list if it answers for a pair what the first store gives that meets the pair modulo 2^32, and has as many
entries as pairs modulo 2^32 (`Table.Holds`). Each operation keeps the table and the list together.
-/

namespace Packrat.Memo

variable {S : Type} {p o : Nat}

namespace Store

/-- The low halves of the numbers in the pair, which are all that its key holds. -/
def halves (store : Store S) : Nat × Nat := (store.production % 2 ^ 32, store.offset % 2 ^ 32)

/-- The pair of the store is the pair `(p, o)` modulo 2^32. -/
def Meets (store : Store S) (p o : Nat) : Prop :=
  store.production ≡ p [MOD 2 ^ 32] ∧ store.offset ≡ o [MOD 2 ^ 32]

instance (store : Store S) (p o : Nat) : Decidable (store.Meets p o) := inferInstanceAs (Decidable (_ ∧ _))

theorem meets_iff_key_eq {store : Store S} : store.Meets p o ↔ key store.production store.offset = key p o :=
  key_eq_iff.symm

theorem meets_iff_halves_eq {store other : Store S} :
    other.Meets store.production store.offset ↔ other.halves = store.halves := by
  simp only [Meets, halves, Nat.ModEq, Prod.mk.injEq]

/-- Below 2^32 a pair is met by itself only. -/
theorem meets_iff_eq {store : Store S} (small : store.production < 2 ^ 32 ∧ store.offset < 2 ^ 32)
    (small' : p < 2 ^ 32 ∧ o < 2 ^ 32) : store.Meets p o ↔ store.production = p ∧ store.offset = o := by
  rw [Meets, Nat.ModEq, Nat.ModEq, Nat.mod_eq_of_lt small.1, Nat.mod_eq_of_lt small.2, Nat.mod_eq_of_lt small'.1,
    Nat.mod_eq_of_lt small'.2]

end Store

namespace Operation

/-- The stores behind an operation since the last clear, with those before it. -/
def recent (earlier : List (Store S)) : Operation S → List (Store S)
  | .store made => made :: earlier
  | .clear => []

/-- The stores since the last clear, the last one first. -/
def stores (operations : List (Operation S)) : List (Store S) := operations.foldl recent []

end Operation

namespace Table

theorem size_insert (table : Table S) (entry : Entry S) :
    (table.insert p o entry).size = if (table.get? p o).isSome then table.size else table.size + 1 := by
  rw [size, insert, Std.HashMap.size_insert]
  exact if_congr Std.HashMap.mem_iff_isSome_getElem? rfl rfl

/-- The table holds the last of the stores under each key. -/
structure Holds (table : Table S) (stores : List (Store S)) : Prop where
  get : ∀ p o, table.get? p o = (stores.find? fun store => store.Meets p o).map Store.entry
  size : table.size = (stores.map Store.halves).toFinset.card

variable {table : Table S} {stores : List (Store S)}

theorem holds_empty : (empty : Table S).Holds [] where
  get := get?_empty
  size := by simp [Table.size, empty]

/-- A pair finds something if a store meets it. -/
theorem Holds.isSome_get? (holds : table.Holds stores) (store : Store S) :
    (table.get? store.production store.offset).isSome ↔ store.halves ∈ (stores.map Store.halves).toFinset := by
  rw [holds.get, Option.isSome_map, List.find?_isSome, List.mem_toFinset, List.mem_map]
  simp only [decide_eq_true_eq, Store.meets_iff_halves_eq]

theorem Holds.insert (holds : table.Holds stores) (store : Store S) :
    (table.insert store.production store.offset store.entry).Holds (store :: stores) where
  get p o := by
    rw [get?_insert, holds.get, List.find?_cons]
    by_cases met : store.Meets p o
    · rw [if_pos (Store.meets_iff_key_eq.mp met), decide_eq_true met]
      rfl
    · rw [if_neg (met ∘ Store.meets_iff_key_eq.mpr), decide_eq_false met]
  size := by
    rw [size_insert, holds.size, List.map_cons, List.toFinset_cons]
    by_cases known : store.halves ∈ (stores.map Store.halves).toFinset
    · rw [if_pos ((holds.isSome_get? store).mpr known), Finset.insert_eq_of_mem known]
    · rw [if_neg (known ∘ (holds.isSome_get? store).mp), Finset.card_insert_of_notMem known]

/-- An operation adds its store, or takes all stores away. -/
theorem Holds.perform (holds : table.Holds stores) (operation : Operation S) :
    (table.perform operation).Holds (operation.recent stores) := by
  cases operation with
  | store store => exact holds.insert store
  | clear => exact holds_empty

theorem Holds.performAll (holds : table.Holds stores) (operations : List (Operation S)) :
    (table.performAll operations).Holds (operations.foldl Operation.recent stores) := by
  induction operations generalizing table stores with
  | nil => exact holds
  | cons operation rest ih => exact ih (holds.perform operation)

end Table

/-- A table answers for a pair what was stored last for it modulo 2^32 since the last clear, and has as many entries as
pairs modulo 2^32 were stored since then. If all these are below 2^32, it takes none of them for another. -/
theorem keeps_last_stores (operations : List (Operation S)) :
    let table := (Table.empty : Table S).performAll operations
    let stores := Operation.stores operations
    (∀ p o p' o', key p o = key p' o' ↔ p ≡ p' [MOD 2 ^ 32] ∧ o ≡ o' [MOD 2 ^ 32]) ∧
      (∀ p o, table.get? p o = (stores.find? fun store => store.Meets p o).map Store.entry) ∧
      table.size = (stores.map Store.halves).toFinset.card ∧
      ((∀ store ∈ stores, store.production < 2 ^ 32 ∧ store.offset < 2 ^ 32) →
        (∀ p o, p < 2 ^ 32 → o < 2 ^ 32 → table.get? p o =
          (stores.find? fun store => store.production = p ∧ store.offset = o).map Store.entry) ∧
        table.size = (stores.map fun store => (store.production, store.offset)).toFinset.card) := by
  intro table stores
  have holds : table.Holds stores := Table.holds_empty.performAll operations
  refine ⟨fun _ _ _ _ => key_eq_iff, holds.get, holds.size, fun small => ⟨fun p o few short => ?_, ?_⟩⟩
  · have same : ∀ store ∈ stores, decide (store.Meets p o) = decide (store.production = p ∧ store.offset = o) :=
      fun store member => decide_eq_decide.mpr (Store.meets_iff_eq (small store member) ⟨few, short⟩)
    rw [holds.get, List.find?_congr same]
  · have same : stores.map Store.halves = stores.map fun store => (store.production, store.offset) :=
      List.map_congr_left fun store member =>
        Prod.ext (Nat.mod_eq_of_lt (small store member).1) (Nat.mod_eq_of_lt (small store member).2)
    rw [holds.size, same]

end Packrat.Memo

namespace Packrat.Sample

open Memo (Operation Table)

/-- A store that is forgotten, two whose productions differ by 2^32, and one at another offset. -/
def collidingStores : List (Operation Nat) :=
  [.store ⟨1, 5, ⟨9, none⟩⟩, .clear, .store ⟨1, 5, ⟨2, none⟩⟩, .store ⟨1 + 2 ^ 32, 5, ⟨0, some 7⟩⟩,
    .store ⟨1, 6, ⟨3, none⟩⟩]

/-- Two stores whose productions are the first one and the last one below 2^32, and one in place of the first. -/
def distantStores : List (Operation Nat) :=
  [.store ⟨0, 5, ⟨2, none⟩⟩, .store ⟨2 ^ 32 - 1, 5, ⟨0, some 7⟩⟩, .store ⟨0, 5, ⟨3, none⟩⟩]

/-- From 2^32 on a store is found under a pair that it was not made under; below, it is not. -/
theorem stores_kept :
    let colliding := (Table.empty : Table Nat).performAll collidingStores
    let distant := (Table.empty : Table Nat).performAll distantStores
    (∀ store ∈ Operation.stores distantStores, store.production < 2 ^ 32 ∧ store.offset < 2 ^ 32) ∧
      (colliding.get? 1 5 = some ⟨0, some 7⟩ ∧ colliding.get? 0 5 = none ∧ colliding.size = 2) ∧
      distant.get? 0 5 = some ⟨3, none⟩ ∧ distant.get? (2 ^ 32 - 1) 5 = some ⟨0, some 7⟩ ∧ distant.size = 2 := by
  intro colliding distant
  have small : ∀ store ∈ Operation.stores distantStores, store.production < 2 ^ 32 ∧ store.offset < 2 ^ 32 := by decide
  obtain ⟨-, get, size, -⟩ := Memo.keeps_last_stores collidingStores
  obtain ⟨get', size'⟩ := (Memo.keeps_last_stores distantStores).2.2.2 small
  exact ⟨small, ⟨(get 1 5).trans (by decide), (get 0 5).trans (by decide), size.trans (by decide)⟩,
    (get' 0 5 (by decide) (by decide)).trans (by decide),
    (get' (2 ^ 32 - 1) 5 (by decide) (by decide)).trans (by decide),
    size'.trans (by decide)⟩

end Packrat.Sample

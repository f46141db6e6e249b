import Std.Data.HashMap

/-! # Remembered reductions

A table of successful reductions, looked up by production and offset. The key packs the production
into the high half of a 64-bit word and the offset into the low half, so both count modulo 2^32.
-/

namespace Packrat.Memo

/-- The production in the high half of the word, the offset in the low half. -/
def key (production offset : Nat) : UInt64 :=
  (production.toUInt64 <<< 32) ||| (offset.toUInt64 &&& 0xFFFFFFFF)

/-- A reduction that matched `length` characters and changed the host as `snapshot` says. -/
structure Entry (S : Type) where
  length : Nat
  snapshot : Option S
deriving DecidableEq, Repr

structure Table (S : Type) where
  entries : Std.HashMap UInt64 (Entry S)

namespace Table

variable {S : Type}

def empty : Table S := ⟨∅⟩

instance : Inhabited (Table S) := ⟨empty⟩

def get? (table : Table S) (production offset : Nat) : Option (Entry S) :=
  table.entries[key production offset]?

/-- Remembers `entry`, in place of an earlier one with the same key. -/
def insert (table : Table S) (production offset : Nat) (entry : Entry S) : Table S :=
  ⟨table.entries.insert (key production offset) entry⟩

def size (table : Table S) : Nat := table.entries.size

def isEmpty (table : Table S) : Bool := table.size == 0

/-- Forgets all entries. -/
def clear (_ : Table S) : Table S := empty

@[simp] theorem get?_empty (production offset : Nat) :
    (empty : Table S).get? production offset = none := by
  simp [get?, empty]

theorem get?_insert_self (table : Table S) (production offset : Nat) (entry : Entry S) :
    (table.insert production offset entry).get? production offset = some entry := by
  simp [get?, insert]

end Table

/-- An entry with the pair that it is remembered under. -/
structure Store (S : Type) where
  production : Nat
  offset : Nat
  entry : Entry S
deriving DecidableEq, Repr

/-- What changes a table, as data. -/
inductive Operation (S : Type) where
  | store (store : Store S)
  | clear
deriving DecidableEq, Repr

namespace Table

variable {S : Type}

def perform (table : Table S) : Operation S → Table S
  | .store store => table.insert store.production store.offset store.entry
  | .clear => table.clear

/-- Operations one after the other. -/
def performAll (table : Table S) (operations : List (Operation S)) : Table S := operations.foldl perform table

end Table

end Packrat.Memo

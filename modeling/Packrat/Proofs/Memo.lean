import Packrat.Memo

/-! # Keys of the memo table

The key of a production and an offset determines both modulo 2^32, and nothing else. Below 2^32
the table is a map on pairs.
-/

namespace Packrat.Memo

theorem toNat_key (production offset : Nat) :
    (key production offset).toNat = production % UInt32.size * UInt32.size + offset % UInt32.size := by
  have size : UInt32.size = 2 ^ 32 := rfl
  have high : production % 2 ^ 64 * 2 ^ 32 % 2 ^ 64 = production % 2 ^ 32 * 2 ^ 32 := by omega
  have low : offset % 2 ^ 64 &&& 0xFFFFFFFF = offset % 2 ^ 32 := by
    rw [show 0xFFFFFFFF = 2 ^ 32 - 1 from rfl, Nat.and_two_pow_sub_one_eq_mod]
    omega
  have joined : production % 2 ^ 32 * 2 ^ 32 ||| offset % 2 ^ 32 =
      production % 2 ^ 32 * 2 ^ 32 + offset % 2 ^ 32 := by
    rw [← Nat.shiftLeft_eq, Nat.shiftLeft_add_eq_or_of_lt (Nat.mod_lt _ (by decide))]
  simp only [key, UInt64.toNat_or, UInt64.toNat_shiftLeft, UInt64.toNat_and, Nat.toUInt64_eq,
    UInt64.toNat_ofNat', Nat.shiftLeft_eq]
  rw [size, ← joined, ← high, ← low]
  rfl

theorem key_eq_iff {p o p' o' : Nat} :
    key p o = key p' o' ↔ p % UInt32.size = p' % UInt32.size ∧ o % UInt32.size = o' % UInt32.size := by
  rw [← UInt64.toNat_inj, toNat_key, toNat_key]
  unfold UInt32.size
  omega

namespace Table

variable {S : Type} {p o p' o' : Nat}

theorem get?_insert (table : Table S) (entry : Entry S) :
    (table.insert p o entry).get? p' o' = if key p o = key p' o' then some entry else table.get? p' o' := by
  simp only [get?, insert, Std.HashMap.getElem?_insert, beq_iff_eq]

/-- Under one key there is one entry. -/
theorem get?_of_key_eq (table : Table S) (same : key p o = key p' o') : table.get? p o = table.get? p' o' := by
  rw [get?, get?, same]

/-- Only the low half of the number of a production counts. -/
theorem get?_mod (table : Table S) : table.get? (p % UInt32.size) o = table.get? p o :=
  table.get?_of_key_eq (key_eq_iff.mpr ⟨Nat.mod_mod p _, rfl⟩)

theorem size_insert_of_missing {table : Table S} {entry : Entry S} (missing : table.get? p o = none) :
    (table.insert p o entry).size = table.size + 1 := by
  have fresh : key p o ∉ table.entries := by
    rw [Std.HashMap.mem_iff_isSome_getElem?, show table.entries[key p o]? = none from missing]
    exact Bool.false_ne_true
  exact Std.HashMap.size_insert.trans (if_neg fresh)

/-- What is found below 2^32 behind an insertion there. -/
theorem get?_insert_cases {table : Table S} {entry found : Entry S} (small : p < UInt32.size ∧ o < UInt32.size)
    (small' : p' < UInt32.size ∧ o' < UInt32.size) (here : (table.insert p o entry).get? p' o' = some found) :
    (p' = p ∧ o' = o ∧ found = entry) ∨ table.get? p' o' = some found := by
  rw [get?_insert] at here
  split at here
  · next same =>
    cases here
    rw [key_eq_iff, Nat.mod_eq_of_lt small.1, Nat.mod_eq_of_lt small'.1, Nat.mod_eq_of_lt small.2,
      Nat.mod_eq_of_lt small'.2] at same
    exact .inl ⟨same.1.symm, same.2.symm, rfl⟩
  · exact .inr here

end Table

end Packrat.Memo

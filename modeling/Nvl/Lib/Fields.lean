/-
Nvl/Lib/Fields.lean

Bit fields in a 32-bit word.

A field is put into a word by a mask, a shift and an or, and read by a shift and a
mask.  As numbers, what is put is a remainder times a power of two, fields above one
another add up, and what is read is a quotient's remainder; the rest is arithmetic.
-/
import Mathlib.Tactic.Ring

namespace SysLib

/-- A field shifted above the bits of the rest is added to it. -/
theorem or_shiftLeft_of_lt {k rest : Nat} (field : Nat) (h : rest < 2 ^ k) :
    rest ||| field <<< k = field * 2 ^ k + rest := by
  rw [Nat.or_comm, ← Nat.shiftLeft_add_eq_or_of_lt h, Nat.shiftLeft_eq]

/-- A field of `m` bits above `k` bits of rest makes `m + k` bits. -/
theorem field_lt {m k field rest : Nat} (hf : field < 2 ^ m) (hr : rest < 2 ^ k) :
    field * 2 ^ k + rest < 2 ^ (m + k) := by
  calc field * 2 ^ k + rest < field * 2 ^ k + 2 ^ k := Nat.add_lt_add_left hr _
    _ = (field + 1) * 2 ^ k := by ring
    _ ≤ 2 ^ m * 2 ^ k := Nat.mul_le_mul_right _ hf
    _ = 2 ^ (m + k) := (Nat.pow_add 2 m k).symm

/-- A field of `m` bits shifted by `k` loses no bit in a 32-bit word. -/
theorem toNat_shiftLeft_of_lt {x s : UInt32} {m k : Nat} (hs : s.toNat % 32 = k)
    (hx : x.toNat < 2 ^ m) (hmk : m + k ≤ 32) : (x <<< s).toNat = x.toNat <<< k := by
  have hlt : x.toNat * 2 ^ k + 0 < 2 ^ (m + k) := field_lt hx (Nat.two_pow_pos k)
  rw [UInt32.toNat_shiftLeft, hs, Nat.shiftLeft_eq]
  exact Nat.mod_eq_of_lt (lt_of_lt_of_le hlt (Nat.pow_le_pow_right two_pos hmk))

/-- A mask of `m` ones takes the remainder. -/
theorem toNat_and_mask {mask : UInt32} {m : Nat} (hmask : mask.toNat = 2 ^ m - 1) (x : UInt32) :
    (x &&& mask).toNat = x.toNat % 2 ^ m := by
  rw [UInt32.toNat_and, hmask, Nat.and_two_pow_sub_one_eq_mod]

/-- A field that is masked and shifted. -/
theorem toNat_mask_shiftLeft {mask s : UInt32} {m k : Nat} (hmask : mask.toNat = 2 ^ m - 1)
    (hs : s.toNat % 32 = k) (hmk : m + k ≤ 32) (x : UInt32) :
    ((x &&& mask) <<< s).toNat = (x.toNat % 2 ^ m) <<< k := by
  have hx : (x &&& mask).toNat < 2 ^ m := by
    rw [toNat_and_mask hmask]
    exact Nat.mod_lt _ (Nat.two_pow_pos m)
  rw [toNat_shiftLeft_of_lt hs hx hmk, toNat_and_mask hmask]

/-- A field that is read. -/
theorem toNat_shiftRight_mask {mask s : UInt32} {m k : Nat} (hmask : mask.toNat = 2 ^ m - 1)
    (hs : s.toNat % 32 = k) (x : UInt32) :
    ((x >>> s) &&& mask).toNat = x.toNat / 2 ^ k % 2 ^ m := by
  rw [toNat_and_mask hmask, UInt32.toNat_shiftRight, hs, Nat.shiftRight_eq_div_pow]

end SysLib

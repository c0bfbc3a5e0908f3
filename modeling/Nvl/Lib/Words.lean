/-
Nvl/Lib/Words.lean

Bit fields in a 64-bit word, bit by bit.

`getField` reads the `len` bits at `off`, `setField` assigns to them and `orField` adds
bits to them.  What each does to every single bit is said once (`ubit_getField`,
`ubit_setField`, `ubit_orField`); that a field reads back what was put into it and that
fields apart from one another do not meet follows from that.
-/
import Mathlib.Data.Nat.Bitwise

namespace SysLib

/-- Bit `i` of a word. -/
def ubit (q : UInt64) (i : Nat) : Bool := q.toBitVec.getLsbD i

theorem ubit_of_ge (q : UInt64) {i : Nat} (h : 64 ≤ i) : ubit q i = false :=
  BitVec.getLsbD_of_ge _ _ h

/-- Words are their bits. -/
theorem word_ext {q r : UInt64} (h : ∀ i < 64, ubit q i = ubit r i) : q = r := by
  apply UInt64.toBitVec_inj.mp
  apply BitVec.eq_of_getLsbD_eq
  intro i hi
  exact h i hi

@[simp] theorem ubit_zero (i : Nat) : ubit 0 i = false := BitVec.getLsbD_zero

@[simp] theorem ubit_or (q r : UInt64) (i : Nat) : ubit (q ||| r) i = (ubit q i || ubit r i) := by
  simp [ubit]

@[simp] theorem ubit_and (q r : UInt64) (i : Nat) :
    ubit (q &&& r) i = (ubit q i && ubit r i) := by
  simp [ubit]

@[simp] theorem ubit_xor (q r : UInt64) (i : Nat) :
    ubit (q ^^^ r) i = (ubit q i ^^ ubit r i) := by
  simp [ubit]

@[simp] theorem ubit_not (q : UInt64) (i : Nat) :
    ubit (~~~q) i = (decide (i < 64) && !ubit q i) := by
  simp [ubit]

section Shift

variable {k : Nat}

theorem toBitVec_ofNat_mod (hk : k < 64) :
    (UInt64.ofNat k).toBitVec % 64 = BitVec.ofNat 64 k := by
  apply BitVec.eq_of_toNat_eq
  simp
  omega

theorem ubit_shiftLeft (q : UInt64) (hk : k < 64) (i : Nat) :
    ubit (q <<< UInt64.ofNat k) i = (decide (i < 64) && (decide (k ≤ i) && ubit q (i - k))) := by
  unfold ubit
  rw [UInt64.toBitVec_shiftLeft, toBitVec_ofNat_mod hk, BitVec.shiftLeft_eq', BitVec.toNat_ofNat,
    Nat.mod_eq_of_lt (by omega : k < 2 ^ 64), BitVec.getLsbD_shiftLeft, Bool.and_assoc]
  by_cases hki : k ≤ i
  · simp [hki, Nat.not_lt.mpr hki]
  · simp [hki, Nat.not_le.mp hki]

theorem ubit_shiftRight (q : UInt64) (hk : k < 64) (i : Nat) :
    ubit (q >>> UInt64.ofNat k) i = ubit q (k + i) := by
  unfold ubit
  rw [UInt64.toBitVec_shiftRight, toBitVec_ofNat_mod hk, BitVec.ushiftRight_eq',
    BitVec.toNat_ofNat, Nat.mod_eq_of_lt (by omega : k < 2 ^ 64), BitVec.getLsbD_ushiftRight]

end Shift

/-! ### Fields -/

/-- The mask with the `len` lowest bits. -/
def lowMask (len : Nat) : UInt64 := UInt64.ofNat (2 ^ len - 1)

def getField (q : UInt64) (off len : Nat) : UInt64 := (q >>> UInt64.ofNat off) &&& lowMask len

def orField (q : UInt64) (off len : Nat) (value : UInt64) : UInt64 :=
  q ||| ((value &&& lowMask len) <<< UInt64.ofNat off)

def setField (q : UInt64) (off len : Nat) (value : UInt64) : UInt64 :=
  orField (q &&& ~~~(lowMask len <<< UInt64.ofNat off)) off len value

section Fields

variable {off len off' len' : Nat} {q value : UInt64}

theorem ubit_lowMask (h : len ≤ 64) (i : Nat) : ubit (lowMask len) i = decide (i < len) := by
  show (BitVec.ofNat 64 (2 ^ len - 1)).getLsbD i = _
  rw [BitVec.getLsbD_ofNat, Nat.testBit_two_pow_sub_one]
  by_cases hi : i < len
  · simp [hi, Nat.lt_of_lt_of_le hi h]
  · simp [hi]

theorem ubit_getField (q : UInt64) (hoff : off < 64) (hlen : len ≤ 64) (i : Nat) :
    ubit (getField q off len) i = (decide (i < len) && ubit q (off + i)) := by
  rw [getField, ubit_and, ubit_shiftRight q hoff, ubit_lowMask hlen, Bool.and_comm]

theorem ubit_orField (q value : UInt64) (hoff : off < 64) (hlen : off + len ≤ 64) (i : Nat) :
    ubit (orField q off len value) i =
      (ubit q i || (decide (off ≤ i ∧ i < off + len) && ubit value (i - off))) := by
  rw [orField, ubit_or, ubit_shiftLeft _ hoff, ubit_and, ubit_lowMask (by omega)]
  by_cases hlow : off ≤ i
  · by_cases hhigh : i < off + len
    · have hlt : i - off < len := by omega
      have hi : i < 64 := by omega
      simp [hlow, hhigh, hlt, hi]
    · have hlt : ¬ i - off < len := by omega
      simp [hhigh, hlt]
  · simp [hlow]

theorem ubit_setField (q value : UInt64) (hoff : off < 64) (hlen : off + len ≤ 64) (i : Nat) :
    ubit (setField q off len value) i =
      if off ≤ i ∧ i < off + len then ubit value (i - off) else ubit q i := by
  rw [setField, ubit_orField _ _ hoff hlen, ubit_and, ubit_not, ubit_shiftLeft _ hoff,
    ubit_lowMask (by omega)]
  by_cases hin : off ≤ i ∧ i < off + len
  · have hlt : i - off < len := by omega
    have hi : i < 64 := by omega
    simp [hin, hlt, hi]
  · rw [if_neg hin, decide_eq_false hin, Bool.false_and, Bool.or_false]
    by_cases hi : i < 64
    · have hout : (decide (off ≤ i) && decide (i - off < len)) = false := by
        rw [← Bool.decide_and]
        exact decide_eq_false (by omega)
      simp [hi, hout]
    · rw [ubit_of_ge q (by omega), Bool.false_and]

/-- A field reads back what is put into it, if it was clear. -/
theorem getField_orField_self (hoff : off < 64) (hlen : off + len ≤ 64)
    (hclear : getField q off len = 0) :
    getField (orField q off len value) off len = value &&& lowMask len := by
  apply word_ext
  intro i _
  have hzero := congrArg (ubit · i) hclear
  simp only [ubit_getField q hoff (by omega : len ≤ 64), ubit_zero] at hzero
  rw [ubit_getField _ hoff (by omega), ubit_orField q value hoff hlen, ubit_and,
    ubit_lowMask (by omega)]
  by_cases hi : i < len
  · simp_all
  · simp [hi]

theorem getField_setField_self (hoff : off < 64) (hlen : off + len ≤ 64) :
    getField (setField q off len value) off len = value &&& lowMask len := by
  apply word_ext
  intro i _
  rw [ubit_getField _ hoff (by omega), ubit_setField q value hoff hlen, ubit_and,
    ubit_lowMask (by omega)]
  by_cases hi : i < len
  · simp [hi]
  · simp [hi]

/-- Fields apart from one another do not meet. -/
theorem getField_orField_of_apart (hoff : off < 64) (hlen : off + len ≤ 64) (hoff' : off' < 64)
    (hlen' : len' ≤ 64) (h : off' + len' ≤ off ∨ off + len ≤ off') :
    getField (orField q off len value) off' len' = getField q off' len' := by
  apply word_ext
  intro i _
  rw [ubit_getField _ hoff' hlen', ubit_getField _ hoff' hlen', ubit_orField q value hoff hlen]
  by_cases hi : i < len'
  · have hout : ¬ (off ≤ off' + i ∧ off' + i < off + len) := by omega
    rw [decide_eq_false hout, Bool.false_and, Bool.or_false]
  · simp [hi]

theorem getField_setField_of_apart (hoff : off < 64) (hlen : off + len ≤ 64) (hoff' : off' < 64)
    (hlen' : len' ≤ 64) (h : off' + len' ≤ off ∨ off + len ≤ off') :
    getField (setField q off len value) off' len' = getField q off' len' := by
  apply word_ext
  intro i _
  rw [ubit_getField _ hoff' hlen', ubit_getField _ hoff' hlen', ubit_setField q value hoff hlen]
  by_cases hi : i < len'
  · have hout : ¬ (off ≤ off' + i ∧ off' + i < off + len) := by omega
    rw [if_neg hout]
  · simp [hi]

end Fields

end SysLib

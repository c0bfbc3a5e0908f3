/-
Nvl/Lib/Residue.lean

Cyclic redundancy checks, low bit first.

A register of `w` bits takes in a word bit by bit; the bit that is shifted out
decides whether a polynomial `p` is added (`shift`, `feed`).  A word is accepted
when it leaves the register at zero, its check bits being part of it.

The register is linear in exclusive or, so whether a damaged word is accepted
depends on the damage only (`feed_zipWith_xor`).  If the top bit of `p` is set, a step
loses nothing (`shift_injective`), and damage within `w` neighbouring bits leaves a
residue (`feed_burst_ne_zero`).  If `p` has an odd number of bits, an odd number of
flipped bits does (`parity_feed`).  Two flipped bits at distance `n` do unless `n` steps
bring the register back from 1 to 1 (`feed_pair_eq_zero_iff`).
-/
import Mathlib.Data.List.Basic
import Mathlib.Logic.Function.Iterate

namespace SysLib.Residue

variable {w : Nat} {p c d : BitVec w}

/-- One step of the register. -/
def shift (p c : BitVec w) : BitVec w := if c.getLsbD 0 then (c >>> 1) ^^^ p else c >>> 1

/-- A bit as the lowest of a register. -/
def bit (b : Bool) : BitVec w := if b then 1#w else 0#w

/-- A word is fed to the register, its first bit first. -/
def feed (p : BitVec w) : BitVec w → List Bool → BitVec w
  | c, [] => c
  | c, b :: bits => feed p (shift p (c ^^^ bit b)) bits

/-! ### Linearity -/

theorem bit_xor (a b : Bool) : (bit (a ^^ b) : BitVec w) = bit a ^^^ bit b := by
  rcases a <;> rcases b <;> simp [bit]

theorem shift_zero (p : BitVec w) : shift p 0#w = 0#w := by simp [shift]

theorem shift_xor (p c d : BitVec w) : shift p (c ^^^ d) = shift p c ^^^ shift p d := by
  unfold shift
  rw [BitVec.getLsbD_xor, BitVec.ushiftRight_xor_distrib]
  rcases c.getLsbD 0 <;> rcases d.getLsbD 0
  · simp
  · simp [BitVec.xor_assoc]
  · simp [BitVec.xor_assoc, BitVec.xor_comm p]
  · -- the polynomial is added twice
    show c >>> 1 ^^^ d >>> 1 = c >>> 1 ^^^ p ^^^ (d >>> 1 ^^^ p)
    rw [BitVec.xor_assoc, ← BitVec.xor_assoc p, BitVec.xor_comm p, BitVec.xor_assoc (d >>> 1),
      BitVec.xor_self, BitVec.xor_zero]

theorem iterate_shift_zero (p : BitVec w) (n : Nat) : (shift p)^[n] 0#w = 0#w :=
  Function.iterate_fixed (shift_zero p) n

theorem feed_append (p c : BitVec w) (l₁ l₂ : List Bool) :
    feed p c (l₁ ++ l₂) = feed p (feed p c l₁) l₂ := by
  induction l₁ generalizing c with
  | nil => rfl
  | cons b l₁ ih => exact ih _

theorem feed_replicate_false (p c : BitVec w) (n : Nat) :
    feed p c (List.replicate n false) = (shift p)^[n] c := by
  induction n generalizing c with
  | zero => rfl
  | succ n ih =>
      rw [List.replicate_succ, Function.iterate_succ_apply, ← ih]
      simp [feed, bit]

/-- The residue of a damaged word is that of the word and that of the damage. -/
theorem feed_zipWith_xor (p : BitVec w) {l e : List Bool} (h : l.length = e.length)
    (c d : BitVec w) :
    feed p (c ^^^ d) (List.zipWith xor l e) = feed p c l ^^^ feed p d e := by
  induction l generalizing e c d with
  | nil =>
      obtain rfl : e = [] := List.length_eq_zero_iff.mp h.symm
      rfl
  | cons a l ih =>
      obtain ⟨b, e, rfl⟩ := List.exists_cons_of_length_eq_add_one h.symm
      have hbits : c ^^^ d ^^^ (bit a ^^^ bit b) = (c ^^^ bit a) ^^^ (d ^^^ bit b) := by
        rw [BitVec.xor_assoc, ← BitVec.xor_assoc d, BitVec.xor_comm d, BitVec.xor_assoc (bit a),
          ← BitVec.xor_assoc]
      show feed p (shift p (c ^^^ d ^^^ bit (a ^^ b))) (List.zipWith xor l e) = _
      rw [bit_xor, hbits, shift_xor]
      exact ih (Nat.succ.inj h) _ _

/-! ### A step loses nothing -/

theorem eq_zero_of_shift_eq_zero (hp : p.msb = true) (h : shift p c = 0#w) : c = 0#w := by
  unfold shift at h
  split at h
  · -- the top bit of the polynomial cannot have been cancelled
    have hmsb : (c >>> 1 ^^^ p).msb = true := by
      rw [BitVec.msb_xor, hp, BitVec.msb_ushiftRight]
      simp
    rw [h] at hmsb
    simp at hmsb
  · rename_i hlow
    apply BitVec.eq_of_getLsbD_eq
    intro i _
    rcases i with - | i
    · simpa using hlow
    · have hi := congrArg (fun x : BitVec w => x.getLsbD i) h
      simpa [Nat.add_comm] using hi

theorem shift_injective (hp : p.msb = true) : Function.Injective (shift p) := by
  intro c d h
  apply BitVec.xor_eq_zero_iff.mp
  apply eq_zero_of_shift_eq_zero hp
  rw [shift_xor, h, BitVec.xor_self]

theorem iterate_shift_eq_zero_iff (hp : p.msb = true) (n : Nat) :
    (shift p)^[n] c = 0#w ↔ c = 0#w := by
  constructor
  · intro h
    exact (shift_injective hp).iterate n (h.trans (iterate_shift_zero p n).symm)
  · rintro rfl
    exact iterate_shift_zero p n

/-! ### Neighbouring bits -/

/-- The bits of a short word as a register, its first bit lowest. -/
def ofBits : List Bool → BitVec w
  | [] => 0#w
  | b :: bits => (ofBits bits <<< 1) ^^^ bit b

theorem getLsbD_ofBits (l : List Bool) (i : Nat) :
    (ofBits l : BitVec w).getLsbD i = (decide (i < w) && l.getD i false) := by
  induction l generalizing i with
  | nil => simp [ofBits]
  | cons b l ih =>
      rw [ofBits, BitVec.getLsbD_xor, BitVec.getLsbD_shiftLeft]
      rcases i with - | i
      · rcases b <;> simp [bit]
      · rw [Nat.add_sub_cancel, ih]
        have hbit : (bit b : BitVec w).getLsbD (i + 1) = false := by
          rcases b <;> simp [bit, BitVec.getLsbD_one]
        rw [hbit]
        by_cases hi : i + 1 < w
        · simp [hi, Nat.lt_of_succ_lt hi]
        · simp [hi]

/-- A register that is fed at most its own width has taken the word in at once. -/
theorem feed_of_length_le (p c : BitVec w) {l : List Bool} (h : l.length ≤ w) :
    feed p c l = (shift p)^[l.length] (c ^^^ ofBits l) := by
  induction l generalizing c with
  | nil => simp [feed, ofBits]
  | cons b l ih =>
      rw [List.length_cons] at h
      -- the rest of the word is moved down by the step, as its top bit is clear
      have hrest : shift p (ofBits l <<< 1) = ofBits l := by
        have hlow : (ofBits l <<< 1 : BitVec w).getLsbD 0 = false := by simp
        rw [shift, hlow, if_neg (by decide)]
        apply BitVec.eq_of_getLsbD_eq
        intro i hi
        rw [BitVec.getLsbD_ushiftRight, BitVec.getLsbD_shiftLeft, Nat.add_sub_cancel_left,
          getLsbD_ofBits]
        by_cases hi' : 1 + i < w
        · simp [hi']
        · have hge : l.length ≤ i := by omega
          simp [hi', List.getElem?_eq_none hge]
      rw [feed, ih _ (Nat.le_of_succ_le h), List.length_cons, Function.iterate_succ_apply, ofBits,
        BitVec.xor_comm (ofBits l <<< 1), ← BitVec.xor_assoc, shift_xor p _ (ofBits l <<< 1), hrest]

/-- Damage within `w` neighbouring bits leaves a residue. -/
theorem feed_burst_ne_zero (hp : p.msb = true) {l : List Bool} (hl : l.length ≤ w)
    (h : true ∈ l) (m n : Nat) :
    feed p 0#w (List.replicate m false ++ l ++ List.replicate n false) ≠ 0#w := by
  rw [feed_append, feed_append, feed_replicate_false p 0#w, iterate_shift_zero,
    feed_replicate_false, Ne, iterate_shift_eq_zero_iff hp, feed_of_length_le p _ hl,
    iterate_shift_eq_zero_iff hp, BitVec.zero_xor]
  intro hzero
  obtain ⟨i, hi, hbit⟩ := List.mem_iff_getElem.mp h
  have hget : (ofBits l : BitVec w).getLsbD i = true := by
    rw [getLsbD_ofBits, decide_eq_true (Nat.lt_of_lt_of_le hi hl), List.getD_eq_getElem?_getD,
      List.getElem?_eq_getElem hi, hbit]
    rfl
  rw [hzero, BitVec.getLsbD_zero] at hget
  cases hget

/-! ### Two bits -/

/-- Two flipped bits at distance `n + 1` are not noticed if the register comes back. -/
theorem feed_pair_eq_zero_iff (hp : p.msb = true) (m n k : Nat) :
    feed p 0#w (List.replicate m false ++ [true] ++ List.replicate n false ++ [true]
      ++ List.replicate k false) = 0#w ↔ (shift p)^[n + 1] 1#w = 1#w := by
  have hone : feed p 0#w [true] = shift p 1#w := by simp [feed, bit]
  have htwo (c : BitVec w) : feed p c [true] = shift p (c ^^^ 1#w) := rfl
  rw [feed_append, feed_append, feed_append, feed_append, feed_replicate_false p 0#w,
    iterate_shift_zero, hone, feed_replicate_false p (shift p 1#w),
    ← Function.iterate_succ_apply, htwo,
    feed_replicate_false, ← Function.iterate_succ_apply, iterate_shift_eq_zero_iff hp,
    BitVec.xor_eq_zero_iff]

/-! ### Parity -/

/-- Whether an odd number of the lowest `n` bits is set. -/
def parityTo (c : BitVec w) : Nat → Bool
  | 0 => false
  | n + 1 => parityTo c n ^^ c.getLsbD n

def parity (c : BitVec w) : Bool := parityTo c w

theorem parityTo_xor (c d : BitVec w) (n : Nat) :
    parityTo (c ^^^ d) n = (parityTo c n ^^ parityTo d n) := by
  induction n with
  | zero => rfl
  | succ n ih =>
      rw [parityTo, parityTo, parityTo, ih, BitVec.getLsbD_xor]
      rcases parityTo c n <;> rcases parityTo d n <;> simp

theorem parityTo_ushiftRight (c : BitVec w) (n : Nat) :
    (parityTo (c >>> 1) n ^^ c.getLsbD 0) = parityTo c (n + 1) := by
  induction n with
  | zero => rfl
  | succ n ih =>
      rw [parityTo, parityTo, ← ih, BitVec.getLsbD_ushiftRight, Nat.add_comm 1]
      rcases parityTo (c >>> 1) n <;> rcases c.getLsbD 0 <;> simp

theorem parity_ushiftRight (c : BitVec w) : (parity (c >>> 1) ^^ c.getLsbD 0) = parity c := by
  rw [parity, parityTo_ushiftRight, parityTo, BitVec.getLsbD_of_ge c w (Nat.le_refl w),
    Bool.xor_false]
  rfl

theorem parity_shift (hp : parity p = true) (c : BitVec w) : parity (shift p c) = parity c := by
  unfold shift
  rw [← parity_ushiftRight c]
  split
  · rename_i hlow
    rw [parity, parityTo_xor, hlow]
    exact congrArg _ hp
  · rename_i hlow
    rw [Bool.eq_false_iff.mpr hlow, Bool.xor_false]

/-- The parity of a word. -/
def odd (l : List Bool) : Bool := l.foldl xor false

theorem parity_bit (hw : 0 < w) (b : Bool) : parity (bit b : BitVec w) = b := by
  have hto (n : Nat) (hn : 0 < n) : parityTo (bit b : BitVec w) n = b := by
    induction n with
    | zero => exact absurd hn (Nat.lt_irrefl 0)
    | succ n ih =>
        rcases Nat.eq_zero_or_pos n with rfl | hpos
        · rcases b <;> simp [parityTo, bit, hw]
        · have hzero : (bit b : BitVec w).getLsbD n = false := by
            rcases b <;> simp [bit, BitVec.getLsbD_one, Nat.pos_iff_ne_zero.mp hpos]
          rw [parityTo, ih hpos, hzero, Bool.xor_false]
  exact hto w hw

/-- Nothing that is fed changes the parity unnoticed. -/
theorem parity_feed (hw : 0 < w) (hp : parity p = true) (c : BitVec w) (l : List Bool) :
    parity (feed p c l) = l.foldl xor (parity c) := by
  induction l generalizing c with
  | nil => rfl
  | cons b l ih =>
      rw [feed, ih, parity_shift hp, parity, parityTo_xor, List.foldl_cons]
      rw [show parityTo (bit b : BitVec w) w = b from parity_bit hw b]
      rfl

theorem feed_ne_zero_of_odd (hw : 0 < w) (hp : parity p = true) {l : List Bool}
    (h : odd l = true) : feed p 0#w l ≠ 0#w := by
  intro hzero
  have hpar : parity (0#w) = false := by
    have hto (n : Nat) : parityTo (0#w) n = false := by
      induction n with
      | zero => rfl
      | succ n ih => simp [parityTo, ih]
    exact hto w
  have hfeed := parity_feed hw hp 0#w l
  rw [hzero, hpar] at hfeed
  rw [odd, ← hfeed] at h
  cases h

end SysLib.Residue

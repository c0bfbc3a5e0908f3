/-
Nvl/Lib/FreeList.lean

The free slots of a pool, stacked in the upper part of an array.

The places from `head` on hold the numbers of the free slots.  Taking a slot reads
the place at the head and moves the head up; giving one back moves it down and
writes there.  As the free slots are different numbers below `N`, a slot that is not
free shows that the head is not at the bottom (`FreeStack.head_pos`), so giving it
back finds a place.
-/
import Mathlib.Data.Fintype.EquivFin
import Mathlib.Logic.Function.Basic

namespace SysLib

variable {N head i k : Nat} {slots : Nat → Nat}

/-- The places from `head` on hold different slots of the pool. -/
structure FreeStack (N head : Nat) (slots : Nat → Nat) : Prop where
  head_le : head ≤ N
  lt : ∀ j, head ≤ j → j < N → slots j < N
  inj : ∀ j k, head ≤ j → j < N → head ≤ k → k < N → slots j = slots k → j = k

/-- The slot is in one of the places from `head` on. -/
def FreeSlot (N head : Nat) (slots : Nat → Nat) (i : Nat) : Prop :=
  ∃ j, head ≤ j ∧ j < N ∧ slots j = i

namespace FreeStack

theorem pop (hs : FreeStack N head slots) (hlt : head < N) : FreeStack N (head + 1) slots where
  head_le := hlt
  lt j hj := hs.lt j (by omega)
  inj j k hj hjN hk hkN := hs.inj j k (by omega) hjN (by omega) hkN

theorem freeSlot_pop (hs : FreeStack N head slots) (hlt : head < N) :
    FreeSlot N (head + 1) slots i ↔ FreeSlot N head slots i ∧ i ≠ slots head := by
  constructor
  · rintro ⟨j, hj, hjN, rfl⟩
    refine ⟨⟨j, by omega, hjN, rfl⟩, fun heq => ?_⟩
    have := hs.inj j head (by omega) hjN le_rfl hlt heq
    omega
  · rintro ⟨⟨j, hj, hjN, rfl⟩, hne⟩
    have hjh : j ≠ head := fun h => hne (by rw [h])
    exact ⟨j, by omega, hjN, rfl⟩

/-- With the head at the bottom every slot is free, as there are as many places as slots. -/
theorem freeSlot_of_head_zero (hs : FreeStack N 0 slots) (hi : i < N) : FreeSlot N 0 slots i := by
  let f : Fin N → Fin N := fun j => ⟨slots j, hs.lt j (Nat.zero_le _) j.isLt⟩
  have hinj : Function.Injective f := by
    intro j k heq
    apply Fin.ext
    exact hs.inj j k (Nat.zero_le _) j.isLt (Nat.zero_le _) k.isLt (Fin.mk.inj_iff.mp heq)
  obtain ⟨j, hj⟩ := Finite.surjective_of_injective hinj ⟨i, hi⟩
  exact ⟨j, Nat.zero_le _, j.isLt, congrArg Fin.val hj⟩

theorem head_pos (hs : FreeStack N head slots) (hi : i < N) (hn : ¬ FreeSlot N head slots i) :
    0 < head := by
  rcases Nat.eq_zero_or_pos head with rfl | hpos
  · exact absurd (freeSlot_of_head_zero hs hi) hn
  · exact hpos

theorem push (hs : FreeStack N (head + 1) slots) (hi : i < N)
    (hn : ¬ FreeSlot N (head + 1) slots i) :
    FreeStack N head (Function.update slots head i) where
  head_le := by
    have := hs.head_le
    omega
  lt j hj hjN := by
    rcases eq_or_ne j head with rfl | hne
    · rwa [Function.update_self]
    · rw [Function.update_of_ne hne]
      exact hs.lt j (by omega) hjN
  inj j k hj hjN hk hkN heq := by
    -- only two places above the new one are compared as before
    by_cases hjh : j = head <;> by_cases hkh : k = head
    · rw [hjh, hkh]
    · rw [hjh, Function.update_self, Function.update_of_ne hkh] at heq
      exact absurd ⟨k, by omega, hkN, heq.symm⟩ hn
    · rw [hkh, Function.update_self, Function.update_of_ne hjh] at heq
      exact absurd ⟨j, by omega, hjN, heq⟩ hn
    · rw [Function.update_of_ne hjh, Function.update_of_ne hkh] at heq
      exact hs.inj j k (by omega) hjN (by omega) hkN heq

end FreeStack

theorem freeSlot_push (hlt : head < N) :
    FreeSlot N head (Function.update slots head i) k ↔ k = i ∨ FreeSlot N (head + 1) slots k := by
  constructor
  · rintro ⟨j, hj, hjN, rfl⟩
    rcases eq_or_ne j head with rfl | hne
    · exact .inl (Function.update_self ..)
    · exact .inr ⟨j, by omega, hjN, (Function.update_of_ne hne ..).symm⟩
  · rintro (rfl | ⟨j, hj, hjN, rfl⟩)
    · exact ⟨head, le_rfl, hlt, Function.update_self ..⟩
    · exact ⟨j, by omega, hjN, Function.update_of_ne (by omega) ..⟩

end SysLib

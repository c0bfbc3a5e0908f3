/-
Nvl/Lib/Loop.lean

Loops: one that counts, and one that may not end.

What holds before a counting loop and is carried from each round to the next holds
after it, the invariant being indexed by the rounds done (`foldl_range_induction`).

A round of the other kind goes on with a new state or ends with a result.  `loop` runs
at most `fuel` rounds, and `Ends` says that some number of rounds is enough.  The end is
unique, and a loop that keeps an invariant under which it goes on never ends.
-/
import Mathlib.Data.Sum.Basic

namespace SysLib

variable {σ α : Type} {body : σ → σ ⊕ α} {s s' : σ} {r r' : α}

theorem foldl_range_induction {P : Nat → σ → Prop} {f : σ → Nat → σ} (h0 : P 0 s)
    (hstep : ∀ i s, P i s → P (i + 1) (f s i)) (n : Nat) :
    P n ((List.range n).foldl f s) := by
  induction n with
  | zero => exact h0
  | succ n ih =>
      rw [List.range_succ, List.foldl_append]
      exact hstep n _ ih

def loop (body : σ → σ ⊕ α) : Nat → σ → Option α
  | 0, _ => none
  | fuel + 1, s =>
    match body s with
    | .inl s' => loop body fuel s'
    | .inr r => some r

/-- The loop ends with the result. -/
def Ends (body : σ → σ ⊕ α) (s : σ) (r : α) : Prop := ∃ fuel, loop body fuel s = some r

namespace Ends

theorem of_inr (h : body s = .inr r) : Ends body s r := by
  refine ⟨1, ?_⟩
  simp only [loop, h]

theorem of_inl (h : body s = .inl s') (hs : Ends body s' r) : Ends body s r := by
  obtain ⟨fuel, hfuel⟩ := hs
  refine ⟨fuel + 1, ?_⟩
  simp only [loop, h]
  exact hfuel

theorem iff_of_inr (h : body s = .inr r) : Ends body s r' ↔ r' = r := by
  constructor
  · rintro ⟨fuel, hfuel⟩
    cases fuel with
    | zero => cases hfuel
    | succ fuel =>
        simp only [loop, h] at hfuel
        exact (Option.some.inj hfuel).symm
  · rintro rfl
    exact of_inr h

theorem unique (hs : Ends body s r) (hs' : Ends body s r') : r = r' := by
  obtain ⟨fuel, hfuel⟩ := hs
  obtain ⟨fuel', hfuel'⟩ := hs'
  induction fuel generalizing s fuel' with
  | zero => cases hfuel
  | succ fuel ih =>
      cases fuel' with
      | zero => cases hfuel'
      | succ fuel' =>
          cases hbody : body s with
          | inl s' =>
              simp only [loop, hbody] at hfuel hfuel'
              exact ih hfuel fuel' hfuel'
          | inr r₀ =>
              simp only [loop, hbody] at hfuel hfuel'
              exact Option.some.inj (hfuel.symm.trans hfuel')

end Ends

/-- A loop that goes on from every state with `P`, to a state with `P`, never ends. -/
theorem not_ends_of_invariant (P : σ → Prop)
    (hstep : ∀ s, P s → ∃ s', body s = .inl s' ∧ P s') (hs : P s) : ¬ Ends body s r := by
  rintro ⟨fuel, hfuel⟩
  induction fuel generalizing s with
  | zero => cases hfuel
  | succ fuel ih =>
      obtain ⟨s', hbody, hs'⟩ := hstep s hs
      simp only [loop, hbody] at hfuel
      exact ih hs' hfuel

end SysLib

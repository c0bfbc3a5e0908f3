/-
Nvl/Lib/Chain.lean

Cells with a pointer to the next one.

`Chain h p l q` says that following the pointers from `p` visits the cells `l`, each
with its address and value, and then stands at `q`.  Chains compose, and what
happens to other cells leaves them alone.

A chain that ends in NULL is determined by where it begins, so it cannot come back
to a cell that it has visited (`Chain.nodup`).  That is what makes writing to its
last cell safe (`Chain.push`).
-/
import Mathlib.Data.List.Nodup

namespace SysLib

/-- A value and the pointer to the next cell, `none` for NULL. -/
structure Cell (α : Type) where
  val : α
  next : Option Nat

/-- Which addresses are allocated, and what is there. -/
abbrev CellHeap (α : Type) : Type := Nat → Option (Cell α)

/-- The cells from one pointer to another. -/
inductive Chain {α : Type} (h : CellHeap α) : Option Nat → List (Nat × α) → Option Nat → Prop
  | nil (p : Option Nat) : Chain h p [] p
  | cons {a : Nat} {x : α} {n q : Option Nat} {l : List (Nat × α)} (hcell : h a = some ⟨x, n⟩)
      (hrest : Chain h n l q) : Chain h (some a) ((a, x) :: l) q

namespace Chain

variable {α : Type} {h : CellHeap α} {p q r : Option Nat} {l l' : List (Nat × α)}

theorem append (hc : Chain h p l q) (hc' : Chain h q l' r) : Chain h p (l ++ l') r := by
  induction hc with
  | nil p => exact hc'
  | cons hcell _ ih => exact .cons hcell (ih hc')

theorem split (hc : Chain h p (l ++ l') r) : ∃ q, Chain h p l q ∧ Chain h q l' r := by
  induction l generalizing p with
  | nil => exact ⟨p, .nil p, hc⟩
  | cons c l ih =>
      cases hc with
      | cons hcell hrest =>
          obtain ⟨q, hl, hl'⟩ := ih hrest
          exact ⟨q, .cons hcell hl, hl'⟩

/-- Every cell on the way is allocated. -/
theorem live (hc : Chain h p l q) {a : Nat} {x : α} (hmem : (a, x) ∈ l) :
    ∃ n, h a = some ⟨x, n⟩ := by
  induction hc with
  | nil p => cases hmem
  | cons hcell _ ih =>
      rcases List.mem_cons.mp hmem with heq | hmem
      · cases heq
        exact ⟨_, hcell⟩
      · exact ih hmem

theorem ne_of_dead (hc : Chain h p l q) {a : Nat} (ha : h a = none) :
    a ∉ l.map Prod.fst := by
  intro hmem
  obtain ⟨⟨b, x⟩, hb, rfl⟩ := List.mem_map.mp hmem
  obtain ⟨n, hn⟩ := hc.live hb
  rw [hn] at ha
  cases ha

/-- What happens to a cell off the way does not matter. -/
theorem frame (hc : Chain h p l q) {a : Nat} (ha : a ∉ l.map Prod.fst) (c : Option (Cell α)) :
    Chain (Function.update h a c) p l q := by
  induction hc with
  | nil p => exact .nil p
  | @cons b x n q l hcell _ ih =>
      rw [List.map_cons, List.mem_cons, not_or] at ha
      refine .cons ?_ (ih ha.2)
      rw [Function.update_of_ne (Ne.symm ha.1)]
      exact hcell

/-- Two chains to NULL with the same beginning are one. -/
theorem det (hc : Chain h p l none) (hc' : Chain h p l' none) : l = l' := by
  induction l generalizing p l' with
  | nil =>
      cases hc
      cases hc'
      rfl
  | cons c l ih =>
      cases hc with
      | cons hcell hrest =>
          cases hc' with
          | cons hcell' hrest' =>
              rw [hcell] at hcell'
              cases hcell'
              rw [ih hrest hrest']

/-- A chain to NULL visits no cell twice. -/
theorem nodup (hc : Chain h p l none) : (l.map Prod.fst).Nodup := by
  induction l generalizing p with
  | nil => exact List.nodup_nil
  | cons c l ih =>
      obtain ⟨a, x⟩ := c
      have hrest : ∃ n, Chain h n l none := by
        cases hc with
        | cons _ hrest => exact ⟨_, hrest⟩
      obtain ⟨n, hrest⟩ := hrest
      refine List.nodup_cons.mpr ⟨?_, ih hrest⟩
      intro hmem
      obtain ⟨⟨b, y⟩, hb, hba⟩ := List.mem_map.mp hmem
      obtain rfl : b = a := hba
      -- from the second visit on the chain would be the whole chain again
      obtain ⟨l₁, l₂, rfl⟩ := List.append_of_mem hb
      obtain ⟨q, -, hagain⟩ := hrest.split
      have hp : p = some b := by
        cases hc
        rfl
      have hq : q = some b := by
        cases hagain
        rfl
      subst hp hq
      have heq := congrArg List.length (det hc hagain)
      simp only [List.length_cons, List.length_append] at heq
      omega

/-- A new cell is linked behind the last one. -/
theorem push {a t : Nat} {x y : α} (hc : Chain h p (l ++ [(t, x)]) none) (ha : h a = none) :
    Chain (Function.update (Function.update h a (some ⟨y, none⟩)) t (some ⟨x, some a⟩)) p
      (l ++ [(t, x)] ++ [(a, y)]) none := by
  have hfresh := hc.ne_of_dead ha
  have hnodup := hc.nodup
  rw [List.map_append, List.map_singleton, List.nodup_append] at hnodup
  have ht : t ∉ l.map Prod.fst := fun hmem => hnodup.2.2 t hmem t List.mem_cons_self rfl
  rw [List.map_append, List.mem_append, not_or, List.map_singleton, List.mem_singleton] at hfresh
  obtain ⟨q, hl, hlast⟩ := hc.split
  have hq : q = some t := by
    cases hlast
    rfl
  subst hq
  refine (((hl.frame hfresh.1 _).frame ht _).append ?_).append ?_ (q := some a)
  · refine .cons ?_ (.nil _)
    exact Function.update_self _ _ _
  · refine .cons ?_ (.nil none)
    rw [Function.update_of_ne hfresh.2, Function.update_self]

end Chain

end SysLib

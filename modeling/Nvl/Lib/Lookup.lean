/-
Nvl/Lib/Lookup.lean

First-match lookup in a list of records.

`List.find?` takes the first record that passes a test.  Two situations make
the answer independent of the order of the list: the test singles out one
record (`find?_eq_some_of_unique`), and the test compares a key on which the
records differ (`find?_key`).  The first applies in particular when the test is
membership of a point in ranges that are pairwise disjoint (`find?_range`).
Then it does not matter in which order the records stand either (`find?_perm`).
Without disjointness the answer is decided by position: it is the first record
to pass (`Earliest`), at or before any other that does (`find?_first`).
-/
import Mathlib.Data.List.Pairwise
import Mathlib.Order.CompletePartialOrder
import Mathlib.Order.Interval.Set.Disjoint

namespace SysLib

variable {α κ β : Type}

/-- A test that only one record of the list passes finds that record. -/
theorem find?_eq_some_of_unique {l : List α} {p : α → Bool} {a : α} (ha : a ∈ l)
    (hp : p a = true) (huniq : ∀ b ∈ l, p b = true → b = a) : l.find? p = some a := by
  rcases hf : l.find? p with - | b
  · have hno := List.find?_eq_none.mp hf a ha
    exact absurd hp hno
  · have hb : b ∈ l := List.mem_of_find?_eq_some hf
    have hpb : p b = true := List.find?_some hf
    rw [huniq b hb hpb]

/-- Two records of a list whose keys differ are one if they agree on the key. -/
theorem eq_of_key {l : List α} {key : α → κ} {a b : α}
    (hkeys : l.Pairwise fun x y => key x ≠ key y) (ha : a ∈ l) (hb : b ∈ l)
    (hkey : key a = key b) : a = b := by
  by_contra hne
  have hsymm : Std.Symm fun x y : α => key x ≠ key y := ⟨fun _ _ h => Ne.symm h⟩
  exact hkeys.forall ha hb hne hkey

/-- Two records of a list with disjoint ranges are one if they have a point in common. -/
theorem eq_of_mem_range {l : List α} {range : α → Set β} {x : β} {a b : α}
    (hdisj : l.Pairwise fun r s => Disjoint (range r) (range s)) (ha : a ∈ l) (hb : b ∈ l)
    (hxa : x ∈ range a) (hxb : x ∈ range b) : a = b := by
  by_contra hne
  have hsymm : Std.Symm fun r s : α => Disjoint (range r) (range s) := ⟨fun _ _ h => h.symm⟩
  exact Set.disjoint_left.mp (hdisj.forall ha hb hne) hxa hxb

/-- Lookup by a key on which the records differ. -/
theorem find?_key [DecidableEq κ] {l : List α} {key : α → κ} {a : α}
    (hkeys : l.Pairwise fun x y => key x ≠ key y) (ha : a ∈ l) :
    l.find? (fun b => decide (key b = key a)) = some a := by
  refine find?_eq_some_of_unique ha (by simp) ?_
  intro b hb hkey
  exact eq_of_key hkeys hb ha (of_decide_eq_true hkey)

/-- Lookup of a point in pairwise disjoint ranges. -/
theorem find?_range {l : List α} {range : α → Set β} {p : α → Bool} {x : β} {a : α}
    (hdisj : l.Pairwise fun r s => Disjoint (range r) (range s))
    (hp : ∀ b ∈ l, p b = true ↔ x ∈ range b) (ha : a ∈ l) (hx : x ∈ range a) :
    l.find? p = some a := by
  refine find?_eq_some_of_unique ha ((hp a ha).mpr hx) ?_
  intro b hb hpb
  exact eq_of_mem_range hdisj hb ha ((hp b hb).mp hpb) hx

/-- If at most one record passes, the order of the list does not matter. -/
theorem find?_perm {l l' : List α} {p : α → Bool} (h : l.Perm l')
    (huniq : ∀ a ∈ l, ∀ b ∈ l, p a = true → p b = true → a = b) : l.find? p = l'.find? p := by
  symm
  rcases hf : l.find? p with - | a
  · apply List.find?_eq_none.mpr
    intro b hb
    exact List.find?_eq_none.mp hf b (h.mem_iff.mpr hb)
  · have ha : a ∈ l := List.mem_of_find?_eq_some hf
    apply find?_eq_some_of_unique (h.mem_iff.mp ha) (List.find?_some hf)
    intro b hb hpb
    exact huniq b (h.mem_iff.mpr hb) a ha hpb (List.find?_some hf)

/-! ### The first match -/

/-- The first record of the list with property `P`. -/
def Earliest (l : List α) (P : α → Prop) (a : α) : Prop :=
  ∃ pre post, l = pre ++ a :: post ∧ P a ∧ ∀ b ∈ pre, ¬ P b

theorem find?_eq_some_iff_earliest {l : List α} {p : α → Bool} {P : α → Prop} {a : α}
    (hp : ∀ b ∈ l, p b = true ↔ P b) : l.find? p = some a ↔ Earliest l P a := by
  rw [List.find?_eq_some_iff_append]
  constructor
  · rintro ⟨hpa, pre, post, rfl, hpre⟩
    refine ⟨pre, post, rfl, (hp a (by simp)).mp hpa, ?_⟩
    intro b hb hPb
    have hpb := (hp b (List.mem_append_left _ hb)).mpr hPb
    have hno := hpre b hb
    rw [hpb] at hno
    cases hno
  · rintro ⟨pre, post, rfl, hPa, hpre⟩
    refine ⟨(hp a (by simp)).mpr hPa, pre, post, rfl, ?_⟩
    intro b hb
    have hno := hpre b hb
    rw [← hp b (List.mem_append_left _ hb)] at hno
    simpa using hno

theorem Earliest.mem {l : List α} {P : α → Prop} {a : α} (h : Earliest l P a) : a ∈ l ∧ P a := by
  obtain ⟨pre, post, rfl, ha, -⟩ := h
  exact ⟨by simp, ha⟩

/-- If some record passes, the one found is the first to pass. -/
theorem find?_first {l : List α} {p : α → Bool} {k : Nat} {b : α} (hk : l[k]? = some b)
    (hp : p b = true) :
    ∃ i c, i ≤ k ∧ l[i]? = some c ∧ p c = true ∧ l.find? p = some c ∧
      ∀ j < i, ∀ d, l[j]? = some d → p d = false := by
  induction l generalizing k with
  | nil => simp at hk
  | cons a l ih =>
      by_cases ha : p a = true
      · refine ⟨0, a, Nat.zero_le k, rfl, ha, List.find?_cons_of_pos ha, ?_⟩
        intro j hj
        exact absurd hj (Nat.not_lt_zero j)
      · rcases k with - | k
        · obtain rfl := Option.some.inj hk
          exact absurd hp ha
        · obtain ⟨i, c, hik, hic, hpc, hfind, hbefore⟩ := ih (by simpa using hk)
          refine ⟨i + 1, c, Nat.succ_le_succ hik, by simpa using hic, hpc, ?_, ?_⟩
          · rw [List.find?_cons_of_neg ha, hfind]
          · intro j hj d hd
            rcases j with - | j
            · obtain rfl := Option.some.inj hd
              simpa using ha
            · exact hbefore j (Nat.lt_of_succ_lt_succ hj) d (by simpa using hd)

end SysLib

/-
Nvl/Lib/Keyed.lean

Lists of records that are known by a key.

A record is written back under its key (`writeKey`) or taken out (`removeKey`).  While the
keys differ, a lookup finds the one record with the key, writing changes that record and no
other, and the number of records with a property changes by what happened to that one
(`countP_writeKey`, `countP_removeKey`).
-/
import Mathlib.Data.List.Nodup
import Mathlib.Logic.Function.Basic

namespace SysLib

variable {α κ : Type} [DecidableEq κ] {key : α → κ} {l : List α} {a b : α} {k : κ}

/-- The record under a key. -/
def findKey (key : α → κ) (l : List α) (k : κ) : Option α := l.find? fun a => key a = k

/-- The record takes the place of the one with its key. -/
def writeKey (key : α → κ) (l : List α) (b : α) : List α :=
  l.map fun a => if key a = key b then b else a

/-- The record with the key is taken out. -/
def removeKey (key : α → κ) (l : List α) (k : κ) : List α := l.filter fun a => key a ≠ k

theorem findKey_some (h : findKey key l k = some a) : a ∈ l ∧ key a = k :=
  ⟨List.mem_of_find?_eq_some h, by simpa using List.find?_some h⟩

theorem exists_findKey (ha : a ∈ l) : ∃ b, findKey key l (key a) = some b := by
  rcases hf : findKey key l (key a) with - | b
  · have hno := List.find?_eq_none.mp hf a ha
    simp at hno
  · exact ⟨b, rfl⟩

theorem findKey_eq (hkeys : (l.map key).Nodup) (ha : a ∈ l) : findKey key l (key a) = some a := by
  obtain ⟨b, hb⟩ : ∃ b, findKey key l (key a) = some b := exists_findKey ha
  obtain ⟨hmem, hkey⟩ := findKey_some hb
  rw [hb, List.inj_on_of_nodup_map hkeys hmem ha hkey]

theorem mem_writeKey (h : a ∈ writeKey key l b) : a = b ∨ a ∈ l ∧ key a ≠ key b := by
  obtain ⟨c, hc, rfl⟩ := List.mem_map.mp h
  split
  · exact .inl rfl
  · next hne => exact .inr ⟨hc, hne⟩

theorem mem_writeKey_self (ha : a ∈ l) (hkey : key a = key b) : b ∈ writeKey key l b :=
  List.mem_map.mpr ⟨a, ha, if_pos hkey⟩

theorem mem_writeKey_of_ne (ha : a ∈ l) (hkey : key a ≠ key b) : a ∈ writeKey key l b :=
  List.mem_map.mpr ⟨a, ha, if_neg hkey⟩

/-- What was written is found under its key. -/
theorem findKey_writeKey_self (h : findKey key l (key b) = some a) :
    findKey key (writeKey key l b) (key b) = some b := by
  unfold writeKey
  unfold findKey at h ⊢
  induction l with
  | nil => cases h
  | cons c l ih =>
      rw [List.map_cons]
      by_cases hc : key c = key b
      · rw [if_pos hc, List.find?_cons_of_pos (by simp)]
      · rw [if_neg hc, List.find?_cons_of_neg (by simpa using hc)]
        rw [List.find?_cons_of_neg (by simpa using hc)] at h
        exact ih h

/-- Under another key nothing changes. -/
theorem findKey_writeKey_of_ne (hne : k ≠ key b) :
    findKey key (writeKey key l b) k = findKey key l k := by
  unfold findKey writeKey
  induction l with
  | nil => rfl
  | cons c l ih =>
      rw [List.map_cons]
      by_cases hc : key c = key b
      · rw [if_pos hc, List.find?_cons_of_neg (by simpa using hne.symm),
          List.find?_cons_of_neg (by simpa [hc] using hne.symm)]
        exact ih
      · rw [if_neg hc]
        by_cases hk : key c = k
        · rw [List.find?_cons_of_pos (by simpa using hk),
            List.find?_cons_of_pos (by simpa using hk)]
        · rw [List.find?_cons_of_neg (by simpa using hk),
            List.find?_cons_of_neg (by simpa using hk)]
          exact ih

/-- A new record is found under its key. -/
theorem findKey_concat_self (hnew : findKey key l (key b) = none) :
    findKey key (l ++ [b]) (key b) = some b := by
  unfold findKey at hnew ⊢
  rw [List.find?_append, hnew, Option.none_or]
  exact List.find?_cons_of_pos (by simp)

theorem findKey_concat_of_ne (hne : k ≠ key b) : findKey key (l ++ [b]) k = findKey key l k := by
  unfold findKey
  rw [List.find?_append, List.find?_cons_of_neg (by simpa using hne.symm), List.find?_nil,
    Option.or_none]

theorem map_key_writeKey (l : List α) (b : α) : (writeKey key l b).map key = l.map key := by
  rw [writeKey, List.map_map]
  apply List.map_congr_left
  intro a _
  show key (if key a = key b then b else a) = key a
  split
  · next h => exact h.symm
  · rfl

theorem mem_removeKey : a ∈ removeKey key l k ↔ a ∈ l ∧ key a ≠ k := by
  rw [removeKey, List.mem_filter, decide_eq_true_iff]

theorem nodup_removeKey (hkeys : (l.map key).Nodup) : ((removeKey key l k).map key).Nodup :=
  hkeys.sublist (List.filter_sublist.map key)

theorem findKey_removeKey_self : findKey key (removeKey key l k) k = none := by
  apply List.find?_eq_none.mpr
  intro a ha
  simpa using (mem_removeKey.mp ha).2

theorem findKey_removeKey_of_ne {k' : κ} (hne : k' ≠ k) :
    findKey key (removeKey key l k) k' = findKey key l k' := by
  unfold findKey removeKey
  rw [List.find?_filter]
  congr 1
  funext a
  by_cases ha : key a = k'
  · simp [ha, hne]
  · simp [ha]

/-- Of a record that is taken out it does not matter what was written. -/
theorem removeKey_writeKey (l : List α) (b : α) :
    removeKey key (writeKey key l b) (key b) = removeKey key l (key b) := by
  rw [removeKey, writeKey, removeKey, List.filter_map]
  conv_rhs => rw [← List.map_id (List.filter _ _)]
  have hfilter :
      l.filter ((fun a => decide (key a ≠ key b)) ∘ fun a => if key a = key b then b else a) =
      l.filter fun a => decide (key a ≠ key b) := by
    apply List.filter_congr
    intro a _
    by_cases hkey : key a = key b <;> simp [hkey]
  rw [hfilter]
  apply List.map_congr_left
  intro a ha
  exact if_neg (of_decide_eq_true (List.mem_filter.mp ha).2)

/-! ### Numbers of records -/

theorem removeKey_of_notMem (hk : k ∉ l.map key) : removeKey key l k = l := by
  apply List.filter_eq_self.mpr
  intro a ha
  apply decide_eq_true
  rintro rfl
  exact hk (List.mem_map_of_mem ha)

theorem writeKey_of_notMem (hk : key b ∉ l.map key) : writeKey key l b = l := by
  conv_rhs => rw [← List.map_id l]
  apply List.map_congr_left
  intro a ha
  apply if_neg
  intro hkey
  rw [← hkey] at hk
  exact hk (List.mem_map_of_mem ha)

/-- Writing a record counts the new one for the old. -/
theorem countP_writeKey (p : α → Bool) (hkeys : (l.map key).Nodup) (ha : a ∈ l)
    (hkey : key a = key b) :
    (writeKey key l b).countP p + (if p a then 1 else 0) =
      l.countP p + (if p b then 1 else 0) := by
  induction l with
  | nil => cases ha
  | cons c l ih =>
      rw [List.map_cons, List.nodup_cons] at hkeys
      rcases List.mem_cons.mp ha with rfl | ha'
      · have htail : writeKey key l b = l := writeKey_of_notMem (hkey ▸ hkeys.1)
        have hhead : writeKey key (a :: l) b = b :: l := by
          rw [writeKey, List.map_cons, if_pos hkey]
          exact congrArg _ htail
        rw [hhead, List.countP_cons, List.countP_cons]
        omega
      · have hne : key c ≠ key b := by
          intro hc
          exact hkeys.1 (hc ▸ hkey ▸ List.mem_map_of_mem ha')
        have hhead : writeKey key (c :: l) b = c :: writeKey key l b := by
          rw [writeKey, List.map_cons, if_neg hne]
          rfl
        have htail := ih hkeys.2 ha'
        rw [hhead, List.countP_cons, List.countP_cons]
        omega

/-- Taking a record out counts it no longer. -/
theorem countP_removeKey (p : α → Bool) (hkeys : (l.map key).Nodup) (ha : a ∈ l) :
    (removeKey key l (key a)).countP p + (if p a then 1 else 0) = l.countP p := by
  induction l with
  | nil => cases ha
  | cons c l ih =>
      rw [List.map_cons, List.nodup_cons] at hkeys
      rcases List.mem_cons.mp ha with rfl | ha'
      · have hhead : removeKey key (a :: l) (key a) = l := by
          rw [removeKey, List.filter_cons_of_neg (by simp)]
          exact removeKey_of_notMem hkeys.1
        rw [hhead, List.countP_cons]
      · have hne : key c ≠ key a := fun hc => hkeys.1 (hc ▸ List.mem_map_of_mem ha')
        have hhead : removeKey key (c :: l) (key a) = c :: removeKey key l (key a) := by
          rw [removeKey, List.filter_cons_of_pos (by simpa using hne)]
          rfl
        have htail := ih hkeys.2 ha'
        rw [hhead, List.countP_cons, List.countP_cons]
        omega

/-! ### Steps -/

/-- A function is changed where it has the value already. -/
theorem eq_update {f : κ → α} (h : f k = a) : f = Function.update f k a :=
  (Function.update_eq_self_iff.mpr h.symm).symm

/-- A step that is made of another goes well where that one does. -/
theorem map_ok {ε β : Type} {f : α → β} {x : Except ε α} {b : β} (h : x.map f = .ok b) :
    ∃ a, x = .ok a ∧ f a = b := by
  cases x with
  | error => cases h
  | ok a => exact ⟨a, rfl, Except.ok.inj h⟩

end SysLib

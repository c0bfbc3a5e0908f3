/-
Nvl/Lib/Scatter.lean

Scattering blocks through an index vector.

`scatter n idx tmp len out` copies, for `i = 0, …, n - 1` in turn, block `i` of
`tmp` to block place `idx i` of `out`, all blocks `len` long.  When `idx`
permutes `0, …, n - 1`, every block place below `n` is written exactly once and
holds the block that names it (`slice_scatter`, `touched_scatterWrites`), and
what lies behind place `n` is left alone (`drop_scatter`).  The loop invariant is
`slice_scatterUpTo`: after `k` rounds the places already named are final.
-/
import Mathlib.Data.List.Basic
import Mathlib.Data.List.OfFn
import Mathlib.Data.List.Nodup
import Mathlib.Data.List.Perm.Subperm
import Mathlib.Logic.Equiv.Basic
import Mathlib.Logic.Equiv.Fin.Basic
import Mathlib.Tactic.Ring
import Mathlib.Tactic.Linarith

namespace SysLib

variable {α : Type}

/-- Block `i` of a list of blocks of length `len`. -/
def slice (l : List α) (i len : Nat) : List α := (l.drop (i * len)).take len

/-- Overwrite `out` from position `pos` with `block`. -/
def writeAt (out : List α) (pos : Nat) (block : List α) : List α :=
  out.take pos ++ block ++ out.drop (pos + block.length)

/-- The first `n` rounds of the scatter loop. -/
def scatter (idx : Nat → Nat) (tmp : List α) (len : Nat) : Nat → List α → List α
  | 0, out => out
  | n + 1, out => writeAt (scatter idx tmp len n out) (len * idx n) (slice tmp n len)

theorem length_slice {l : List α} {i len : Nat} (h : (i + 1) * len ≤ l.length) :
    (slice l i len).length = len := by
  have hm : (i + 1) * len = i * len + len := by ring
  simp only [slice, List.length_take, List.length_drop]
  omega

/-- A block that ends inside the first of two lists. -/
theorem slice_append_left {l m : List α} {i len : Nat} (h : (i + 1) * len ≤ l.length) :
    slice (l ++ m) i len = slice l i len := by
  have hm : (i + 1) * len = i * len + len := by ring
  rw [slice, slice, List.drop_append_of_le_length (by omega), List.take_append_of_le_length]
  rw [List.length_drop]
  omega

theorem length_writeAt {out block : List α} {pos : Nat} (h : pos + block.length ≤ out.length) :
    (writeAt out pos block).length = out.length := by
  simp only [writeAt, List.length_append, List.length_take, List.length_drop]
  omega

/-- A write of one block puts the block in its place. -/
theorem slice_writeAt_self {out block : List α} {i len : Nat} (hb : block.length = len)
    (h : (i + 1) * len ≤ out.length) : slice (writeAt out (len * i) block) i len = block := by
  have hm : (i + 1) * len = i * len + len := by ring
  have hc : len * i = i * len := Nat.mul_comm _ _
  have ht : (out.take (i * len)).length = i * len := by
    rw [List.length_take]; omega
  rw [slice, writeAt, hc, List.append_assoc, List.drop_left' ht, List.take_left' hb]

/-- A write of one block leaves the other block places as they were. -/
theorem slice_writeAt_ne {out block : List α} {i j len : Nat} (hb : block.length = len)
    (hi : (i + 1) * len ≤ out.length) (hij : i ≠ j) :
    slice (writeAt out (len * i) block) j len = slice out j len := by
  have hm : (i + 1) * len = i * len + len := by ring
  have hc : len * i = i * len := Nat.mul_comm _ _
  have ht : (out.take (i * len)).length = i * len := by
    rw [List.length_take]; omega
  rcases Nat.lt_or_gt_of_ne hij with hlt | hgt
  · -- the place lies behind the written block
    have hle : (i + 1) * len ≤ j * len := Nat.mul_le_mul_right _ hlt
    have hl : (out.take (i * len) ++ block).length = (i + 1) * len := by
      rw [List.length_append, ht, hb, hm]
    have hdrop : (writeAt out (len * i) block).drop (j * len) = out.drop (j * len) := by
      rw [writeAt, hc, List.drop_append, hl, List.drop_of_length_le (by rw [hl]; exact hle),
        List.nil_append, List.drop_drop, hb]
      congr 1
      omega
    rw [slice, slice, hdrop]
  · -- the place lies before it
    have hle : (j + 1) * len ≤ i * len := Nat.mul_le_mul_right _ hgt
    have hmj : (j + 1) * len = j * len + len := by ring
    have htake : (writeAt out (len * i) block).take (i * len) = out.take (i * len) := by
      rw [writeAt, hc, List.append_assoc, List.take_left' ht]
    have hslice : ∀ l : List α, slice l j len = ((l.take (i * len)).drop (j * len)).take len := by
      intro l
      rw [slice, List.drop_take, List.take_take, Nat.min_eq_left (by omega)]
    rw [hslice, hslice out, htake]

/-! ### Blocks laid end to end -/

theorem length_flatten_blocks {bs : List (List α)} {len : Nat} (h : ∀ b ∈ bs, b.length = len) :
    bs.flatten.length = bs.length * len := by
  induction bs with
  | nil => simp
  | cons b bs ih =>
      have hb : b.length = len := h b List.mem_cons_self
      have hbs := ih fun c hc => h c (List.mem_cons_of_mem _ hc)
      rw [List.flatten_cons, List.length_append, hb, hbs, List.length_cons]
      ring

/-- Block `i` of the blocks laid end to end. -/
theorem slice_flatten {bs : List (List α)} {len i : Nat} {b : List α}
    (h : ∀ c ∈ bs, c.length = len) (hi : bs[i]? = some b) : slice bs.flatten i len = b := by
  induction bs generalizing i with
  | nil => simp at hi
  | cons c bs ih =>
      have hc : c.length = len := h c List.mem_cons_self
      rcases i with - | i
      · obtain rfl := Option.some.inj hi
        rw [slice, List.flatten_cons, Nat.zero_mul, List.drop_zero, List.take_left' hc]
      · have hrest := ih (fun d hd => h d (List.mem_cons_of_mem _ hd)) (by simpa using hi)
        have hdrop : (c ++ bs.flatten).drop ((i + 1) * len) = bs.flatten.drop (i * len) := by
          rw [show (i + 1) * len = c.length + i * len by rw [hc]; ring, ← List.drop_drop,
            List.drop_left]
        rw [slice, List.flatten_cons, hdrop]
        exact hrest

/-- Block `i` of `n` blocks laid end to end. -/
theorem slice_flatten_ofFn {n len : Nat} {f : Fin n → List α} (hf : ∀ i, (f i).length = len)
    (i : Fin n) : slice (List.ofFn f).flatten i len = f i := by
  refine slice_flatten ?_ ?_
  · intro c hc
    obtain ⟨j, rfl⟩ := List.mem_ofFn.mp hc
    exact hf j
  · simp

theorem length_flatten_ofFn {n len : Nat} {f : Fin n → List α} (hf : ∀ i, (f i).length = len) :
    (List.ofFn f).flatten.length = n * len := by
  have hall : ∀ c ∈ List.ofFn f, c.length = len := by
    intro c hc
    obtain ⟨j, rfl⟩ := List.mem_ofFn.mp hc
    exact hf j
  rw [length_flatten_blocks hall, List.length_ofFn]

/-- A list is its blocks laid end to end. -/
theorem eq_flatten_ofFn {n len : Nat} {l : List α} {f : Fin n → List α}
    (hl : l.length = n * len) (hf : ∀ i : Fin n, slice l i len = f i) :
    l = (List.ofFn f).flatten := by
  induction n generalizing l with
  | zero =>
      rw [Nat.zero_mul] at hl
      rw [List.length_eq_zero_iff.mp hl]
      rfl
  | succ n ih =>
      have hhead : l.take len = f 0 := by
        rw [← hf 0, slice, Fin.val_zero, Nat.zero_mul, List.drop_zero]
      have htail : l.drop len = (List.ofFn fun i : Fin n => f i.succ).flatten := by
        refine ih ?_ fun i => ?_
        · rw [List.length_drop, hl, Nat.succ_mul, Nat.add_sub_cancel]
        · rw [← hf i.succ, slice, slice, List.drop_drop, Fin.val_succ, Nat.succ_mul, Nat.add_comm]
      rw [List.ofFn_succ, List.flatten_cons, ← hhead, ← htail, List.take_append_drop]

section Permutation

variable {n len : Nat} {idx : Nat → Nat} {tmp out : List α}

/-- A block place below `n` ends inside `n` blocks. -/
theorem place_le (hidx : ∀ i < n, idx i < n) (hout : n * len ≤ out.length) {i : Nat} (hi : i < n) :
    (idx i + 1) * len ≤ out.length :=
  le_trans (Nat.mul_le_mul_right _ (hidx i hi)) hout

theorem length_scatter (hidx : ∀ i < n, idx i < n) (htmp : tmp.length = n * len)
    (hout : n * len ≤ out.length) {k : Nat} (hk : k ≤ n) :
    (scatter idx tmp len k out).length = out.length := by
  induction k with
  | zero => rfl
  | succ k ih =>
      have hprev := ih (Nat.le_of_succ_le hk)
      have hb : (slice tmp k len).length = len :=
        length_slice (htmp ▸ Nat.mul_le_mul_right _ hk)
      have hpl : (idx k + 1) * len ≤ out.length := place_le hidx hout hk
      have hm : (idx k + 1) * len = len * idx k + len := by ring
      rw [scatter, length_writeAt (by rw [hb, hprev]; omega), hprev]

/-- **The loop invariant**: after `k` rounds every place named so far holds the
block that named it. -/
theorem slice_scatterUpTo (hidx : ∀ i < n, idx i < n)
    (hinj : ∀ i < n, ∀ j < n, idx i = idx j → i = j)
    (htmp : tmp.length = n * len) (hout : n * len ≤ out.length) {k : Nat} (hk : k ≤ n) :
    ∀ i < k, slice (scatter idx tmp len k out) (idx i) len = slice tmp i len := by
  induction k with
  | zero =>
      intro i hi
      exact absurd hi (Nat.not_lt_zero i)
  | succ k ih =>
      intro i hi
      have hlen := length_scatter hidx htmp hout (Nat.le_of_succ_le hk)
      have hb : (slice tmp k len).length = len :=
        length_slice (htmp ▸ Nat.mul_le_mul_right _ hk)
      have hpl : (idx k + 1) * len ≤ (scatter idx tmp len k out).length := by
        rw [hlen]
        exact place_le hidx hout hk
      rcases Nat.lt_succ_iff_lt_or_eq.mp hi with hlt | rfl
      · -- an earlier place: the round of `k` does not touch it
        have hne : idx k ≠ idx i := by
          intro he
          have := hinj k hk i (lt_trans hlt hk) he
          omega
        rw [scatter, slice_writeAt_ne hb hpl hne]
        exact ih (Nat.le_of_succ_le hk) i hlt
      · rw [scatter, slice_writeAt_self hb hpl]

/-- Through a permutation every block arrives at the place that names it. -/
theorem slice_scatter (hidx : ∀ i < n, idx i < n) (hinj : ∀ i < n, ∀ j < n, idx i = idx j → i = j)
    (htmp : tmp.length = n * len) (hout : n * len ≤ out.length) {i : Nat} (hi : i < n) :
    slice (scatter idx tmp len n out) (idx i) len = slice tmp i len :=
  slice_scatterUpTo hidx hinj htmp hout le_rfl i hi

theorem drop_writeAt {out block : List α} {pos m : Nat} (hb : pos + block.length ≤ m)
    (h : pos + block.length ≤ out.length) : (writeAt out pos block).drop m = out.drop m := by
  have hl : (out.take pos ++ block).length = pos + block.length := by
    rw [List.length_append, List.length_take]
    omega
  rw [writeAt, List.drop_append, hl, List.drop_of_length_le (by rw [hl]; exact hb),
    List.nil_append, List.drop_drop]
  congr 1
  omega

/-- What lies behind place `n` is left alone. -/
theorem drop_scatter (hidx : ∀ i < n, idx i < n) (htmp : tmp.length = n * len)
    (hout : n * len ≤ out.length) {k : Nat} (hk : k ≤ n) :
    (scatter idx tmp len k out).drop (n * len) = out.drop (n * len) := by
  induction k with
  | zero => rfl
  | succ k ih =>
      have hlen := length_scatter hidx htmp hout (Nat.le_of_succ_le hk)
      have hb : (slice tmp k len).length = len :=
        length_slice (htmp ▸ Nat.mul_le_mul_right _ hk)
      have hpl : (idx k + 1) * len ≤ n * len := Nat.mul_le_mul_right _ (hidx k hk)
      have hm : (idx k + 1) * len = len * idx k + len := by ring
      rw [scatter, drop_writeAt (by rw [hb]; omega) (by rw [hb, hlen]; omega)]
      exact ih (Nat.le_of_succ_le hk)

end Permutation

/-! ### The writes of the loop -/

/-- The loop, with a record of the block copies it makes: each with its position, in order. -/
def scatterLogged (idx : Nat → Nat) (tmp : List α) (len : Nat) :
    Nat → List α → List α × List (Nat × List α)
  | 0, out => (out, [])
  | n + 1, out =>
      let (out, writes) := scatterLogged idx tmp len n out
      let block := slice tmp n len
      (writeAt out (len * idx n) block, writes ++ [(len * idx n, block)])

/-- The block copies of the loop in order, each with its position. -/
def scatterWrites (idx : Nat → Nat) (tmp : List α) (len n : Nat) : List (Nat × List α) :=
  (List.range n).map fun i => (len * idx i, slice tmp i len)

/-- The positions that a list of block copies writes, as often as it writes them. -/
def touched (writes : List (Nat × List α)) : List Nat :=
  writes.flatMap fun w => List.range' w.1 w.2.length

/-- The record does not change the loop, and holds these copies. -/
theorem scatterLogged_eq (idx : Nat → Nat) (tmp : List α) (len n : Nat) (out : List α) :
    scatterLogged idx tmp len n out
      = (scatter idx tmp len n out, scatterWrites idx tmp len n) := by
  induction n with
  | zero => rfl
  | succ n ih =>
      rw [scatterLogged, ih, scatter, scatterWrites, scatterWrites, List.range_succ,
        List.map_append]
      rfl

/-- What the loop leaves is what its copies make, and nothing else. -/
theorem scatterLogged_foldl (idx : Nat → Nat) (tmp : List α) (len n : Nat) (out : List α) :
    (scatterLogged idx tmp len n out).1
      = (scatterLogged idx tmp len n out).2.foldl (fun out w => writeAt out w.1 w.2) out := by
  induction n with
  | zero => rfl
  | succ n ih =>
      rw [scatterLogged, List.foldl_append, ← ih]
      rfl

/-- Places `0, …, n - 1` taken in turn make up one stretch. -/
theorem flatMap_places (len n : Nat) :
    (List.range n).flatMap (fun j => List.range' (len * j) len) = List.range (n * len) := by
  induction n with
  | zero => simp
  | succ n ih =>
      rw [List.range_succ, List.flatMap_append, ih, List.flatMap_singleton, Nat.succ_mul,
        List.range_eq_range', List.range_eq_range', Nat.mul_comm len n]
      have happ := List.range'_append_1 (s := 0) (m := n * len) (n := len)
      rwa [Nat.zero_add] at happ

theorem map_range_perm {n : Nat} {idx : Nat → Nat} (hidx : ∀ i < n, idx i < n)
    (hinj : ∀ i < n, ∀ j < n, idx i = idx j → i = j) :
    ((List.range n).map idx).Perm (List.range n) := by
  have hnodup : ((List.range n).map idx).Nodup := by
    refine List.Nodup.map_on ?_ List.nodup_range
    intro i hi j hj
    exact hinj i (List.mem_range.mp hi) j (List.mem_range.mp hj)
  refine (hnodup.subperm ?_).perm_of_length_le (by simp)
  intro x hx
  obtain ⟨i, hi, rfl⟩ := List.mem_map.mp hx
  exact List.mem_range.mpr (hidx i (List.mem_range.mp hi))

/-- Through a permutation the loop writes every position below `n * len` exactly
once, and no other. -/
theorem touched_scatterWrites {n len : Nat} {idx : Nat → Nat} {tmp : List α}
    (hidx : ∀ i < n, idx i < n) (hinj : ∀ i < n, ∀ j < n, idx i = idx j → i = j)
    (htmp : tmp.length = n * len) :
    (touched (scatterWrites idx tmp len n)).Perm (List.range (n * len)) := by
  have hplaces : touched (scatterWrites idx tmp len n)
      = ((List.range n).map idx).flatMap fun j => List.range' (len * j) len := by
    rw [touched, scatterWrites, List.flatMap_map, List.flatMap_map]
    refine List.flatMap_congr fun i hi => ?_
    have hle : (i + 1) * len ≤ tmp.length :=
      htmp ▸ Nat.mul_le_mul_right _ (List.mem_range.mp hi)
    show List.range' _ (slice tmp i len).length = _
    rw [length_slice hle]
  rw [hplaces, ← flatMap_places]
  exact (map_range_perm hidx hinj).flatMap_right _

end SysLib

/-
Nvl/Xmem/Lookup.lean

What the two lookups of the segment list return.

Both take the earliest entry that passes their test.  The test by address is an
equality and two comparisons with a sum that may wrap; as long as no range
reaches the top of the address space it says that the range has the address, or
starts there (`covers_iff_has`).

A miss is reported in band.  The word `-1` therefore means that there is no
entry, or that there is one that is recorded with `-1`, and `xemem_make` returns
that very word when it fails.  With ranges apart, segment ids apart and none of
them `-1`, nothing depends on the order of the list, and the two lookups compose.
-/
import Nvl.Xmem.List

namespace Nvl

open SysLib

/-- The range of the entry has the address, or is empty and starts there. -/
def XpmemSeg.Has (p : XpmemSeg) (a : UInt64) : Prop :=
  (p.address.toNat ≤ a.toNat ∧ a.toNat < p.address.toNat + p.length.toNat) ∨
    (p.length = 0 ∧ a = p.address)

instance (p : XpmemSeg) (a : UInt64) : Decidable (p.Has a) :=
  inferInstanceAs (Decidable (_ ∨ _))

/-- No range reaches the top of the address space. -/
def BelowTop (s : MemsegList) : Prop :=
  ∀ p ∈ s, p.address.toNat + p.length.toNat < 2 ^ 64

instance (s : MemsegList) : Decidable (BelowTop s) :=
  inferInstanceAs (Decidable (∀ p ∈ s, p.address.toNat + p.length.toNat < 2 ^ 64))

theorem XpmemSeg.covers_iff_has {p : XpmemSeg} (h : p.address.toNat + p.length.toNat < 2 ^ 64)
    (a : UInt64) : p.covers a = true ↔ p.Has a := by
  have hsum : (p.address + p.length).toNat = p.address.toNat + p.length.toNat := by
    rw [UInt64.toNat_add]
    exact Nat.mod_eq_of_lt h
  have hzero : p.length = 0 ↔ p.length.toNat = 0 := by
    rw [← UInt64.toNat_inj]
    rfl
  simp only [XpmemSeg.covers, Bool.or_eq_true, beq_iff_eq, Bool.and_eq_true, decide_eq_true_eq,
    gt_iff_lt, UInt64.lt_iff_toNat_lt, hsum, XpmemSeg.Has, hzero, ← UInt64.toNat_inj]
  omega

theorem XpmemSeg.has_iff_mem_range {p : XpmemSeg} (h : 0 < p.length.toNat) (a : UInt64) :
    p.Has a ↔ a.toNat ∈ p.range := by
  have hzero : p.length ≠ 0 := by
    rintro hz
    rw [hz] at h
    exact absurd h (by decide)
  rw [XpmemSeg.Has, XpmemSeg.range, mem_addrRange]
  constructor
  · rintro (hin | ⟨hz, -⟩)
    · exact hin
    · exact absurd hz hzero
  · exact .inl

/-! ### First matches -/

section FirstMatch

variable {s : MemsegList}

theorem find?_covers_iff (hs : BelowTop s) {a : UInt64} {p : XpmemSeg} :
    (s.find? fun q => q.covers a) = some p ↔ Earliest s (fun q => q.Has a) p :=
  find?_eq_some_iff_earliest fun q hq => XpmemSeg.covers_iff_has (hs q hq) a

theorem find?_segid_iff {segid : UInt64} {p : XpmemSeg} :
    (s.find? fun q => decide (q.segid = segid)) = some p ↔
      Earliest s (fun q => q.segid = segid) p :=
  find?_eq_some_iff_earliest fun _ _ => decide_eq_true_iff

/-- Both lookups take the earliest match.  The word `-1` is the answer if there is none,
and otherwise only if that is what the match is recorded with. -/
structure ExactLookups (s : MemsegList) : Prop where
  segid : ∀ a p, Earliest s (fun q => q.Has a) p → listFindSegidByVaddr s a = p.segid
  segid_miss : ∀ a, listFindSegidByVaddr s a = notFound ↔
    (∀ q ∈ s, ¬ q.Has a) ∨ ∃ p, Earliest s (fun q => q.Has a) p ∧ p.segid = notFound
  vaddr : ∀ segid p, Earliest s (fun q => q.segid = segid) p →
    listFindVaddrBySegid s segid = p.address
  vaddr_miss : ∀ segid, listFindVaddrBySegid s segid = notFound ↔
    (∀ q ∈ s, q.segid ≠ segid) ∨
      ∃ p, Earliest s (fun q => q.segid = segid) p ∧ p.address = notFound

/-- A first match in `s`, read through `value`, is `-1` if there is no match or it has
that value. -/
theorem find?_miss_iff {test : XpmemSeg → Bool} {P : XpmemSeg → Prop} (value : XpmemSeg → UInt64)
    (hP : ∀ q ∈ s, test q = true ↔ P q) :
    ((s.find? test).map value).getD notFound = notFound ↔
      (∀ q ∈ s, ¬ P q) ∨ ∃ p, Earliest s P p ∧ value p = notFound := by
  rcases hf : s.find? test with - | p
  · have hno : ∀ q ∈ s, ¬ P q := by
      intro q hq hPq
      exact List.find?_eq_none.mp hf q hq ((hP q hq).mpr hPq)
    exact ⟨fun _ => .inl hno, fun _ => rfl⟩
  · have hp := (find?_eq_some_iff_earliest hP).mp hf
    constructor
    · intro hval
      exact .inr ⟨p, hp, hval⟩
    · rintro (hno | ⟨q, hq, hval⟩)
      · exact absurd hp.mem.2 (hno p hp.mem.1)
      · rw [(find?_eq_some_iff_earliest hP).mpr hq] at hf
        cases hf
        exact hval

theorem exactLookups (hs : BelowTop s) : ExactLookups s where
  segid := fun _ _ hp => listFindSegidByVaddr_of_find? ((find?_covers_iff hs).mpr hp)
  segid_miss := by
    intro a
    rw [listFindSegidByVaddr_eq]
    exact find?_miss_iff _ fun q hq => XpmemSeg.covers_iff_has (hs q hq) a
  vaddr := fun _ _ hp => listFindVaddrBySegid_of_find? (find?_segid_iff.mpr hp)
  vaddr_miss := by
    intro segid
    rw [listFindVaddrBySegid_eq]
    exact find?_miss_iff _ fun _ _ => decide_eq_true_iff

end FirstMatch

/-! ### Entries that are apart -/

/-- The ranges are not empty and pairwise disjoint; the segment ids differ from one
another and from `-1`. -/
structure EntriesApart (s : MemsegList) : Prop where
  nonempty : ∀ p ∈ s, 0 < p.length.toNat
  ranges : s.Pairwise fun p q => Disjoint p.range q.range
  segids : s.Pairwise fun p q => p.segid ≠ q.segid
  valid : ∀ p ∈ s, p.segid ≠ notFound

section Apart

variable {s s' : MemsegList}

theorem EntriesApart.eq_of_has (h : EntriesApart s) {a : UInt64} {p q : XpmemSeg} (hp : p ∈ s)
    (hq : q ∈ s) (hpa : p.Has a) (hqa : q.Has a) : p = q := by
  rw [XpmemSeg.has_iff_mem_range (h.nonempty p hp)] at hpa
  rw [XpmemSeg.has_iff_mem_range (h.nonempty q hq)] at hqa
  exact eq_of_mem_range h.ranges hp hq hpa hqa

theorem listFindSegidByVaddr_perm (hs : BelowTop s) (h : EntriesApart s) (hperm : s.Perm s')
    (a : UInt64) : listFindSegidByVaddr s' a = listFindSegidByVaddr s a := by
  rw [listFindSegidByVaddr_eq, listFindSegidByVaddr_eq, ← find?_perm hperm]
  intro p hp q hq hpa hqa
  rw [XpmemSeg.covers_iff_has (hs p hp)] at hpa
  rw [XpmemSeg.covers_iff_has (hs q hq)] at hqa
  exact h.eq_of_has hp hq hpa hqa

theorem listFindVaddrBySegid_perm (h : EntriesApart s) (hperm : s.Perm s') (segid : UInt64) :
    listFindVaddrBySegid s' segid = listFindVaddrBySegid s segid := by
  rw [listFindVaddrBySegid_eq, listFindVaddrBySegid_eq, ← find?_perm hperm]
  intro p hp q hq hpid hqid
  apply eq_of_key h.segids hp hq
  exact (of_decide_eq_true hpid).trans (of_decide_eq_true hqid).symm

/-- From an address to its segment and back to the start of the entry. -/
theorem listFindVaddrBySegid_listFindSegidByVaddr (hs : BelowTop s) (h : EntriesApart s)
    {a : UInt64} {p : XpmemSeg} (hp : p ∈ s) (hpa : p.Has a) :
    listFindVaddrBySegid s (listFindSegidByVaddr s a) = p.address := by
  have hseg : (s.find? fun q => q.covers a) = some p := by
    apply find?_eq_some_of_unique hp ((XpmemSeg.covers_iff_has (hs p hp) a).mpr hpa)
    intro q hq hqa
    exact h.eq_of_has hq hp ((XpmemSeg.covers_iff_has (hs q hq) a).mp hqa) hpa
  rw [listFindSegidByVaddr_of_find? hseg]
  exact listFindVaddrBySegid_of_find? (find?_key h.segids hp)

/-- **The lookups are exact and consistent.**  Each returns what the earliest match is
recorded with.  On entries that are apart the order of the list does not matter, and
looking up the segment of an address and the address of that segment gives the start
of the one entry that has it. -/
theorem lookups_exact (hs : BelowTop s) : ExactLookups s ∧ (EntriesApart s →
    (∀ s', s.Perm s' → (∀ a, listFindSegidByVaddr s' a = listFindSegidByVaddr s a) ∧
      ∀ segid, listFindVaddrBySegid s' segid = listFindVaddrBySegid s segid) ∧
    ∀ a, ∀ p ∈ s, p.Has a → (∀ q ∈ s, q.Has a → q = p) ∧
      listFindVaddrBySegid s (listFindSegidByVaddr s a) = p.address) := by
  refine ⟨exactLookups hs, fun h => ⟨fun s' hperm => ⟨?_, ?_⟩, fun a p hp hpa => ⟨?_, ?_⟩⟩⟩
  · exact listFindSegidByVaddr_perm hs h hperm
  · exact listFindVaddrBySegid_perm h hperm
  · exact fun q hq hqa => h.eq_of_has hq hp hqa hpa
  · exact listFindVaddrBySegid_listFindSegidByVaddr hs h hp hpa

end Apart

/-- Two buffers, registered in either order. -/
def twoSegments : MemsegList := [⟨5, 0x1000, 0x100⟩, ⟨6, 0x2000, 0x100⟩]

theorem entriesApart_twoSegments : EntriesApart twoSegments where
  nonempty := by decide
  ranges := by
    refine List.pairwise_pair.mpr (Set.disjoint_left.mpr ?_)
    rintro a ⟨-, hlt⟩ ⟨hge, -⟩
    exact absurd (lt_of_le_of_lt hge hlt) (by decide)
  segids := by decide
  valid := by decide

theorem lookups_exact_twoSegments :
    listFindVaddrBySegid twoSegments (listFindSegidByVaddr twoSegments 0x2010) = 0x2000 := by
  have h := (lookups_exact (s := twoSegments) (by decide)).2 entriesApart_twoSegments
  exact (h.2 0x2010 ⟨6, 0x2000, 0x100⟩ (by decide) (by decide)).2

/-- `xemem_make` has failed and its answer was recorded: there is an entry that has the
address, and the lookup reports a miss.  The other lookup reports one for an entry that
is recorded with the address -1. -/
theorem lookups_miss_recorded :
    (BelowTop [⟨notFound, 0x1000, 0x100⟩] ∧
      listFindSegidByVaddr [⟨notFound, 0x1000, 0x100⟩] 0x1010 = notFound ∧
        ¬ ∀ q ∈ [⟨notFound, 0x1000, 0x100⟩], ¬ XpmemSeg.Has q 0x1010) ∧
    (BelowTop [⟨7, notFound, 0⟩] ∧ listFindVaddrBySegid [⟨7, notFound, 0⟩] 7 = notFound ∧
      ¬ ∀ q ∈ [(⟨7, notFound, 0⟩ : XpmemSeg)], q.segid ≠ 7) := by
  decide

end Nvl

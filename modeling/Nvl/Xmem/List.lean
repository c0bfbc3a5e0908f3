/-
Nvl/Xmem/List.lean

The segment list of `xmem_list.h`, shared by both ends of the proxy.

An entry records a segment id with the address and length at which the process
that keeps the list sees that segment.  Entries are appended at the tail and
looked up from the head, so both lookups take the *earliest-added* match.

* `listFindSegidByVaddr` matches an address against the recorded ranges.  The
  test is an equality or two 64-bit comparisons with a sum that may wrap;
* `listFindVaddrBySegid` matches a segment id and returns the start of the
  entry, whatever address led to the id.

Both report a miss in band, as the word `-1`.  Segment ids are kept as the
64-bit words they are cast to.  The list pointer itself is never NULL here:
`kgni_init` and the server's `main` set it before the first request.
-/
import Mathlib.Algebra.Group.Nat.Defs
import Nvl.Lib.Lookup

namespace Nvl

open SysLib

/-- `struct xpmem_seg`, without the link. -/
structure XpmemSeg where
  segid : UInt64
  address : UInt64
  length : UInt64
  deriving DecidableEq, Inhabited

/-- `struct memseg_list`, its chain from head to tail. -/
abbrev MemsegList : Type := List XpmemSeg

/-- The word both lookups return for a miss. -/
def notFound : UInt64 := -1

/-- `list_new`. -/
def listNew : MemsegList := []

/-- `list_add_element`; the flag is whether its `malloc` succeeded. -/
def listAddElement (s : MemsegList) (mallocOk : Bool) (segid addr len : UInt64) : MemsegList :=
  if mallocOk then s ++ [⟨segid, addr, len⟩] else s

/-- The range test of `list_find_segid_by_vaddr`. -/
def XpmemSeg.covers (p : XpmemSeg) (addr : UInt64) : Bool :=
  p.address == addr || (decide (addr > p.address) && decide (addr < p.address + p.length))

/-- `list_find_segid_by_vaddr`. -/
def listFindSegidByVaddr : MemsegList → UInt64 → UInt64
  | [], _ => notFound
  | p :: ps, addr => if p.covers addr then p.segid else listFindSegidByVaddr ps addr

/-- `list_find_vaddr_by_segid`. -/
def listFindVaddrBySegid : MemsegList → UInt64 → UInt64
  | [], _ => notFound
  | p :: ps, segid => if p.segid = segid then p.address else listFindVaddrBySegid ps segid

/-! ### Appending -/

@[simp] theorem listAddElement_true (s : MemsegList) (segid addr len : UInt64) :
    listAddElement s true segid addr len = s ++ [⟨segid, addr, len⟩] := rfl

theorem mem_listAddElement {s : MemsegList} {mallocOk : Bool} {segid addr len : UInt64}
    {q : XpmemSeg} (h : q ∈ listAddElement s mallocOk segid addr len) :
    q ∈ s ∨ q = ⟨segid, addr, len⟩ := by
  rw [listAddElement] at h
  split at h
  · simpa using h
  · exact .inl h

/-! ### The lookups as first matches -/

theorem listFindSegidByVaddr_eq (s : MemsegList) (addr : UInt64) :
    listFindSegidByVaddr s addr
      = ((s.find? fun p => p.covers addr).map XpmemSeg.segid).getD notFound := by
  induction s with
  | nil => rfl
  | cons p ps ih =>
      by_cases hp : p.covers addr = true
      · simp [listFindSegidByVaddr, hp]
      · simp [listFindSegidByVaddr, hp, ih]

theorem listFindVaddrBySegid_eq (s : MemsegList) (segid : UInt64) :
    listFindVaddrBySegid s segid
      = ((s.find? fun p => decide (p.segid = segid)).map XpmemSeg.address).getD notFound := by
  induction s with
  | nil => rfl
  | cons p ps ih =>
      by_cases hp : p.segid = segid
      · simp [listFindVaddrBySegid, hp]
      · simp [listFindVaddrBySegid, hp, ih]

theorem listFindSegidByVaddr_of_find? {s : MemsegList} {addr : UInt64} {p : XpmemSeg}
    (h : (s.find? fun q => q.covers addr) = some p) : listFindSegidByVaddr s addr = p.segid := by
  rw [listFindSegidByVaddr_eq, h]
  rfl

theorem listFindVaddrBySegid_of_find? {s : MemsegList} {segid : UInt64} {p : XpmemSeg}
    (h : (s.find? fun q => decide (q.segid = segid)) = some p) :
    listFindVaddrBySegid s segid = p.address := by
  rw [listFindVaddrBySegid_eq, h]
  rfl

/-! ### The lookup by address in a longer list -/

theorem listFindSegidByVaddr_append_of_covers {E : MemsegList} {addr : UInt64}
    (h : ∃ q ∈ E, q.covers addr = true) (s : MemsegList) :
    listFindSegidByVaddr (E ++ s) addr = listFindSegidByVaddr E addr := by
  obtain ⟨q, hq, hcov⟩ := h
  have hsome : (E.find? fun r => r.covers addr).isSome = true :=
    List.find?_isSome.mpr ⟨q, hq, hcov⟩
  rw [listFindSegidByVaddr_eq, listFindSegidByVaddr_eq, List.find?_append,
    Option.or_of_isSome hsome]

theorem listFindSegidByVaddr_append_of_not_covers {E : MemsegList} {addr : UInt64}
    (h : ¬ ∃ q ∈ E, q.covers addr = true) (s : MemsegList) :
    listFindSegidByVaddr (E ++ s) addr = listFindSegidByVaddr s addr := by
  have hnone : (E.find? fun r => r.covers addr) = none :=
    List.find?_eq_none.mpr fun q hq hcov => h ⟨q, hq, hcov⟩
  rw [listFindSegidByVaddr_eq, listFindSegidByVaddr_eq, List.find?_append, hnone]
  rfl

/-- What a lookup finds is one of the ids, or a miss. -/
theorem listFindSegidByVaddr_mem (s : MemsegList) (addr : UInt64) :
    listFindSegidByVaddr s addr = notFound ∨
      ∃ q ∈ s, listFindSegidByVaddr s addr = q.segid := by
  rcases hf : s.find? fun q => q.covers addr with - | q
  · left
    rw [listFindSegidByVaddr_eq, hf]
    rfl
  · right
    exact ⟨q, List.mem_of_find?_eq_some hf, listFindSegidByVaddr_of_find? hf⟩

/-! ### Ranges -/

/-- The addresses from `start` on, `len` of them. -/
def addrRange (start len : UInt64) : Set ℕ :=
  Set.Ico start.toNat (start.toNat + len.toNat)

theorem mem_addrRange {start len : UInt64} {a : ℕ} :
    a ∈ addrRange start len ↔ start.toNat ≤ a ∧ a < start.toNat + len.toNat := Iff.rfl

/-- The range an entry records. -/
def XpmemSeg.range (p : XpmemSeg) : Set ℕ := addrRange p.address p.length

/-- A range that `xemem_make` can export: it has at least one byte and ends
below the top of the address space, as every range of user memory does. -/
structure Exportable (addr len : UInt64) : Prop where
  nonempty : 0 < len.toNat
  noWrap : addr.toNat + len.toNat < 2 ^ 64

instance (addr len : UInt64) : Decidable (Exportable addr len) :=
  decidable_of_iff (0 < len.toNat ∧ addr.toNat + len.toNat < 2 ^ 64)
    ⟨fun h => ⟨h.1, h.2⟩, fun h => ⟨h.nonempty, h.noWrap⟩⟩

/-- On an exportable range the test of the lookup is membership. -/
theorem XpmemSeg.covers_iff {p : XpmemSeg} (h : Exportable p.address p.length) (addr : UInt64) :
    p.covers addr = true ↔ addr.toNat ∈ p.range := by
  have hsum : (p.address + p.length).toNat = p.address.toNat + p.length.toNat := by
    rw [UInt64.toNat_add]
    exact Nat.mod_eq_of_lt h.noWrap
  have hpos := h.nonempty
  simp only [XpmemSeg.covers, Bool.or_eq_true, beq_iff_eq, Bool.and_eq_true, decide_eq_true_eq,
    gt_iff_lt, UInt64.lt_iff_toNat_lt, hsum, XpmemSeg.range, mem_addrRange,
    ← UInt64.toNat_inj]
  omega

end Nvl

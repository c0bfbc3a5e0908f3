/-
Nvl/NoForward/Pages.lean

Rounding a buffer to pages, in the variant of the proxy that exports the
application's own buffers (`mem_alloc_no_forward`).

`xemem_make_address` exports the pages of a client buffer, and
`xemem_attach_address` attaches them at the server and finds the buffer in them
again.  Both use a macro `PAGE_ALIGN` that masks with `PAGE_SIZE - 1`: it yields
the offset in the page and not its start.  The number of pages is an `int` and so
is the number of bytes computed from it.  In the server `nr_pages` is not declared
at all; it is taken for the `int` of the client.

Pointers and their differences are read as 64-bit integers.
-/
import Mathlib.Data.Nat.Init
import Mathlib.Tactic.Ring

namespace Nvl.NoForward

/-! ### Pages -/

/-- `PAGE_SIZE`. -/
def pageSize : Nat := 4096

/-- `[base, base + len)` consists of pages, contains `[addr, addr + size)`, and has no
page disjoint from it. -/
structure PageCover (addr size base len : Nat) : Prop where
  start : base % pageSize = 0
  stop : (base + len) % pageSize = 0
  low : base ≤ addr
  high : addr + size ≤ base + len
  tight : ∀ k, base ≤ pageSize * k → pageSize * (k + 1) ≤ base + len →
    pageSize * k < addr + size ∧ addr < pageSize * (k + 1)

/-- There is one such range. -/
theorem pageCover_iff {addr size base len : Nat} (hsize : 1 ≤ size) :
    PageCover addr size base len ↔ base = addr / pageSize * pageSize ∧
      base + len = (addr + size + (pageSize - 1)) / pageSize * pageSize := by
  simp only [pageSize]
  constructor
  · intro h
    have hstart : base % 4096 = 0 := h.start
    have hstop : (base + len) % 4096 = 0 := h.stop
    have hlow := h.low
    have hhigh := h.high
    -- the first page and the last one are not disjoint from the buffer
    have hfirst := (h.tight (base / 4096) (by simp only [pageSize]; omega)
      (by simp only [pageSize]; omega)).2
    have hlast := (h.tight ((base + len) / 4096 - 1) (by simp only [pageSize]; omega)
      (by simp only [pageSize]; omega)).1
    simp only [pageSize] at hfirst hlast
    omega
  · rintro ⟨hbase, hlen⟩
    refine ⟨?_, ?_, ?_, ?_, fun k (hlow : base ≤ 4096 * k) (hhigh : 4096 * (k + 1) ≤ _) => ?_⟩
    · simp only [pageSize]
      omega
    · simp only [pageSize]
      omega
    · omega
    · omega
    · simp only [pageSize]
      omega

/-! ### The two functions -/

/-- `PAGE_ALIGN`. -/
def pageAlign (addr : UInt64) : UInt64 := addr &&& (4096 - 1)

/-- `nr_pages`, an `int`. -/
def nrPages (alignedSize : UInt64) : Int32 :=
  let nrPages := (alignedSize / 4096).toUInt32.toInt32
  if alignedSize % 4096 ≠ 0 then nrPages + 1 else nrPages

/-- `nr_pages * PAGE_SIZE`, a product of `int`s passed as a `size_t`. -/
def pageBytes (alignedSize : UInt64) : UInt64 := UInt64.ofInt (nrPages alignedSize * 4096).toInt

/-- `xemem_make_address`, given `xemem_make`. -/
def xememMakeAddress {α : Type} (xememMake : UInt64 → UInt64 → α) (addr size : UInt64) : α :=
  let aligned := pageAlign addr
  let alignedSize := size + (addr - aligned)
  xememMake aligned (pageBytes alignedSize)

/-- `MAP_FAILED`. -/
def mapFailed : UInt64 := -1

/-- `offset` of `xemem_attach_address`. -/
def attachOffset (clientAddr : UInt64) : UInt64 := clientAddr - pageAlign clientAddr

/-- The length passed to `xemem_attach`. -/
def attachBytes (clientAddr size : UInt64) : UInt64 := pageBytes (size + attachOffset clientAddr)

/-- `xemem_attach_address`, given what `xemem_attach` returned. -/
def xememAttachAddress (clientAddr serverAligned : UInt64) : UInt64 :=
  if serverAligned = mapFailed then 0 else serverAligned + attachOffset clientAddr

/-! ### As numbers -/

theorem toNat_pageAlign (addr : UInt64) : (pageAlign addr).toNat = addr.toNat % 4096 := by
  rw [pageAlign, UInt64.toNat_and]
  exact Nat.and_two_pow_sub_one_eq_mod addr.toNat 12

/-- The number of pages that hold `n` bytes. -/
def pages (n : Nat) : Nat := (n + 4095) / 4096

/-- A `size_t` cut to an `int`. -/
theorem toInt_toInt32 (x : UInt64) : x.toUInt32.toInt32.toInt = (x.toNat : ℤ).bmod (2 ^ 32) := by
  rw [← Int32.toInt_toBitVec, UInt32.toBitVec_toInt32, BitVec.toInt_eq_toNat_bmod,
    UInt32.toNat_toBitVec, UInt64.toNat_toUInt32]
  push_cast
  exact Int.emod_bmod _ _

/-- The count is right but for its width. -/
theorem toInt_nrPages (alignedSize : UInt64) :
    (nrPages alignedSize).toInt = (pages alignedSize.toNat : ℤ).bmod (2 ^ 32) := by
  have hcut := toInt_toInt32 (alignedSize / 4096)
  rw [UInt64.toNat_div, show (4096 : UInt64).toNat = 4096 from rfl] at hcut
  have hrest : alignedSize % 4096 = 0 ↔ alignedSize.toNat % 4096 = 0 := by
    rw [← UInt64.toNat_inj, UInt64.toNat_mod]
    rfl
  by_cases h : alignedSize % 4096 = 0
  · rw [nrPages, if_neg (not_not.mpr h), hcut]
    congr 2
    have := hrest.mp h
    rw [pages]
    omega
  · rw [nrPages, if_pos h, Int32.toInt_add, hcut, show (1 : Int32).toInt = 1 from rfl,
      Int.bmod_add_bmod]
    have hne : alignedSize.toNat % 4096 ≠ 0 := fun h0 => h (hrest.mpr h0)
    have hpages : pages alignedSize.toNat = alignedSize.toNat / 4096 + 1 := by
      rw [pages]
      omega
    rw [hpages]
    rfl

theorem toNat_pageBytes (alignedSize : UInt64) : ((pageBytes alignedSize).toNat : ℤ)
    = (pages alignedSize.toNat * 4096 : ℤ).bmod (2 ^ 32) % 2 ^ 64 := by
  rw [pageBytes, UInt64.ofInt, Int32.toInt_mul, toInt_nrPages, Int.bmod_mul_bmod,
    show (4096 : Int32).toInt = 4096 from rfl, UInt64.toNat_ofNat']
  omega

/-- The bytes of the pages are passed as they are exactly if they fit an `int`. -/
theorem toNat_pageBytes_iff {n : UInt64} (hn : n.toNat < 2 ^ 47) :
    (pageBytes n).toNat = pages n.toNat * 4096 ↔ pages n.toNat * 4096 < 2 ^ 31 := by
  have hbytes := toNat_pageBytes n
  have hlt : pages n.toNat * 4096 < 2 ^ 48 := by
    rw [pages]
    omega
  rw [Int.bmod_def] at hbytes
  split at hbytes <;> omega

/-! ### Rounding on both sides -/

/-- The range that `xemem_make_address` passes to `xemem_make`. -/
def exportedRange (addr size : UInt64) : UInt64 × UInt64 := xememMakeAddress Prod.mk addr size

/-- The range exported is the page cover of the buffer, and the server finds the buffer
in it.  The server's byte at `S + j`, if it has attached the range at `S`, is the client's
at `base + j`. -/
structure PageRounding (addr size : UInt64) : Prop where
  exported : PageCover addr.toNat size.toNat (exportedRange addr size).1.toNat
    (exportedRange addr size).2.toNat
  samePages : attachBytes addr size = (exportedRange addr size).2
  returned : ∀ S : UInt64, S.toNat % 4096 = 0 →
    xememAttachAddress addr S = S + addr % 4096
  bytes : ∀ S : UInt64, S.toNat % 4096 = 0 → ∀ i < size,
    let j := xememAttachAddress addr S + i - S
    j < (exportedRange addr size).2 ∧ (exportedRange addr size).1 + j = addr + i

/-- Both sides compute the same number of bytes, from the same address. -/
theorem attachBytes_eq (addr size : UInt64) :
    attachBytes addr size = (exportedRange addr size).2 := rfl

/-- At the first byte of the address space there is nothing to round off. -/
theorem exportedRange_zero (size : UInt64) : exportedRange 0 size = (0, pageBytes size) := by
  rw [exportedRange, xememMakeAddress, show pageAlign 0 = 0 from rfl, UInt64.sub_self,
    UInt64.add_zero]

theorem xememAttachAddress_zero {S : UInt64} (hS : S.toNat % 4096 = 0) :
    xememAttachAddress 0 S = S := by
  have hne : S ≠ mapFailed := by
    rintro rfl
    exact absurd hS (by decide)
  rw [xememAttachAddress, if_neg hne, show attachOffset 0 = 0 from rfl, UInt64.add_zero]

/-- A cover of pages starts at the offset in a page only if both are zero. -/
theorem eq_zero_of_pageCover {addr size : UInt64} (hsize : 1 ≤ size.toNat)
    (h : PageCover addr.toNat size.toNat (exportedRange addr size).1.toNat
      (exportedRange addr size).2.toNat) : addr = 0 := by
  have hbase := ((pageCover_iff hsize).mp h).1
  rw [show (exportedRange addr size).1 = pageAlign addr from rfl, toNat_pageAlign] at hbase
  simp only [pageSize] at hbase
  refine UInt64.toNat_inj.mp ?_
  rw [UInt64.toNat_zero]
  omega

/-- **When rounding to pages is right.**  `PAGE_ALIGN` gives the start of the page for
the first byte of the address space only, and the number of bytes has to fit an `int`. -/
theorem pageRounding_iff {addr size : UInt64} (hsize : 1 ≤ size.toNat)
    (hrange : addr.toNat + size.toNat < 2 ^ 47) :
    PageRounding addr size ↔ addr = 0 ∧ size.toNat ≤ 2147479552 := by
  have hfits : pages size.toNat * 4096 < 2 ^ 31 ↔ size.toNat ≤ 2147479552 := by
    rw [pages]
    omega
  have hbytes := toNat_pageBytes_iff (n := size) (by omega)
  constructor
  · intro h
    obtain rfl := eq_zero_of_pageCover hsize h.exported
    refine ⟨rfl, hfits.mp (hbytes.mp ?_)⟩
    have hlen := ((pageCover_iff hsize).mp h.exported).2
    rw [exportedRange_zero] at hlen
    simpa [pages, pageSize] using hlen
  · rintro ⟨rfl, hle⟩
    have hlen := hbytes.mpr (hfits.mpr hle)
    refine ⟨?_, attachBytes_eq 0 size, fun S hS => ?_, fun S hS i hi => ?_⟩
    · rw [exportedRange_zero, pageCover_iff hsize, hlen]
      simp [pages, pageSize]
    · rw [xememAttachAddress_zero hS, show (0 : UInt64) % 4096 = 0 from rfl, UInt64.add_zero]
    · have hj : xememAttachAddress 0 S + i - S = i := by
        rw [xememAttachAddress_zero hS, UInt64.add_comm, UInt64.add_sub_cancel]
      have hcovered : size.toNat ≤ pages size.toNat * 4096 := by
        rw [pages]
        omega
      simp only [hj, exportedRange_zero, UInt64.lt_iff_toNat_lt, hlen]
      exact ⟨lt_of_lt_of_le (UInt64.lt_iff_toNat_lt.mp hi) hcovered, trivial⟩

theorem pageRounding_iff_onePage : PageRounding 0 4096 :=
  (pageRounding_iff (by decide) (by decide)).mpr ⟨rfl, by decide⟩

/-- For 16 bytes at 0x10010, 17 pages are exported, from byte 16 of the address space. -/
theorem pageRounding_fails :
    exportedRange 0x10010 0x10 = (0x10, 0x11000) ∧ ¬ PageRounding 0x10010 0x10 := by
  refine ⟨by decide, fun h => ?_⟩
  exact absurd h.exported.start (by decide)

end Nvl.NoForward

/-
Nvl/Gni/MemHandle.lean

Memory handles (`gni_priv.h`): their fields, their check sum, and the range of addresses
they cover.

A handle is two words.  `GNI_MEMHNDL_SET_…` puts a field into them and `GNI_MEMHNDL_GET_…`
reads it; where the MDH is depends on a flag.  Once the flags are set, the other fields may
follow in any order (`built_reading`).

The check sum is a cyclic one over the first 15 bytes, low bit first.  With its own byte it
makes a word of 128 bits that is accepted when it leaves no residue (`verify_iff`), so what
`GNI_MEMHNDL_VERIFY` notices is a question about the damage alone (`verify_damaged`).  The
polynomial has period 127, one less than the length of the word: of all pairs of bits, the
first and the last are the ones that may flip together unnoticed.
-/
import Nvl.Lib.Residue
import Nvl.Lib.Words
import Nvl.Gni.Args

namespace Nvl.GniMemHandle

open SysLib

/-! ### Fields -/

/-- `GNI_MEMHNDL_INIT`. -/
def init : GniMemHandle := ⟨0, 0⟩

/-- `GNI_MEMHNDL_FLAG_NEW_FRMT`. -/
def flagNewFrmt : UInt64 := 0x80

/-- `GNI_MEMHNDL_NEW_FRMT`. -/
def newFrmt (m : GniMemHandle) : Bool := (m.qword2 >>> 34) &&& flagNewFrmt != 0

/-- `GNI_MEMHNDL_SET_VA`: both formats have the address at the same place. -/
def setVa (m : GniMemHandle) (value : UInt64) : GniMemHandle :=
  { m with qword1 := setField m.qword1 0 52 (value >>> 12) }

/-- `GNI_MEMHNDL_GET_VA`. -/
def getVa (m : GniMemHandle) : UInt64 := getField m.qword1 0 52 <<< 12

/-- `GNI_MEMHNDL_SET_MDH`. -/
def setMdh (m : GniMemHandle) (value : UInt64) : GniMemHandle :=
  if m.newFrmt then { m with qword2 := setField m.qword2 42 12 value }
  else { m with qword1 := setField m.qword1 52 12 value }

/-- `GNI_MEMHNDL_GET_MDH`. -/
def getMdh (m : GniMemHandle) : UInt64 :=
  if m.newFrmt then getField m.qword2 42 12 else getField m.qword1 52 12

/-- `GNI_MEMHNDL_NPGS_MASK`, `GNI_MEMHNDL_PSIZE_MASK` and `GNI_MEMHNDL_FLAGS_MASK`. -/
def npgsMask : UInt64 := 0xFFFFFFF
def psizeMask : UInt64 := 0x3F
def flagsMask : UInt64 := 0xFF

/-- `GNI_MEMHNDL_SET_NPAGES`. -/
def setNpages (m : GniMemHandle) (value : UInt64) : GniMemHandle :=
  { m with qword2 := m.qword2 ||| (value &&& npgsMask) }

/-- `GNI_MEMHNDL_GET_NPAGES`. -/
def getNpages (m : GniMemHandle) : UInt64 := m.qword2 &&& npgsMask

/-- `GNI_MEMHNDL_SET_PAGESIZE`; the value is the logarithm. -/
def setPagesize (m : GniMemHandle) (value : UInt64) : GniMemHandle :=
  { m with qword2 := m.qword2 ||| ((value &&& psizeMask) <<< 28) }

/-- `GNI_MEMHNDL_GET_PAGESHIFT`. -/
def getPageshift (m : GniMemHandle) : UInt64 := (m.qword2 >>> 28) &&& psizeMask

/-- `GNI_MEMHNDL_GET_PAGESIZE`. -/
def getPagesize (m : GniMemHandle) : UInt64 := 1 <<< m.getPageshift

/-- `GNI_MEMHNDL_SET_FLAGS`. -/
def setFlags (m : GniMemHandle) (value : UInt64) : GniMemHandle :=
  { m with qword2 := m.qword2 ||| ((value &&& flagsMask) <<< 34) }

/-- `GNI_MEMHNDL_GET_FLAGS`. -/
def getFlags (m : GniMemHandle) : UInt64 := (m.qword2 >>> 34) &&& flagsMask

/-- What the macros read of a handle. -/
@[ext] structure Reading where
  flags : UInt64
  va : UInt64
  mdh : UInt64
  npages : UInt64
  pageshift : UInt64

def reading (m : GniMemHandle) : Reading :=
  ⟨m.getFlags, m.getVa, m.getMdh, m.getNpages, m.getPageshift⟩

/-- A use of one of the macros that follow `GNI_MEMHNDL_SET_FLAGS`. -/
inductive Setter where
  | va (value : UInt64)
  | mdh (value : UInt64)
  | npages (value : UInt64)
  | pagesize (value : UInt64)

inductive Kind where
  | va
  | mdh
  | npages
  | pagesize
  deriving DecidableEq

def Setter.kind : Setter → Kind
  | .va _ => .va
  | .mdh _ => .mdh
  | .npages _ => .npages
  | .pagesize _ => .pagesize

def Setter.apply (m : GniMemHandle) : Setter → GniMemHandle
  | .va value => m.setVa value
  | .mdh value => m.setMdh value
  | .npages value => m.setNpages value
  | .pagesize value => m.setPagesize value

/-- What it does to the reading: the value is cut to the width of the field, the address to a
multiple of 4096. -/
def Setter.record (r : Reading) : Setter → Reading
  | .va value => { r with va := (value >>> 12) <<< 12 }
  | .mdh value => { r with mdh := value &&& 0xFFF }
  | .npages value => { r with npages := value &&& npgsMask }
  | .pagesize value => { r with pageshift := value &&& psizeMask }

/-- The fields that the macros add bits to have to be clear. -/
def Setter.Clear (m : GniMemHandle) : Setter → Prop
  | .npages _ => m.getNpages = 0
  | .pagesize _ => m.getPageshift = 0
  | _ => True

section Reading

variable {m : GniMemHandle} (value : UInt64)

theorem getFlags_eq (m : GniMemHandle) : m.getFlags = getField m.qword2 34 8 := rfl

theorem getNpages_eq (m : GniMemHandle) : m.getNpages = getField m.qword2 0 28 := by
  apply word_ext
  intro i _
  rw [ubit_getField _ (by decide) (by decide), getNpages, show npgsMask = lowMask 28 from rfl,
    ubit_and, ubit_lowMask (by decide), Nat.zero_add, Bool.and_comm]

theorem getPageshift_eq (m : GniMemHandle) : m.getPageshift = getField m.qword2 28 6 := rfl

theorem setNpages_eq (m : GniMemHandle) :
    m.setNpages value = { m with qword2 := orField m.qword2 0 28 value } := by
  rw [setNpages]
  congr 1
  apply word_ext
  intro i _
  rw [ubit_orField _ _ (by decide) (by decide), show npgsMask = lowMask 28 from rfl, ubit_or,
    ubit_and, ubit_lowMask (by decide)]
  simp [Bool.and_comm]

theorem setPagesize_eq (m : GniMemHandle) :
    m.setPagesize value = { m with qword2 := orField m.qword2 28 6 value } := rfl

theorem setFlags_eq (m : GniMemHandle) :
    m.setFlags value = { m with qword2 := orField m.qword2 34 8 value } := rfl

/-- The format is one of the flags. -/
theorem newFrmt_eq (m : GniMemHandle) : m.newFrmt = (m.getFlags &&& flagNewFrmt != 0) := by
  have hand : m.getFlags &&& flagNewFrmt = (m.qword2 >>> 34) &&& flagNewFrmt := by
    rw [getFlags, UInt64.and_assoc]
    rfl
  rw [hand]
  rfl

theorem newFrmt_congr {m m' : GniMemHandle} (h : m.getFlags = m'.getFlags) :
    m.newFrmt = m'.newFrmt := by
  rw [newFrmt_eq, newFrmt_eq, h]

theorem reading_setVa : (m.setVa value).reading = Setter.record m.reading (.va value) := by
  have hva : (m.setVa value).getVa = (value >>> 12) <<< 12 := by
    rw [getVa, setVa, getField_setField_self (by decide) (by decide)]
    congr 1
    apply word_ext
    intro i _
    rw [ubit_and, ubit_lowMask (by decide), show (12 : UInt64) = UInt64.ofNat 12 from rfl,
      ubit_shiftRight _ (by decide)]
    by_cases hi : i < 52
    · simp [hi]
    · rw [ubit_of_ge _ (by omega), Bool.false_and]
  have hmdh : (m.setVa value).getMdh = m.getMdh := by
    have hfrmt : (m.setVa value).newFrmt = m.newFrmt := rfl
    rw [getMdh, getMdh, hfrmt, setVa, getField_setField_of_apart (by decide) (by decide) (by decide)
      (by decide) (by decide)]
  ext1
  · rfl
  · exact hva
  · exact hmdh
  · rfl
  · rfl

theorem getFlags_setMdh : (m.setMdh value).getFlags = m.getFlags := by
  rw [getFlags_eq, getFlags_eq]
  unfold setMdh
  split
  · exact getField_setField_of_apart (by decide) (by decide) (by decide) (by decide) (by decide)
  · rfl

theorem reading_setMdh : (m.setMdh value).reading = Setter.record m.reading (.mdh value) := by
  have hmdh : (m.setMdh value).getMdh = value &&& 0xFFF := by
    rw [getMdh, newFrmt_congr (getFlags_setMdh value)]
    unfold setMdh
    split
    · exact getField_setField_self (by decide) (by decide)
    · exact getField_setField_self (by decide) (by decide)
  ext1
  · exact getFlags_setMdh value
  · show getField _ 0 52 <<< 12 = getField _ 0 52 <<< 12
    unfold setMdh
    split
    · rfl
    · rw [getField_setField_of_apart (by decide) (by decide) (by decide) (by decide) (by decide)]
  · exact hmdh
  · show getNpages _ = getNpages _
    rw [getNpages_eq, getNpages_eq]
    unfold setMdh
    split
    · exact getField_setField_of_apart (by decide) (by decide) (by decide) (by decide) (by decide)
    · rfl
  · show getField _ 28 6 = getField _ 28 6
    unfold setMdh
    split
    · exact getField_setField_of_apart (by decide) (by decide) (by decide) (by decide) (by decide)
    · rfl

/-- Adding bits to a field of the second word apart from flags and MDH. -/
theorem reading_orField (off len : Nat) (hoff : off < 64) (hlen : off + len ≤ 64)
    (hapart : off + len ≤ 34 ∨ 54 ≤ off) :
    let m' : GniMemHandle := { m with qword2 := orField m.qword2 off len value }
    m'.getFlags = m.getFlags ∧ m'.getVa = m.getVa ∧ m'.getMdh = m.getMdh := by
  intro m'
  have hflags : m'.getFlags = m.getFlags := by
    rw [getFlags_eq, getFlags_eq]
    exact getField_orField_of_apart hoff hlen (by decide) (by decide) (by omega)
  refine ⟨hflags, rfl, ?_⟩
  rw [getMdh, getMdh, newFrmt_congr hflags]
  congr 1
  exact getField_orField_of_apart hoff hlen (by decide) (by decide) (by omega)

theorem reading_setNpages (hclear : m.getNpages = 0) :
    (m.setNpages value).reading = Setter.record m.reading (.npages value) := by
  rw [getNpages_eq] at hclear
  rw [setNpages_eq]
  obtain ⟨hflags, hva, hmdh⟩ := reading_orField (m := m) value 0 28
    (by decide) (by decide) (by decide)
  ext1
  · exact hflags
  · exact hva
  · exact hmdh
  · exact (getNpages_eq _).trans (getField_orField_self (by decide) (by decide) hclear)
  · show getPageshift _ = getPageshift _
    rw [getPageshift_eq, getPageshift_eq]
    exact getField_orField_of_apart (by decide) (by decide) (by decide) (by decide) (by decide)

theorem reading_setPagesize (hclear : m.getPageshift = 0) :
    (m.setPagesize value).reading = Setter.record m.reading (.pagesize value) := by
  rw [setPagesize_eq]
  obtain ⟨hflags, hva, hmdh⟩ := reading_orField (m := m) value 28 6
    (by decide) (by decide) (by decide)
  ext1
  · exact hflags
  · exact hva
  · exact hmdh
  · show getNpages _ = getNpages _
    rw [getNpages_eq, getNpages_eq]
    exact getField_orField_of_apart (by decide) (by decide) (by decide) (by decide) (by decide)
  · exact getField_orField_self (by decide) (by decide) hclear

end Reading

/-- One macro. -/
theorem Setter.reading_apply {m : GniMemHandle} {s : Setter} (h : s.Clear m) :
    (s.apply m).reading = s.record m.reading := by
  cases s with
  | va value => exact reading_setVa value
  | mdh value => exact reading_setMdh value
  | npages value => exact reading_setNpages value h
  | pagesize value => exact reading_setPagesize value h

/-- A macro leaves the fields of other kinds clear. -/
theorem Setter.Clear.apply {m : GniMemHandle} {s t : Setter} (hne : s.kind ≠ t.kind)
    (hs : s.Clear m) (ht : t.Clear m) : t.Clear (s.apply m) := by
  have hread := reading_apply hs
  cases t with
  | va value => trivial
  | mdh value => trivial
  | npages value =>
      show (s.apply m).reading.npages = 0
      rw [hread]
      cases s with
      | npages value' => exact absurd rfl hne
      | _ => exact ht
  | pagesize value =>
      show (s.apply m).reading.pageshift = 0
      rw [hread]
      cases s with
      | pagesize value' => exact absurd rfl hne
      | _ => exact ht

theorem reading_foldl {l : List Setter} (hkinds : (l.map Setter.kind).Nodup) {m : GniMemHandle}
    (hclear : ∀ s ∈ l, s.Clear m) :
    (l.foldl Setter.apply m).reading = l.foldl Setter.record m.reading := by
  induction l generalizing m with
  | nil => rfl
  | cons s l ih =>
      rw [List.map_cons, List.nodup_cons] at hkinds
      have hs := hclear s List.mem_cons_self
      rw [List.foldl_cons, List.foldl_cons, ← Setter.reading_apply hs]
      refine ih hkinds.2 fun t ht => Setter.Clear.apply ?_ hs (hclear t (.tail s ht))
      intro hkind
      exact hkinds.1 (hkind ▸ List.mem_map_of_mem ht)

/-! ### The check sum -/

/-- `gni_crc_bits`. -/
def crcBits (data : UInt8) : UInt8 :=
  let lcrc : UInt8 := 0
  let lcrc := if data &&& 1 ≠ 0 then lcrc ^^^ 0x5e else lcrc
  let lcrc := if data &&& 2 ≠ 0 then lcrc ^^^ 0xbc else lcrc
  let lcrc := if data &&& 4 ≠ 0 then lcrc ^^^ 0x61 else lcrc
  let lcrc := if data &&& 8 ≠ 0 then lcrc ^^^ 0xc2 else lcrc
  let lcrc := if data &&& 0x10 ≠ 0 then lcrc ^^^ 0x9d else lcrc
  let lcrc := if data &&& 0x20 ≠ 0 then lcrc ^^^ 0x23 else lcrc
  let lcrc := if data &&& 0x40 ≠ 0 then lcrc ^^^ 0x46 else lcrc
  let lcrc := if data &&& 0x80 ≠ 0 then lcrc ^^^ 0x8c else lcrc
  lcrc

/-- The check sum goes on with the bytes of a word at the given places. -/
def crcOver (qw : UInt64) (places : List Nat) (crc : UInt8) : UInt8 :=
  places.foldl (fun crc k =>
    crcBits (((qw >>> UInt64.ofNat k) ^^^ crc.toUInt64) &&& 0xff).toUInt8) crc

/-- `gni_memhndl_calc_crc`. -/
def calcCrc (m : GniMemHandle) : UInt8 :=
  crcOver m.qword2 [0, 8, 16, 24, 32, 40, 48]
    (crcOver m.qword1 [0, 8, 16, 24, 32, 40, 48, 56] 0)

/-- `GNI_MEMHNDL_SET_CRC`. -/
def setCrc (m : GniMemHandle) : GniMemHandle :=
  { m with qword2 := m.qword2 ||| (m.calcCrc.toUInt64 <<< 56) }

/-- `GNI_MEMHNDL_VERIFY`. -/
def verify (m : GniMemHandle) : Bool :=
  m.qword2 != 0 && ((m.qword2 >>> 56) &&& 0xFF) == m.calcCrc.toUInt64

/-- The polynomial, as `crcBits` shifts it. -/
def crcPoly : BitVec 8 := 0x8C

/-- The table of `crcBits` is eight steps of the register. -/
theorem toBitVec_crcBits (data : UInt8) :
    (crcBits data).toBitVec = (Residue.shift crcPoly)^[8] data.toBitVec := by
  have h : ∀ x : BitVec 8,
      (crcBits ⟨x⟩).toBitVec = (Residue.shift crcPoly)^[8] x := by decide +kernel
  exact h data.toBitVec

/-- The bits of a word from place `k` on. -/
def bitsFrom (q : UInt64) (k n : Nat) : List Bool := (List.range n).map fun i => ubit q (k + i)

/-- The 128 bits of a handle. -/
def bits (m : GniMemHandle) : List Bool := bitsFrom m.qword1 0 64 ++ bitsFrom m.qword2 0 64

theorem length_bitsFrom (q : UInt64) (k n : Nat) : (bitsFrom q k n).length = n := by
  rw [bitsFrom, List.length_map, List.length_range]

theorem length_bits (m : GniMemHandle) : m.bits.length = 128 := by
  rw [bits, List.length_append, length_bitsFrom, length_bitsFrom]

theorem getD_bitsFrom (q : UInt64) (k n i : Nat) :
    (bitsFrom q k n).getD i false = (decide (i < n) && ubit q (k + i)) := by
  rw [bitsFrom, List.getD_eq_getElem?_getD, List.getElem?_map]
  by_cases hi : i < n
  · rw [List.getElem?_range hi, decide_eq_true hi]
    rfl
  · rw [List.getElem?_eq_none (by rw [List.length_range]; omega), decide_eq_false hi]
    rfl

/-- A byte of a word, as the register takes it. -/
theorem getLsbD_byte (q : UInt64) (k i : Nat) :
    (Residue.ofBits (bitsFrom q k 8) : BitVec 8).getLsbD i =
      (decide (i < 8) && ubit q (k + i)) := by
  rw [Residue.getLsbD_ofBits, getD_bitsFrom, ← Bool.and_assoc, Bool.and_self]

theorem ubit_toUInt64 (crc : UInt8) (i : Nat) : ubit crc.toUInt64 i = crc.toBitVec.getLsbD i := by
  rw [ubit, UInt8.toBitVec_toUInt64, BitVec.getLsbD_setWidth]
  by_cases hi : i < 64
  · rw [decide_eq_true hi, Bool.true_and]
  · rw [decide_eq_false hi, Bool.false_and, BitVec.getLsbD_of_ge crc.toBitVec i (by omega)]

theorem toBitVec_crcIn (q : UInt64) {k : Nat} (hk : k < 64) (crc : UInt8) :
    (((q >>> UInt64.ofNat k) ^^^ crc.toUInt64) &&& 0xff).toUInt8.toBitVec =
      crc.toBitVec ^^^ Residue.ofBits (bitsFrom q k 8) := by
  apply BitVec.eq_of_getLsbD_eq
  intro i hi
  rw [BitVec.getLsbD_xor, getLsbD_byte, decide_eq_true hi, Bool.true_and,
    UInt64.toBitVec_toUInt8, BitVec.getLsbD_setWidth, decide_eq_true hi, Bool.true_and]
  show ubit _ i = _
  rw [ubit_and, show (0xff : UInt64) = lowMask 8 from rfl, ubit_lowMask (by decide),
    decide_eq_true hi, Bool.and_true, ubit_xor, ubit_shiftRight q hk, Bool.xor_comm]
  rw [ubit_toUInt64]

/-- The check sum of bytes is the residue of their bits. -/
theorem toBitVec_crcOver (q : UInt64) {places : List Nat} (h : ∀ k ∈ places, k < 64)
    (crc : UInt8) : (crcOver q places crc).toBitVec =
      Residue.feed crcPoly crc.toBitVec (places.flatMap fun k => bitsFrom q k 8) := by
  induction places generalizing crc with
  | nil => rfl
  | cons k places ih =>
      rw [crcOver, List.foldl_cons, List.flatMap_cons, Residue.feed_append,
        Residue.feed_of_length_le crcPoly _ (length_bitsFrom q k 8).le, length_bitsFrom,
        ← toBitVec_crcIn q (h k List.mem_cons_self), ← toBitVec_crcBits]
      exact ih (fun k hk => h k (.tail _ hk)) _

theorem toBitVec_calcCrc (m : GniMemHandle) : m.calcCrc.toBitVec =
    Residue.feed crcPoly 0 (bitsFrom m.qword1 0 64 ++ bitsFrom m.qword2 0 56) := by
  rw [calcCrc, toBitVec_crcOver _ (by decide), toBitVec_crcOver _ (by decide), Residue.feed_append]
  rfl

theorem bits_eq (m : GniMemHandle) : m.bits =
    (bitsFrom m.qword1 0 64 ++ bitsFrom m.qword2 0 56) ++ bitsFrom m.qword2 56 8 := by
  rw [List.append_assoc]
  rfl

theorem crcPoly_msb : crcPoly.msb = true := rfl

/-- The byte that `verify` compares. -/
theorem crcByte_eq_iff (q : UInt64) (crc : UInt8) : (q >>> 56) &&& 0xFF = crc.toUInt64 ↔
    crc.toBitVec = Residue.ofBits (bitsFrom q 56 8) := by
  have hq : (q >>> 56) &&& 0xFF = getField q 56 8 := rfl
  rw [hq]
  constructor
  · intro h
    apply BitVec.eq_of_getLsbD_eq
    intro i _
    rw [getLsbD_byte, ← ubit_getField q (by decide) (by decide), h, ubit_toUInt64]
  · intro h
    apply word_ext
    intro i _
    rw [ubit_getField q (by decide) (by decide), ubit_toUInt64, h, getLsbD_byte]

/-- A handle is accepted if it leaves no residue. -/
theorem verify_iff (m : GniMemHandle) :
    m.verify = true ↔ m.qword2 ≠ 0 ∧ Residue.feed crcPoly 0 m.bits = 0 := by
  have hres : Residue.feed crcPoly 0 m.bits = 0 ↔
      m.calcCrc.toBitVec = Residue.ofBits (bitsFrom m.qword2 56 8) := by
    rw [bits_eq, Residue.feed_append, ← toBitVec_calcCrc,
      Residue.feed_of_length_le crcPoly _ (length_bitsFrom m.qword2 56 8).le]
    exact (Residue.iterate_shift_eq_zero_iff crcPoly_msb _).trans BitVec.xor_eq_zero_iff
  rw [verify, Bool.and_eq_true, bne_iff_ne, beq_iff_eq, crcByte_eq_iff, hres]

/-! ### Handles that are built -/

/-- `SET_CRC` adds the last byte. -/
theorem setCrc_eq (m : GniMemHandle) :
    m.setCrc = { m with qword2 := orField m.qword2 56 8 m.calcCrc.toUInt64 } := by
  rw [setCrc, orField]
  congr 3
  apply word_ext
  intro i _
  rw [ubit_and, ubit_lowMask (by decide), ubit_toUInt64]
  by_cases hi : i < 8
  · rw [decide_eq_true hi, Bool.and_true]
  · rw [BitVec.getLsbD_of_ge _ _ (by omega), Bool.false_and]

theorem reading_setCrc (m : GniMemHandle) : m.setCrc.reading = m.reading := by
  obtain ⟨hflags, hva, hmdh⟩ := reading_orField (m := m) m.calcCrc.toUInt64 56 8
    (by decide) (by decide) (by decide)
  rw [setCrc_eq]
  ext1
  · exact hflags
  · exact hva
  · exact hmdh
  · show getNpages _ = getNpages _
    rw [getNpages_eq, getNpages_eq]
    exact getField_orField_of_apart (by decide) (by decide) (by decide) (by decide) (by decide)
  · show getPageshift _ = getPageshift _
    rw [getPageshift_eq, getPageshift_eq]
    exact getField_orField_of_apart (by decide) (by decide) (by decide) (by decide) (by decide)

theorem calcCrc_setCrc (m : GniMemHandle) : m.setCrc.calcCrc = m.calcCrc := by
  apply UInt8.toBitVec_inj.mp
  rw [toBitVec_calcCrc, toBitVec_calcCrc, setCrc_eq]
  congr 2
  apply List.map_congr_left
  intro i hi
  rw [ubit_orField _ _ (by decide) (by decide), Nat.zero_add,
    decide_eq_false (by have := List.mem_range.mp hi; omega), Bool.false_and, Bool.or_false]

theorem verify_setCrc {m : GniMemHandle} (hclear : getField m.qword2 56 8 = 0)
    (hne : m.setCrc.qword2 ≠ 0) : m.setCrc.verify = true := by
  rw [verify, Bool.and_eq_true, bne_iff_ne, beq_iff_eq, calcCrc_setCrc]
  refine ⟨hne, ?_⟩
  show getField m.setCrc.qword2 56 8 = _
  rw [setCrc_eq, getField_orField_self (by decide) (by decide) hclear]
  apply word_ext
  intro i _
  rw [ubit_and, ubit_lowMask (by decide), ubit_toUInt64]
  by_cases hi : i < 8
  · rw [decide_eq_true hi, Bool.and_true]
  · rw [BitVec.getLsbD_of_ge _ _ (by omega), Bool.false_and]

/-- No other macro touches the last byte. -/
theorem Setter.crc_apply (m : GniMemHandle) (s : Setter) :
    getField (s.apply m).qword2 56 8 = getField m.qword2 56 8 := by
  cases s with
  | va value => rfl
  | mdh value =>
      show getField (m.setMdh value).qword2 56 8 = _
      unfold setMdh
      split
      · exact getField_setField_of_apart (by decide) (by decide) (by decide) (by decide) (by decide)
      · rfl
  | npages value =>
      show getField (m.setNpages value).qword2 56 8 = _
      rw [setNpages_eq]
      exact getField_orField_of_apart (by decide) (by decide) (by decide) (by decide) (by decide)
  | pagesize value =>
      show getField (m.setPagesize value).qword2 56 8 = _
      rw [setPagesize_eq]
      exact getField_orField_of_apart (by decide) (by decide) (by decide) (by decide) (by decide)

theorem crc_foldl (l : List Setter) (m : GniMemHandle) :
    getField (l.foldl Setter.apply m).qword2 56 8 = getField m.qword2 56 8 := by
  induction l generalizing m with
  | nil => rfl
  | cons s l ih => exact (ih _).trans (s.crc_apply m)

/-- A handle made by `SET_FLAGS`, other macros, and `SET_CRC`. -/
def built (flags : UInt64) (l : List Setter) : GniMemHandle :=
  (l.foldl Setter.apply (init.setFlags flags)).setCrc

theorem reading_setFlags (flags : UInt64) :
    (init.setFlags flags).reading = ⟨flags &&& flagsMask, 0, 0, 0, 0⟩ := by
  have hflags : (init.setFlags flags).getFlags = flags &&& flagsMask := by
    rw [getFlags_eq, setFlags_eq, getField_orField_self (by decide) (by decide) (by decide)]
    rfl
  have hmdh : (init.setFlags flags).getMdh = 0 := by
    rw [getMdh, setFlags_eq, getField_orField_of_apart (by decide) (by decide) (by decide)
      (by decide) (by decide)]
    have hword2 : getField init.qword2 42 12 = 0 := by decide
    have hword1 : getField init.qword1 52 12 = 0 := by decide
    rw [hword2, hword1, ite_self]
  have hva : (init.setFlags flags).getVa = 0 := by
    show getField 0 0 52 <<< 12 = 0
    decide
  ext1
  · exact hflags
  · exact hva
  · exact hmdh
  · show getNpages _ = 0
    rw [getNpages_eq, setFlags_eq]
    exact getField_orField_of_apart (by decide) (by decide) (by decide) (by decide) (by decide)
  · show getPageshift _ = 0
    rw [getPageshift_eq, setFlags_eq]
    exact getField_orField_of_apart (by decide) (by decide) (by decide) (by decide) (by decide)

/-- **Handles read back what they were built from**, in whatever order the fields were set
after the flags, and they are accepted. -/
theorem built_reading (flags : UInt64) (l : List Setter) (hkinds : (l.map Setter.kind).Nodup) :
    (built flags l).reading = l.foldl Setter.record ⟨flags &&& flagsMask, 0, 0, 0, 0⟩ ∧
      ((built flags l).qword2 ≠ 0 → (built flags l).verify = true) := by
  have hstart := reading_setFlags flags
  constructor
  · rw [built, reading_setCrc, reading_foldl hkinds ?_, hstart]
    intro s _
    cases s with
    | npages value => exact congrArg Reading.npages hstart
    | pagesize value => exact congrArg Reading.pageshift hstart
    | _ => trivial
  · intro hne
    apply verify_setCrc _ hne
    rw [crc_foldl, setFlags_eq]
    exact getField_orField_of_apart (by decide) (by decide) (by decide) (by decide) (by decide)

/-- A page of MDH 0x2A in the new format, the MDH set last. -/
theorem built_reading_newFrmt :
    (built 0x80 [.va 0x7F001000, .npages 1, .pagesize 12, .mdh 0x2A]).reading =
      ⟨0x80, 0x7F001000, 0x2A, 1, 12⟩ := by
  rw [(built_reading 0x80 [.va 0x7F001000, .npages 1, .pagesize 12, .mdh 0x2A] (by decide)).1]
  ext1 <;> decide

/-! ### Damage -/

/-- The handle with the bits of `e` flipped. -/
def damaged (m e : GniMemHandle) : GniMemHandle := ⟨m.qword1 ^^^ e.qword1, m.qword2 ^^^ e.qword2⟩

theorem bits_damaged (m e : GniMemHandle) :
    (m.damaged e).bits = List.zipWith xor m.bits e.bits := by
  have hword (q r : UInt64) : bitsFrom (q ^^^ r) 0 64
      = List.zipWith xor (bitsFrom q 0 64) (bitsFrom r 0 64) := by
    rw [bitsFrom, bitsFrom, bitsFrom, List.zipWith_map, List.zipWith_self]
    exact List.map_congr_left fun i _ => ubit_xor q r _
  rw [bits, bits, bits, List.zipWith_append (by rw [length_bitsFrom, length_bitsFrom]), ← hword,
    ← hword]
  rfl

/-- Whether the damage is noticed depends on the damage. -/
theorem verify_damaged {m : GniMemHandle} (hm : m.verify = true) (e : GniMemHandle) :
    (m.damaged e).verify = true ↔
      (m.damaged e).qword2 ≠ 0 ∧ Residue.feed crcPoly 0 e.bits = 0 := by
  have hfeed := Residue.feed_zipWith_xor crcPoly
    ((length_bits m).trans (length_bits e).symm) 0 0
  rw [BitVec.xor_self, ← bits_damaged, ((verify_iff m).mp hm).2] at hfeed
  rw [verify_iff, show Residue.feed crcPoly 0 (m.damaged e).bits = _ from hfeed]
  simp

/-- The register comes back after 127 steps, not before. -/
theorem iterate_crcPoly {n : Nat} (h : n < 127) :
    (Residue.shift crcPoly)^[n + 1] 1 = 1 ↔ n = 126 := by
  have hall : ∀ n < 127, ((Residue.shift crcPoly)^[n + 1] 1 = 1 ↔ n = 126) := by decide +kernel
  exact hall n h

/-- **What `GNI_MEMHNDL_VERIFY` notices**: every odd number of flipped bits, everything
within eight neighbouring bits, and every pair of bits but the first with the last. -/
theorem damage_noticed {m : GniMemHandle} (hm : m.verify = true) (e : GniMemHandle) :
    (Residue.odd e.bits = true → (m.damaged e).verify = false) ∧
    (∀ a l b, e.bits = List.replicate a false ++ l ++ List.replicate b false →
      l.length ≤ 8 → true ∈ l → (m.damaged e).verify = false) ∧
    (∀ a n b, e.bits = List.replicate a false ++ [true] ++ List.replicate n false ++ [true] ++
      List.replicate b false →
      ((m.damaged e).verify = true ↔ a = 0 ∧ b = 0 ∧ (m.damaged e).qword2 ≠ 0)) := by
  refine ⟨fun hodd => ?_, fun a l b hbits hl hmem => ?_, fun a n b hbits => ?_⟩
  · rw [Bool.eq_false_iff, Ne, verify_damaged hm]
    rintro ⟨-, hzero⟩
    exact Residue.feed_ne_zero_of_odd (by decide) (by decide) hodd hzero
  · rw [Bool.eq_false_iff, Ne, verify_damaged hm, hbits]
    rintro ⟨-, hzero⟩
    exact Residue.feed_burst_ne_zero crcPoly_msb hl hmem a b hzero
  · have hlen : a + n + b = 126 := by
      have := length_bits e
      rw [hbits] at this
      simp only [List.length_append, List.length_replicate, List.length_cons, List.length_nil]
        at this
      omega
    have hpair : Residue.feed crcPoly 0 e.bits = 0 ↔ (Residue.shift crcPoly)^[n + 1] 1 = 1 := by
      rw [hbits]
      exact Residue.feed_pair_eq_zero_iff crcPoly_msb a n b
    rw [verify_damaged hm, hpair, iterate_crcPoly (by omega), and_comm, ← and_assoc]
    exact and_congr_left fun _ => ⟨fun h => by omega, fun h => by omega⟩

/-- A handle whose first and last bit are flipped is accepted. -/
theorem damage_noticed_ends :
    ((built 0 [.npages 1]).damaged ⟨1, 0x8000000000000000⟩).verify = true := by
  have hbits : (⟨1, 0x8000000000000000⟩ : GniMemHandle).bits = List.replicate 0 false ++ [true] ++
      List.replicate 126 false ++ [true] ++ List.replicate 0 false := by decide +kernel
  exact ((damage_noticed (by decide +kernel) _).2.2 0 126 0 hbits).mpr ⟨rfl, rfl, by decide +kernel⟩

/-! ### The range of a handle -/

/-- `gni_memhndl_addr_rng_chk`. -/
def addrRngChk (m : GniMemHandle) (addr len : UInt64) : Bool :=
  let memVa := m.getVa
  let memVaEnd := memVa + m.getPagesize * m.getNpages
  let addrEnd := addr + len
  if memVaEnd < memVa then
    -- the region goes round; its complement does not
    if memVaEnd < addrEnd ∧ memVa > addr then false else true
  else if memVa > addr then false
  else if memVaEnd < addrEnd then false
  else true

/-- The number of bytes that the handle stands for. -/
def size (m : GniMemHandle) : Nat := 2 ^ m.getPageshift.toNat * m.getNpages.toNat

/-- `len` bytes from `addr` on are bytes of the handle; both may go round at the top of the
address space. -/
def Covers (m : GniMemHandle) (addr len : Nat) : Prop :=
  ∀ i < len, ∃ j < m.size, (addr + i) % 2 ^ 64 = (m.getVa.toNat + j) % 2 ^ 64

theorem getPageshift_lt (m : GniMemHandle) : m.getPageshift.toNat < 64 := by
  have h : m.getPageshift.toNat ≤ (63 : UInt64).toNat := by
    rw [getPageshift, UInt64.toNat_and]
    exact Nat.and_le_right
  exact Nat.lt_succ_of_le h

theorem toNat_regionSize {m : GniMemHandle} (hsize : m.size < 2 ^ 64) :
    (m.getPagesize * m.getNpages).toNat = m.size := by
  have hshift : m.getPagesize.toNat = 2 ^ m.getPageshift.toNat := by
    have hlt := m.getPageshift_lt
    rw [getPagesize, UInt64.toNat_shiftLeft, Nat.mod_eq_of_lt hlt, Nat.shiftLeft_eq]
    rw [UInt64.toNat_one, Nat.one_mul, Nat.mod_eq_of_lt (Nat.pow_lt_pow_right (by decide) hlt)]
  rw [UInt64.toNat_mul, hshift]
  exact Nat.mod_eq_of_lt hsize

/-- The check, with both ends as numbers. -/
theorem addrRngChk_iff {m : GniMemHandle} (hsize : m.size < 2 ^ 64) (addr len : UInt64) :
    m.addrRngChk addr len = true ↔
      if (m.getVa.toNat + m.size) % 2 ^ 64 < m.getVa.toNat then
        (addr.toNat + len.toNat) % 2 ^ 64 ≤ (m.getVa.toNat + m.size) % 2 ^ 64 ∨
          m.getVa.toNat ≤ addr.toNat
      else m.getVa.toNat ≤ addr.toNat ∧
        (addr.toNat + len.toNat) % 2 ^ 64 ≤ (m.getVa.toNat + m.size) % 2 ^ 64 := by
  have hend : (m.getVa + m.getPagesize * m.getNpages).toNat =
      (m.getVa.toNat + m.size) % 2 ^ 64 := by
    rw [UInt64.toNat_add, toNat_regionSize hsize]
  have haddr : (addr + len).toNat = (addr.toNat + len.toNat) % 2 ^ 64 := UInt64.toNat_add addr len
  simp only [addrRngChk, UInt64.lt_iff_toNat_lt, gt_iff_lt, hend, haddr]
  generalize (m.getVa.toNat + m.size) % 2 ^ 64 = vaEnd
  generalize (addr.toNat + len.toNat) % 2 ^ 64 = addrEnd
  split_ifs <;> simp <;> omega

/-- **The range check never refuses a range of the handle**, and what it lets pass is one,
unless the range runs to the top of the address space. -/
theorem addrRngChk_covers {m : GniMemHandle} (hsize : m.size < 2 ^ 64) {addr len : UInt64}
    (hlen : 0 < len.toNat) :
    (m.Covers addr.toNat len.toNat → m.addrRngChk addr len = true) ∧
      (addr.toNat + len.toNat < 2 ^ 64 → m.addrRngChk addr len = true →
        m.Covers addr.toNat len.toNat) := by
  have ha := addr.toNat_lt
  have hl := len.toNat_lt
  have hv := m.getVa.toNat_lt
  rw [addrRngChk_iff hsize]
  unfold Covers
  generalize addr.toNat = a at *
  generalize len.toNat = l at *
  generalize m.getVa.toNat = v at *
  generalize m.size = n at *
  constructor
  · intro hcov
    obtain ⟨j, hj, hfirst⟩ := hcov 0 hlen
    -- the byte just behind the region is not one of its own, so the range ends before it
    have hbehind : a < (v + n) % 2 ^ 64 → l ≤ (v + n) % 2 ^ 64 - a := by
      intro hlt
      by_contra hgt
      obtain ⟨k, hk, hmid⟩ := hcov ((v + n) % 2 ^ 64 - a) (by omega)
      omega
    split_ifs <;> omega
  · intro hend hchk i hi
    refine ⟨if v ≤ a + i then a + i - v else 2 ^ 64 - v + (a + i), ?_, ?_⟩
    · split_ifs at hchk ⊢ <;> omega
    · split_ifs <;> omega

/-- The last page but one of the address space, in a handle that goes round. -/
theorem addrRngChk_covers_round :
    (built 0 [.va 0xFFFFFFFFFFFFE000, .npages 3, .pagesize 12]).Covers 0xFFFFFFFFFFFFE000 4096 :=
  (@addrRngChk_covers (built 0 [.va 0xFFFFFFFFFFFFE000, .npages 3, .pagesize 12])
    (by decide +kernel) 0xFFFFFFFFFFFFE000 4096 (by decide)).2 (by decide) (by decide +kernel)

/-- Both pages at the ends of the address space are let pass, for a handle of the lower one. -/
example : (built 0 [.npages 1, .pagesize 12]).addrRngChk 0xFFFFFFFFFFFFF000 0x2000 = true := by
  decide +kernel

end Nvl.GniMemHandle

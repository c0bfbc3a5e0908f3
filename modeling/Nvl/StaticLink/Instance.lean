/-
Nvl/StaticLink/Instance.lean

The instance id of a server, which its NIC gets as `rank`: `get_cpunum`, the macros
`GNI_INSTID`, `GNI_NIC_ADDRESS`, `GNI_CPU_NUMBER` and `GNI_THREAD_NUMBER`, and what
`main` makes of them.

`get_cpunum` says that it uses the lowest CPU of the affinity mask.  Its loop sets
`cpu_num` for every CPU in the mask and does not stop, so that what it returns is the
highest one (`getCpunum_isGreatest`).  The message is printed for every CPU whose
neighbour is in the mask too, with the value that `cpu_num` had before.

The three fields of an id tile its 32 bits, so coding and decoding are inverse to each
other (`instid_lossless`).  A CPU number has ten bits and its field seven: servers of
one NIC have the same id if their highest CPUs are the same modulo 128
(`instanceOf_eq_iff`), and every `NIC_SETATTR` of a run carries it (`rank_fields_run`).
-/
import Mathlib.Order.Bounds.Basic
import Nvl.Lib.Fields
import Nvl.Lib.Loop
import Nvl.StaticLink.Replies

namespace Nvl.StaticLink

open SysLib

/-! ### `get_cpunum` -/

/-- `CPU_SETSIZE`. -/
def cpuSetsize : Nat := 1024

/-- A `cpu_set_t`. -/
abbrev CpuSet : Type := BitVec cpuSetsize

/-- `CPU_ISSET`. -/
def cpuIsset (cpu : Nat) (s : CpuSet) : Bool := s.getLsbD cpu

/-- The inner loop: how many CPUs from `j` on are in the mask without a gap, of the `n` that
are left. -/
def countRun (coremask : CpuSet) : Nat → Nat → Nat
  | 0, _ => 0
  | n + 1, j => if cpuIsset j coremask then countRun coremask n (j + 1) + 1 else 0

/-- `cpu_num`, and the messages with the two numbers in each. -/
structure CpuScan where
  cpuNum : UInt32
  printed : List (Nat × UInt32)

/-- A round of the outer loop. -/
def cpunumRound (coremask : CpuSet) (s : CpuScan) (i : Nat) : CpuScan :=
  if cpuIsset i coremask then
    let run := countRun coremask (cpuSetsize - (i + 1)) (i + 1)
    if run = 0 then { s with cpuNum := UInt32.ofNat i }
    else
      -- the message comes before the assignment
      ⟨UInt32.ofNat i, s.printed ++ [(run + 1, s.cpuNum)]⟩
  else s

/-- `get_cpunum` on the mask that `sched_getaffinity` has stored; `cpuNum` is what is in the
variable, which has no initial value. -/
def getCpunum (coremask : CpuSet) (cpuNum : UInt32) : CpuScan :=
  (List.range cpuSetsize).foldl (cpunumRound coremask) ⟨cpuNum, []⟩

/-- The CPUs in a mask. -/
def cpus (s : CpuSet) : Set Nat := {cpu | cpuIsset cpu s = true}

section Scan

variable {mask more : CpuSet} {cpu i : Nat} {s : CpuScan} {init : UInt32}

theorem cpu_lt (h : cpu ∈ cpus mask) : cpu < cpuSetsize := BitVec.lt_of_getLsbD h

theorem toNat_ofNat_cpu (h : cpu ∈ cpus mask) : (UInt32.ofNat cpu).toNat = cpu := by
  have hlt : cpu < 1024 := cpu_lt h
  exact UInt32.toNat_ofNat_of_lt' (show cpu < 2 ^ 32 by omega)

theorem cpunumRound_of_mem (h : i ∈ cpus mask) :
    (cpunumRound mask s i).cpuNum = UInt32.ofNat i := by
  unfold cpunumRound
  rw [if_pos (show cpuIsset i mask = true from h)]
  dsimp only
  split <;> rfl

theorem cpunumRound_of_notMem (h : i ∉ cpus mask) : cpunumRound mask s i = s := if_neg h

/-- After `n` rounds `cpu_num` is as it was, no CPU being found, or it is the last one found. -/
def ScannedTo (mask : CpuSet) (init : UInt32) (n : Nat) (s : CpuScan) : Prop :=
  (∀ cpu ∈ cpus mask, n ≤ cpu) ∧ s.cpuNum = init ∨
    IsGreatest {cpu | cpu ∈ cpus mask ∧ cpu < n} s.cpuNum.toNat

theorem ScannedTo.step {n : Nat} (h : ScannedTo mask init n s) :
    ScannedTo mask init (n + 1) (cpunumRound mask s n) := by
  by_cases hn : n ∈ cpus mask
  · right
    rw [cpunumRound_of_mem hn, toNat_ofNat_cpu hn]
    exact ⟨⟨hn, Nat.lt_succ_self n⟩, fun cpu hcpu => Nat.le_of_lt_succ hcpu.2⟩
  · rw [cpunumRound_of_notMem hn]
    -- a CPU below `n + 1` is one below `n`
    have hne : ∀ cpu ∈ cpus mask, cpu ≠ n := fun cpu hcpu heq => hn (heq ▸ hcpu)
    rcases h with ⟨hnone, hinit⟩ | ⟨hmem, hmax⟩
    · refine .inl ⟨fun cpu hcpu => ?_, hinit⟩
      have := hnone cpu hcpu
      have := hne cpu hcpu
      omega
    · refine .inr ⟨⟨hmem.1, Nat.lt_succ_of_lt hmem.2⟩, fun cpu hcpu => hmax ⟨hcpu.1, ?_⟩⟩
      have := hne cpu hcpu.1
      have := hcpu.2
      omega

theorem scannedTo_getCpunum (mask : CpuSet) (init : UInt32) :
    ScannedTo mask init cpuSetsize (getCpunum mask init) := by
  apply foldl_range_induction
  · exact .inl ⟨fun cpu _ => Nat.zero_le cpu, rfl⟩
  · intro n s h
    exact h.step

/-- `get_cpunum` returns the highest CPU of the mask. -/
theorem getCpunum_isGreatest (h : (cpus mask).Nonempty) (init : UInt32) :
    IsGreatest (cpus mask) (getCpunum mask init).cpuNum.toNat := by
  obtain ⟨cpu, hcpu⟩ := h
  rcases scannedTo_getCpunum mask init with ⟨hnone, -⟩ | ⟨hmem, hmax⟩
  · exact absurd (cpu_lt hcpu) (Nat.not_lt.mpr (hnone cpu hcpu))
  · exact ⟨hmem.1, fun cpu hcpu => hmax ⟨hcpu, cpu_lt hcpu⟩⟩

theorem countRun_eq_zero_iff (mask : CpuSet) (i : Nat) :
    countRun mask (cpuSetsize - (i + 1)) (i + 1) = 0 ↔ i + 1 ∉ cpus mask := by
  rcases hn : cpuSetsize - (i + 1) with - | n
  · refine iff_of_true rfl fun h => ?_
    have := cpu_lt h
    omega
  · show (if cpuIsset (i + 1) mask = true then countRun mask n (i + 2) + 1 else 0) = 0 ↔
      ¬ cpuIsset (i + 1) mask = true
    split
    · rename_i h
      exact iff_of_false (Nat.succ_ne_zero _) (not_not.mpr h)
    · rename_i h
      exact iff_of_true rfl h

theorem cpunumRound_printed_eq_nil_iff (mask : CpuSet) (s : CpuScan) (i : Nat) :
    (cpunumRound mask s i).printed = [] ↔
      s.printed = [] ∧ (i ∈ cpus mask → i + 1 ∉ cpus mask) := by
  by_cases hi : i ∈ cpus mask
  · unfold cpunumRound
    rw [if_pos (show cpuIsset i mask = true from hi), ← countRun_eq_zero_iff mask i]
    dsimp only
    split
    · rename_i hrun
      exact (and_iff_left fun _ => hrun).symm
    · rename_i hrun
      exact iff_of_false (by simp) fun h => hrun (h.2 hi)
  · rw [cpunumRound_of_notMem hi]
    exact (and_iff_left fun h => absurd h hi).symm

/-- A thread bound to several CPUs is told so only if two of them are neighbours. -/
theorem getCpunum_printed_eq_nil_iff (mask : CpuSet) (init : UInt32) :
    (getCpunum mask init).printed = [] ↔ ∀ cpu ∈ cpus mask, cpu + 1 ∉ cpus mask := by
  have hscan : (getCpunum mask init).printed = [] ↔
      ∀ cpu < cpuSetsize, cpu ∈ cpus mask → cpu + 1 ∉ cpus mask := by
    refine foldl_range_induction (P := fun n (s : CpuScan) => s.printed = [] ↔
      ∀ cpu < n, cpu ∈ cpus mask → cpu + 1 ∉ cpus mask) ?_ ?_ cpuSetsize
    · exact iff_of_true rfl nofun
    · intro n s h
      rw [cpunumRound_printed_eq_nil_iff, h, Nat.forall_lt_succ_right]
  rw [hscan]
  exact ⟨fun h cpu hcpu => h cpu (cpu_lt hcpu) hcpu, fun h cpu _ hcpu => h cpu hcpu⟩

end Scan

/-! ### The lowest CPU -/

/-- CPUs are added to the mask, each higher than some CPU that is in it. -/
structure AddsHigher (mask more : CpuSet) : Prop where
  subset : cpus mask ⊆ cpus more
  higher : ∀ cpu ∈ cpus more, cpu ∉ cpus mask → ∃ low ∈ cpus mask, low < cpu

/-- What the message promises: the number is the lowest CPU, whatever was in the variable; all
servers with the mask compute it, and those with higher CPUs added to the mask too. -/
structure PicksLowest (mask more : CpuSet) : Prop where
  lowest : ∀ init, IsLeast (cpus mask) (getCpunum mask init).cpuNum.toNat
  same : ∀ init init', (getCpunum mask init).cpuNum = (getCpunum mask init').cpuNum
  kept : ∀ init init', (getCpunum more init).cpuNum = (getCpunum mask init').cpuNum

section Lowest

variable {mask more : CpuSet} {cpu : Nat}

theorem AddsHigher.refl (mask : CpuSet) : AddsHigher mask mask :=
  ⟨Set.Subset.rfl, fun _ hcpu hnot => absurd hcpu hnot⟩

/-- On a mask of one CPU the loop has no choice. -/
theorem getCpunum_of_singleton (h : cpus mask = {cpu}) (init : UInt32) :
    (getCpunum mask init).cpuNum.toNat = cpu := by
  have hmem := (getCpunum_isGreatest (h ▸ Set.singleton_nonempty cpu) init).1
  rw [h] at hmem
  exact hmem

/-- The lowest CPU is the highest in masks of one CPU only. -/
theorem singleton_of_isLeast (hne : (cpus mask).Nonempty) {init : UInt32}
    (hleast : IsLeast (cpus mask) (getCpunum mask init).cpuNum.toNat) :
    cpus mask = {(getCpunum mask init).cpuNum.toNat} := by
  have hgreatest := getCpunum_isGreatest hne init
  ext cpu
  constructor
  · intro hcpu
    exact Nat.le_antisymm (hgreatest.2 hcpu) (hleast.2 hcpu)
  · intro hcpu
    rw [Set.mem_singleton_iff.mp hcpu]
    exact hleast.1

theorem picksLowest_of_singleton (hadd : AddsHigher mask more) (hne : (cpus mask).Nonempty)
    (h : cpus more = {cpu}) : PicksLowest mask more := by
  have hmask : cpus mask = {cpu} := by
    apply Set.Subset.antisymm
    · rw [← h]
      exact hadd.subset
    · obtain ⟨d, hd⟩ := hne
      have hdc : d = cpu := by
        have hd' := hadd.subset hd
        rw [h] at hd'
        exact hd'
      rintro c rfl
      rw [← hdc]
      exact hd
  refine ⟨fun init => ?_, fun init init' => ?_, fun init init' => ?_⟩
  · rw [getCpunum_of_singleton hmask, hmask]
    exact isLeast_singleton
  · apply UInt32.toNat_inj.mp
    rw [getCpunum_of_singleton hmask, getCpunum_of_singleton hmask]
  · apply UInt32.toNat_inj.mp
    rw [getCpunum_of_singleton h, getCpunum_of_singleton hmask]

theorem singleton_of_picksLowest (hadd : AddsHigher mask more) (hne : (cpus mask).Nonempty)
    (hpick : PicksLowest mask more) : ∃ cpu, cpus more = {cpu} := by
  have hmask := singleton_of_isLeast hne (hpick.lowest 0)
  have hgreatest := getCpunum_isGreatest (hne.mono hadd.subset) 0
  rw [hpick.kept 0 0] at hgreatest
  refine ⟨(getCpunum mask 0).cpuNum.toNat, Set.Subset.antisymm (fun d hd => ?_) ?_⟩
  · by_contra hnot
    -- `d` was added and is higher, but the highest CPU has not changed
    obtain ⟨low, hlow, hlt⟩ := hadd.higher d hd (by rw [hmask]; exact hnot)
    rw [hmask] at hlow
    exact absurd (hgreatest.2 hd) (Nat.not_le.mpr (hlow ▸ hlt))
  · rw [← hmask]
    exact hadd.subset

end Lowest

/-- **`get_cpunum` picks the lowest CPU just of masks with one CPU, to which none is added.** -/
theorem picksLowest_iff (mask more : CpuSet) (hne : (cpus mask).Nonempty)
    (hadd : AddsHigher mask more) : PicksLowest mask more ↔ ∃ cpu, cpus more = {cpu} :=
  ⟨singleton_of_picksLowest hadd hne, fun ⟨_, h⟩ => picksLowest_of_singleton hadd hne h⟩

theorem cpus_twoPow {cpu : Nat} (h : cpu < cpuSetsize) :
    cpus (BitVec.twoPow cpuSetsize cpu) = {cpu} := by
  ext d
  show (BitVec.twoPow cpuSetsize cpu).getLsbD d = true ↔ d = cpu
  rw [BitVec.getLsbD_twoPow, Bool.and_eq_true, decide_eq_true_eq, decide_eq_true_eq]
  exact ⟨fun hd => hd.2.symm, fun hd => ⟨h, hd.symm⟩⟩

/-- A thread that is bound to CPU 5. -/
theorem picksLowest_iff_cpuFive :
    PicksLowest (BitVec.twoPow cpuSetsize 5) (BitVec.twoPow cpuSetsize 5) := by
  have hfive : cpus (BitVec.twoPow cpuSetsize 5) = {5} := cpus_twoPow (by decide)
  refine (picksLowest_iff _ _ ?_ (AddsHigher.refl _)).mpr ⟨5, hfive⟩
  rw [hfive]
  exact Set.singleton_nonempty 5

theorem cpus_or (s t : CpuSet) : cpus (s ||| t) = cpus s ∪ cpus t := by
  ext d
  show (s ||| t).getLsbD d = true ↔ s.getLsbD d = true ∨ t.getLsbD d = true
  rw [BitVec.getLsbD_or, Bool.or_eq_true]

/-- A thread that may run on CPU 0 and CPU 1. -/
def zeroAndOne : CpuSet := BitVec.twoPow cpuSetsize 0 ||| BitVec.twoPow cpuSetsize 1

theorem cpus_zeroAndOne : cpus zeroAndOne = {0, 1} := by
  rw [zeroAndOne, cpus_or, cpus_twoPow (by decide), cpus_twoPow (by decide), Set.singleton_union]

/-- It gets the number 1. -/
theorem picksLowest_fails : IsLeast (cpus zeroAndOne) 0 ∧
    (getCpunum zeroAndOne 0).cpuNum.toNat = 1 ∧ ¬ PicksLowest zeroAndOne zeroAndOne := by
  have hleast : IsLeast (cpus zeroAndOne) 0 := by
    rw [cpus_zeroAndOne]
    exact ⟨.inl rfl, fun cpu _ => Nat.zero_le cpu⟩
  have hgreatest : IsGreatest (cpus zeroAndOne) 1 := by
    rw [cpus_zeroAndOne]
    refine ⟨.inr rfl, ?_⟩
    rintro cpu (rfl | rfl) <;> decide
  have hnum := (getCpunum_isGreatest ⟨0, hleast.1⟩ 0).unique hgreatest
  refine ⟨hleast, hnum, fun hpick => ?_⟩
  have hzero := (hpick.lowest 0).unique hleast
  omega

/-! ### Instance ids -/

/-- `NIC_ADDR_BITS`, `CPU_NUM_BITS` and `THREAD_NUM_BITS`. -/
def nicAddrBits : UInt32 := 22
def cpuNumBits : UInt32 := 7
def threadNumBits : UInt32 := 3

/-- `NIC_ADDR_SHIFT`, `CPU_NUM_SHIFT` and `THREAD_NUM_SHIFT`, each taken from the one above. -/
def nicAddrShift : UInt32 := 32 - nicAddrBits
def cpuNumShift : UInt32 := nicAddrShift - cpuNumBits
def threadNumShift : UInt32 := cpuNumShift - threadNumBits

/-- `NIC_ADDR_MASK`, `CPU_NUM_MASK` and `THREAD_NUM_MASK`. -/
def nicAddrMask : UInt32 := 0x3FFFFF
def cpuNumMask : UInt32 := 0x7F
def threadNumMask : UInt32 := 0x7

/-- `GNI_INSTID`. -/
def gniInstid (nicAddr cpuNum thrNum : UInt32) : UInt32 :=
  ((nicAddr &&& nicAddrMask) <<< nicAddrShift) ||| ((cpuNum &&& cpuNumMask) <<< cpuNumShift) |||
    (thrNum &&& threadNumMask)

/-- `GNI_NIC_ADDRESS`. -/
def gniNicAddress (instId : UInt32) : UInt32 := (instId >>> nicAddrShift) &&& nicAddrMask

/-- `GNI_CPU_NUMBER`. -/
def gniCpuNumber (instId : UInt32) : UInt32 := (instId >>> cpuNumShift) &&& cpuNumMask

/-- `GNI_THREAD_NUMBER`. -/
def gniThreadNumber (instId : UInt32) : UInt32 := instId &&& threadNumMask

/-- The macros leave the thread number where it is, as its shift is 0. -/
example : threadNumShift = 0 := by decide

/-- An id is the sum of its shifted fields. -/
theorem toNat_gniInstid (nicAddr cpuNum thrNum : UInt32) :
    (gniInstid nicAddr cpuNum thrNum).toNat = nicAddr.toNat % 2 ^ 22 * 2 ^ 10 +
      (cpuNum.toNat % 2 ^ 7 * 2 ^ 3 + thrNum.toNat % 2 ^ 3) := by
  have hnic : ((nicAddr &&& nicAddrMask) <<< nicAddrShift).toNat
      = (nicAddr.toNat % 2 ^ 22) <<< 10 := toNat_mask_shiftLeft rfl rfl le_rfl nicAddr
  have hcpu : ((cpuNum &&& cpuNumMask) <<< cpuNumShift).toNat = (cpuNum.toNat % 2 ^ 7) <<< 3 :=
    toNat_mask_shiftLeft rfl rfl (by decide) cpuNum
  have hthr : (thrNum &&& threadNumMask).toNat = thrNum.toNat % 2 ^ 3 :=
    toNat_and_mask rfl thrNum
  have hlow : thrNum.toNat % 2 ^ 3 < 2 ^ 3 := Nat.mod_lt _ (by decide)
  have hmid : cpuNum.toNat % 2 ^ 7 * 2 ^ 3 + thrNum.toNat % 2 ^ 3 < 2 ^ 10 :=
    field_lt (Nat.mod_lt _ (by decide)) hlow
  rw [gniInstid, UInt32.toNat_or, UInt32.toNat_or, hnic, hcpu, hthr, Nat.or_assoc,
    Nat.or_comm ((cpuNum.toNat % 2 ^ 7) <<< 3), or_shiftLeft_of_lt _ hlow, Nat.or_comm,
    or_shiftLeft_of_lt _ hmid]

theorem toNat_gniNicAddress (instId : UInt32) :
    (gniNicAddress instId).toNat = instId.toNat / 2 ^ 10 % 2 ^ 22 :=
  toNat_shiftRight_mask rfl rfl instId

theorem toNat_gniCpuNumber (instId : UInt32) :
    (gniCpuNumber instId).toNat = instId.toNat / 2 ^ 3 % 2 ^ 7 :=
  toNat_shiftRight_mask rfl rfl instId

theorem toNat_gniThreadNumber (instId : UInt32) :
    (gniThreadNumber instId).toNat = instId.toNat % 2 ^ 3 := toNat_and_mask rfl instId

section Fields

variable (nicAddr cpuNum thrNum instId : UInt32)

theorem toNat_gniNicAddress_gniInstid :
    (gniNicAddress (gniInstid nicAddr cpuNum thrNum)).toNat = nicAddr.toNat % 2 ^ 22 := by
  rw [toNat_gniNicAddress, toNat_gniInstid]
  omega

theorem toNat_gniCpuNumber_gniInstid :
    (gniCpuNumber (gniInstid nicAddr cpuNum thrNum)).toNat = cpuNum.toNat % 2 ^ 7 := by
  rw [toNat_gniCpuNumber, toNat_gniInstid]
  omega

theorem toNat_gniThreadNumber_gniInstid :
    (gniThreadNumber (gniInstid nicAddr cpuNum thrNum)).toNat = thrNum.toNat % 2 ^ 3 := by
  rw [toNat_gniThreadNumber, toNat_gniInstid]
  omega

theorem gniInstid_fields :
    gniInstid (gniNicAddress instId) (gniCpuNumber instId) (gniThreadNumber instId) = instId := by
  apply UInt32.toNat_inj.mp
  have hlt := instId.toNat_lt
  rw [toNat_gniInstid, toNat_gniNicAddress, toNat_gniCpuNumber, toNat_gniThreadNumber]
  omega

end Fields

/-- Two ids are the same exactly if their fields are, each cut to its width. -/
theorem gniInstid_eq_iff {nicAddr cpuNum thrNum nicAddr' cpuNum' thrNum' : UInt32} :
    gniInstid nicAddr cpuNum thrNum = gniInstid nicAddr' cpuNum' thrNum' ↔
      nicAddr.toNat % 2 ^ 22 = nicAddr'.toNat % 2 ^ 22 ∧
      cpuNum.toNat % 2 ^ 7 = cpuNum'.toNat % 2 ^ 7 ∧
      thrNum.toNat % 2 ^ 3 = thrNum'.toNat % 2 ^ 3 := by
  constructor
  · intro h
    rw [← toNat_gniNicAddress_gniInstid nicAddr cpuNum thrNum,
      ← toNat_gniCpuNumber_gniInstid nicAddr cpuNum thrNum,
      ← toNat_gniThreadNumber_gniInstid nicAddr cpuNum thrNum, h, toNat_gniNicAddress_gniInstid,
      toNat_gniCpuNumber_gniInstid, toNat_gniThreadNumber_gniInstid]
    exact ⟨rfl, rfl, rfl⟩
  · rintro ⟨hnic, hcpu, hthr⟩
    apply UInt32.toNat_inj.mp
    rw [toNat_gniInstid, toNat_gniInstid, hnic, hcpu, hthr]

/-- The fields of an id, each within its width. -/
@[ext] structure InstanceFields where
  nicAddr : UInt32
  cpuNum : UInt32
  thrNum : UInt32
  nicAddr_lt : nicAddr.toNat < 2 ^ 22
  cpuNum_lt : cpuNum.toNat < 2 ^ 7
  thrNum_lt : thrNum.toNat < 2 ^ 3

def InstanceFields.instid (f : InstanceFields) : UInt32 := gniInstid f.nicAddr f.cpuNum f.thrNum

theorem InstanceFields.instid_injective : Function.Injective InstanceFields.instid := by
  intro f g h
  obtain ⟨hnic, hcpu, hthr⟩ := gniInstid_eq_iff.mp h
  rw [Nat.mod_eq_of_lt f.nicAddr_lt, Nat.mod_eq_of_lt g.nicAddr_lt] at hnic
  rw [Nat.mod_eq_of_lt f.cpuNum_lt, Nat.mod_eq_of_lt g.cpuNum_lt] at hcpu
  rw [Nat.mod_eq_of_lt f.thrNum_lt, Nat.mod_eq_of_lt g.thrNum_lt] at hthr
  ext1
  · exact UInt32.toNat_inj.mp hnic
  · exact UInt32.toNat_inj.mp hcpu
  · exact UInt32.toNat_inj.mp hthr

/-- **Instance ids encode and decode without loss.** -/
theorem instid_lossless :
    (∀ nicAddr cpuNum thrNum : UInt32,
      (gniNicAddress (gniInstid nicAddr cpuNum thrNum)).toNat = nicAddr.toNat % 2 ^ 22 ∧
      (gniCpuNumber (gniInstid nicAddr cpuNum thrNum)).toNat = cpuNum.toNat % 2 ^ 7 ∧
      (gniThreadNumber (gniInstid nicAddr cpuNum thrNum)).toNat = thrNum.toNat % 2 ^ 3) ∧
    (∀ instId : UInt32,
      gniInstid (gniNicAddress instId) (gniCpuNumber instId) (gniThreadNumber instId) = instId) ∧
    Function.Injective InstanceFields.instid := by
  refine ⟨fun nicAddr cpuNum thrNum => ⟨?_, ?_, ?_⟩, gniInstid_fields,
    InstanceFields.instid_injective⟩
  · exact toNat_gniNicAddress_gniInstid nicAddr cpuNum thrNum
  · exact toNat_gniCpuNumber_gniInstid nicAddr cpuNum thrNum
  · exact toNat_gniThreadNumber_gniInstid nicAddr cpuNum thrNum

/-! ### The id of a server -/

/-- The `instance` of `main`, on the address of the NIC and the affinity mask; its
`thread_num` is 0. -/
def instanceOf (nicAddr : UInt32) (coremask : CpuSet) (cpuNum : UInt32) : UInt32 :=
  gniInstid nicAddr (getCpunum coremask cpuNum).cpuNum 0

/-- Servers share an id if their NIC addresses and their highest CPUs do in the bits kept. -/
theorem instanceOf_eq_iff {nicAddr nicAddr' init init' : UInt32} {mask mask' : CpuSet}
    {cpu cpu' : Nat} (h : IsGreatest (cpus mask) cpu) (h' : IsGreatest (cpus mask') cpu') :
    instanceOf nicAddr mask init = instanceOf nicAddr' mask' init' ↔
      nicAddr.toNat % 2 ^ 22 = nicAddr'.toNat % 2 ^ 22 ∧ cpu % 2 ^ 7 = cpu' % 2 ^ 7 := by
  rw [instanceOf, instanceOf, gniInstid_eq_iff,
    (getCpunum_isGreatest ⟨cpu, h.1⟩ init).unique h,
    (getCpunum_isGreatest ⟨cpu', h'.1⟩ init').unique h']
  exact and_congr_right fun _ => and_iff_left rfl

/-- CPU 0 and CPU 128 of one NIC. -/
example : instanceOf 7 (BitVec.twoPow cpuSetsize 0) 0 =
    instanceOf 7 (BitVec.twoPow cpuSetsize 128) 0 := by
  have hone (cpu : Nat) (hlt : cpu < cpuSetsize) :
      IsGreatest (cpus (BitVec.twoPow cpuSetsize cpu)) cpu := by
    rw [cpus_twoPow hlt]
    exact isGreatest_singleton
  exact (instanceOf_eq_iff (hone 0 (by decide)) (hone 128 (by decide))).mpr ⟨rfl, rfl⟩

/-- A call that sets the attributes of the NIC sets this rank. -/
def Ranked (id : UInt32) : ServerCall → Prop
  | .ioctl (.nicSetattr a) => a.rank = id
  | _ => True

section Round

variable (s : Server) (cmd : Cmd) (ret : Int)

theorem gatherBlocks_ranked (id : UInt32) (g : Gather) (inp out : Bytes) (len : Nat) :
    (gatherBlocks g inp out len).All (Ranked id) := by
  have horder : (rankOrder g).All (Ranked id) := by
    unfold rankOrder
    apply Prog.All.ite
    · intro _
      trivial
    · intro _
      simp [learnRanks, Ranked]
  refine horder.bind fun learnt => ?_
  rcases learnt with - | g
  · trivial
  · simp [Ranked]

theorem serveAllgather_ranked (id : UInt32) : (serveAllgather s cmd ret).All (Ranked id) := by
  refine ⟨trivial, fun outbuf => ?_⟩
  rcases outbuf with - | contents
  · trivial
  · refine (gatherBlocks_ranked id _ _ _ _).bind fun gathered => ?_
    rcases gathered with - | ⟨g, out⟩
    · trivial
    · exact ⟨trivial, fun _ => trivial⟩

theorem dispatch_ranked : (dispatch s cmd ret).All (Ranked s.instanceId) := by
  apply dispatch_cases
  · simp [serveNicSetattr, Ranked, nicAttr]
  · simp [serveMemRegister, registerWithDevice, Ranked]
  · simp [servePostRdma, Ranked]
  · simp [serveCqCreate, Ranked]
  · simp [serveNicFmaConfig, Ranked]
  · exact fun _ => serveAllgather_ranked s cmd ret _
  · simp [serveGetrank, Ranked]
  · simp [serveGetsize, Ranked]
  · simp [serveFinalize, Ranked]
  · simp [serveMalloc, Ranked]
  · simp

theorem serve_ranked : (serve s).All (Ranked s.instanceId) := by
  refine ⟨trivial, fun ret => ?_⟩
  apply Prog.All.ite
  · intro _
    trivial
  · intro _
    exact ⟨trivial, fun cmd => dispatch_ranked s cmd ret⟩

/-- The id is set before the loop, and no case changes it. -/
def KeepsInstance (p : ServerM Round) : Prop :=
  p.Returns fun r => r.server.instanceId = s.instanceId

theorem serveAllgather_keepsInstance : KeepsInstance s (serveAllgather s cmd ret) := by
  refine (serveAllgather_server s cmd ret).mono ?_
  rintro r ⟨g, hr⟩
  rw [hr]

theorem dispatch_keepsInstance : KeepsInstance s (dispatch s cmd ret) := by
  apply dispatch_cases
  · simp [KeepsInstance, serveNicSetattr, Round.server]
  · simp [KeepsInstance, serveMemRegister, registerWithDevice, Round.server]
  · simp [KeepsInstance, servePostRdma, Round.server]
  · simp [KeepsInstance, serveCqCreate, Round.server]
  · simp [KeepsInstance, serveNicFmaConfig, Round.server]
  · exact fun _ => serveAllgather_keepsInstance s cmd ret
  · simp [KeepsInstance, serveGetrank, Round.server]
  · simp [KeepsInstance, serveGetsize, Round.server]
  · simp [KeepsInstance, serveFinalize, Round.server]
  · simp [KeepsInstance, serveMalloc, Round.server]
  · rfl

theorem serve_keepsInstance : KeepsInstance s (serve s) := by
  intro ret
  apply (Prog.returns_ite _ _ _).mpr
  refine ⟨fun _ => rfl, fun _ cmd => ?_⟩
  exact dispatch_keepsInstance s cmd ret

end Round

section Run

variable {w : World} {e : Event} {es : List Event} {id : UInt32}

/-- The server has the id, and its NIC was given no other. -/
structure World.Identified (w : World) (id : UInt32) : Prop where
  instanceId : w.server.instanceId = id
  rank : ∀ a, DeviceCall.nicSetattr a ∈ w.deviceLog → a.rank = id

/-- What a round adds to the calls that reached the device. -/
theorem deviceLog_ioctl {code : UInt64} {data : Bytes} (hl : w.Live)
    (hc : commandOf w.client e.clientEnv e.request = some (code, data)) :
    (w.ioctl e).1.deviceLog = w.deviceLog ++
      ((serve w.server).exec (fetching ⟨w.nextCmd, code, data⟩ e.serverEnv)).2.filterMap
        deviceCallIn := by
  rw [World.deviceLog, (ioctl_round hl hc).2, List.filterMap_append, List.filterMap_cons]
  show _ ++ (List.map Entry.server _).filterMap Entry.deviceCall = _
  rw [deviceCalls_map_server]
  rfl

theorem World.Identified.ioctl (hl : w.Live) (h : w.Identified id) :
    (w.ioctl e).1.Identified id := by
  rcases hc : commandOf w.client e.clientEnv e.request with - | ⟨code, data⟩
  · rw [ioctl_unforwarded hl hc]
    exact h
  · refine ⟨?_, fun a ha => ?_⟩
    · rw [(ioctl_round hl hc).1, (serve_keepsInstance w.server).exec]
      exact h.instanceId
    · rw [deviceLog_ioctl hl hc, List.mem_append] at ha
      rcases ha with ha | ha
      · exact h.rank a ha
      · obtain ⟨⟨o, r⟩, hmem, hcall⟩ := List.mem_filterMap.mp ha
        have hranked := (serve_ranked w.server).of_mem_exec hmem
        cases o with
        | ioctl c =>
            obtain rfl : c = .nicSetattr a := Option.some.inj hcall
            exact (show a.rank = w.server.instanceId from hranked).trans h.instanceId
        | _ => cases hcall

/-- Whatever is requested, the NIC is only ever given the id that `main` computed. -/
theorem rank_run (hw : w.Initial) (a : GniNicSetattrArgs)
    (ha : DeviceCall.nicSetattr a ∈ (w.run es).deviceLog) : a.rank = w.server.instanceId := by
  have hid : (w.run es).Identified w.server.instanceId := by
    refine run_invariant_any (World.Identified · w.server.instanceId) hw.live ⟨rfl, ?_⟩
      fun w e hl h => h.ioctl hl
    intro a ha
    rw [World.deviceLog, hw.noLog] at ha
    cases ha
  exact hid.rank a ha

/-- So the fields of every rank are the address of the NIC, the highest CPU of the server in
seven bits, and 0. -/
theorem rank_fields_run {nicAddr init : UInt32} {mask : CpuSet} {cpu : Nat} (hw : w.Initial)
    (hinst : w.server.instanceId = instanceOf nicAddr mask init)
    (hcpu : IsGreatest (cpus mask) cpu) (a : GniNicSetattrArgs)
    (ha : DeviceCall.nicSetattr a ∈ (w.run es).deviceLog) :
    (gniNicAddress a.rank).toNat = nicAddr.toNat % 2 ^ 22 ∧
      (gniCpuNumber a.rank).toNat = cpu % 2 ^ 7 ∧ (gniThreadNumber a.rank).toNat = 0 := by
  rw [rank_run hw a ha, hinst, instanceOf, toNat_gniNicAddress_gniInstid,
    toNat_gniCpuNumber_gniInstid, toNat_gniThreadNumber_gniInstid,
    (getCpunum_isGreatest ⟨cpu, hcpu.1⟩ init).unique hcpu]
  exact ⟨rfl, rfl, rfl⟩

end Run

end Nvl.StaticLink

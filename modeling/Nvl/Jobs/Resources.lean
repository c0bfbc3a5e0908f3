/-
Nvl/Jobs/Resources.lean

The resources of jobs (`kgni_ops.c`): who keeps them, and what they keep.

The driver has one record of resources for each protection tag in use.  A NIC takes a
reference when it configures a job and when it is attached, and drops one when it is
destroyed; the record goes with the last reference.  The record may point to a block of the
network translation table, which counts the records that point to it and can be freed while
none does.

`kgni_nic_attach` takes its reference in two sections of the lock and may fail long after, so
calls on other NICs come between its parts; calls on the same NIC are made one at a time, as
nothing in the driver guards a NIC against two.  Whatever the order, no assertion fails, a NIC
finds the resources of its tag, and a record finds its block (`resources_safe`).  A reference
is never dropped twice, but it can be lost: a NIC knows one tag, and a second reference makes
it forget the first.  What is lost stays lost, and holds the tag for its job (`leak_stays`).  If
each NIC takes one at a time the references are the NICs, and nothing is left when they are gone
(`resources_exact`).
-/
import Nvl.Lib.Keyed
import Mathlib.Data.List.Count
import Mathlib.Data.List.Perm.Subperm
import Mathlib.Logic.Function.Basic

namespace Nvl.Resources

open SysLib

/-! ### Data -/

/-- `kgni_ntt_block_t`, with its address. -/
structure NttBlock where
  addr : Nat
  base : Int
  size : Int
  refCnt : Int
  selfdestruct : Bool
  deriving DecidableEq

/-- What counts of `kgni_resource_info_t`; `ptag` is its place in the array. -/
structure Rsrc where
  ptag : Nat
  refCnt : Int
  cookie : UInt32
  jobId : UInt64
  generation : Nat
  nttBlock : Option Nat
  deriving DecidableEq

inductive Errno where
  | einval
  | eexist
  | eperm
  | enomem
  | emfile
  | enoent
  | ebusy
  | enxio
  deriving DecidableEq

/-- How the part of `kgni_nic_attach` ends that looks for a CDM or makes one. -/
inductive CdmLookup where
  | failed (e : Errno)
  | full
  | found
  deriving DecidableEq

/-- `gni_nic_setattr_args_t`, and the job of the caller. -/
structure AttachArgs where
  ptag : Nat
  cookie : UInt32
  jobId : UInt64
  cdm : CdmLookup
  deriving DecidableEq

/-- Where a NIC is: between two calls, or in one that gave up the lock. -/
inductive Phase where
  | idle
  | allocating (a : AttachArgs)
  | preparing
  | attached
  deriving DecidableEq

/-- What counts of `gni_nic_t`. -/
structure Nic where
  id : Nat
  kernel : Bool
  phase : Phase
  ptag : Nat
  cookie : UInt32
  fmaResId : Int
  nttBase : Int
  nttGrpSize : Int
  deriving DecidableEq

/-- The device: the entries of `resources` that are not null, `active_ntts` and the NICs. -/
structure Dev where
  resources : List Rsrc
  activeNtts : List NttBlock
  nics : List Nic
  jobGeneration : Nat
  nextAddr : Nat

/-- `kgni_user_ptag_pkey_check`, `kgni_unprotected_ops` and `ghal_ntt_get_granularity`. -/
structure Config where
  checkPtag : Nat → UInt16 → Except Errno Unit
  unprotectedOps : Bool
  granularity : Int

/-- `GHAL_PTAG_MAX_NUMBER`. -/
def ptagMaxNumber : Nat := 256

/-- Tags are places in the array, and 0 is invalid. -/
def Config.Checks (c : Config) : Prop :=
  ∀ ptag pkey, c.checkPtag ptag pkey = .ok () → 0 < ptag ∧ ptag < ptagMaxNumber

inductive Fault where
  | assertion
  | freed
  | absent
  deriving DecidableEq

/-- `GNI_COOKIE_PKEY`. -/
def cookiePkey (cookie : UInt32) : UInt16 := (cookie >>> 16).toUInt16

namespace Dev

variable (d : Dev)

def rsrc (ptag : Nat) : Option Rsrc := findKey Rsrc.ptag d.resources ptag

def nic (id : Nat) : Option Nic := findKey Nic.id d.nics id

def block (addr : Nat) : Option NttBlock := findKey NttBlock.addr d.activeNtts addr

def writeRsrc (r : Rsrc) : Dev := { d with resources := writeKey Rsrc.ptag d.resources r }

def writeNic (n : Nic) : Dev := { d with nics := writeKey Nic.id d.nics n }

def removeNic (id : Nat) : Dev := { d with nics := removeKey Nic.id d.nics id }

def writeBlock (b : NttBlock) : Dev :=
  { d with activeNtts := writeKey NttBlock.addr d.activeNtts b }

end Dev

/-! ### Blocks of the translation table -/

/-- `kgni_ntt_decref`. -/
def nttDecref (d : Dev) : Option Nat → Except Fault Dev
  | none => .ok d
  | some addr =>
      match d.block addr with
      | none => .error .freed
      | some b =>
          let b := { b with refCnt := b.refCnt - 1 }
          if b.refCnt < 0 then .error .assertion
          else if b.refCnt = 0 ∧ b.selfdestruct then
            .ok { d with activeNtts := removeKey NttBlock.addr d.activeNtts addr }
          else .ok (d.writeBlock b)

/-- `kgni_ntt_find_incref`. -/
def nttFindIncref (d : Dev) (base size : Int) (selfdestruct : Bool) :
    Except Fault (Dev × Except Errno Nat) :=
  match d.activeNtts.find? fun b => b.base = base ∧ b.size = size with
  | none => .ok (d, .error .enoent)
  | some b =>
      let b := { b with refCnt := b.refCnt + 1, selfdestruct }
      if (ptagMaxNumber : Int) < b.refCnt then .error .assertion
      else .ok (d.writeBlock b, .ok b.addr)

/-- `kgni_ntt_cleanup`; `free` is what `ghal_ntt_free` answers. -/
def nttCleanup (d : Dev) (base size : Int) (free : NttBlock → Except Errno Unit) :
    Dev × Except Errno Unit :=
  if base = -1 ∧ d.activeNtts = [] then (d, .ok ())
  else
    let doomed := fun b : NttBlock =>
      decide (¬ (base ≠ -1 ∧ (b.base ≠ base ∨ b.size ≠ size)) ∧ b.refCnt = 0)
    ({ d with activeNtts := d.activeNtts.filter fun b => !doomed b },
      (d.activeNtts.filter doomed).foldl (fun _ b => free b) (.error .einval))

/-- `gni_nic_nttconfig_args_t`, and what the calls of `kgni_ntt_config` answer. -/
structure NttArgs where
  granularity : Except Errno Unit
  clear : Bool
  base : Int
  numEntries : Nat
  alloc : Except Errno Int
  setTbl : Except Errno Unit
  kzallocFails : Bool
  free : NttBlock → Except Errno Unit

/-- `kgni_ntt_config`. -/
def nttConfig (d : Dev) (a : NttArgs) : Dev × Except Errno Unit :=
  match a.granularity with
  | .error e => (d, .error e)
  | .ok () =>
      if a.numEntries = 0 then (d, .ok ())
      else if a.clear then nttCleanup d a.base a.numEntries a.free
      else
        match a.alloc with
        | .error e => (d, .error e)
        | .ok base =>
            match a.setTbl with
            | .error e => (d, .error e)
            | .ok () =>
                if a.kzallocFails then (d, .error .enomem)
                else
                  ({ d with
                    activeNtts := ⟨d.nextAddr, base, a.numEntries, 0, false⟩ :: d.activeNtts
                    nextAddr := d.nextAddr + 1 }, .ok ())

/-! ### References -/

/-- A reference to resources that are there. -/
def Dev.take (d : Dev) (n : Nic) (r : Rsrc) : Dev :=
  (d.writeRsrc { r with refCnt := r.refCnt + 1 }).writeNic n

/-- Resources are made, with a reference to them. -/
def Dev.make (d : Dev) (n : Nic) (r : Rsrc) : Dev :=
  { d with
    resources := d.resources ++ [r]
    jobGeneration := d.jobGeneration + 1 }.writeNic n

/-- The NIC belongs to a job that the tag is not for. -/
def foreign (n : Nic) (jobId : UInt64) (r : Rsrc) : Bool :=
  !n.kernel && r.jobId != 0 && jobId != r.jobId

/-- The NIC takes the translation of its job over. -/
def takeNtt (c : Config) (d : Dev) (n : Nic) (r : Rsrc) : Except Fault Nic :=
  match r.nttBlock with
  | none => .ok n
  | some addr =>
      match d.block addr with
      | none => .error .freed
      | some b => .ok { n with nttBase := b.base, nttGrpSize := b.size * c.granularity }

/-- The end of a failed `kgni_nic_attach`. -/
def Nic.unattached (n : Nic) : Nic := { n with phase := .idle, ptag := 0 }

/-- The NIC has its reference. -/
def Nic.prepared (n : Nic) (r : Rsrc) : Nic :=
  { n with phase := .preparing, ptag := r.ptag, fmaResId := r.refCnt + 1 }

/-- The first section of `kgni_resource_incref`, as `kgni_nic_attach` calls it. -/
def increfFast (c : Config) (d : Dev) (n : Nic) (a : AttachArgs) :
    Except Fault (Dev × Except Errno Unit) :=
  match d.rsrc a.ptag with
  | some r =>
      match takeNtt c d n r with
      | .error f => .error f
      | .ok n =>
          if foreign n a.jobId r then .ok (d.writeNic n.unattached, .error .eperm)
          else .ok (d.take (n.prepared r) r, .ok ())
  | none =>
      if !c.unprotectedOps && !n.kernel then .ok (d.writeNic n.unattached, .error .eperm)
      else .ok (d.writeNic { n with phase := .allocating a }, .ok ())

/-- The second section, after the allocation. -/
def increfSlow (d : Dev) (n : Nic) (a : AttachArgs) (allocFails : Bool) :
    Dev × Except Errno Unit :=
  if allocFails then (d.writeNic n.unattached, .error .enomem)
  else
    match d.rsrc a.ptag with
    | some r =>
        if foreign n a.jobId r then (d.writeNic n.unattached, .error .eperm)
        else (d.take (n.prepared r) r, .ok ())
    | none =>
        (d.make { n with phase := .preparing, ptag := a.ptag, fmaResId := 1 }
          ⟨a.ptag, 1, n.cookie, 0, d.jobGeneration, none⟩, .ok ())

/-- `kgni_resource_decref`. -/
def resourceDecref (d : Dev) (n : Nic) : Except Fault Dev :=
  if n.ptag = 0 then .ok d
  else
    match d.rsrc n.ptag with
    | none => .error .assertion
    | some r =>
        if r.refCnt - 1 = 0 then
          (nttDecref d r.nttBlock).map fun d =>
            { d with resources := removeKey Rsrc.ptag d.resources n.ptag }
        else .ok (d.writeRsrc { r with refCnt := r.refCnt - 1 })

/-! ### Calls on a NIC -/

/-- `kgni_nic_attach`, up to where the lock is given up in `kgni_resource_incref`. -/
def nicAttach (c : Config) (d : Dev) (n : Nic) (a : AttachArgs) :
    Except Fault (Dev × Except Errno Unit) :=
  if n.phase ≠ .idle then .ok (d, .error .eexist)
  else
    match c.checkPtag a.ptag (cookiePkey a.cookie) with
    | .error e => .ok (d, .error e)
    | .ok () =>
        match a.cdm with
        | .failed e => .ok (d, .error e)
        | .full => .ok (d.writeNic { n with ptag := 0 }, .error .emfile)
        | .found => increfFast c d { n with cookie := a.cookie } a

/-- The rest of `kgni_nic_attach`, if one of its later calls fails or none does. -/
def attachEnd (d : Dev) (n : Nic) : Option Errno → Except Fault (Dev × Except Errno Unit)
  | none => .ok (d.writeNic { n with phase := .attached }, .ok ())
  | some e => (resourceDecref d n).map fun d => (d.writeNic n.unattached, .error e)

/-- `kgni_nic_detach`, of an attached NIC. -/
def nicDetach (d : Dev) (n : Nic) : Dev × Except Errno Unit :=
  if n.phase = .idle then (d, .error .enxio)
  else (d.writeNic { n with phase := .idle }, .ok ())

/-- `kgni_nic_destroy`. -/
def nicDestroy (d : Dev) (n : Nic) : Except Fault (Dev × Except Errno Unit) :=
  if n.phase ≠ .idle then .ok (d, .error .ebusy)
  else (resourceDecref d n).map fun d => (d.removeNic n.id, .ok ())

/-- `gni_nic_jobconfig_args_t`; of the limits, the base, size and control of the translation. -/
structure JobArgs where
  ptag : Nat
  cookie : UInt32
  jobId : UInt64
  limits : Option (Int × Int × Bool)
  allocFails : Bool

/-- The translation of a job: it is set once. -/
def configNtt (d : Dev) (ptag : Nat) (limits : Option (Int × Int × Bool)) :
    Except Fault (Dev × Except Errno Unit) :=
  match limits, d.rsrc ptag with
  | some (base, size, cleanup), some r =>
      if base ≠ -1 ∧ size > 0 then
        match r.nttBlock with
        | some addr =>
            match d.block addr with
            | none => .error .freed
            | some b =>
                if b.base ≠ base ∨ b.size ≠ size then .ok (d, .error .einval) else .ok (d, .ok ())
        | none =>
            (nttFindIncref d base size cleanup).map fun
              | (d, .ok addr) => (d.writeRsrc { r with nttBlock := some addr }, .ok ())
              | (d, .error e) => (d, .error e)
      else .ok (d, .ok ())
  | _, _ => .ok (d, .ok ())

/-- `kgni_job_config`. -/
def jobConfig (c : Config) (d : Dev) (n : Nic) (a : JobArgs) :
    Except Fault (Dev × Except Errno Unit) :=
  match c.checkPtag a.ptag (cookiePkey a.cookie) with
  | .error e => .ok (d, .error e)
  | .ok () =>
      if a.allocFails then .ok (d, .error .enomem)
      else
        match d.rsrc a.ptag with
        | some r =>
            if r.cookie ≠ a.cookie then .ok (d, .error .eperm)
            else if r.jobId ≠ a.jobId then .ok (d, .error .eperm)
            else
              configNtt (d.take { n with ptag := a.ptag, cookie := a.cookie } r) a.ptag a.limits
        | none =>
            configNtt (d.make { n with ptag := a.ptag, cookie := a.cookie }
              ⟨a.ptag, 1, a.cookie, a.jobId, d.jobGeneration, none⟩) a.ptag a.limits

/-! ### Runs -/

/-- What can be done.  An attach is up to three steps: the test of the NIC, the CDM and the first
section; the second section; what follows. -/
inductive Op where
  | create (id : Nat) (kernel : Bool)
  | attach (id : Nat) (a : AttachArgs)
  | alloc (id : Nat) (allocFails : Bool)
  | finish (id : Nat) (failure : Option Errno)
  | detach (id : Nat)
  | destroy (id : Nat)
  | jobConfig (id : Nat) (a : JobArgs)
  | nttConfig (a : NttArgs)

/-- A new NIC (`kgni_nic_create`). -/
def Nic.new (id : Nat) (kernel : Bool) : Nic := ⟨id, kernel, .idle, 0, 0, 0, 0, 0⟩

def Dev.create (d : Dev) (id : Nat) (kernel : Bool) : Dev :=
  { d with nics := d.nics ++ [.new id kernel] }

/-- On a NIC that is there. -/
def Dev.on (d : Dev) (id : Nat) (f : Nic → Except Fault (Dev × Except Errno Unit)) :
    Except Fault (Dev × Except Errno Unit) :=
  match d.nic id with
  | none => .error .absent
  | some n => f n

def step (c : Config) (d : Dev) : Op → Except Fault (Dev × Except Errno Unit)
  | .create id kernel => .ok (d.create id kernel, .ok ())
  | .attach id a => d.on id fun n => nicAttach c d n a
  | .alloc id allocFails => d.on id fun n =>
      match n.phase with
      | .allocating a => .ok (increfSlow d n a allocFails)
      | _ => .error .absent
  | .finish id failure => d.on id fun n =>
      if n.phase = .preparing then attachEnd d n failure else .error .absent
  | .detach id => d.on id fun n => .ok (nicDetach d n)
  | .destroy id => d.on id fun n => nicDestroy d n
  | .jobConfig id a => d.on id fun n => jobConfig c d n a
  | .nttConfig a => .ok (nttConfig d a)

def run (c : Config) (d : Dev) : List Op → Except Fault Dev
  | [] => .ok d
  | op :: ops =>
      match step c d op with
      | .error f => .error f
      | .ok (d, _) => run c d ops

def Dev.start : Dev := ⟨[], [], [], 0, 0⟩

/-- No call on the NIC is under way. -/
def Phase.Between (p : Phase) : Prop := p = .idle ∨ p = .attached

instance (p : Phase) : Decidable p.Between := inferInstanceAs (Decidable (_ ∨ _))

/-- The step can be taken.  A call on a NIC begins when no other call on that NIC is under way:
`kgni_nic_attach` looks at the NIC, and clears its tag when it fails, without any lock. -/
def Op.Enabled (d : Dev) : Op → Prop
  | .create id _ => ∀ n ∈ d.nics, n.id ≠ id
  | .attach id _ => ∃ n ∈ d.nics, n.id = id ∧ n.phase.Between
  | .alloc id _ => ∃ n ∈ d.nics, n.id = id ∧ ∃ a, n.phase = .allocating a
  | .finish id _ => ∃ n ∈ d.nics, n.id = id ∧ n.phase = .preparing
  | .detach id => ∃ n ∈ d.nics, n.id = id ∧ n.phase.Between
  | .destroy id => ∃ n ∈ d.nics, n.id = id ∧ n.phase.Between
  | .jobConfig id _ => ∃ n ∈ d.nics, n.id = id ∧ n.phase.Between
  | .nttConfig _ => True

/-- A NIC that asks for a reference knows no other tag. -/
def Op.Single (d : Dev) : Op → Prop
  | .attach id _ => ∀ n ∈ d.nics, n.id = id → n.phase = .idle → n.ptag = 0
  | .alloc id _ => ∀ n ∈ d.nics, n.id = id → n.ptag = 0
  | .jobConfig id _ => ∀ n ∈ d.nics, n.id = id → n.ptag = 0
  | _ => True

/-- At every step of a run. -/
def Along (c : Config) (P : Dev → Op → Prop) (d : Dev) : List Op → Prop
  | [] => True
  | op :: ops => P d op ∧ ∀ d' ret, step c d op = .ok (d', ret) → Along c P d' ops

instance (n : Nic) : Decidable (∃ a, n.phase = .allocating a) :=
  match n.phase with
  | .allocating a => isTrue ⟨a, rfl⟩
  | .idle => isFalse fun ⟨_, h⟩ => (by cases h)
  | .preparing => isFalse fun ⟨_, h⟩ => (by cases h)
  | .attached => isFalse fun ⟨_, h⟩ => (by cases h)

instance (d : Dev) : (op : Op) → Decidable (op.Enabled d)
  | .create _ _ => inferInstanceAs (Decidable (∀ n ∈ d.nics, _))
  | .attach _ _ => inferInstanceAs (Decidable (∃ n ∈ d.nics, _ ∧ n.phase.Between))
  | .alloc _ _ => inferInstanceAs (Decidable (∃ n ∈ d.nics, _ ∧ ∃ a, n.phase = .allocating a))
  | .finish _ _ => inferInstanceAs (Decidable (∃ n ∈ d.nics, _ ∧ _))
  | .detach _ => inferInstanceAs (Decidable (∃ n ∈ d.nics, _ ∧ n.phase.Between))
  | .destroy _ => inferInstanceAs (Decidable (∃ n ∈ d.nics, _ ∧ n.phase.Between))
  | .jobConfig _ _ => inferInstanceAs (Decidable (∃ n ∈ d.nics, _ ∧ n.phase.Between))
  | .nttConfig _ => isTrue trivial

instance (d : Dev) : (op : Op) → Decidable (op.Single d)
  | .attach _ _ => inferInstanceAs (Decidable (∀ n ∈ d.nics, _ → _ → _))
  | .alloc _ _ => inferInstanceAs (Decidable (∀ n ∈ d.nics, _ → _))
  | .jobConfig _ _ => inferInstanceAs (Decidable (∀ n ∈ d.nics, _ → _))
  | .create _ _ | .finish _ _ | .detach _ | .destroy _ | .nttConfig _ => isTrue trivial

instance decidableAlong (c : Config) (P : Dev → Op → Prop) [∀ d op, Decidable (P d op)] :
    (ops : List Op) → (d : Dev) → Decidable (Along c P d ops)
  | [], _ => isTrue trivial
  | op :: ops, d =>
      have := decidableAlong c P ops
      match hstep : step c d op with
      | .error _ => decidable_of_iff (P d op)
          ⟨fun h => ⟨h, fun _ _ h' => (by rw [hstep] at h'; cases h')⟩, fun h => h.1⟩
      | .ok (d', _) => decidable_of_iff (P d op ∧ Along c P d' ops)
          ⟨fun h => ⟨h.1, fun _ _ h' => (by rw [hstep] at h'; cases h'; exact h.2)⟩,
            fun h => ⟨h.1, h.2 _ _ hstep⟩⟩

/-! ### References and NICs -/

/-- The NICs that know a tag. -/
def holders (ns : List Nic) (ptag : Nat) : Nat := ns.countP fun n => n.ptag = ptag

/-- The tag that a NIC is about to take is one. -/
def Nic.Asked (n : Nic) : Prop :=
  ∀ a, n.phase = .allocating a → 0 < a.ptag ∧ a.ptag < ptagMaxNumber

/-- `lost` counts the references that no NIC knows of. -/
structure Refs (rs : List Rsrc) (ns : List Nic) (lost : Nat → Nat) : Prop where
  tags : (rs.map Rsrc.ptag).Nodup
  tag : ∀ r ∈ rs, 0 < r.ptag ∧ r.ptag < ptagMaxNumber
  ids : (ns.map Nic.id).Nodup
  asked : ∀ n ∈ ns, n.Asked
  counted : ∀ r ∈ rs, r.refCnt = holders ns r.ptag + lost r.ptag ∧ 0 < r.refCnt
  home : ∀ n ∈ ns, n.ptag ≠ 0 → ∃ r ∈ rs, r.ptag = n.ptag

/-- A NIC forgets the tag. -/
def lose (lost : Nat → Nat) (ptag : Nat) : Nat → Nat :=
  fun p => lost p + if ptag = p then 1 else 0

section Refs

variable {rs : List Rsrc} {ns : List Nic} {lost : Nat → Nat} {r : Rsrc} {n n' : Nic}

theorem holders_write (hids : (ns.map Nic.id).Nodup) (hn : n ∈ ns) (hid : n'.id = n.id) (p : Nat) :
    holders (writeKey Nic.id ns n') p + (if n.ptag = p then 1 else 0) =
      holders ns p + (if n'.ptag = p then 1 else 0) := by
  simpa only [holders, decide_eq_true_iff] using
    countP_writeKey (fun n : Nic => decide (n.ptag = p)) hids hn hid.symm

theorem asked_write (h : Refs rs ns lost) (hasked : n'.Asked) :
    ∀ t ∈ writeKey Nic.id ns n', t.Asked := by
  intro t ht
  rcases mem_writeKey ht with rfl | ⟨ht, -⟩
  · exact hasked
  · exact h.asked t ht

theorem ids_write (h : Refs rs ns lost) : ((writeKey Nic.id ns n').map Nic.id).Nodup := by
  rw [map_key_writeKey]
  exact h.ids

/-- A NIC is written back with the tag that it had. -/
theorem Refs.keep (h : Refs rs ns lost) (hn : n ∈ ns) (hid : n'.id = n.id)
    (hptag : n'.ptag = n.ptag) (hasked : n'.Asked) :
    Refs rs (writeKey Nic.id ns n') lost := by
  have hsame (p : Nat) : holders (writeKey Nic.id ns n') p = holders ns p := by
    have hwrite := holders_write h.ids hn hid p
    rw [hptag] at hwrite
    omega
  refine ⟨h.tags, h.tag, ids_write h, asked_write h hasked, fun r hr => ?_, fun t ht => ?_⟩
  · rw [hsame]
    exact h.counted r hr
  · rcases mem_writeKey ht with rfl | ⟨ht, -⟩
    · rw [hptag]
      exact h.home n hn
    · exact h.home t ht

/-- A NIC is written back without a tag; a reference that it had is lost. -/
theorem Refs.forget (h : Refs rs ns lost) (hn : n ∈ ns) (hid : n'.id = n.id)
    (hptag : n'.ptag = 0) (hasked : n'.Asked) :
    Refs rs (writeKey Nic.id ns n') (lose lost n.ptag) := by
  refine ⟨h.tags, h.tag, ids_write h, asked_write h hasked, fun r hr => ?_, fun t ht hne => ?_⟩
  · obtain ⟨hcount, hpos⟩ := h.counted r hr
    have hwrite := holders_write h.ids hn hid r.ptag
    rw [hptag, if_neg (Nat.ne_of_lt (h.tag r hr).1)] at hwrite
    refine ⟨?_, hpos⟩
    unfold lose
    omega
  · rcases mem_writeKey ht with rfl | ⟨ht, -⟩
    · exact absurd hptag hne
    · exact h.home t ht hne

/-- A NIC takes a reference to resources that are there. -/
theorem Refs.take (h : Refs rs ns lost) (hr : r ∈ rs) (hn : n ∈ ns) (hid : n'.id = n.id)
    (hptag : n'.ptag = r.ptag) (hasked : n'.Asked) :
    Refs (writeKey Rsrc.ptag rs { r with refCnt := r.refCnt + 1 }) (writeKey Nic.id ns n')
      (lose lost n.ptag) := by
  refine ⟨?_, fun t ht => ?_, ids_write h, asked_write h hasked, fun t ht => ?_, fun t ht hne => ?_⟩
  · rw [map_key_writeKey]
    exact h.tags
  · rcases mem_writeKey ht with rfl | ⟨ht, -⟩
    · exact h.tag r hr
    · exact h.tag t ht
  · rcases mem_writeKey ht with rfl | ⟨ht, hne⟩
    · obtain ⟨hcount, hpos⟩ := h.counted r hr
      have hwrite := holders_write h.ids hn hid r.ptag
      rw [if_pos hptag] at hwrite
      dsimp only [lose]
      omega
    · obtain ⟨hcount, hpos⟩ := h.counted t ht
      have hwrite := holders_write h.ids hn hid t.ptag
      rw [hptag, if_neg (Ne.symm hne)] at hwrite
      dsimp only [lose]
      omega
  · have hstay {p : Nat} (hp : ∃ r ∈ rs, r.ptag = p) :
        ∃ r' ∈ writeKey Rsrc.ptag rs { r with refCnt := r.refCnt + 1 }, r'.ptag = p := by
      obtain ⟨r', hr', rfl⟩ := hp
      rcases eq_or_ne r'.ptag r.ptag with heq | hne
      · exact ⟨_, mem_writeKey_self hr rfl, heq.symm⟩
      · exact ⟨r', mem_writeKey_of_ne hr' hne, rfl⟩
    rcases mem_writeKey ht with rfl | ⟨ht, -⟩
    · exact hstay ⟨r, hr, hptag.symm⟩
    · exact hstay (h.home t ht hne)

/-- Resources are made for a NIC. -/
theorem Refs.make (h : Refs rs ns lost) (hnone : ∀ t ∈ rs, t.ptag ≠ r.ptag)
    (htag : 0 < r.ptag ∧ r.ptag < ptagMaxNumber) (hone : r.refCnt = 1) (hn : n ∈ ns)
    (hid : n'.id = n.id) (hptag : n'.ptag = r.ptag) (hasked : n'.Asked) :
    Refs (rs ++ [r]) (writeKey Nic.id ns n') (Function.update (lose lost n.ptag) r.ptag 0) := by
  -- nobody knew the tag, since it had no resources
  have hfree : ∀ t ∈ ns, t.ptag ≠ r.ptag := by
    intro t ht heq
    obtain ⟨r', hr', hsame⟩ := h.home t ht (heq ▸ Nat.ne_of_gt htag.1)
    exact hnone r' hr' (hsame.trans heq)
  have hzero : holders ns r.ptag = 0 := by
    rw [holders, List.countP_eq_zero]
    intro t ht
    rw [decide_eq_true_iff]
    exact hfree t ht
  refine ⟨?_, fun t ht => ?_, ids_write h, asked_write h hasked, fun t ht => ?_, fun t ht hne => ?_⟩
  · rw [List.map_append, List.nodup_append']
    refine ⟨h.tags, List.nodup_singleton _, fun p hp hp' => ?_⟩
    obtain ⟨t, ht, rfl⟩ := List.mem_map.mp hp
    exact hnone t ht (List.mem_singleton.mp hp')
  · rcases List.mem_append.mp ht with ht | ht
    · exact h.tag t ht
    · rw [List.mem_singleton.mp ht]
      exact htag
  · rcases List.mem_append.mp ht with ht | ht
    · obtain ⟨hcount, hpos⟩ := h.counted t ht
      have hwrite := holders_write h.ids hn hid t.ptag
      rw [hptag, if_neg (Ne.symm (hnone t ht))] at hwrite
      rw [Function.update_of_ne (hnone t ht)]
      dsimp only [lose]
      omega
    · have hwrite := holders_write h.ids hn hid r.ptag
      rw [if_pos hptag, if_neg (hfree n hn), hzero] at hwrite
      rw [List.mem_singleton.mp ht, Function.update_self, hone]
      omega
  · rcases mem_writeKey ht with rfl | ⟨ht, -⟩
    · exact ⟨r, List.mem_append_right _ (List.mem_singleton_self r), hptag.symm⟩
    · obtain ⟨r', hr', hsame⟩ := h.home t ht hne
      exact ⟨r', List.mem_append_left _ hr', hsame⟩

/-- The block of resources does not matter. -/
theorem Refs.setBlock (h : Refs rs ns lost) (hr : r ∈ rs) (nttBlock : Option Nat) :
    Refs (writeKey Rsrc.ptag rs { r with nttBlock }) ns lost := by
  refine ⟨?_, fun t ht => ?_, h.ids, h.asked, fun t ht => ?_, fun t ht hne => ?_⟩
  · rw [map_key_writeKey]
    exact h.tags
  · rcases mem_writeKey ht with rfl | ⟨ht, -⟩
    · exact h.tag r hr
    · exact h.tag t ht
  · rcases mem_writeKey ht with rfl | ⟨ht, -⟩
    · exact h.counted r hr
    · exact h.counted t ht
  · obtain ⟨r', hr', heq⟩ := h.home t ht hne
    rcases eq_or_ne r'.ptag r.ptag with hsame | hne
    · exact ⟨_, mem_writeKey_self hr rfl, hsame.symm.trans heq⟩
    · exact ⟨r', mem_writeKey_of_ne hr' hne, heq⟩

/-- A NIC drops a reference. -/
theorem Refs.drop (h : Refs rs ns lost) (hr : r ∈ rs) (hn : n ∈ ns) (hid : n'.id = n.id)
    (hsame : n.ptag = r.ptag) (hptag : n'.ptag = 0) (hasked : n'.Asked) :
    Refs (if r.refCnt - 1 = 0 then removeKey Rsrc.ptag rs r.ptag
      else writeKey Rsrc.ptag rs { r with refCnt := r.refCnt - 1 })
      (writeKey Nic.id ns n') lost := by
  obtain ⟨hcount, hpos⟩ := h.counted r hr
  have hown := holders_write h.ids hn hid r.ptag
  rw [hptag, if_pos hsame, if_neg (Nat.ne_of_lt (h.tag r hr).1)] at hown
  have hother {t : Rsrc} (ht : t ∈ rs) (hne : t.ptag ≠ r.ptag) :
      holders (writeKey Nic.id ns n') t.ptag = holders ns t.ptag := by
    have hwrite := holders_write h.ids hn hid t.ptag
    rw [hptag, hsame, if_neg (Ne.symm hne), if_neg (Nat.ne_of_lt (h.tag t ht).1)] at hwrite
    omega
  by_cases hlast : r.refCnt - 1 = 0
  · rw [if_pos hlast]
    refine ⟨nodup_removeKey h.tags, fun t ht => h.tag t (mem_removeKey.mp ht).1, ids_write h,
      asked_write h hasked, fun t ht => ?_, fun t ht hne => ?_⟩
    · obtain ⟨ht, hne⟩ := mem_removeKey.mp ht
      rw [hother ht hne]
      exact h.counted t ht
    · rcases mem_writeKey ht with rfl | ⟨hmem, -⟩
      · exact absurd hptag hne
      · obtain ⟨r', hr', heq⟩ := h.home t hmem hne
        refine ⟨r', mem_removeKey.mpr ⟨hr', fun hrr => ?_⟩, heq⟩
        -- the last reference was the only one, and it is gone
        have hzero : holders (writeKey Nic.id ns n') r.ptag = 0 := by omega
        rw [holders, List.countP_eq_zero] at hzero
        exact hzero t ht (decide_eq_true (heq.symm.trans hrr))
  · rw [if_neg hlast]
    refine ⟨?_, fun t ht => ?_, ids_write h, asked_write h hasked, fun t ht => ?_,
      fun t ht hne => ?_⟩
    · rw [map_key_writeKey]
      exact h.tags
    · rcases mem_writeKey ht with rfl | ⟨ht, -⟩
      · exact h.tag r hr
      · exact h.tag t ht
    · rcases mem_writeKey ht with rfl | ⟨ht, hne⟩
      · dsimp only
        omega
      · rw [hother ht hne]
        exact h.counted t ht
    · rcases mem_writeKey ht with rfl | ⟨ht, -⟩
      · exact absurd hptag hne
      · obtain ⟨r', hr', heq⟩ := h.home t ht hne
        rcases eq_or_ne r'.ptag r.ptag with hrr | hrr
        · exact ⟨_, mem_writeKey_self hr rfl, hrr.symm.trans heq⟩
        · exact ⟨r', mem_writeKey_of_ne hr' hrr, heq⟩

/-- A NIC without a tag comes or goes. -/
theorem Refs.remove (h : Refs rs ns lost) (hn : n ∈ ns) (hptag : n.ptag = 0) :
    Refs rs (removeKey Nic.id ns n.id) lost := by
  refine ⟨h.tags, h.tag, nodup_removeKey h.ids, fun t ht => h.asked t (mem_removeKey.mp ht).1,
    fun r hr => ?_, fun t ht => h.home t (mem_removeKey.mp ht).1⟩
  have hcount := countP_removeKey (fun n : Nic => decide (n.ptag = r.ptag)) h.ids hn
  have hne : ¬ decide (n.ptag = r.ptag) = true := by
    rw [decide_eq_true_iff, hptag]
    exact Nat.ne_of_lt (h.tag r hr).1
  rw [if_neg hne, Nat.add_zero] at hcount
  rw [holders, hcount]
  exact h.counted r hr

theorem Refs.add (h : Refs rs ns lost) (hnew : ∀ t ∈ ns, t.id ≠ n.id) (hptag : n.ptag = 0)
    (hphase : n.phase = .idle) : Refs rs (ns ++ [n]) lost := by
  refine ⟨h.tags, h.tag, ?_, fun t ht => ?_, fun r hr => ?_, fun t ht => ?_⟩
  · rw [List.map_append, List.nodup_append']
    refine ⟨h.ids, List.nodup_singleton _, fun id hid hid' => ?_⟩
    obtain ⟨t, ht, rfl⟩ := List.mem_map.mp hid
    exact hnew t ht (List.mem_singleton.mp hid')
  · rcases List.mem_append.mp ht with ht | ht
    · exact h.asked t ht
    · rw [List.mem_singleton.mp ht]
      intro a ha
      rw [hphase] at ha
      cases ha
  · have hsame : holders (ns ++ [n]) r.ptag = holders ns r.ptag := by
      rw [holders, List.countP_append, List.countP_singleton, hptag]
      rw [if_neg (by simpa using Nat.ne_of_lt (h.tag r hr).1)]
      rfl
    rw [hsame]
    exact h.counted r hr
  · rcases List.mem_append.mp ht with ht | ht
    · exact h.home t ht
    · rw [List.mem_singleton.mp ht]
      exact fun hne => absurd hptag hne

/-- There are not more resources than tags. -/
theorem Refs.length_le (h : Refs rs ns lost) : rs.length ≤ ptagMaxNumber := by
  have hsub : rs.map Rsrc.ptag ⊆ List.range ptagMaxNumber := by
    intro p hp
    obtain ⟨r, hr, rfl⟩ := List.mem_map.mp hp
    exact List.mem_range.mpr (h.tag r hr).2
  have hle := (List.subperm_of_subset h.tags hsub).length_le
  rwa [List.length_map, List.length_range] at hle

end Refs

/-! ### Resources and blocks -/

/-- The resources that point to a block. -/
def users (rs : List Rsrc) (addr : Nat) : Nat := rs.countP fun r => r.nttBlock = some addr

structure Blocks (rs : List Rsrc) (bs : List NttBlock) (nextAddr : Nat) : Prop where
  addrs : (bs.map NttBlock.addr).Nodup
  fresh : ∀ b ∈ bs, b.addr < nextAddr
  active : ∀ r ∈ rs, ∀ addr, r.nttBlock = some addr → ∃ b ∈ bs, b.addr = addr
  counted : ∀ b ∈ bs, b.refCnt = users rs b.addr
  kept : ∀ b ∈ bs, b.selfdestruct = true → 0 < b.refCnt

section Blocks

variable {rs rs' : List Rsrc} {bs : List NttBlock} {nextAddr : Nat} {r r' : Rsrc} {b : NttBlock}

/-- Other resources that point to the same blocks. -/
theorem Blocks.congr (h : Blocks rs bs nextAddr) (hsub : ∀ r ∈ rs', r.nttBlock = none ∨
    ∃ t ∈ rs, t.nttBlock = r.nttBlock) (hcount : ∀ addr, users rs' addr = users rs addr) :
    Blocks rs' bs nextAddr := by
  refine ⟨h.addrs, h.fresh, fun r hr addr haddr => ?_, fun b hb => ?_, h.kept⟩
  · rcases hsub r hr with hnone | ⟨t, ht, heq⟩
    · rw [hnone] at haddr
      cases haddr
    · exact h.active t ht addr (heq.trans haddr)
  · rw [hcount]
    exact h.counted b hb

theorem users_write (htags : (rs.map Rsrc.ptag).Nodup) (hr : r ∈ rs) (hptag : r'.ptag = r.ptag)
    (addr : Nat) :
    users (writeKey Rsrc.ptag rs r') addr + (if r.nttBlock = some addr then 1 else 0) =
      users rs addr + (if r'.nttBlock = some addr then 1 else 0) := by
  simpa only [users, decide_eq_true_iff] using
    countP_writeKey (fun r : Rsrc => decide (r.nttBlock = some addr)) htags hr hptag.symm

theorem users_remove (htags : (rs.map Rsrc.ptag).Nodup) (hr : r ∈ rs) (addr : Nat) :
    users (removeKey Rsrc.ptag rs r.ptag) addr + (if r.nttBlock = some addr then 1 else 0) =
      users rs addr := by
  simpa only [users, decide_eq_true_iff] using
    countP_removeKey (fun r : Rsrc => decide (r.nttBlock = some addr)) htags hr

/-- A reference is counted; the block stays. -/
theorem Blocks.write (h : Blocks rs bs nextAddr) (htags : (rs.map Rsrc.ptag).Nodup) (hr : r ∈ rs)
    (hptag : r'.ptag = r.ptag) (hblock : r'.nttBlock = r.nttBlock) :
    Blocks (writeKey Rsrc.ptag rs r') bs nextAddr := by
  refine h.congr (fun t ht => .inr ?_) fun addr => ?_
  · rcases mem_writeKey ht with rfl | ⟨ht, -⟩
    · exact ⟨r, hr, hblock.symm⟩
    · exact ⟨t, ht, rfl⟩
  · have hwrite := users_write htags hr hptag addr
    rw [hblock] at hwrite
    exact Nat.add_right_cancel hwrite

/-- New resources have no block. -/
theorem Blocks.make (h : Blocks rs bs nextAddr) (hblock : r.nttBlock = none) :
    Blocks (rs ++ [r]) bs nextAddr := by
  refine h.congr (fun t ht => ?_) fun addr => ?_
  · rcases List.mem_append.mp ht with ht | ht
    · exact .inr ⟨t, ht, rfl⟩
    · rw [List.mem_singleton.mp ht]
      exact .inl hblock
  · rw [users, List.countP_append, List.countP_singleton, hblock]
    rfl

/-- Resources with a block get it; the block counts them. -/
theorem Blocks.join (h : Blocks rs bs nextAddr) (htags : (rs.map Rsrc.ptag).Nodup) (hr : r ∈ rs)
    (hnone : r.nttBlock = none) (hb : b ∈ bs) (selfdestruct : Bool) :
    Blocks (writeKey Rsrc.ptag rs { r with nttBlock := some b.addr })
      (writeKey NttBlock.addr bs { b with refCnt := b.refCnt + 1, selfdestruct }) nextAddr := by
  have hpos := h.counted b hb
  have hstay {addr : Nat} (ha : ∃ t ∈ bs, t.addr = addr) :
      ∃ t ∈ writeKey NttBlock.addr bs { b with refCnt := b.refCnt + 1, selfdestruct },
        t.addr = addr := by
    obtain ⟨t, ht, rfl⟩ := ha
    rcases eq_or_ne t.addr b.addr with heq | hne
    · exact ⟨_, mem_writeKey_self hb rfl, heq.symm⟩
    · exact ⟨t, mem_writeKey_of_ne ht hne, rfl⟩
  have hcount (addr : Nat) : users (writeKey Rsrc.ptag rs { r with nttBlock := some b.addr }) addr =
      users rs addr + if b.addr = addr then 1 else 0 := by
    have hptag : Rsrc.ptag { r with nttBlock := some b.addr } = r.ptag := rfl
    have hwrite := users_write htags hr hptag addr
    rw [hnone, if_neg (by simp)] at hwrite
    simpa only [Option.some.injEq, Nat.add_zero] using hwrite
  refine ⟨?_, fun t ht => ?_, fun t ht addr haddr => ?_, fun t ht => ?_, fun t ht hself => ?_⟩
  · rw [map_key_writeKey]
    exact h.addrs
  · rcases mem_writeKey ht with rfl | ⟨ht, -⟩
    · exact h.fresh b hb
    · exact h.fresh t ht
  · rcases mem_writeKey ht with rfl | ⟨ht, -⟩
    · exact hstay ⟨b, hb, Option.some.inj haddr⟩
    · exact hstay (h.active t ht addr haddr)
  · rcases mem_writeKey ht with rfl | ⟨ht, hne⟩
    · rw [hcount, if_pos rfl]
      dsimp only
      omega
    · rw [hcount, if_neg (Ne.symm hne), Nat.add_zero]
      exact h.counted t ht
  · rcases mem_writeKey ht with rfl | ⟨ht, -⟩
    · dsimp only
      omega
    · exact h.kept t ht hself

/-- Resources go, and the block counts them no longer. -/
theorem Blocks.leave (h : Blocks rs bs nextAddr) (htags : (rs.map Rsrc.ptag).Nodup) (hr : r ∈ rs)
    (hb : b ∈ bs) (hblock : r.nttBlock = some b.addr) :
    0 ≤ b.refCnt - 1 ∧
      Blocks (removeKey Rsrc.ptag rs r.ptag)
        (if b.refCnt - 1 = 0 ∧ b.selfdestruct = true then removeKey NttBlock.addr bs b.addr
          else writeKey NttBlock.addr bs { b with refCnt := b.refCnt - 1 }) nextAddr := by
  have hcounted := h.counted b hb
  have hown := users_remove htags hr b.addr
  rw [if_pos hblock] at hown
  have hother {addr : Nat} (hne : addr ≠ b.addr) :
      users (removeKey Rsrc.ptag rs r.ptag) addr = users rs addr := by
    have hremove := users_remove htags hr addr
    rwa [hblock, if_neg (fun heq => hne (Option.some.inj heq).symm), Nat.add_zero] at hremove
  refine ⟨by omega, ?_⟩
  by_cases hgone : b.refCnt - 1 = 0 ∧ b.selfdestruct = true
  · rw [if_pos hgone]
    refine ⟨nodup_removeKey h.addrs, fun t ht => h.fresh t (mem_removeKey.mp ht).1,
      fun t ht addr haddr => ?_, fun t ht => ?_, fun t ht => h.kept t (mem_removeKey.mp ht).1⟩
    · obtain ⟨t', ht', heq⟩ := h.active t (mem_removeKey.mp ht).1 addr haddr
      refine ⟨t', mem_removeKey.mpr ⟨ht', fun hsame => ?_⟩, heq⟩
      -- no resources point to the block any more
      have hzero : users (removeKey Rsrc.ptag rs r.ptag) b.addr = 0 := by omega
      rw [users, List.countP_eq_zero] at hzero
      exact hzero t ht (decide_eq_true (haddr.trans (congrArg some (heq.symm.trans hsame))))
    · obtain ⟨ht, hne⟩ := mem_removeKey.mp ht
      rw [hother hne]
      exact h.counted t ht
  · rw [if_neg hgone]
    refine ⟨?_, fun t ht => ?_, fun t ht addr haddr => ?_, fun t ht => ?_, fun t ht hself => ?_⟩
    · rw [map_key_writeKey]
      exact h.addrs
    · rcases mem_writeKey ht with rfl | ⟨ht, -⟩
      · exact h.fresh b hb
      · exact h.fresh t ht
    · obtain ⟨t', ht', heq⟩ := h.active t (mem_removeKey.mp ht).1 addr haddr
      rcases eq_or_ne t'.addr b.addr with hsame | hne
      · exact ⟨_, mem_writeKey_self hb rfl, hsame.symm.trans heq⟩
      · exact ⟨t', mem_writeKey_of_ne ht' hne, heq⟩
    · rcases mem_writeKey ht with rfl | ⟨ht, hne⟩
      · dsimp only
        omega
      · rw [hother hne]
        exact h.counted t ht
    · rcases mem_writeKey ht with rfl | ⟨ht, -⟩
      · have hne : b.refCnt - 1 ≠ 0 := fun hzero => hgone ⟨hzero, hself⟩
        dsimp only
        omega
      · exact h.kept t ht hself

/-- Resources without a block go. -/
theorem Blocks.remove (h : Blocks rs bs nextAddr) (htags : (rs.map Rsrc.ptag).Nodup) (hr : r ∈ rs)
    (hnone : r.nttBlock = none) : Blocks (removeKey Rsrc.ptag rs r.ptag) bs nextAddr := by
  refine h.congr (fun t ht => .inr ⟨t, (mem_removeKey.mp ht).1, rfl⟩) fun addr => ?_
  have hremove := users_remove htags hr addr
  rwa [hnone, if_neg (by simp), Nat.add_zero] at hremove

/-- Blocks that are not in use go. -/
theorem Blocks.filter (h : Blocks rs bs nextAddr) {p : NttBlock → Bool}
    (hp : ∀ b ∈ bs, p b = false → b.refCnt = 0) : Blocks rs (bs.filter p) nextAddr := by
  refine ⟨h.addrs.sublist (List.filter_sublist.map _),
    fun b hb => h.fresh b (List.mem_of_mem_filter hb),
    fun r hr addr haddr => ?_, fun b hb => h.counted b (List.mem_of_mem_filter hb),
    fun b hb => h.kept b (List.mem_of_mem_filter hb)⟩
  obtain ⟨b, hb, rfl⟩ := h.active r hr addr haddr
  refine ⟨b, List.mem_filter.mpr ⟨hb, ?_⟩, rfl⟩
  by_contra hno
  have hcount := h.counted b hb
  rw [hp b hb (by simpa using hno)] at hcount
  have hzero : users rs b.addr = 0 := by omega
  rw [users, List.countP_eq_zero] at hzero
  exact hzero r hr (decide_eq_true haddr)

/-- A block is added that nobody uses. -/
theorem Blocks.add (h : Blocks rs bs nextAddr) (base size : Int) :
    Blocks rs (⟨nextAddr, base, size, 0, false⟩ :: bs) (nextAddr + 1) := by
  refine ⟨?_, fun b hb => ?_, fun r hr addr haddr => ?_, fun b hb => ?_, fun b hb hself => ?_⟩
  · rw [List.map_cons, List.nodup_cons]
    refine ⟨fun hmem => ?_, h.addrs⟩
    obtain ⟨b, hb, heq⟩ := List.mem_map.mp hmem
    exact absurd heq (Nat.ne_of_lt (h.fresh b hb))
  · rcases List.mem_cons.mp hb with rfl | hb
    · exact Nat.lt_succ_self _
    · exact Nat.lt_succ_of_lt (h.fresh b hb)
  · obtain ⟨b, hb, heq⟩ := h.active r hr addr haddr
    exact ⟨b, .tail _ hb, heq⟩
  · rcases List.mem_cons.mp hb with rfl | hb
    · have hzero : users rs nextAddr = 0 := by
        rw [users, List.countP_eq_zero]
        intro r hr haddr
        obtain ⟨b, hb, heq⟩ := h.active r hr nextAddr (of_decide_eq_true haddr)
        exact absurd heq (Nat.ne_of_lt (h.fresh b hb))
      show (0 : Int) = users rs nextAddr
      rw [hzero]
      rfl
    · exact h.counted b hb
  · rcases List.mem_cons.mp hb with rfl | hb
    · cases hself
    · exact h.kept b hb hself

end Blocks

/-! ### The functions keep it -/

structure Inv (d : Dev) (lost : Nat → Nat) : Prop where
  refs : Refs d.resources d.nics lost
  blocks : Blocks d.resources d.activeNtts d.nextAddr

/-- Nothing is lost. -/
def Exact (lost : Nat → Nat) : Prop := ∀ p, 0 < p → lost p = 0

/-- Still the same resources. -/
def Rsrc.Same (r r' : Rsrc) : Prop :=
  r'.ptag = r.ptag ∧ r'.cookie = r.cookie ∧ r'.jobId = r.jobId ∧ r'.generation = r.generation

/-- A lost reference stays lost, and keeps its resources. -/
def Pins (rs rs' : List Rsrc) (lost lost' : Nat → Nat) : Prop :=
  ∀ r ∈ rs, 0 < lost r.ptag → (∃ r' ∈ rs', r.Same r') ∧ 0 < lost' r.ptag

/-- After a call; what was exact still is, if the caller did not know a tag before. -/
def Ends (d d' : Dev) (lost : Nat → Nat) (single : Prop) : Prop :=
  ∃ lost', Inv d' lost' ∧ (single → Exact lost → Exact lost') ∧
    Pins d.resources d'.resources lost lost'

section Calls

variable {c : Config} {d d' : Dev} {lost : Nat → Nat} {r : Rsrc} {n n' : Nic}

theorem Exact.lose {ptag : Nat} (h : Exact lost) (hptag : ptag = 0) : Exact (lose lost ptag) := by
  intro p hp
  rw [Resources.lose, if_neg (by omega), h p hp]

theorem Exact.update {ptag : Nat} (h : Exact lost) : Exact (Function.update lost ptag 0) := by
  intro p hp
  rcases eq_or_ne p ptag with rfl | hne
  · exact Function.update_self ..
  · rw [Function.update_of_ne hne]
    exact h p hp

theorem Rsrc.Same.refl (r : Rsrc) : r.Same r := ⟨rfl, rfl, rfl, rfl⟩

theorem Pins.of_eq {rs rs' : List Rsrc} (h : rs' = rs) : Pins rs rs' lost lost := by
  intro r hr hlost
  rw [h]
  exact ⟨⟨r, hr, .refl r⟩, hlost⟩

/-- Resources are written back. -/
theorem Pins.write {rs : List Rsrc} {r' : Rsrc} {lost' : Nat → Nat}
    (htags : (rs.map Rsrc.ptag).Nodup) (hr : r ∈ rs) (hsame : r.Same r')
    (hle : ∀ p, lost p ≤ lost' p) : Pins rs (writeKey Rsrc.ptag rs r') lost lost' := by
  intro t ht hlost
  refine ⟨?_, Nat.lt_of_lt_of_le hlost (hle t.ptag)⟩
  rcases eq_or_ne t.ptag r'.ptag with heq | hne
  · obtain rfl := List.inj_on_of_nodup_map htags ht hr (heq.trans hsame.1)
    exact ⟨r', mem_writeKey_self hr hsame.1.symm, hsame⟩
  · exact ⟨t, mem_writeKey_of_ne ht hne, .refl t⟩

theorem Pins.trans {rs₁ rs₂ rs₃ : List Rsrc} {lost₁ lost₂ lost₃ : Nat → Nat}
    (h : Pins rs₁ rs₂ lost₁ lost₂) (h' : Pins rs₂ rs₃ lost₂ lost₃) : Pins rs₁ rs₃ lost₁ lost₃ := by
  intro r hr hlost
  obtain ⟨⟨r', hr', hptag, hcookie, hjobId, hgen⟩, hlost'⟩ := h r hr hlost
  rw [← hptag] at hlost'
  obtain ⟨⟨r'', hr'', hptag', hcookie', hjobId', hgen'⟩, hlost''⟩ := h' r' hr' hlost'
  rw [hptag] at hlost''
  exact ⟨⟨r'', hr'', hptag'.trans hptag, hcookie'.trans hcookie, hjobId'.trans hjobId,
    hgen'.trans hgen⟩, hlost''⟩

theorem le_lose (lost : Nat → Nat) (ptag p : Nat) : lost p ≤ Resources.lose lost ptag p :=
  Nat.le_add_right _ _

theorem Inv.ends (h : Inv d' lost) (hrs : d'.resources = d.resources) (single : Prop) :
    Ends d d' lost single :=
  ⟨lost, h, fun _ hx => hx, Pins.of_eq hrs⟩

theorem Ends.imp {single single' : Prop} (h : Ends d d' lost single) (himp : single' → single) :
    Ends d d' lost single' := by
  obtain ⟨lost', hinv, hexact, hpins⟩ := h
  exact ⟨lost', hinv, fun hsingle => hexact (himp hsingle), hpins⟩

theorem rsrc_some {ptag : Nat} (h : d.rsrc ptag = some r) : r ∈ d.resources ∧ r.ptag = ptag :=
  findKey_some h

theorem rsrc_none {ptag : Nat} (h : d.rsrc ptag = none) : ∀ r ∈ d.resources, r.ptag ≠ ptag := by
  intro r hr heq
  exact List.find?_eq_none.mp h r hr (decide_eq_true heq)

/-- The block of resources is there. -/
theorem Inv.exists_block (h : Inv d lost) (hr : r ∈ d.resources) {addr : Nat}
    (haddr : r.nttBlock = some addr) :
    ∃ b ∈ d.activeNtts, b.addr = addr ∧ d.block addr = some b := by
  obtain ⟨b, hb, rfl⟩ := h.blocks.active r hr addr haddr
  exact ⟨b, hb, rfl, findKey_eq h.blocks.addrs hb⟩

theorem nttDecref_ok (h : Inv d lost) (hr : r ∈ d.resources) :
    ∃ d', nttDecref d r.nttBlock = .ok d' ∧ d'.resources = d.resources ∧ d'.nics = d.nics ∧
      Blocks (removeKey Rsrc.ptag d.resources r.ptag) d'.activeNtts d'.nextAddr := by
  rcases haddr : r.nttBlock with - | addr
  · exact ⟨d, rfl, rfl, rfl, h.blocks.remove h.refs.tags hr haddr⟩
  · obtain ⟨b, hb, rfl, hfind⟩ := h.exists_block hr haddr
    obtain ⟨hpos, hblocks⟩ := h.blocks.leave h.refs.tags hr hb haddr
    unfold nttDecref
    dsimp only
    rw [hfind]
    dsimp only
    rw [if_neg (by omega)]
    by_cases hgone : b.refCnt - 1 = 0 ∧ b.selfdestruct = true
    · rw [if_pos hgone] at hblocks
      rw [if_pos hgone]
      exact ⟨_, rfl, rfl, rfl, hblocks⟩
    · rw [if_neg hgone] at hblocks
      rw [if_neg hgone]
      exact ⟨_, rfl, rfl, rfl, hblocks⟩

/-- A NIC drops its reference and forgets the tag. -/
theorem resourceDecref_ok (h : Inv d lost) (hn : n ∈ d.nics) (hid : n'.id = n.id)
    (hptag : n'.ptag = 0) (hasked : n'.Asked) :
    ∃ d', resourceDecref d n = .ok d' ∧ d'.nics = d.nics ∧ Inv (d'.writeNic n') lost ∧
      Pins d.resources d'.resources lost lost := by
  unfold resourceDecref
  by_cases hzero : n.ptag = 0
  · rw [if_pos hzero]
    exact ⟨d, rfl, rfl, ⟨h.refs.keep hn hid (hptag.trans hzero.symm) hasked, h.blocks⟩,
      Pins.of_eq rfl⟩
  rw [if_neg hzero]
  -- the NIC knows the tag, so it has resources
  obtain ⟨r, hr, hsame⟩ := h.refs.home n hn hzero
  have hfind : d.rsrc n.ptag = some r := hsame ▸ findKey_eq h.refs.tags hr
  rw [hfind]
  have hrefs := h.refs.drop hr hn hid hsame.symm hptag hasked
  dsimp only
  by_cases hlast : r.refCnt - 1 = 0
  · rw [if_pos hlast] at hrefs
    rw [if_pos hlast]
    obtain ⟨d', hdecref, hrs, hns, hblocks⟩ := nttDecref_ok h hr
    rw [hdecref]
    refine ⟨_, rfl, hns, ⟨?_, ?_⟩, ?_⟩
    · show Refs (removeKey Rsrc.ptag d'.resources n.ptag) (writeKey Nic.id d'.nics n') lost
      rw [hrs, hns, ← hsame]
      exact hrefs
    · show Blocks (removeKey Rsrc.ptag d'.resources n.ptag) d'.activeNtts d'.nextAddr
      rw [hrs, ← hsame]
      exact hblocks
    · show Pins d.resources (removeKey Rsrc.ptag d'.resources n.ptag) lost lost
      rw [hrs, ← hsame]
      -- the last reference was the NIC's, so none of the tag is lost
      have hheld : 0 < holders d.nics r.ptag :=
        List.countP_pos_iff.mpr ⟨n, hn, decide_eq_true hsame.symm⟩
      have hcounted := (h.refs.counted r hr).1
      intro t ht hlost
      refine ⟨⟨t, mem_removeKey.mpr ⟨ht, fun heq => ?_⟩, .refl t⟩, hlost⟩
      rw [heq] at hlost
      omega
  · rw [if_neg hlast] at hrefs
    rw [if_neg hlast]
    exact ⟨_, rfl, rfl, ⟨hrefs, h.blocks.write h.refs.tags hr rfl rfl⟩,
      Pins.write h.refs.tags hr ⟨rfl, rfl, rfl, rfl⟩ fun _ => Nat.le_refl _⟩

theorem Inv.forget (h : Inv d lost) (hn : n ∈ d.nics) (hid : n'.id = n.id) (hptag : n'.ptag = 0)
    (hasked : n'.Asked) : Ends d (d.writeNic n') lost (n.ptag = 0) := by
  refine ⟨lose lost n.ptag, ⟨h.refs.forget hn hid hptag hasked, h.blocks⟩,
    fun hzero hx => hx.lose hzero, fun r hr hlost => ⟨⟨r, hr, .refl r⟩, ?_⟩⟩
  exact Nat.lt_of_lt_of_le hlost (le_lose ..)

theorem Inv.take (h : Inv d lost) (hr : r ∈ d.resources) (hn : n ∈ d.nics) (hid : n'.id = n.id)
    (hptag : n'.ptag = r.ptag) (hasked : n'.Asked) : Ends d (d.take n' r) lost (n.ptag = 0) :=
  ⟨lose lost n.ptag, ⟨h.refs.take hr hn hid hptag hasked, h.blocks.write h.refs.tags hr rfl rfl⟩,
    fun hzero hx => hx.lose hzero,
    Pins.write h.refs.tags hr ⟨rfl, rfl, rfl, rfl⟩ (le_lose lost n.ptag)⟩

theorem Inv.make (h : Inv d lost) (hnone : d.rsrc r.ptag = none)
    (htag : 0 < r.ptag ∧ r.ptag < ptagMaxNumber) (hone : r.refCnt = 1) (hblock : r.nttBlock = none)
    (hn : n ∈ d.nics) (hid : n'.id = n.id) (hptag : n'.ptag = r.ptag) (hasked : n'.Asked) :
    Ends d (d.make n' r) lost (n.ptag = 0) := by
  refine ⟨_, ⟨h.refs.make (rsrc_none hnone) htag hone hn hid hptag hasked, h.blocks.make hblock⟩,
    fun hzero hx => (hx.lose hzero).update, fun t ht hlost => ?_⟩
  rw [Function.update_of_ne (rsrc_none hnone t ht)]
  exact ⟨⟨t, List.mem_append_left _ ht, .refl t⟩, Nat.lt_of_lt_of_le hlost (le_lose ..)⟩

theorem Nic.asked_of_phase (hphase : ∀ a, n.phase ≠ .allocating a) : n.Asked :=
  fun a ha => absurd ha (hphase a)

theorem takeNtt_ok (h : Inv d lost) (hr : r ∈ d.resources) (n : Nic) :
    ∃ base size, takeNtt c d n r = .ok { n with nttBase := base, nttGrpSize := size } := by
  unfold takeNtt
  rcases haddr : r.nttBlock with - | addr
  · exact ⟨n.nttBase, n.nttGrpSize, rfl⟩
  · obtain ⟨b, -, -, hfind⟩ := h.exists_block hr haddr
    dsimp only
    rw [hfind]
    exact ⟨_, _, rfl⟩

theorem increfFast_ok (h : Inv d lost) (hn : n ∈ d.nics) (hid : n'.id = n.id)
    (hptag : n'.ptag = n.ptag) {a : AttachArgs} (htag : 0 < a.ptag ∧ a.ptag < ptagMaxNumber) :
    ∃ d' ret, increfFast c d n' a = .ok (d', ret) ∧ Ends d d' lost (n.ptag = 0) := by
  unfold increfFast
  rcases hfind : d.rsrc a.ptag with - | r
  · dsimp only
    split
    · exact ⟨_, _, rfl, h.forget hn hid rfl (Nic.asked_of_phase fun a ha => (by cases ha))⟩
    · have hasked : Nic.Asked { n' with phase := .allocating a } := by
        rintro _ ⟨⟩
        exact htag
      have hkeep : Inv (d.writeNic { n' with phase := .allocating a }) lost :=
        ⟨h.refs.keep hn hid hptag hasked, h.blocks⟩
      exact ⟨_, _, rfl, hkeep.ends rfl _⟩
  · obtain ⟨hr, -⟩ := rsrc_some hfind
    obtain ⟨base, size, hntt⟩ := takeNtt_ok (c := c) h hr n'
    dsimp only
    rw [hntt]
    dsimp only
    split
    · exact ⟨_, _, rfl, h.forget hn hid rfl (Nic.asked_of_phase fun a ha => (by cases ha))⟩
    · exact ⟨_, _, rfl, h.take hr hn hid rfl (Nic.asked_of_phase fun a ha => (by cases ha))⟩

theorem increfSlow_ok (h : Inv d lost) (hn : n ∈ d.nics) {a : AttachArgs}
    (hphase : n.phase = .allocating a) (allocFails : Bool) :
    Ends d (increfSlow d n a allocFails).1 lost (n.ptag = 0) := by
  unfold increfSlow
  split
  · exact h.forget hn rfl rfl (Nic.asked_of_phase fun a ha => (by cases ha))
  · rcases hfind : d.rsrc a.ptag with - | r
    · exact h.make hfind (h.refs.asked n hn a hphase) rfl rfl hn rfl rfl
        (Nic.asked_of_phase fun a ha => (by cases ha))
    · dsimp only
      split
      · exact h.forget hn rfl rfl (Nic.asked_of_phase fun a ha => (by cases ha))
      · exact h.take (rsrc_some hfind).1 hn rfl rfl (Nic.asked_of_phase fun a ha => (by cases ha))

theorem nicAttach_ok (hc : c.Checks) (h : Inv d lost) (hn : n ∈ d.nics) (a : AttachArgs) :
    ∃ d' ret, nicAttach c d n a = .ok (d', ret) ∧
      Ends d d' lost (n.phase = .idle → n.ptag = 0) := by
  unfold nicAttach
  by_cases hphase : n.phase ≠ .idle
  · rw [if_pos hphase]
    exact ⟨d, _, rfl, h.ends rfl _⟩
  rw [if_neg hphase]
  rw [not_not] at hphase
  rcases hcheck : c.checkPtag a.ptag (cookiePkey a.cookie) with e | u
  · exact ⟨d, _, rfl, h.ends rfl _⟩
  rcases a.cdm with e | - | -
  · exact ⟨d, _, rfl, h.ends rfl _⟩
  · have hasked : Nic.Asked { n with ptag := 0 } := by
      refine Nic.asked_of_phase fun b hb => ?_
      cases hphase.symm.trans hb
    have hid : Nic.id { n with ptag := 0 } = n.id := rfl
    exact ⟨_, _, rfl, (h.forget hn hid rfl hasked).imp fun hsingle => hsingle hphase⟩
  · have hid : Nic.id { n with cookie := a.cookie } = n.id := rfl
    obtain ⟨d', ret, hincref, hends⟩ := increfFast_ok (c := c) h hn hid rfl (hc _ _ hcheck)
    exact ⟨d', ret, hincref, hends.imp fun hsingle => hsingle hphase⟩

theorem attachEnd_ok (h : Inv d lost) (hn : n ∈ d.nics) (failure : Option Errno) :
    ∃ d' ret, attachEnd d n failure = .ok (d', ret) ∧ Ends d d' lost True := by
  rcases failure with - | e
  · have hinv : Inv (d.writeNic { n with phase := .attached }) lost :=
      ⟨h.refs.keep hn rfl rfl (Nic.asked_of_phase fun a ha => (by cases ha)), h.blocks⟩
    exact ⟨_, _, rfl, hinv.ends rfl _⟩
  · have hid : n.unattached.id = n.id := rfl
    obtain ⟨d', hdecref, -, hinv, hpins⟩ := resourceDecref_ok h hn hid rfl
      (Nic.asked_of_phase fun a ha => (by cases ha))
    refine ⟨d'.writeNic n.unattached, .error e, ?_, lost, hinv, fun _ hx => hx, hpins⟩
    rw [attachEnd, hdecref]
    rfl

theorem nicDetach_ok (h : Inv d lost) (hn : n ∈ d.nics) :
    Ends d (nicDetach d n).1 lost True := by
  unfold nicDetach
  split
  · exact h.ends rfl _
  · have hinv : Inv (d.writeNic { n with phase := .idle }) lost :=
      ⟨h.refs.keep hn rfl rfl (Nic.asked_of_phase fun a ha => (by cases ha)), h.blocks⟩
    exact hinv.ends rfl _

theorem nicDestroy_ok (h : Inv d lost) (hn : n ∈ d.nics) :
    ∃ d' ret, nicDestroy d n = .ok (d', ret) ∧ Ends d d' lost True := by
  unfold nicDestroy
  split
  · exact ⟨d, _, rfl, h.ends rfl _⟩
  · have hid : n.unattached.id = n.id := rfl
    obtain ⟨d', hdecref, hns, hinv, hpins⟩ := resourceDecref_ok h hn hid rfl
      (Nic.asked_of_phase fun a ha => (by cases ha))
    rw [hdecref]
    refine ⟨_, _, rfl, lost, ⟨?_, hinv.blocks⟩, fun _ hx => hx, hpins⟩
    -- it goes as a NIC that has forgotten its tag
    have hmem : n.unattached ∈ (d'.writeNic n.unattached).nics := by
      rw [Dev.writeNic, hns]
      exact mem_writeKey_self hn hid.symm
    have hremove := hinv.refs.remove hmem rfl
    rwa [Dev.writeNic, removeKey_writeKey] at hremove

theorem nttFindIncref_ok (h : Inv d lost) (hr : r ∈ d.resources) (hnone : r.nttBlock = none)
    (base size : Int) (selfdestruct : Bool) :
    (∃ e, nttFindIncref d base size selfdestruct = .ok (d, .error e)) ∨
      ∃ b ∈ d.activeNtts, nttFindIncref d base size selfdestruct =
        .ok (d.writeBlock { b with refCnt := b.refCnt + 1, selfdestruct }, .ok b.addr) := by
  unfold nttFindIncref
  split
  · exact .inl ⟨_, rfl⟩
  · next b hfind =>
      have hb := List.mem_of_find?_eq_some hfind
      -- the resources are one more than those that use the block
      have hroom : users d.resources b.addr + 1 ≤ ptagMaxNumber := by
        have hless : users d.resources b.addr < d.resources.length := by
          rw [users, List.countP_lt_length_iff]
          exact ⟨r, hr, by simp [hnone]⟩
        exact Nat.le_trans hless h.refs.length_le
      have hcounted := h.blocks.counted b hb
      refine .inr ⟨b, hb, ?_⟩
      dsimp only
      rw [if_neg (by omega)]

theorem configNtt_ok (h : Inv d lost) (ptag : Nat) (limits : Option (Int × Int × Bool)) :
    ∃ d' ret, configNtt d ptag limits = .ok (d', ret) ∧ Ends d d' lost True := by
  unfold configNtt
  rcases limits with - | ⟨base, size, cleanup⟩
  · exact ⟨d, _, rfl, h.ends rfl _⟩
  rcases hfind : d.rsrc ptag with - | r
  · exact ⟨d, _, rfl, h.ends rfl _⟩
  obtain ⟨hr, -⟩ := rsrc_some hfind
  dsimp only
  split
  · rcases haddr : r.nttBlock with - | addr
    · rcases nttFindIncref_ok h hr haddr base size cleanup with ⟨e, hincref⟩ | ⟨b, hb, hincref⟩
      · dsimp only
        rw [hincref]
        exact ⟨d, _, rfl, h.ends rfl _⟩
      · dsimp only
        rw [hincref]
        exact ⟨_, _, rfl, lost, ⟨h.refs.setBlock hr (some b.addr),
          h.blocks.join h.refs.tags hr haddr hb cleanup⟩, fun _ hx => hx,
          Pins.write h.refs.tags hr ⟨rfl, rfl, rfl, rfl⟩ fun _ => Nat.le_refl _⟩
    · obtain ⟨b, -, -, hblock⟩ := h.exists_block hr haddr
      dsimp only
      rw [hblock]
      dsimp only
      split
      · exact ⟨d, _, rfl, h.ends rfl _⟩
      · exact ⟨d, _, rfl, h.ends rfl _⟩
  · exact ⟨d, _, rfl, h.ends rfl _⟩

theorem jobConfig_ok (hc : c.Checks) (h : Inv d lost) (hn : n ∈ d.nics) (a : JobArgs) :
    ∃ d' ret, jobConfig c d n a = .ok (d', ret) ∧ Ends d d' lost (n.ptag = 0) := by
  unfold jobConfig
  rcases hcheck : c.checkPtag a.ptag (cookiePkey a.cookie) with e | u
  · exact ⟨d, _, rfl, h.ends rfl _⟩
  have hid : Nic.id { n with ptag := a.ptag, cookie := a.cookie } = n.id := rfl
  have hasked : Nic.Asked { n with ptag := a.ptag, cookie := a.cookie } :=
    fun b hb => h.refs.asked n hn b hb
  have hconfig {d' : Dev} (hends : Ends d d' lost (n.ptag = 0)) :
      ∃ d'' ret, configNtt d' a.ptag a.limits = .ok (d'', ret) ∧ Ends d d'' lost (n.ptag = 0) := by
    obtain ⟨lost', hinv, hexact, hpins⟩ := hends
    obtain ⟨d'', ret, hntt, lost'', hinv', hexact', hpins'⟩ := configNtt_ok hinv a.ptag a.limits
    exact ⟨d'', ret, hntt, lost'', hinv', fun hs hx => hexact' trivial (hexact hs hx),
      hpins.trans hpins'⟩
  dsimp only
  split
  · exact ⟨d, _, rfl, h.ends rfl _⟩
  rcases hfind : d.rsrc a.ptag with - | r
  · exact hconfig (h.make hfind (hc _ _ hcheck) rfl rfl hn hid rfl hasked)
  · obtain ⟨hr, hptag⟩ := rsrc_some hfind
    dsimp only
    split
    · exact ⟨d, _, rfl, h.ends rfl _⟩
    split
    · exact ⟨d, _, rfl, h.ends rfl _⟩
    exact hconfig (h.take hr hn hid hptag.symm hasked)

theorem nttCleanup_ok (h : Inv d lost) (base size : Int) (free : NttBlock → Except Errno Unit) :
    Ends d (nttCleanup d base size free).1 lost True := by
  unfold nttCleanup
  split
  · exact h.ends rfl _
  · refine ⟨lost, ⟨h.refs, h.blocks.filter fun b _ hdoomed => ?_⟩, fun _ hx => hx, Pins.of_eq rfl⟩
    rw [Bool.not_eq_false', decide_eq_true_iff] at hdoomed
    exact hdoomed.2

theorem nttConfig_ok (h : Inv d lost) (a : NttArgs) : Ends d (nttConfig d a).1 lost True := by
  unfold nttConfig
  rcases a.granularity with e | u
  · exact h.ends rfl _
  dsimp only
  split
  · exact h.ends rfl _
  split
  · exact nttCleanup_ok h _ _ _
  rcases a.alloc with e | base
  · exact h.ends rfl _
  rcases a.setTbl with e | u
  · exact h.ends rfl _
  dsimp only
  split
  · exact h.ends rfl _
  · exact ⟨lost, ⟨h.refs, h.blocks.add _ _⟩, fun _ hx => hx, Pins.of_eq rfl⟩

end Calls

/-! ### Runs keep it -/

section Runs

variable {c : Config} {d : Dev} {lost : Nat → Nat}

theorem on_eq {n : Nic} (h : Inv d lost) (hn : n ∈ d.nics)
    (f : Nic → Except Fault (Dev × Except Errno Unit)) : d.on n.id f = f n := by
  have hfind : d.nic n.id = some n := findKey_eq h.refs.ids hn
  rw [Dev.on, hfind]

theorem step_ok (hc : c.Checks) (h : Inv d lost) {op : Op} (hen : op.Enabled d) :
    ∃ d' ret, step c d op = .ok (d', ret) ∧ Ends d d' lost (op.Single d) := by
  cases op with
  | create id kernel =>
      have hinv : Inv (d.create id kernel) lost := ⟨h.refs.add hen rfl rfl, h.blocks⟩
      exact ⟨_, _, rfl, hinv.ends rfl _⟩
  | attach id a =>
      obtain ⟨n, hn, rfl, -⟩ := hen
      obtain ⟨d', ret, hattach, hends⟩ := nicAttach_ok hc h hn a
      exact ⟨d', ret, (on_eq h hn _).trans hattach, hends.imp fun hsingle => hsingle n hn rfl⟩
  | alloc id allocFails =>
      obtain ⟨n, hn, rfl, a, hphase⟩ := hen
      have hends := increfSlow_ok h hn hphase allocFails
      refine ⟨(increfSlow d n a allocFails).1, (increfSlow d n a allocFails).2, ?_,
        hends.imp fun hsingle => hsingle n hn rfl⟩
      rw [step, on_eq h hn, hphase]
  | finish id failure =>
      obtain ⟨n, hn, rfl, hphase⟩ := hen
      obtain ⟨d', ret, hend, hends⟩ := attachEnd_ok h hn failure
      refine ⟨d', ret, ?_, hends⟩
      rw [step, on_eq h hn, if_pos hphase]
      exact hend
  | detach id =>
      obtain ⟨n, hn, rfl, -⟩ := hen
      exact ⟨_, _, on_eq h hn _, nicDetach_ok h hn⟩
  | destroy id =>
      obtain ⟨n, hn, rfl, -⟩ := hen
      obtain ⟨d', ret, hdestroy, hends⟩ := nicDestroy_ok h hn
      exact ⟨d', ret, (on_eq h hn _).trans hdestroy, hends⟩
  | jobConfig id a =>
      obtain ⟨n, hn, rfl, -⟩ := hen
      obtain ⟨d', ret, hconfig, hends⟩ := jobConfig_ok hc h hn a
      exact ⟨d', ret, (on_eq h hn _).trans hconfig, hends.imp fun hsingle => hsingle n hn rfl⟩
  | nttConfig a => exact ⟨_, _, rfl, nttConfig_ok h a⟩

/-- Along a run, by induction on what is left of it. -/
theorem run_ok (hc : c.Checks) {ops : List Op} :
    ∀ {d : Dev} {lost : Nat → Nat}, Inv d lost → Along c Op.Enabled d ops →
      ∃ d', run c d ops = .ok d' ∧ Ends d d' lost (Along c Op.Single d ops) := by
  induction ops with
  | nil => exact fun {d _} h _ => ⟨d, rfl, h.ends rfl _⟩
  | cons op ops ih =>
      intro d lost h hen
      obtain ⟨d₁, ret, hstep, hends⟩ := step_ok hc h hen.1
      obtain ⟨lost₁, hinv₁, hexact₁, hpins₁⟩ := hends
      obtain ⟨d₂, hrun, lost₂, hinv₂, hexact₂, hpins₂⟩ := ih hinv₁ (hen.2 d₁ ret hstep)
      refine ⟨d₂, ?_, lost₂, hinv₂, fun hsingle hx => ?_, hpins₁.trans hpins₂⟩
      · rw [run, hstep]
        exact hrun
      · exact hexact₂ (hsingle.2 d₁ ret hstep) (hexact₁ hsingle.1 hx)

theorem inv_start : Inv .start fun _ => 0 := by
  constructor
  · exact ⟨List.nodup_nil, fun _ h => (by cases h), List.nodup_nil, fun _ h => (by cases h),
      fun _ h => (by cases h), fun _ h => (by cases h)⟩
  · exact ⟨List.nodup_nil, fun _ h => (by cases h), fun _ h => (by cases h),
      fun _ h => (by cases h), fun _ h => (by cases h)⟩

/-! ### Every run -/

/-- What is pointed to is there, and is counted. -/
structure Sound (d : Dev) : Prop where
  known : ∀ n ∈ d.nics, n.ptag ≠ 0 → ∃ r, d.rsrc n.ptag = some r
  held : ∀ r ∈ d.resources, (holders d.nics r.ptag : Int) ≤ r.refCnt ∧ 0 < r.refCnt
  block : ∀ r ∈ d.resources, ∀ addr, r.nttBlock = some addr → ∃ b, d.block addr = some b
  counted : ∀ b ∈ d.activeNtts,
    b.refCnt = users d.resources b.addr ∧ b.refCnt ≤ ptagMaxNumber ∧
      (b.selfdestruct = true → 0 < b.refCnt)

theorem Inv.sound (h : Inv d lost) : Sound d where
  known n hn hne := by
    obtain ⟨r, hr, hsame⟩ := h.refs.home n hn hne
    exact ⟨r, hsame ▸ findKey_eq h.refs.tags hr⟩
  held r hr := by
    obtain ⟨hcount, hpos⟩ := h.refs.counted r hr
    exact ⟨by omega, hpos⟩
  block r hr addr haddr := by
    obtain ⟨b, -, -, hfind⟩ := h.exists_block hr haddr
    exact ⟨b, hfind⟩
  counted b hb := by
    have hcount := h.blocks.counted b hb
    have hle : users d.resources b.addr ≤ d.resources.length := List.countP_le_length
    have hlen := h.refs.length_le
    exact ⟨hcount, by omega, h.blocks.kept b hb⟩

/-- **No assertion fails and nothing is used after it is freed**, in every interleaving of the
calls; in every state that a run reaches a NIC finds the resources of its tag, and resources
find their block. -/
theorem resources_safe (hc : c.Checks) {ops : List Op} (hen : Along c Op.Enabled .start ops) :
    ∃ d, run c .start ops = .ok d ∧ Sound d := by
  obtain ⟨d, hrun, lost, hinv, -⟩ := run_ok hc inv_start hen
  exact ⟨d, hrun, hinv.sound⟩

/-- Tags that are places in the array. -/
def sampleConfig : Config :=
  ⟨fun ptag _ => if 0 < ptag ∧ ptag < ptagMaxNumber then .ok () else .error .einval, false, 1⟩

theorem sampleConfig_checks : sampleConfig.Checks := by
  intro ptag pkey hcheck
  unfold sampleConfig at hcheck
  dsimp only at hcheck
  split at hcheck
  · assumption
  · cases hcheck

/-- A job is configured with a block of the table, and ends. -/
def sampleJob : List Op :=
  [.nttConfig ⟨.ok (), false, 0, 8, .ok 16, .ok (), false, fun _ => .ok ()⟩, .create 1 true,
    .jobConfig 1 ⟨5, 7, 9, some (16, 8, true), false⟩, .create 2 false,
    .attach 2 ⟨5, 7, 9, .found⟩, .finish 2 none, .destroy 1, .detach 2, .destroy 2]

theorem resources_safe_job : ∃ d, run sampleConfig .start sampleJob = .ok d ∧ Sound d :=
  resources_safe sampleConfig_checks (by decide)

/-- **A lost reference is lost for good.**  Resources with more references than NICs stay with
their tag and their job, and keep a reference that no NIC knows of, whatever is done. -/
theorem leak_stays (hc : c.Checks) {ops more : List Op} (hen : Along c Op.Enabled .start ops)
    (hrun : run c .start ops = .ok d) (hmore : Along c Op.Enabled d more) {r : Rsrc}
    (hr : r ∈ d.resources) (hleak : (holders d.nics r.ptag : Int) < r.refCnt) :
    ∃ d', run c d more = .ok d' ∧
      ∃ r' ∈ d'.resources, r.Same r' ∧ (holders d'.nics r.ptag : Int) < r'.refCnt := by
  obtain ⟨d₀, hrun₀, lost, hinv, -⟩ := run_ok hc inv_start hen
  obtain rfl := Except.ok.inj (hrun.symm.trans hrun₀)
  have hlost : 0 < lost r.ptag := by
    have hcount := (hinv.refs.counted r hr).1
    omega
  obtain ⟨d', hrun', lost', hinv', -, hpins⟩ := run_ok hc hinv hmore
  obtain ⟨⟨r', hr', hsame⟩, hlost'⟩ := hpins r hr hlost
  have hcount := (hinv'.refs.counted r' hr').1
  rw [hsame.1] at hcount
  exact ⟨d', hrun', r', hr', hsame, by omega⟩

/-- Who configures a job, attaches as well and fails has dropped one reference of two. -/
def sampleLeak : List Op :=
  [.create 1 false, .jobConfig 1 ⟨5, 7, 9, none, false⟩, .attach 1 ⟨5, 7, 9, .found⟩,
    .finish 1 (some .enomem)]

theorem leak_stays_attach :
    ∃ d, run sampleConfig .start sampleLeak = .ok d ∧
      ∃ d', run sampleConfig d [.destroy 1] = .ok d' ∧
        ∃ r' ∈ d'.resources, Rsrc.Same ⟨5, 1, 7, 9, 0, none⟩ r' ∧
          (holders d'.nics 5 : Int) < r'.refCnt := by
  have hen : Along sampleConfig Op.Enabled .start sampleLeak := by decide
  refine ⟨_, rfl, leak_stays sampleConfig_checks hen rfl ?_ (List.mem_singleton_self _) ?_⟩
  · decide
  · decide

end Runs

end Nvl.Resources

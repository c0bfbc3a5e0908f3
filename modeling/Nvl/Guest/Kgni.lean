/-
Nvl/Guest/Kgni.lean

The stub driver of `/dev/kgni0` in the guest, `guest/drivers/kgni/kgni_main.c`:
its variables, the list of guest records, and `kgni_ioctl` with every case of its
`switch`.

The driver keeps three variables and a list with one record per process.
`kgni_ioctl` copies arguments from and to the caller and passes two of its commands
on by hypercall.  The record of the caller is looked up and written without a test
for NULL, which ends the call in a fault; `GNI_IOC_NIC_SETATTR` has no `break` and
falls into the default case; the `retval` of a failed copy is not what is returned.
-/
import Nvl.Lib.Prog
import Nvl.Gni.Args

namespace Nvl.Guest

open SysLib

/-! ### The driver's data -/

/-- `kgni_arg_t`. -/
structure KgniArg where
  cookie : UInt32
  ptag : UInt32
  instance_ : UInt32
  pid : UInt32
  deriving DecidableEq, Inhabited

/-- `struct guestvm_struct`, without the `file` that nothing sets. -/
structure GuestvmStruct where
  guestPid : UInt32
  hostPid : UInt32
  hCookie : UInt32
  hTag : UInt32
  hInstance : UInt32
  deriving DecidableEq, Inhabited

/-- The globals of the driver. -/
structure Driver where
  cookie : UInt32
  ptag : UInt32
  instance_ : UInt32
  guestvmList : List GuestvmStruct
  deriving DecidableEq

/-- The driver after `kgni_init`. -/
def kgniInit : Driver := ⟨1, 3, 10, []⟩

/-- `add_guest_vm` on the memory that `kmalloc` gave.  No one calls it. -/
def addGuestVm (l : List GuestvmStruct) (mem : Option GuestvmStruct) (pid : UInt32) :
    List GuestvmStruct :=
  match mem with
  | none => l
  | some guestvm => { guestvm with guestPid := pid } :: l

/-- `get_guest_vm`: the place of the first record of the process. -/
def getGuestVm (l : List GuestvmStruct) (pid : UInt32) : Option Nat :=
  l.findIdx? fun gvm => gvm.guestPid = pid

example :
    getGuestVm (addGuestVm (addGuestVm [] (some default) 7) (some default) 42) 7 = some 1 := by
  decide

/-! ### `kgni_ioctl` -/

/-- `KGNI_GET_VARIABLES`; the size is that of a pointer. -/
def kgniGetVariables : UInt32 := ioc 2 0x6b 1 8

/-- `KGNI_CLR_VARIABLES`. -/
def kgniClrVariables : UInt32 := ioc 0 0x6b 2 0

/-- `KGNI_SET_VARIABLES`. -/
def kgniSetVariables : UInt32 := ioc 1 0x6b 3 8

/-- `KGNI_SEND_BUF`. -/
def kgniSendBuf : UInt32 := ioc 3 0x6b 4 8

/-- The buffer a hypercall is given. -/
inductive HcallBuf
  | arg (q : KgniArg)
  | nicAttr (a : GniNicSetattrArgs)
  deriving DecidableEq

/-- What `kgni_ioctl` calls.  `copyToUser` shows the fields of `q` that were set, `copyArg`
and `copyNicAttr` are `copy_from_user` into `q` and `nic_attr`; the hypercall carries its
parameters, the last one being whether the buffer for the answer is there. -/
inductive GuestCall
  | copyToUser (cookie ptag instance_ : UInt32)
  | copyArg
  | copyNicAttr
  | kmalloc
  | hcall3 (id param1 : UInt64) (param2 : HcallBuf) (param3 : UInt64) (param4 : Bool)
  deriving DecidableEq

/-- Whether the copy or the allocation succeeded, with what was read; a failed copy
leaves something in `nic_attr` too. -/
@[reducible] def GuestCall.Ans : GuestCall → Type
  | copyToUser _ _ _ => Bool
  | copyArg => Option KgniArg
  | copyNicAttr => Bool × GniNicSetattrArgs
  | kmalloc => Bool
  | hcall3 _ _ _ _ _ => UInt64

abbrev GuestM : Type → Type := Prog GuestCall GuestCall.Ans

namespace GuestM

def copyToUser (cookie ptag instance_ : UInt32) : GuestM Bool :=
  Prog.call (GuestCall.copyToUser cookie ptag instance_)

def copyArg : GuestM (Option KgniArg) := Prog.call GuestCall.copyArg
def copyNicAttr : GuestM (Bool × GniNicSetattrArgs) := Prog.call GuestCall.copyNicAttr
def kmalloc : GuestM Bool := Prog.call GuestCall.kmalloc

def hcall3 (id param1 : UInt64) (param2 : HcallBuf) (param3 : UInt64) (param4 : Bool) :
    GuestM UInt64 := Prog.call (GuestCall.hcall3 id param1 param2 param3 param4)

end GuestM

open GuestM

/-- How a call into the driver ends: with a value, or writing through NULL. -/
inductive IoctlEnd
  | returned (v : Int)
  | nullDeref
  deriving DecidableEq

/-- `EACCES` and `EINVAL`. -/
def eacces : Int := 13
def einval : Int := 22

/-- `hcall` of `kgni_ioctl`. -/
def hcallId : UInt64 := 0xc0c2

/-- The record after `KGNI_SET_VARIABLES`. -/
def setRecord (pid : UInt32) (q : KgniArg) (_ : GuestvmStruct) : GuestvmStruct where
  guestPid := pid
  hostPid := q.pid
  hTag := q.ptag
  hCookie := q.cookie
  hInstance := q.instance_

/-- `KGNI_GET_VARIABLES`. -/
def getVariables (d : Driver) : GuestM (Driver × IoctlEnd) := do
  let ok ← copyToUser d.cookie d.ptag d.instance_
  if !ok then return (d, .returned (-eacces))
  else return (d, .returned 0)

/-- `KGNI_SET_VARIABLES`, on behalf of the process `mypid`. -/
def setVariables (d : Driver) (mypid : UInt32) : GuestM (Driver × IoctlEnd) := do
  let q ← copyArg
  match q with
  | none => return (d, .returned (-eacces))
  | some q =>
    let d := { d with cookie := q.cookie, ptag := q.ptag, instance_ := q.instance_ }
    match getGuestVm d.guestvmList mypid with
    | none => return (d, .nullDeref)
    | some i =>
      return ({ d with guestvmList := d.guestvmList.modify i (setRecord mypid q) }, .returned 0)

/-- `KGNI_SEND_BUF`: `retval` is set and not returned. -/
def sendBuf (d : Driver) : GuestM (Driver × IoctlEnd) := do
  let q ← copyArg
  match q with
  | none => return (d, .returned 0)
  | some q =>
    let qDest ← kmalloc
    let _ ← hcall3 hcallId 16 (.arg q) 1 qDest
    return (d, .returned 0)

/-- `GNI_IOC_NIC_SETATTR`, which falls through to the default case. -/
def nicSetattr (d : Driver) (cmd : UInt32) : GuestM (Driver × IoctlEnd) := do
  let copied ← copyNicAttr
  let _ ← hcall3 hcallId 64 (.nicAttr copied.2) cmd.toUInt64 true
  return (d, .returned (-einval))

/-- `kgni_ioctl`, called by the process `mypid`. -/
def kgniIoctl (d : Driver) (mypid cmd : UInt32) : GuestM (Driver × IoctlEnd) :=
  if cmd = kgniGetVariables then getVariables d
  else if cmd = kgniClrVariables then
    return ({ d with cookie := 0, ptag := 0, instance_ := 0 }, .returned 0)
  else if cmd = kgniSetVariables then setVariables d mypid
  else if cmd = kgniSendBuf then sendBuf d
  else if cmd = gniIocNicSetattr then nicSetattr d cmd
  else return (d, .returned (-einval))

theorem kgniIoctl_set (d : Driver) (mypid : UInt32) :
    kgniIoctl d mypid kgniSetVariables = setVariables d mypid := rfl

theorem kgniIoctl_sendBuf (d : Driver) (mypid : UInt32) :
    kgniIoctl d mypid kgniSendBuf = sendBuf d := rfl

/-! ### Return codes -/

abbrev GuestEvent : Type := Σ o : GuestCall, o.Ans

abbrev GuestTrace : Type := Prog.Trace GuestCall GuestCall.Ans

namespace GuestEvent

/-- A copy or an allocation that failed. -/
def Failed : GuestEvent → Prop
  | ⟨.copyToUser _ _ _, ok⟩ => ok = false
  | ⟨.copyArg, q⟩ => q = none
  | ⟨.copyNicAttr, copied⟩ => copied.1 = false
  | ⟨.kmalloc, ok⟩ => ok = false
  | ⟨.hcall3 _ _ _ _ _, _⟩ => False

/-- The argument of a command was copied in. -/
def CopiedIn : GuestEvent → Prop
  | ⟨.copyArg, q⟩ => q ≠ none
  | ⟨.copyNicAttr, copied⟩ => copied.1 = true
  | _ => False

def IsHcall : GuestEvent → Prop
  | ⟨.hcall3 _ _ _ _ _, _⟩ => True
  | _ => False

end GuestEvent

/-- The commands with a case of their own. -/
def commands : List UInt32 :=
  [kgniGetVariables, kgniClrVariables, kgniSetVariables, kgniSendBuf, gniIocNicSetattr]

/-- The command is known and every step of it succeeded. -/
def Succeeded (cmd : UInt32) (out : (Driver × IoctlEnd) × GuestTrace) : Prop :=
  cmd ∈ commands ∧ (∀ e ∈ out.2, ¬ GuestEvent.Failed e) ∧ out.1.2 ≠ .nullDeref

/-- The call says 0 if it succeeded and a negative error otherwise, makes the hypercall
after the copy, and has changed nothing when it says an error. -/
structure Honest (d : Driver) (cmd : UInt32) (out : (Driver × IoctlEnd) × GuestTrace) : Prop where
  zero : out.1.2 = .returned 0 ↔ Succeeded cmd out
  negative : ¬ Succeeded cmd out → ∃ v < 0, out.1.2 = .returned v
  copiedFirst : ∀ early e late, out.2 = early ++ e :: late → GuestEvent.IsHcall e →
    ∃ e' ∈ early, GuestEvent.CopiedIn e'
  unchanged : ∀ v < 0, out.1.2 = .returned v → out.1.1 = d ∧ ∀ e ∈ out.2, ¬ GuestEvent.IsHcall e

section Honest

variable {d : Driver} {cmd : UInt32} {out : (Driver × IoctlEnd) × GuestTrace}

theorem Honest.of_success (hcmd : cmd ∈ commands) (hzero : out.1.2 = .returned 0)
    (hok : ∀ e ∈ out.2, ¬ GuestEvent.Failed e)
    (hcopy : ∀ early e late, out.2 = early ++ e :: late → GuestEvent.IsHcall e →
      ∃ e' ∈ early, GuestEvent.CopiedIn e') : Honest d cmd out := by
  have hsucc : Succeeded cmd out := ⟨hcmd, hok, by rw [hzero]; nofun⟩
  refine ⟨iff_of_true hzero hsucc, fun h => absurd hsucc h, hcopy, fun v hv hend => ?_⟩
  rw [hzero] at hend
  obtain rfl : 0 = v := IoctlEnd.returned.inj hend
  exact absurd hv (lt_irrefl 0)

/-- A call that makes no hypercall has none before the copy. -/
theorem copiedFirst_of_quiet (hquiet : ∀ e ∈ out.2, ¬ GuestEvent.IsHcall e) :
    ∀ early e late, out.2 = early ++ e :: late → GuestEvent.IsHcall e →
      ∃ e' ∈ early, GuestEvent.CopiedIn e' := by
  intro early e late htr he
  refine absurd he (hquiet e ?_)
  rw [htr]
  exact List.mem_append_right _ List.mem_cons_self

theorem Honest.of_error {v : Int} (hv : v < 0) (hend : out.1.2 = .returned v)
    (hfail : ¬ Succeeded cmd out) (hd : out.1.1 = d)
    (hquiet : ∀ e ∈ out.2, ¬ GuestEvent.IsHcall e) : Honest d cmd out := by
  refine ⟨iff_of_false ?_ hfail, fun _ => ⟨v, hv, hend⟩, copiedFirst_of_quiet hquiet,
    fun _ _ _ => ⟨hd, hquiet⟩⟩
  rw [hend]
  intro h
  exact absurd (IoctlEnd.returned.inj h) (ne_of_lt hv)

theorem not_honest_of_nullDeref (h : out.1.2 = .nullDeref) : ¬ Honest d cmd out := by
  intro hh
  obtain ⟨v, -, hv⟩ := hh.negative fun hs => hs.2.2 h
  rw [h] at hv
  cases hv

theorem not_honest_of_failed {e : GuestEvent} (hzero : out.1.2 = .returned 0) (he : e ∈ out.2)
    (hf : e.Failed) : ¬ Honest d cmd out := fun hh => (hh.zero.mp hzero).2.1 e he hf

theorem not_honest_of_hcall {e : GuestEvent} {v : Int} (hv : v < 0)
    (hend : out.1.2 = .returned v) (he : e ∈ out.2) (hcall : e.IsHcall) : ¬ Honest d cmd out :=
  fun hh => (hh.unchanged v hv hend).2 e he hcall

end Honest

section Codes

variable (env : (o : GuestCall) → o.Ans) (d : Driver) (mypid cmd : UInt32)

theorem honest_getVariables : Honest d kgniGetVariables ((getVariables d).exec env) := by
  cases hok : env (.copyToUser d.cookie d.ptag d.instance_) with
  | true =>
      have hexec : (getVariables d).exec env = ((d, .returned 0),
          [⟨.copyToUser d.cookie d.ptag d.instance_, true⟩]) := by
        simp [getVariables, copyToUser, hok]
      rw [hexec]
      refine .of_success (by decide) rfl ?_ (copiedFirst_of_quiet ?_)
      · exact List.forall_mem_singleton.mpr Bool.true_eq_false_eq_False
      · exact List.forall_mem_singleton.mpr id
  | false =>
      have hexec : (getVariables d).exec env = ((d, .returned (-eacces)),
          [⟨.copyToUser d.cookie d.ptag d.instance_, false⟩]) := by
        simp [getVariables, copyToUser, hok]
      rw [hexec]
      refine .of_error (by decide) rfl ?_ rfl (List.forall_mem_singleton.mpr id)
      exact fun h => h.2.1 _ (List.mem_singleton_self _) rfl

theorem honest_clrVariables : Honest d kgniClrVariables
    ((kgniIoctl d mypid kgniClrVariables).exec env) :=
  .of_success (by decide) rfl nofun (copiedFirst_of_quiet nofun)

theorem honest_setVariables_iff : Honest d kgniSetVariables ((setVariables d mypid).exec env) ↔
    (env .copyArg ≠ none → getGuestVm d.guestvmList mypid ≠ none) := by
  cases hq : env .copyArg with
  | none =>
      have hexec : (setVariables d mypid).exec env = ((d, .returned (-eacces)),
          [⟨.copyArg, none⟩]) := by
        simp [setVariables, copyArg, hq]
      rw [hexec]
      refine iff_of_true (.of_error (by decide) rfl ?_ rfl (List.forall_mem_singleton.mpr id))
        fun h => absurd rfl h
      exact fun h => h.2.1 _ (List.mem_singleton_self _) rfl
  | some q =>
      cases hrec : getGuestVm d.guestvmList mypid with
      | none =>
          have hexec : ((setVariables d mypid).exec env).1.2 = .nullDeref := by
            simp [setVariables, copyArg, hq, hrec]
          exact iff_of_false (not_honest_of_nullDeref hexec) fun h => h (Option.some_ne_none q) rfl
      | some i =>
          have hend : ((setVariables d mypid).exec env).1.2 = .returned 0 := by
            simp [setVariables, copyArg, hq, hrec]
          have htr : ((setVariables d mypid).exec env).2 = [⟨.copyArg, some q⟩] := by
            simp [setVariables, copyArg, hq, hrec]
          refine iff_of_true (.of_success (by decide) hend ?_ (copiedFirst_of_quiet ?_))
            fun _ => Option.some_ne_none i
          · rw [htr]
            exact List.forall_mem_singleton.mpr (Option.some_ne_none q)
          · rw [htr]
            exact List.forall_mem_singleton.mpr id

theorem honest_sendBuf_iff : Honest d kgniSendBuf ((sendBuf d).exec env) ↔
    env .copyArg ≠ none ∧ env .kmalloc = true := by
  cases hq : env .copyArg with
  | none =>
      have hexec : (sendBuf d).exec env = ((d, .returned 0), [⟨.copyArg, none⟩]) := by
        simp [sendBuf, copyArg, hq]
      rw [hexec]
      refine iff_of_false (not_honest_of_failed rfl (List.mem_singleton_self _) rfl) fun h => ?_
      exact h.1 rfl
  | some q =>
      obtain ⟨r, hexec⟩ : ∃ r, (sendBuf d).exec env = ((d, .returned 0), [⟨.copyArg, some q⟩,
          ⟨.kmalloc, env .kmalloc⟩, ⟨.hcall3 hcallId 16 (.arg q) 1 (env .kmalloc), r⟩]) :=
        ⟨_, by simp [sendBuf, copyArg, kmalloc, hcall3, hq]; rfl⟩
      rw [hexec]
      cases hmem : env .kmalloc with
      | false =>
          refine iff_of_false (not_honest_of_failed rfl (List.mem_cons_of_mem _ List.mem_cons_self)
            rfl) fun h => ?_
          exact Bool.false_ne_true h.2
      | true =>
          refine iff_of_true (.of_success (by decide) rfl ?_ ?_) ⟨Option.some_ne_none q, rfl⟩
          · rintro e (- | ⟨-, - | ⟨-, - | ⟨-, ⟨⟩⟩⟩⟩)
            · exact Option.some_ne_none q
            · exact Bool.true_eq_false_eq_False
            · exact id
          · -- the copy comes first
            rintro (- | ⟨x, early⟩) e late htr he
            · obtain ⟨rfl, -⟩ := List.cons.inj htr
              exact he.elim
            · obtain ⟨rfl, -⟩ := List.cons.inj htr
              exact ⟨_, List.mem_cons_self, Option.some_ne_none q⟩

/-- The hypercall is made whether the copy succeeded or not, and the call says `EINVAL`. -/
theorem not_honest_nicSetattr : ¬ Honest d cmd ((nicSetattr d cmd).exec env) :=
  not_honest_of_hcall (v := -einval) (by decide) rfl
    (List.mem_cons_of_mem _ List.mem_cons_self) trivial

/-- **When the return code is honest.**  For every command, state and outcome: exactly if
the command is not `GNI_IOC_NIC_SETATTR`, a `KGNI_SEND_BUF` has its argument copied and
its buffer allocated, and a `KGNI_SET_VARIABLES` whose argument was copied comes from a
process that has a record. -/
theorem honest_iff : Honest d cmd ((kgniIoctl d mypid cmd).exec env) ↔ cmd ≠ gniIocNicSetattr ∧
    (cmd = kgniSendBuf → env .copyArg ≠ none ∧ env .kmalloc = true) ∧
    (cmd = kgniSetVariables → env .copyArg ≠ none →
      getGuestVm d.guestvmList mypid ≠ none) := by
  by_cases hget : cmd = kgniGetVariables
  · subst hget
    refine iff_of_true (honest_getVariables env d) ⟨by decide, fun h => ?_, fun h => ?_⟩
    · exact absurd h (by decide)
    · exact absurd h (by decide)
  by_cases hclr : cmd = kgniClrVariables
  · subst hclr
    refine iff_of_true (honest_clrVariables env d mypid) ⟨by decide, fun h => ?_, fun h => ?_⟩
    · exact absurd h (by decide)
    · exact absurd h (by decide)
  by_cases hset : cmd = kgniSetVariables
  · subst hset
    rw [kgniIoctl_set, honest_setVariables_iff]
    refine ⟨fun h => ⟨by decide, fun hsend => ?_, fun _ => h⟩, fun h => h.2.2 rfl⟩
    exact absurd hsend (by decide)
  by_cases hsend : cmd = kgniSendBuf
  · subst hsend
    rw [kgniIoctl_sendBuf, honest_sendBuf_iff]
    exact ⟨fun h => ⟨by decide, fun _ => h, fun hset' => absurd hset' hset⟩, fun h => h.2.1 rfl⟩
  by_cases hnic : cmd = gniIocNicSetattr
  · subst hnic
    exact iff_of_false (not_honest_nicSetattr env d _) fun h => h.1 rfl
  · have hdefault : kgniIoctl d mypid cmd = pure (d, .returned (-einval)) := by
      rw [kgniIoctl, if_neg hget, if_neg hclr, if_neg hset, if_neg hsend, if_neg hnic]
    have hunknown : cmd ∉ commands := by simp [commands, hget, hclr, hset, hsend, hnic]
    rw [hdefault]
    exact iff_of_true (.of_error (by decide) rfl (fun h => hunknown h.1) rfl nofun)
      ⟨hnic, fun h => absurd h hsend, fun h => absurd h hset⟩

/-- A caller whose memory can be read and written, and no memory to allocate. -/
def noMemory : (o : GuestCall) → o.Ans
  | .copyToUser _ _ _ => true
  | .copyArg => some ⟨3000, 5000, 20000, 7⟩
  | .copyNicAttr => (true, default)
  | .kmalloc => false
  | .hcall3 _ _ _ _ _ => 0

/-- A caller whose memory cannot be read. -/
def unreadable : (o : GuestCall) → o.Ans
  | .copyToUser _ _ _ => false
  | .copyArg => none
  | .copyNicAttr => (false, default)
  | .kmalloc => true
  | .hcall3 _ _ _ _ _ => 0

/-- A `KGNI_SEND_BUF` whose argument cannot be read returns 0; a `GNI_IOC_NIC_SETATTR`
makes its hypercall without the argument and returns `EINVAL`; a `KGNI_SET_VARIABLES`
of a process without a record changes the variables and writes through NULL. -/
theorem honest_fails :
    (((kgniIoctl kgniInit 42 kgniSendBuf).exec unreadable).1.2 = .returned 0 ∧
      ¬ Honest kgniInit kgniSendBuf ((kgniIoctl kgniInit 42 kgniSendBuf).exec unreadable)) ∧
    ((kgniIoctl kgniInit 42 gniIocNicSetattr).exec unreadable = ((kgniInit, .returned (-22)),
        [⟨.copyNicAttr, (false, default)⟩,
          ⟨.hcall3 0xc0c2 64 (.nicAttr default) gniIocNicSetattr.toUInt64 true, 0⟩]) ∧
      ¬ Honest kgniInit gniIocNicSetattr
        ((kgniIoctl kgniInit 42 gniIocNicSetattr).exec unreadable)) ∧
    ((kgniIoctl kgniInit 42 kgniSetVariables).exec noMemory).1
        = (⟨3000, 5000, 20000, []⟩, .nullDeref) ∧
      ¬ Honest kgniInit kgniSetVariables
        ((kgniIoctl kgniInit 42 kgniSetVariables).exec noMemory) := by
  refine ⟨⟨rfl, ?_⟩, ⟨rfl, ?_⟩, rfl, ?_⟩
  · exact not_honest_of_failed rfl (List.mem_singleton_self _) rfl
  · exact not_honest_of_hcall (v := -einval) (by decide) rfl
      (List.mem_cons_of_mem _ List.mem_cons_self) trivial
  · exact not_honest_of_nullDeref rfl

end Codes

end Nvl.Guest

/-
Nvl/Host/Kgni.lean

`kgni_ioctl` of the modified driver, and its static variable `call_from_guest`.

The variable is set when the command word is taken for one of the guest, read
by the two argument copies of `NIC_SETATTR`, and cleared at the end of the
function.  Three exits never get there: a wrong type byte, a command that is not
acceptable before the NIC is configured, and a failed NTT lookup at the end of
`NIC_SETATTR`.  So a call of the guest that takes one of them leaves the mark
for whoever calls next.

The function is a program over the calls it makes.  Fields of the NIC handle
and of user structures that only steer control are answers too; the structure
of `NIC_SETATTR`, whose copies are the subject here, is carried as data.
-/
import Mathlib.Data.List.Induction
import Nvl.Lib.Prog
import Nvl.Gni.Args
import Nvl.Host.GuestCommand

namespace Nvl.Host

open SysLib

/-! ### Calls on the outside -/

/-- The driver functions that do the work; `nttCleanup` is the second call of
`kgni_ntt_config`, in the error path of `NTTJOB_CONFIG`. -/
inductive KgniFn
  | dlaSetup
  | flbteSetup
  | nttConfig
  | nttCleanup
  | jobConfig
  | vmdhConfig
  | fmaValidateFmad
  | fmaConfig
  | smAddSession
  | smGetState
  | smWaitState
  | smTerminate
  | memRegister
  | memDeregister
  | cqCreate
  | cqDestroy
  | cqWait
  | rdmaPost
  | cdmBarr
  | fmaAssignNew
  | fmaUmapFmad
  | memQueryHndls
  | errorIoctl
  | ceIoctl
  deriving DecidableEq

/-- Conditions the cases read off user structures, the handle or the process. -/
inductive KgniTest
  | unprotectedOps
  | capableSysAdmin
  | fmaShared
  | nttEntriesNull
  | nttFlagClear
  | jobLimitsNull
  | postInDataNull
  | postOutBuffNull
  | memSegmentsNull
  | memLengthZero
  | memExternal
  deriving DecidableEq

/-- What `access_ok` is asked about. -/
inductive UserPtr
  | nttEntries
  | jobLimits
  | fmaArgs
  | postInData
  | postOutBuff
  | memRegisterArgs
  | memSegments
  | memDeregisterArgs
  | postRdmaArgs
  | postDesc
  deriving DecidableEq

/-- The fields of the NIC handle that `NIC_SETATTR` reads back. -/
structure NicHandle where
  fmaDedicated : Bool
  fmaWindow : UInt64
  fmaWindowNwc : UInt64
  fmaWindowGet : UInt64
  fmaCtrl : UInt64
  nttGrpSize : UInt32
  nicPe : UInt32
  cqRevisitMode : UInt32
  datagramCounter : UInt64
  deriving DecidableEq, Inhabited

/-- The external calls of `kgni_ioctl`.  The last six belong to `NIC_SETATTR`:
its two argument copies in both forms, the attach, and the lookup. -/
inductive KgniCall
  | nicPtag
  | acceptableCmd (cmd : UInt32)
  | test (t : KgniTest)
  | accessOk (p : UserPtr)
  | copyFromUser (size : UInt32)
  | copyToUser (size : UInt32)
  | call (f : KgniFn)
  | copyNicFromUser
  | memcpyNicFrom
  | nicAttach (a : GniNicSetattrArgs)
  | nicHandle
  | nttPhysicalToLogical (pe : UInt32)
  | copyNicToUser (a : GniNicSetattrArgs)
  | memcpyNicTo (a : GniNicSetattrArgs)

/-- What each call answers: a user copy says whether it failed. -/
@[reducible] def KgniCall.Ans : KgniCall → Type
  | nicPtag => UInt8
  | acceptableCmd _ => Bool
  | test _ => Bool
  | accessOk _ => Bool
  | copyFromUser _ => Bool
  | copyToUser _ => Bool
  | call _ => Int
  | copyNicFromUser => Option GniNicSetattrArgs
  | memcpyNicFrom => GniNicSetattrArgs
  | nicAttach _ => Int × GniNicSetattrArgs
  | nicHandle => NicHandle
  | nttPhysicalToLogical _ => Int32
  | copyNicToUser _ => Bool
  | memcpyNicTo _ => Unit

/-- Driver programs. -/
abbrev KgniM : Type → Type := Prog KgniCall KgniCall.Ans

namespace KgniM

@[simp] def nicPtag : KgniM UInt8 := Prog.call KgniCall.nicPtag
@[simp] def acceptableCmd (cmd : UInt32) : KgniM Bool := Prog.call (KgniCall.acceptableCmd cmd)
@[simp] def test (t : KgniTest) : KgniM Bool := Prog.call (KgniCall.test t)
@[simp] def accessOk (p : UserPtr) : KgniM Bool := Prog.call (KgniCall.accessOk p)
@[simp] def copyFromUser (size : UInt32) : KgniM Bool := Prog.call (KgniCall.copyFromUser size)
@[simp] def copyToUser (size : UInt32) : KgniM Bool := Prog.call (KgniCall.copyToUser size)
@[simp] def call (f : KgniFn) : KgniM Int := Prog.call (KgniCall.call f)

@[simp] def copyNicFromUser : KgniM (Option GniNicSetattrArgs) :=
  Prog.call KgniCall.copyNicFromUser

@[simp] def memcpyNicFrom : KgniM GniNicSetattrArgs := Prog.call KgniCall.memcpyNicFrom

@[simp] def nicAttach (a : GniNicSetattrArgs) : KgniM (Int × GniNicSetattrArgs) :=
  Prog.call (KgniCall.nicAttach a)

@[simp] def nicHandle : KgniM NicHandle := Prog.call KgniCall.nicHandle

@[simp] def nttPhysicalToLogical (pe : UInt32) : KgniM Int32 :=
  Prog.call (KgniCall.nttPhysicalToLogical pe)

@[simp] def copyNicToUser (a : GniNicSetattrArgs) : KgniM Bool :=
  Prog.call (KgniCall.copyNicToUser a)

@[simp] def memcpyNicTo (a : GniNicSetattrArgs) : KgniM Unit := Prog.call (KgniCall.memcpyNicTo a)

end KgniM

open KgniM

/-! ### Error codes -/

def enotty : Int := 25
def efault : Int := 14
def einval : Int := 22
def eacces : Int := 13
def enospc : Int := 28

/-! ### The cases that always break -/

/-- `if (_IOC_SIZE(cmd) != size) ...`. -/
def sizeChecked (cmd size : UInt32) (body : KgniM Int) : KgniM Int :=
  if iocSize cmd ≠ size then return -efault else body

/-- `if (copy_from_user(...)) ...`. -/
def copiedIn (size : UInt32) (body : KgniM Int) : KgniM Int := do
  if ← copyFromUser size then return -efault else body

/-- `if (copy_to_user(...)) retval = -err;`. -/
def copiedOut (size : UInt32) (err retval : Int) : KgniM Int := do
  if ← copyToUser size then return -err else return retval

/-- Copy in, do the work, and copy out unless it failed. -/
def inOutUnlessFailed (size : UInt32) (f : KgniFn) : KgniM Int :=
  copiedIn size do
    let retval ← call f
    if retval ≠ 0 then return retval else copiedOut size efault retval

/-- Copy in, do the work, and copy out whatever came of it. -/
def inOutAlways (size : UInt32) (f : KgniFn) : KgniM Int :=
  copiedIn size do
    let retval ← call f
    copiedOut size efault retval

def dlaSetattr (cmd : UInt32) : KgniM Int :=
  sizeChecked cmd GniArgs.dlaSetattr.sizeof <| inOutUnlessFailed GniArgs.dlaSetattr.sizeof .dlaSetup

def flbteSetattr (cmd : UInt32) : KgniM Int :=
  sizeChecked cmd GniArgs.flbteSetattr.sizeof <|
    inOutUnlessFailed GniArgs.flbteSetattr.sizeof .flbteSetup

def nicNttConfig (cmd : UInt32) : KgniM Int :=
  sizeChecked cmd GniArgs.nicNttconfig.sizeof do
    if !(← test .unprotectedOps) && !(← test .capableSysAdmin) then return -eacces
    else
      copiedIn GniArgs.nicNttconfig.sizeof do
        let clear ← test .nttFlagClear
        if (← test .nttEntriesNull) && !clear then return -einval
        else if !clear && !(← accessOk .nttEntries) then return -efault
        else
          let retval ← call .nttConfig
          copiedOut GniArgs.nicNttconfig.sizeof einval retval

def nicJobconfig (cmd : UInt32) : KgniM Int :=
  sizeChecked cmd GniArgs.nicJobconfig.sizeof do
    if !(← test .unprotectedOps) && !(← test .capableSysAdmin) then return -eacces
    else
      copiedIn GniArgs.nicJobconfig.sizeof do
        if !(← test .jobLimitsNull) && !(← accessOk .jobLimits) then return -efault
        else call .jobConfig

/-- The end of `NTTJOB_CONFIG`: an NTT region is cleaned up if the job could not
be configured. -/
def nttjobFinish (entriesNull : Bool) (retval : Int) : KgniM Int := do
  if retval ≠ 0 && !entriesNull then
    let _ ← call .nttCleanup
    return retval
  else return retval

def nicNttjobConfig (cmd : UInt32) : KgniM Int :=
  sizeChecked cmd GniArgs.nicNttjobConfig.sizeof do
    if !(← test .capableSysAdmin) then return -eacces
    else
      copiedIn GniArgs.nicNttjobConfig.sizeof do
        -- this command cannot be used to clear an NTT region
        if ← test .nttFlagClear then return -efault
        else
          let entriesNull ← test .nttEntriesNull
          let retval ← if entriesNull then pure 0 else call .nttConfig
          if retval ≠ 0 then return retval
          else if (← test .jobLimitsNull) || !(← accessOk .jobLimits) then
            nttjobFinish entriesNull (-efault)
          else
            let retval ← call .jobConfig
            let retval ← if retval ≠ 0 then pure retval
              else copiedOut GniArgs.nicNttjobConfig.sizeof einval retval
            nttjobFinish entriesNull retval

def nicVmdhConfig (cmd : UInt32) : KgniM Int :=
  sizeChecked cmd GniArgs.nicVmdhconfig.sizeof <|
    inOutAlways GniArgs.nicVmdhconfig.sizeof .vmdhConfig

def nicFmaConfig (cmd : UInt32) : KgniM Int :=
  sizeChecked cmd GniArgs.nicFmaconfig.sizeof do
    if !(← accessOk .fmaArgs) then return -efault
    else
      let retval ← call .fmaValidateFmad
      if retval ≠ 0 then return retval else call .fmaConfig

def epPostdata (cmd : UInt32) : KgniM Int :=
  sizeChecked cmd GniArgs.epPostdata.sizeof <|
    copiedIn GniArgs.epPostdata.sizeof do
      if !(← test .postInDataNull) && !(← accessOk .postInData) then return -efault
      else call .smAddSession

/-- `EP_POSTDATA_TEST` and `EP_POSTDATA_WAIT`. -/
def epPostdataTestWait (cmd : UInt32) : KgniM Int :=
  sizeChecked cmd GniArgs.epPostdataTest.sizeof <|
    copiedIn GniArgs.epPostdataTest.sizeof do
      if !(← test .postOutBuffNull) && !(← accessOk .postOutBuff) then return -efault
      else
        let retval ← if cmd = gniIocEpPostdataTest then call .smGetState else call .smWaitState
        copiedOut GniArgs.epPostdataTest.sizeof efault retval

def epPostdataTerminate (cmd : UInt32) : KgniM Int :=
  sizeChecked cmd GniArgs.epPostdataTerm.sizeof <|
    copiedIn GniArgs.epPostdataTerm.sizeof <| call .smTerminate

/-- Both forms of `MEM_REGISTER`; the handle is all that is copied back. -/
def memRegister (cmd : UInt32) : KgniM Int := do
  if !(← accessOk .memRegisterArgs) then return -efault
  else
    let unsegmented ← test .memSegmentsNull
    if !unsegmented && !(← accessOk .memSegments) then return -efault
    else if !unsegmented && !(← test .memLengthZero) then return -efault
    else if (← test .memExternal) && cmd = gniIocMemOldRegister then return -efault
    else
      let retval ← call .memRegister
      copiedOut 16 efault retval

def memDeregister (cmd : UInt32) : KgniM Int :=
  sizeChecked cmd GniArgs.memDeregister.sizeof do
    if !(← accessOk .memDeregisterArgs) then return -efault else call .memDeregister

/-- Both forms of `CQ_CREATE`. -/
def cqCreate (cmd : UInt32) : KgniM Int := inOutAlways (iocSize cmd) .cqCreate

def cqDestroy (cmd : UInt32) : KgniM Int :=
  sizeChecked cmd GniArgs.cqDestroy.sizeof <|
    copiedIn GniArgs.cqDestroy.sizeof <| call .cqDestroy

/-- Both forms of `CQ_WAIT_EVENT`. -/
def cqWaitEvent (cmd : UInt32) : KgniM Int :=
  if iocSize cmd ≠ GniArgs.cqWaitEvent.sizeof ∧ iocSize cmd ≠ GniArgs.cqSingleWaitEvent.sizeof then
    return -efault
  else inOutAlways (iocSize cmd) .cqWait

def postRdma (cmd : UInt32) : KgniM Int :=
  sizeChecked cmd GniArgs.postRdma.sizeof do
    if !(← accessOk .postRdmaArgs) then return -efault
    else if !(← accessOk .postDesc) then return -efault
    else call .rdmaPost

def cdmBarr (cmd : UInt32) : KgniM Int :=
  sizeChecked cmd GniArgs.cdmBarr.sizeof <| copiedIn (iocSize cmd) <| call .cdmBarr

def fmaAssign : KgniM Int := do
  if !(← test .fmaShared) then return -einval
  else
    copiedIn GniArgs.fmaAssign.sizeof do
      let retval ← call .fmaAssignNew
      if retval = 0 ∨ retval = -enospc then copiedOut GniArgs.fmaAssign.sizeof efault retval
      else return retval

def fmaUmap : KgniM Int := do
  if !(← test .fmaShared) then return -einval
  else
    copiedIn GniArgs.fmaUmap.sizeof do
      let retval ← call .fmaValidateFmad
      if retval ≠ 0 then return retval
      else
        let retval ← call .fmaUmapFmad
        if retval ≠ 0 then return retval else copiedOut GniArgs.fmaUmap.sizeof efault retval

def memQueryHndls : KgniM Int :=
  inOutUnlessFailed GniArgs.memQueryHndls.sizeof .memQueryHndls

/-- The default case. -/
def otherCommand : KgniM Int := do
  let retval ← call .errorIoctl
  if retval = -enotty then call .ceIoctl else return retval

/-- The `switch`, without `NIC_SETATTR`. -/
def breakingCase (cmd : UInt32) : KgniM Int :=
  if cmd = gniIocDlaSetattr then dlaSetattr cmd
  else if cmd = gniIocFlbteSetattr then flbteSetattr cmd
  else if cmd = gniIocNicNttConfig then nicNttConfig cmd
  else if cmd = gniIocNicJobconfig then nicJobconfig cmd
  else if cmd = gniIocNicNttjobConfig then nicNttjobConfig cmd
  else if cmd = gniIocNicVmdhConfig then nicVmdhConfig cmd
  else if cmd = gniIocNicFmaConfig then nicFmaConfig cmd
  else if cmd = gniIocEpPostdata then epPostdata cmd
  else if cmd = gniIocEpPostdataTest ∨ cmd = gniIocEpPostdataWait then epPostdataTestWait cmd
  else if cmd = gniIocEpPostdataTerminate then epPostdataTerminate cmd
  else if cmd = gniIocMemOldRegister ∨ cmd = gniIocMemRegister then memRegister cmd
  else if cmd = gniIocMemDeregister then memDeregister cmd
  else if cmd = gniIocCqOldCreate ∨ cmd = gniIocCqCreate then cqCreate cmd
  else if cmd = gniIocCqDestroy then cqDestroy cmd
  else if cmd = gniIocCqOldWaitEvent ∨ cmd = gniIocCqWaitEvent then cqWaitEvent cmd
  else if cmd = gniIocPostRdma then postRdma cmd
  else if cmd = gniIocCdmBarr then cdmBarr cmd
  else if cmd = gniIocFmaAssign then fmaAssign
  else if cmd = gniIocFmaUmap then fmaUmap
  else if cmd = gniIocMemQueryHndls then memQueryHndls
  else otherCommand

/-! ### The function -/

/-- The end of the function, where every `break` leads: the mark is cleared. -/
def leave (retval : Int) : KgniM (Bool × Int) := return (false, retval)

/-- The dedicated FMA windows, as the handle has them. -/
def withWindows (h : NicHandle) (a : GniNicSetattrArgs) : GniNicSetattrArgs :=
  if h.fmaDedicated then
    { a with
      fmaWindow := h.fmaWindow
      fmaCtrl := h.fmaCtrl
      fmaWindowNwc := h.fmaWindowNwc
      fmaWindowGet := h.fmaWindowGet }
  else a

/-- The end of `NIC_SETATTR`: the structure goes back to the caller. -/
def nicSetattrReply (flag : Bool) (h : NicHandle) (a : GniNicSetattrArgs) :
    KgniM (Bool × Int) := do
  let a := { a.setCqRevisitMode h.cqRevisitMode with datagramCounter := h.datagramCounter }
  if flag then
    memcpyNicTo a
    leave 0
  else if ← copyNicToUser a then leave (-efault)
  else leave 0

/-- `NIC_SETATTR` once the structure is copied in. -/
def nicSetattrBody (flag : Bool) (a : GniNicSetattrArgs) : KgniM (Bool × Int) := do
  let (retval, a) ← nicAttach a
  if retval ≠ 0 then leave retval
  else
    let h ← nicHandle
    let a := withWindows h a
    if h.nttGrpSize ≠ 0 then
      let vrtPe ← nttPhysicalToLogical h.nicPe
      -- the one `return` inside the switch
      if vrtPe < 0 then return (flag, -efault)
      else nicSetattrReply flag h { a with nicPe := vrtPe.toUInt32 }
    else nicSetattrReply flag h { a with nicPe := h.nicPe }

/-- `NIC_SETATTR`. -/
def nicSetattr (flag : Bool) (cmd : UInt32) : KgniM (Bool × Int) := do
  if iocSize cmd ≠ GniArgs.nicSetattr.sizeof then leave (-efault)
  else if flag then
    -- a plain copy has no way to fail
    let a ← memcpyNicFrom
    nicSetattrBody flag a
  else
    match ← copyNicFromUser with
    | none => leave (-efault)
    | some a => nicSetattrBody flag a

/-- A NIC without a protection tag takes only some commands. -/
def unconfigured (cmd : UInt32) : KgniM Bool := do
  if (← nicPtag) = 0 then
    let ok ← acceptableCmd cmd
    return !ok
  else return false

/-- The two checks before the `switch`, and the `switch`. -/
def kgniDispatch (flag : Bool) (cmd : UInt32) : KgniM (Bool × Int) := do
  if iocType cmd ≠ gniIocMagic then return (flag, -enotty)
  else if ← unconfigured cmd then return (flag, -efault)
  else if cmd = gniIocNicSetattr then nicSetattr flag cmd
  else
    let retval ← breakingCase cmd
    leave retval

/-- `kgni_ioctl` on the value of `call_from_guest` it finds; it returns the value
it leaves, with the result. -/
def kgniIoctl (flag : Bool) (cmd : UInt32) : KgniM (Bool × Int) :=
  kgniDispatch (flag || (detectGuest cmd).2) (detectGuest cmd).1

/-! ### Which copies a call makes -/

/-- A copy of the `NIC_SETATTR` structure: `true` for plain `memcpy`, `false` for
a checked user copy. -/
def KgniCall.nicCopy : KgniCall → Option Bool
  | memcpyNicFrom => some true
  | memcpyNicTo _ => some true
  | copyNicFromUser => some false
  | copyNicToUser _ => some false
  | _ => none

/-- If the call is such a copy, it is of kind `b`. -/
def KgniCall.CopyOf (b : Bool) (o : KgniCall) : Prop := ∀ b', o.nicCopy = some b' → b' = b

/-- Every copy of the structure that `p` can make is of kind `b`. -/
abbrev CopiesOnly {α : Type} (b : Bool) (p : KgniM α) : Prop := p.All (KgniCall.CopyOf b)

section Breaking

variable (b : Bool)

@[simp] theorem copyOf_test (t : KgniTest) : (KgniCall.test t).CopyOf b := by
  simp [KgniCall.CopyOf, KgniCall.nicCopy]

@[simp] theorem copyOf_accessOk (p : UserPtr) : (KgniCall.accessOk p).CopyOf b := by
  simp [KgniCall.CopyOf, KgniCall.nicCopy]

@[simp] theorem copyOf_copyFromUser (size : UInt32) : (KgniCall.copyFromUser size).CopyOf b := by
  simp [KgniCall.CopyOf, KgniCall.nicCopy]

@[simp] theorem copyOf_copyToUser (size : UInt32) : (KgniCall.copyToUser size).CopyOf b := by
  simp [KgniCall.CopyOf, KgniCall.nicCopy]

@[simp] theorem copyOf_call (f : KgniFn) : (KgniCall.call f).CopyOf b := by
  simp [KgniCall.CopyOf, KgniCall.nicCopy]

@[simp] theorem copiesOnly_sizeChecked (cmd size : UInt32) (body : KgniM Int) :
    CopiesOnly b (sizeChecked cmd size body) ↔ (iocSize cmd = size → CopiesOnly b body) := by
  simp [sizeChecked]

@[simp] theorem copiesOnly_copiedIn (size : UInt32) (body : KgniM Int) :
    CopiesOnly b (copiedIn size body) ↔ CopiesOnly b body := by
  simp [copiedIn]

@[simp] theorem copiesOnly_copiedOut (size : UInt32) (err retval : Int) :
    CopiesOnly b (copiedOut size err retval) := by
  simp [copiedOut]

@[simp] theorem copiesOnly_inOutUnlessFailed (size : UInt32) (f : KgniFn) :
    CopiesOnly b (inOutUnlessFailed size f) := by
  simp [inOutUnlessFailed]

@[simp] theorem copiesOnly_inOutAlways (size : UInt32) (f : KgniFn) :
    CopiesOnly b (inOutAlways size f) := by
  simp [inOutAlways]

@[simp] theorem copiesOnly_nttjobFinish (entriesNull : Bool) (retval : Int) :
    CopiesOnly b (nttjobFinish entriesNull retval) := by
  simp [nttjobFinish]

@[simp] theorem copiesOnly_nicNttjobConfig (cmd : UInt32) :
    CopiesOnly b (nicNttjobConfig cmd) := by
  simp [nicNttjobConfig, copiedOut]

/-- No case but `NIC_SETATTR` touches its structure. -/
theorem copiesOnly_breakingCase (cmd : UInt32) : CopiesOnly b (breakingCase cmd) := by
  simp [breakingCase, dlaSetattr, flbteSetattr, nicNttConfig, nicJobconfig, nicVmdhConfig,
    nicFmaConfig, epPostdata, epPostdataTestWait, epPostdataTerminate, memRegister,
    memDeregister, cqCreate, cqDestroy, cqWaitEvent, postRdma, cdmBarr, fmaAssign, fmaUmap,
    memQueryHndls, otherCommand]

end Breaking

/-- `NIC_SETATTR` copies as the mark says, both ways. -/
theorem copiesOnly_nicSetattrBody (flag : Bool) (a : GniNicSetattrArgs) :
    CopiesOnly flag (nicSetattrBody flag a) := by
  cases flag <;>
    simp [nicSetattrBody, nicSetattrReply, leave, KgniCall.CopyOf, KgniCall.nicCopy]

theorem copiesOnly_nicSetattr (flag : Bool) (cmd : UInt32) :
    CopiesOnly flag (nicSetattr flag cmd) := by
  rw [nicSetattr]
  refine (Prog.all_ite _ _ _).mpr ⟨fun _ => trivial, fun _ => ?_⟩
  cases flag with
  | true =>
      refine ⟨fun b h => (Option.some.inj h).symm, fun a => ?_⟩
      exact copiesOnly_nicSetattrBody true a
  | false =>
      refine ⟨fun b h => (Option.some.inj h).symm, fun r => ?_⟩
      cases r with
      | none => trivial
      | some a => exact copiesOnly_nicSetattrBody false a

theorem copiesOnly_unconfigured (b : Bool) (cmd : UInt32) : CopiesOnly b (unconfigured cmd) := by
  simp [unconfigured, KgniCall.CopyOf, KgniCall.nicCopy]

/-- A whole call copies as the mark says, once its own word has been looked at. -/
theorem copiesOnly_kgniDispatch (flag : Bool) (cmd : UInt32) :
    CopiesOnly flag (kgniDispatch flag cmd) := by
  rw [kgniDispatch]
  -- both early returns come before any copy
  refine (Prog.all_ite _ _ _).mpr ⟨fun _ => trivial, fun _ => ?_⟩
  refine (copiesOnly_unconfigured flag cmd).bind fun refused => ?_
  refine (Prog.all_ite _ _ _).mpr ⟨fun _ => trivial, fun _ => ?_⟩
  refine (Prog.all_ite _ _ _).mpr ⟨fun _ => copiesOnly_nicSetattr flag cmd, fun _ => ?_⟩
  exact (copiesOnly_breakingCase flag cmd).bind fun _ => trivial

/-! ### Calls -/

/-- One call: the word it arrives with, and what the outside answers during it. -/
structure IoctlCall where
  cmd : UInt32
  env : (o : KgniCall) → o.Ans

namespace IoctlCall

/-- The word the call is dispatched on. -/
def word (c : IoctlCall) : UInt32 := (detectGuest c.cmd).1

/-- The call arrived with an encoded word. -/
def marked (c : IoctlCall) : Bool := (detectGuest c.cmd).2

/-- The call, on the value of `call_from_guest` it finds. -/
def exec (flag : Bool) (c : IoctlCall) : (Bool × Int) × Prog.Trace KgniCall KgniCall.Ans :=
  Prog.exec c.env (kgniIoctl flag c.cmd)

/-- The NIC has no protection tag and the command needs one. -/
def Refused (c : IoctlCall) : Prop :=
  c.env .nicPtag = 0 ∧ c.env (.acceptableCmd c.word) = false

/-- The lookup at the end of `NIC_SETATTR` is made, and fails. -/
def LookupFails (c : IoctlCall) : Prop :=
  (c.env (.nicAttach (c.env .memcpyNicFrom))).1 = 0 ∧
    (c.env .nicHandle).nttGrpSize ≠ 0 ∧
    c.env (.nttPhysicalToLogical (c.env .nicHandle).nicPe) < 0

/-- A marked call takes one of the three exits that skip the end of the function. -/
def LeavesEarly (c : IoctlCall) : Prop :=
  iocType c.word ≠ gniIocMagic ∨ c.Refused ∨ c.word = gniIocNicSetattr ∧ c.LookupFails

/-- The call gets to the `NIC_SETATTR` case. -/
def ReachesNicSetattr (c : IoctlCall) : Prop := c.word = gniIocNicSetattr ∧ ¬ c.Refused

/-- Every copy of the `NIC_SETATTR` structure is the kind the call's own word asks
for, and a call that gets there does copy. -/
def CopiesAsMarked (flag : Bool) (c : IoctlCall) : Prop :=
  (∀ e ∈ (c.exec flag).2, ∀ b, e.1.nicCopy = some b → b = c.marked) ∧
    (c.ReachesNicSetattr → ∃ e ∈ (c.exec flag).2, e.1.nicCopy = some c.marked)

end IoctlCall

/-! ### What one call leaves -/

section OneCall

variable (env : (o : KgniCall) → o.Ans)

@[simp] theorem exec_leave (retval : Int) :
    Prog.exec env (leave retval) = ((false, retval), []) := rfl

@[simp] theorem nicSetattrReply_clears (flag : Bool) (h : NicHandle) (a : GniNicSetattrArgs) :
    (Prog.exec env (nicSetattrReply flag h a)).1.1 = false := by
  rw [nicSetattrReply]
  cases flag with
  | true => rfl
  | false =>
      simp only [copyNicToUser, Prog.call_bind, Prog.exec_step, Bool.false_eq_true, if_false]
      split <;> rfl

/-- The mark survives `NIC_SETATTR` exactly when it was set and the lookup fails. -/
theorem nicSetattrBody_mark (flag : Bool) (a : GniNicSetattrArgs) :
    (Prog.exec env (nicSetattrBody flag a)).1.1 = true ↔
      flag = true ∧ (env (.nicAttach a)).1 = 0 ∧ (env .nicHandle).nttGrpSize ≠ 0 ∧
        env (.nttPhysicalToLogical (env .nicHandle).nicPe) < 0 := by
  simp only [nicSetattrBody, nicAttach, nicHandle, nttPhysicalToLogical, Prog.call_bind,
    Prog.exec_step]
  -- a failed attach breaks, an unused NTT needs no lookup, and a good one replies
  by_cases hattach : (env (.nicAttach a)).1 = 0
  · by_cases hntt : (env .nicHandle).nttGrpSize = 0
    · simp [hattach, hntt]
    · by_cases hpe : env (.nttPhysicalToLogical (env .nicHandle).nicPe) < 0
      · simp [hattach, hntt, hpe]
      · simp [hattach, hntt, hpe]
  · simp [hattach]

theorem nicSetattr_mark (flag : Bool) :
    (Prog.exec env (nicSetattr flag gniIocNicSetattr)).1.1 = true ↔
      flag = true ∧ (env (.nicAttach (env .memcpyNicFrom))).1 = 0 ∧
        (env .nicHandle).nttGrpSize ≠ 0 ∧
        env (.nttPhysicalToLogical (env .nicHandle).nicPe) < 0 := by
  have hsize : iocSize gniIocNicSetattr = GniArgs.nicSetattr.sizeof := by decide
  rw [nicSetattr, if_neg (not_not_intro hsize)]
  cases flag with
  | true => exact nicSetattrBody_mark env true _
  | false =>
      simp only [Bool.false_eq_true, if_false, copyNicFromUser, Prog.call_bind, Prog.exec_step,
        false_and, iff_false, Bool.not_eq_true]
      split
      · rfl
      · rename_i a _
        have h := nicSetattrBody_mark env false a
        simpa using h

/-- The first thing the case does is to copy. -/
theorem nicSetattr_copies (flag : Bool) :
    ∃ e ∈ (Prog.exec env (nicSetattr flag gniIocNicSetattr)).2, e.1.nicCopy = some flag := by
  have hsize : iocSize gniIocNicSetattr = GniArgs.nicSetattr.sizeof := by decide
  rw [nicSetattr, if_neg (not_not_intro hsize)]
  cases flag with
  | true => exact ⟨⟨.memcpyNicFrom, env .memcpyNicFrom⟩, List.mem_cons_self, rfl⟩
  | false => exact ⟨⟨.copyNicFromUser, env .copyNicFromUser⟩, List.mem_cons_self, rfl⟩

@[simp] theorem exec_unconfigured (cmd : UInt32) :
    (Prog.exec env (unconfigured cmd)).1 = true ↔
      env .nicPtag = 0 ∧ env (.acceptableCmd cmd) = false := by
  simp only [unconfigured, nicPtag, acceptableCmd, Prog.call_bind, Prog.exec_step]
  split <;> simp_all

/-- The first check fails. -/
theorem kgniDispatch_of_type (flag : Bool) {cmd : UInt32} (htype : iocType cmd ≠ gniIocMagic) :
    (Prog.exec env (kgniDispatch flag cmd)).1 = (flag, -enotty) := by
  rw [kgniDispatch, if_pos htype]
  rfl

/-- The second check fails. -/
theorem kgniDispatch_of_refused (flag : Bool) {cmd : UInt32} (htype : iocType cmd = gniIocMagic)
    (hrefused : env .nicPtag = 0 ∧ env (.acceptableCmd cmd) = false) :
    (Prog.exec env (kgniDispatch flag cmd)).1 = (flag, -efault) := by
  have hconf := (exec_unconfigured env cmd).mpr hrefused
  rw [kgniDispatch, if_neg (not_not_intro htype), Prog.exec_bind, hconf]
  rfl

/-- Both checks pass. -/
theorem kgniDispatch_of_ready (flag : Bool) {cmd : UInt32} (htype : iocType cmd = gniIocMagic)
    (hready : ¬ (env .nicPtag = 0 ∧ env (.acceptableCmd cmd) = false)) :
    Prog.exec env (kgniDispatch flag cmd) =
      let p := if cmd = gniIocNicSetattr then nicSetattr flag cmd else breakingCase cmd >>= leave
      ((Prog.exec env p).1,
        (Prog.exec env (unconfigured cmd)).2 ++ (Prog.exec env p).2) := by
  have hconf : (Prog.exec env (unconfigured cmd)).1 = false := by
    rw [← Bool.not_eq_true, exec_unconfigured]
    exact hready
  rw [kgniDispatch, if_neg (not_not_intro htype), Prog.exec_bind, hconf]
  rfl

end OneCall

namespace IoctlCall

/-- A call that finds the variable clear leaves it set exactly when its word is
encoded and it takes an early exit. -/
theorem exec_mark (c : IoctlCall) :
    (c.exec false).1.1 = true ↔ c.marked = true ∧ c.LeavesEarly := by
  show (Prog.exec c.env (kgniDispatch c.marked c.word)).1.1 = true ↔ _
  by_cases htype : iocType c.word = gniIocMagic
  · by_cases hrefused : c.Refused
    · rw [kgniDispatch_of_refused c.env c.marked htype hrefused]
      simp [LeavesEarly, hrefused]
    · rw [kgniDispatch_of_ready c.env c.marked htype hrefused]
      by_cases hnic : c.word = gniIocNicSetattr
      · have hmagic : iocType gniIocNicSetattr = gniIocMagic := by decide
        simp [hnic, nicSetattr_mark, LeavesEarly, LookupFails, hmagic, hrefused]
      · simp [hnic, LeavesEarly, htype, hrefused]
  · rw [kgniDispatch_of_type c.env c.marked htype]
    simp [LeavesEarly, htype]

/-- A call that finds the variable clear copies as its own word says. -/
theorem copiesAsMarked (c : IoctlCall) : c.CopiesAsMarked false := by
  have hexec : c.exec false = Prog.exec c.env (kgniDispatch c.marked c.word) := rfl
  constructor
  · intro e he
    rw [hexec] at he
    exact (copiesOnly_kgniDispatch c.marked c.word).of_mem_exec he
  · rintro ⟨hnic, hready⟩
    have htype : iocType c.word = gniIocMagic := by
      rw [hnic]
      decide
    obtain ⟨e, he, hcopy⟩ := nicSetattr_copies c.env c.marked
    refine ⟨e, ?_, hcopy⟩
    rw [hexec, kgniDispatch_of_ready c.env c.marked htype hready]
    simp only [hnic]
    exact List.mem_append_right _ he

end IoctlCall

/-! ### Sequences of calls -/

/-- `call_from_guest` after a sequence of calls; a static variable starts at zero. -/
def markAfter (calls : List IoctlCall) : Bool :=
  calls.foldl (fun flag c => (c.exec flag).1.1) false

theorem markAfter_concat (pre : List IoctlCall) (c : IoctlCall) :
    markAfter (pre ++ [c]) = (c.exec (markAfter pre)).1.1 := by
  rw [markAfter, List.foldl_append]
  rfl

/-- The mark never outlives its call: every call of the sequence finds the variable
clear, and copies as its own word says. -/
def Contained (calls : List IoctlCall) : Prop :=
  ∀ pre c post, calls = pre ++ c :: post →
    markAfter pre = false ∧ c.CopiesAsMarked (markAfter pre)

/-- As long as no encoded call left early, the variable is clear. -/
theorem markAfter_of_none_early {pre : List IoctlCall}
    (h : ∀ c ∈ pre, ¬ (c.marked = true ∧ c.LeavesEarly)) : markAfter pre = false := by
  induction pre using List.reverseRec with
  | nil => rfl
  | append_singleton pre c ih =>
      have hpre : markAfter pre = false :=
        ih fun d hd => h d (List.mem_append_left _ hd)
      rw [markAfter_concat, hpre, ← Bool.not_eq_true, c.exec_mark]
      exact h c (List.mem_append_right _ List.mem_cons_self)

/-- **Containment of the guest mark.**  Every call of a sequence finds the variable
clear, and copies its `NIC_SETATTR` structure as its own word says, exactly if no
encoded call before the last one takes an early exit. -/
theorem guestMark_contained_iff (calls : List IoctlCall) :
    Contained calls ↔ ∀ c ∈ calls.dropLast, ¬ (c.marked = true ∧ c.LeavesEarly) := by
  constructor
  · intro h c hc
    -- `c` is followed by another call, which finds what `c` leaves
    obtain ⟨pre, post, hsplit⟩ := List.append_of_mem hc
    obtain ⟨init, last, rfl⟩ : ∃ init last, calls = init ++ [last] :=
      ⟨calls.dropLast, calls.getLast (by rintro rfl; simp at hc),
        (List.dropLast_append_getLast _).symm⟩
    rw [List.dropLast_concat] at hsplit
    subst hsplit
    obtain ⟨next, rest, hnext⟩ : ∃ next rest, post ++ [last] = next :: rest :=
      List.exists_cons_of_ne_nil (by simp)
    have hhere := (h pre c (post ++ [last]) (by simp)).1
    have hthere := (h (pre ++ [c]) next rest (by simp [← hnext])).1
    rw [markAfter_concat, hhere, ← Bool.not_eq_true, c.exec_mark] at hthere
    exact hthere
  · rintro h pre c post rfl
    have hpre : ∀ d ∈ pre, ¬ (d.marked = true ∧ d.LeavesEarly) := by
      intro d hd
      refine h d ?_
      rw [List.dropLast_append_of_ne_nil (List.cons_ne_nil c post)]
      exact List.mem_append_left _ hd
    have hclear := markAfter_of_none_early hpre
    rw [hclear]
    exact ⟨rfl, c.copiesAsMarked⟩

/-- A driver on which everything succeeds. -/
def calmDriver : (o : KgniCall) → o.Ans
  | .nicPtag => 1
  | .acceptableCmd _ => true
  | .test _ => true
  | .accessOk _ => true
  | .copyFromUser _ => false
  | .copyToUser _ => false
  | .call _ => 0
  | .copyNicFromUser => some default
  | .memcpyNicFrom => default
  | .nicAttach a => (0, a)
  | .nicHandle => default
  | .nttPhysicalToLogical _ => 0
  | .copyNicToUser _ => false
  | .memcpyNicTo _ => ()

/-- An ioctl of the guest that is not for this driver: its type byte is `'H'`. -/
def strayGuestCall : IoctlCall := ⟨guestWord 0xc0044801, calmDriver⟩

/-- A host process's `NIC_SETATTR`. -/
def nativeSetattr : IoctlCall := ⟨gniIocNicSetattr, calmDriver⟩

/-- After the guest's stray ioctl has been refused, the host's `NIC_SETATTR` is
copied with `memcpy`. -/
theorem guestMark_escapes :
    strayGuestCall.marked = true ∧ nativeSetattr.marked = false ∧
      markAfter [strayGuestCall] = true ∧
      (nativeSetattr.exec (markAfter [strayGuestCall])).2.map (fun e => e.1.nicCopy)
        = [none, some true, none, none, some true] ∧
      ¬ Contained [strayGuestCall, nativeSetattr] := by
  refine ⟨by decide, by decide, by decide, by decide, ?_⟩
  intro h
  have hclear := (h [strayGuestCall] nativeSetattr [] rfl).1
  exact absurd hclear (by decide)

end Nvl.Host

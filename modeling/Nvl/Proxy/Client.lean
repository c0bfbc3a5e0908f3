/-
Nvl/Proxy/Client.lean

What a proxy client is made of: the requests an application makes, and the
calls the client library makes on the outside (xemem, the hobbes command
queue, `malloc`, the real `ioctl`).  Both client libraries of the repository
are programs over these calls.

A request carries the caller's structures by value.  The client edits them in
place, so a client program returns the request again, with the structures as
the caller finds them afterwards.
-/
import Nvl.Lib.Prog
import Nvl.Gni.Args
import Nvl.Xmem.List

namespace Nvl

open SysLib

/-- `pmi_allgather_args_t`; the two blocks it points to are kept beside it. -/
structure PmiAllgatherArgs where
  commSize : UInt32
  inData : UInt64
  inDataLen : UInt16
  outData : UInt64
  deriving DecidableEq, Inhabited

/-- An intercepted ioctl with the caller's structures.  `printed` stands for
the codes whose case only prints a line, and for the default case. -/
inductive Request
  | nicSetattr (a : GniNicSetattrArgs)
  | cqCreate (a : GniCqCreateArgs)
  | memRegister (a : GniMemRegisterArgs)
  | cqWaitEvent (a : GniCqWaitEventArgs)
  | cqDestroy (a : GniCqDestroyArgs)
  | allgather (a : PmiAllgatherArgs) (inData outData : Bytes)
  | getsize (commSize : UInt32)
  | getrank (myrank : UInt32)
  | finalize
  | barrier
  | nicFmaConfig (a : GniNicFmaconfigArgs)
  | postRdma (a : GniPostRdmaArgs) (desc : GniPostDescriptor)
  | printed (code : UInt64)
  deriving DecidableEq

/-- The request code the application passes. -/
def Request.code : Request → UInt64
  | nicSetattr _ => gniIocNicSetattr.toUInt64
  | cqCreate _ => gniIocCqCreate.toUInt64
  | memRegister _ => gniIocMemRegister.toUInt64
  | cqWaitEvent _ => gniIocCqWaitEvent.toUInt64
  | cqDestroy _ => gniIocCqDestroy.toUInt64
  | allgather _ _ _ => pmiIocAllgather.toUInt64
  | getsize _ => pmiIocGetsize.toUInt64
  | getrank _ => pmiIocGetrank.toUInt64
  | finalize => pmiIocFinalize.toUInt64
  | barrier => pmiIocBarrier.toUInt64
  | nicFmaConfig _ => gniIocNicFmaConfig.toUInt64
  | postRdma _ _ => gniIocPostRdma.toUInt64
  | printed code => code

/-- A request without its OUT fields and padding; the output block of a gather is
one of the former. -/
def Request.inPart : Request → Request
  | .nicSetattr a => .nicSetattr a.inPart
  | .cqCreate a => .cqCreate a.inPart
  | .memRegister a => .memRegister a.inPart
  | .nicFmaConfig a => .nicFmaConfig a.inPart
  | .allgather a inData _ => .allgather a inData []
  | r => r

/-- The four FMA windows, in the order they are attached. -/
inductive Window
  | win
  | put
  | get
  | ctrl
  deriving DecidableEq

/-- `FMA_WINDOW_SIZE`. -/
def fmaWindowSize : UInt64 := 1024 * 1024 * 1024

/-- `GHAL_FMA_CTRL_SIZE`. -/
def ghalFmaCtrlSize : UInt64 := 0x1000

/-! ### Calls on the outside -/

/-- The external calls of a client.  `xememGet` and `xememAttachNocache` carry
the window they are made for, so that two windows can meet different fates;
`retData` is a read through the pointer that `hcqGetRetData` returned.  The real
`ioctl` is called through a prototype that takes the request as an `int`. -/
inductive ClientCall
  | malloc
  | mallocInt
  | xememMake (vaddr size : UInt64)
  | xememLookupSegid (w : Window)
  | xememGet (w : Window) (segid : UInt64)
  | xememAttachNocache (w : Window) (apid : Int) (size : UInt64)
  | xememRelease (apid : Int)
  | xememRemove (segid : UInt64)
  | hcqCmdIssue (code : UInt64) (data : Bytes)
  | hcqGetRetData (cmd : Nat)
  | retData (ptr : Nat)
  | hcqCmdComplete (cmd : Nat)
  | realIoctl (fd : Int) (request : UInt32)

/-- What each call answers: whether `malloc` succeeded, the contents of a fresh
`int`, a segment id, an access permit, an address, a command or a pointer. -/
@[reducible] def ClientCall.Ans : ClientCall → Type
  | malloc => Bool
  | mallocInt => UInt32
  | xememMake _ _ => UInt64
  | xememLookupSegid _ => UInt64
  | xememGet _ _ => Int
  | xememAttachNocache _ _ _ => UInt64
  | xememRelease _ => Unit
  | xememRemove _ => Unit
  | hcqCmdIssue _ _ => Nat
  | hcqGetRetData _ => Nat
  | retData _ => Bytes
  | hcqCmdComplete _ => Unit
  | realIoctl _ _ => Int

/-- Client programs. -/
abbrev ClientM : Type → Type := Prog ClientCall ClientCall.Ans

namespace ClientM

@[simp] def malloc : ClientM Bool := Prog.call ClientCall.malloc
@[simp] def mallocInt : ClientM UInt32 := Prog.call ClientCall.mallocInt

@[simp] def xememMake (vaddr size : UInt64) : ClientM UInt64 :=
  Prog.call (ClientCall.xememMake vaddr size)

@[simp] def xememLookupSegid (w : Window) : ClientM UInt64 :=
  Prog.call (ClientCall.xememLookupSegid w)

@[simp] def xememGet (w : Window) (segid : UInt64) : ClientM Int :=
  Prog.call (ClientCall.xememGet w segid)

@[simp] def xememAttachNocache (w : Window) (apid : Int) (size : UInt64) : ClientM UInt64 :=
  Prog.call (ClientCall.xememAttachNocache w apid size)

@[simp] def xememRelease (apid : Int) : ClientM Unit := Prog.call (ClientCall.xememRelease apid)
@[simp] def xememRemove (segid : UInt64) : ClientM Unit := Prog.call (ClientCall.xememRemove segid)

@[simp] def hcqCmdIssue (code : UInt64) (data : Bytes) : ClientM Nat :=
  Prog.call (ClientCall.hcqCmdIssue code data)

@[simp] def hcqGetRetData (cmd : Nat) : ClientM Nat := Prog.call (ClientCall.hcqGetRetData cmd)
@[simp] def retData (ptr : Nat) : ClientM Bytes := Prog.call (ClientCall.retData ptr)
@[simp] def hcqCmdComplete (cmd : Nat) : ClientM Unit := Prog.call (ClientCall.hcqCmdComplete cmd)

@[simp] def realIoctl (fd : Int) (request : UInt32) : ClientM Int :=
  Prog.call (ClientCall.realIoctl fd request)

end ClientM

/-! ### State of a client -/

/-- The globals of a client library.  `commSize` and `myRank` are `int`s, kept
as their 32-bit words. -/
structure Client where
  mt : MemsegList
  commSize : UInt32
  myRank : UInt32
  clientFd : Int
  pmiFd : Int

/-- What `pack_args` returns; `handle_ioctl` drops it. -/
inductive PackRet
  | zero
  | minusOne
  | hcqInvalidHandle
  deriving DecidableEq

end Nvl

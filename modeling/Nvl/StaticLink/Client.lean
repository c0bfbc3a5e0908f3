/-
Nvl/StaticLink/Client.lean

The statically linked client, `static-link/xpmem_chnl_client.c`: `pack_args`
with one case per request code, `handle_ioctl` and `__wrap_ioctl`.

Each forwarding case edits the caller's structure, issues one command, waits
for it inside `hcq_cmd_issue`, and copies the reply back.  Addresses that the
server has to understand are replaced by segment ids found in `mt`.
-/
import Nvl.Proxy.Client

namespace Nvl.StaticLink

open SysLib ClientM

/-- `allgather` of the client library: the copy back takes `comm_size * len`
bytes, a product of `int`s. -/
def allgather (c : Client) (inp out : Bytes) (len : Nat) : ClientM Bytes := do
  let cmd ← hcqCmdIssue pmiIocAllgather.toUInt64 (inp.take len)
  let outPtr ← hcqGetRetData cmd
  let r ← retData outPtr
  hcqCmdComplete cmd
  return overlay (c.commSize.toNat * len) r out

/-- `pmi_finalize`. -/
def pmiFinalize : ClientM Unit := do
  let cmd ← hcqCmdIssue pmiIocFinalize.toUInt64 []
  hcqCmdComplete cmd

/-- `pmi_barrier`. -/
def pmiBarrier : ClientM Unit := do
  let cmd ← hcqCmdIssue pmiIocBarrier.toUInt64 []
  hcqCmdComplete cmd

/-- One of the four identical get-and-attach sequences of `NIC_SETATTR`;
`none` when it failed, after its own clean-up. -/
def attachWindow (w : Window) (segid size : UInt64) : ClientM (Option UInt64) := do
  let apid ← xememGet w segid
  if apid ≤ 0 then
    xememRemove segid
    return none
  else
    let addr ← xememAttachNocache w apid size
    if addr = 0 then
      xememRelease apid
      xememRemove segid
      return none
    else
      return some addr

/-- The `NIC_SETATTR` case.  The first copy back takes `sizeof` of the pointer,
8 bytes, and the whole structure follows only when all windows are attached. -/
def packNicSetattr (c : Client) (args : GniNicSetattrArgs) :
    ClientM (Client × Request × PackRet) := do
  let cmd ← hcqCmdIssue gniIocNicSetattr.toUInt64 (GniNicSetattrArgs.codec.encode args)
  let p ← hcqGetRetData cmd
  hcqCmdComplete cmd
  let r ← retData p
  let args := GniNicSetattrArgs.codec.decode (overlay 8 r (GniNicSetattrArgs.codec.encode args))
  let r ← retData p
  let fmaWin ← attachWindow .win (GniNicSetattrArgs.codec.decode r).fmaWindow fmaWindowSize
  match fmaWin with
  | none => return (c, .nicSetattr args, .hcqInvalidHandle)
  | some fmaWin =>
    let r ← retData p
    let fmaPut ← attachWindow .put (GniNicSetattrArgs.codec.decode r).fmaWindowNwc fmaWindowSize
    match fmaPut with
    | none => return (c, .nicSetattr args, .minusOne)
    | some fmaPut =>
      let r ← retData p
      let fmaGet ← attachWindow .get (GniNicSetattrArgs.codec.decode r).fmaWindowGet fmaWindowSize
      match fmaGet with
      | none => return (c, .nicSetattr args, .hcqInvalidHandle)
      | some fmaGet =>
        let r ← retData p
        let fmaCtrl ← attachWindow .ctrl (GniNicSetattrArgs.codec.decode r).fmaCtrl ghalFmaCtrlSize
        match fmaCtrl with
        | none => return (c, .nicSetattr args, .hcqInvalidHandle)
        | some fmaCtrl =>
          -- the four addresses are stored into the reply, which is then copied
          let r ← retData p
          let args := { GniNicSetattrArgs.codec.decode r with
            fmaWindow := fmaWin, fmaWindowNwc := fmaPut, fmaWindowGet := fmaGet,
            fmaCtrl := fmaCtrl }
          return (c, .nicSetattr args, .zero)

/-- However it ends, the globals are those before. -/
theorem packNicSetattr_client (c : Client) (a : GniNicSetattrArgs) :
    (packNicSetattr c a).Returns fun x => x.1 = c := by
  rw [packNicSetattr]
  simp only [hcqCmdIssue, hcqGetRetData, hcqCmdComplete, retData, Prog.call_bind, Prog.returns_step]
  intro cmd ptr done reply reply'
  -- each window either ends the case or leads to the next
  refine .bind (Prog.returns_true (attachWindow ..)) fun fmaWin _ => ?_
  rcases fmaWin with - | fmaWin
  · rfl
  refine fun reply => .bind (Prog.returns_true (attachWindow ..)) fun fmaPut _ => ?_
  rcases fmaPut with - | fmaPut
  · rfl
  refine fun reply => .bind (Prog.returns_true (attachWindow ..)) fun fmaGet _ => ?_
  rcases fmaGet with - | fmaGet
  · rfl
  refine fun reply => .bind (Prog.returns_true (attachWindow ..)) fun fmaCtrl _ => ?_
  rcases fmaCtrl with - | fmaCtrl
  · rfl
  · exact fun reply => rfl

/-- The caller's block in the `ALLGATHER` case.  A block of this one size is
taken for a memory handle, and its address is replaced in place. -/
def gatherData (c : Client) (args : PmiAllgatherArgs) (inData : Bytes) : Bytes :=
  if args.inDataLen.toNat = MdhAddr.codec.size then
    let hdl := MdhAddr.codec.decode (inData.take MdhAddr.codec.size)
    MdhAddr.codec.encode { hdl with addr := listFindSegidByVaddr c.mt hdl.addr }
      ++ inData.drop MdhAddr.codec.size
  else inData

/-- `pack_args`. -/
def packArgs (c : Client) : Request → ClientM (Client × Request × PackRet)
  | .nicSetattr args => packNicSetattr c args
  | .cqCreate args => do
      let cqTmpbuf := args.queue
      let cqSeg := listFindSegidByVaddr c.mt args.queue
      let cmd ← hcqCmdIssue gniIocCqCreate.toUInt64
        (GniCqCreateArgs.codec.encode { args with queue := cqSeg })
      let p ← hcqGetRetData cmd
      hcqCmdComplete cmd
      let r ← retData p
      return (c, .cqCreate { GniCqCreateArgs.codec.decode r with queue := cqTmpbuf }, .zero)
  | .memRegister args => do
      let regMemSeg ← xememMake args.address args.length
      let ok ← malloc
      let mt := listAddElement c.mt ok regMemSeg args.address args.length
      let cmd ← hcqCmdIssue gniIocMemRegister.toUInt64
        (GniMemRegisterArgs.codec.encode { args with address := regMemSeg })
      let p ← hcqGetRetData cmd
      hcqCmdComplete cmd
      let r ← retData p
      return ({ c with mt := mt }, .memRegister (GniMemRegisterArgs.codec.decode r), .zero)
  | .cqWaitEvent args => do
      let cqIndexSeg := listFindSegidByVaddr c.mt args.nextEventPtr
      let args := { args with nextEventPtr := cqIndexSeg }
      let cmd ← hcqCmdIssue gniIocCqWaitEvent.toUInt64 (GniCqWaitEventArgs.codec.encode args)
      let p ← hcqGetRetData cmd
      hcqCmdComplete cmd
      let r ← retData p
      -- `sizeof` of the pointer again
      let args := GniCqWaitEventArgs.codec.decode
        (overlay 8 r (GniCqWaitEventArgs.codec.encode args))
      return (c, .cqWaitEvent args, .zero)
  | .cqDestroy args => do
      let cmd ← hcqCmdIssue gniIocCqDestroy.toUInt64 (GniCqDestroyArgs.codec.encode args)
      let p ← hcqGetRetData cmd
      hcqCmdComplete cmd
      let r ← retData p
      let args := GniCqDestroyArgs.codec.decode (overlay 8 r (GniCqDestroyArgs.codec.encode args))
      return (c, .cqDestroy args, .zero)
  | .allgather args inData outData => do
      let inData := gatherData c args inData
      let outData ← allgather c inData outData args.inDataLen.toNat
      return (c, .allgather args inData outData, .zero)
  | .getsize _ => do
      let size ← mallocInt
      let cmd ← hcqCmdIssue pmiIocGetsize.toUInt64 (Codec.u32.encode size)
      let p ← hcqGetRetData cmd
      hcqCmdComplete cmd
      let r ← retData p
      let size := Codec.u32.decode (r.take 4)
      return ({ c with commSize := size }, .getsize size, .zero)
  | .getrank _ => do
      let rank ← mallocInt
      let cmd ← hcqCmdIssue pmiIocGetrank.toUInt64 (Codec.u32.encode rank)
      let p ← hcqGetRetData cmd
      hcqCmdComplete cmd
      let r ← retData p
      let rank := Codec.u32.decode (r.take 4)
      return ({ c with myRank := rank }, .getrank rank, .zero)
  | .finalize => do
      pmiFinalize
      return (c, .finalize, .zero)
  | .barrier => do
      pmiBarrier
      return (c, .barrier, .zero)
  | .nicFmaConfig args => do
      let cmd ← hcqCmdIssue gniIocNicFmaConfig.toUInt64 (GniNicFmaconfigArgs.codec.encode args)
      let p ← hcqGetRetData cmd
      hcqCmdComplete cmd
      let r ← retData p
      return (c, .nicFmaConfig (GniNicFmaconfigArgs.codec.decode r), .zero)
  | .postRdma args desc => do
      let saveLocalAddr := desc.localAddr
      let rdmaPostSeg := listFindSegidByVaddr c.mt desc.localAddr
      let desc := { desc with localAddr := rdmaPostSeg }
      let cmd ← hcqCmdIssue gniIocPostRdma.toUInt64
        (GniPostDescriptor.codec.encode desc ++ GniPostRdmaArgs.codec.encode args)
      let _ ← hcqGetRetData cmd
      hcqCmdComplete cmd
      return (c, .postRdma args { desc with localAddr := saveLocalAddr }, .zero)
  | .printed code => return (c, .printed code, .zero)

/-- `unpack_args` of the static client: every case only prints. -/
def unpackArgs (r : Request) : Request := r

/-- `handle_ioctl`, which drops what `pack_args` returned. -/
def handleIoctl (c : Client) (r : Request) : ClientM (Client × Request) := do
  let (c, r, _) ← packArgs c r
  return (c, unpackArgs r)

/-- `__wrap_ioctl`: the value returned to the caller is the last component. -/
def wrapIoctl (c : Client) (fd : Int) (r : Request) : ClientM (Client × Request × Int) := do
  if fd = c.clientFd then
    let (c, r) ← handleIoctl c r
    return (c, r, 0)
  else if fd = c.pmiFd then
    let (c, r) ← handleIoctl c r
    return (c, r, 0)
  else
    let v ← realIoctl fd r.code.toUInt32
    return (c, r, v)

end Nvl.StaticLink

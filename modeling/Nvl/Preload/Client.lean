/-
Nvl/Preload/Client.lean

The client that is preloaded into the application, `cray/xpmem_chnl_client.c`:
`pack_args`, `unpack_args`, `handle_ioctl` and the interposed `ioctl`.

Most of its cases are those of the static client.  What differs has its own body
here: `NIC_SETATTR`, whose windows are found by name and attached in `unpack_args`,
each with an entry in `mt`; `NIC_FMA_CONFIG`, which is not forwarded; and
`POST_RDMA`, which leaves the segment id in the caller's descriptor.
-/
import Nvl.StaticLink.Client

namespace Nvl.Preload

open SysLib ClientM

/-- `pack_args`: the reply to `NIC_SETATTR` is copied with `sizeof` of the pointer. -/
def packNicSetattr (c : Client) (args : GniNicSetattrArgs) :
    ClientM (Client × Request × PackRet) := do
  let cmd ← hcqCmdIssue gniIocNicSetattr.toUInt64 (GniNicSetattrArgs.codec.encode args)
  let p ← hcqGetRetData cmd
  hcqCmdComplete cmd
  let r ← retData p
  let args := GniNicSetattrArgs.codec.decode (overlay 8 r (GniNicSetattrArgs.codec.encode args))
  return (c, .nicSetattr args, .zero)

/-- `pack_args`: the descriptor is translated in place and not restored. -/
def packPostRdma (c : Client) (args : GniPostRdmaArgs) (desc : GniPostDescriptor) :
    ClientM (Client × Request × PackRet) := do
  let rdmaPostSeg := listFindSegidByVaddr c.mt desc.localAddr
  let desc := { desc with localAddr := rdmaPostSeg }
  let cmd ← hcqCmdIssue gniIocPostRdma.toUInt64
    (GniPostDescriptor.codec.encode desc ++ GniPostRdmaArgs.codec.encode args)
  let _ ← hcqGetRetData cmd
  hcqCmdComplete cmd
  return (c, .postRdma args desc, .zero)

/-- `pack_args`; the cases that both clients have in common are the static one's. -/
def packArgs (c : Client) : Request → ClientM (Client × Request × PackRet)
  | .nicSetattr args => packNicSetattr c args
  | .nicFmaConfig args => return (c, .nicFmaConfig args, .zero)
  | .postRdma args desc => packPostRdma c args desc
  | r => StaticLink.packArgs c r

/-- `list_add_element` on `mt`. -/
def record (c : Client) (segid addr len : UInt64) : ClientM Client := do
  let ok ← malloc
  return { c with mt := listAddElement c.mt ok segid addr len }

/-- One of the four get-and-attach sequences; `none` when it failed.  The segment
that is removed after a failed attach is given apart: the second sequence names
the first one's. -/
def attachWindow (w : Window) (segid removed size : UInt64) : ClientM (Option UInt64) := do
  let apid ← xememGet w segid
  if apid ≤ 0 then
    xememRemove segid
    return none
  else
    let addr ← xememAttachNocache w apid size
    if addr = 0 then
      xememRelease apid
      xememRemove removed
      return none
    else
      return some addr

/-- `unpack_args`, the `NIC_SETATTR` case.  The control window is attached with its
own size and recorded with that of the others. -/
def unpackNicSetattr (c : Client) (args : GniNicSetattrArgs) :
    ClientM (Client × Request × PackRet) := do
  let fmaWinSeg ← xememLookupSegid .win
  match ← attachWindow .win fmaWinSeg fmaWinSeg fmaWindowSize with
  | none => return (c, .nicSetattr args, .hcqInvalidHandle)
  | some fmaWin =>
    let c ← record c fmaWinSeg fmaWin fmaWindowSize
    let fmaPutSeg ← xememLookupSegid .put
    match ← attachWindow .put fmaPutSeg fmaWinSeg fmaWindowSize with
    | none => return (c, .nicSetattr args, .minusOne)
    | some fmaPut =>
      let c ← record c fmaPutSeg fmaPut fmaWindowSize
      let fmaGetSeg ← xememLookupSegid .get
      match ← attachWindow .get fmaGetSeg fmaGetSeg fmaWindowSize with
      | none => return (c, .nicSetattr args, .hcqInvalidHandle)
      | some fmaGet =>
        let c ← record c fmaGetSeg fmaGet fmaWindowSize
        let fmaCtrlSeg ← xememLookupSegid .ctrl
        match ← attachWindow .ctrl fmaCtrlSeg fmaCtrlSeg ghalFmaCtrlSize with
        | none => return (c, .nicSetattr args, .hcqInvalidHandle)
        | some fmaCtrl =>
          let c ← record c fmaCtrlSeg fmaCtrl fmaWindowSize
          let args := { args with
            fmaWindow := fmaWin, fmaWindowNwc := fmaPut, fmaWindowGet := fmaGet,
            fmaCtrl := fmaCtrl }
          return (c, .nicSetattr args, .zero)

/-- `unpack_args`: every other case only prints. -/
def unpackArgs (c : Client) : Request → ClientM (Client × Request × PackRet)
  | .nicSetattr args => unpackNicSetattr c args
  | r => return (c, r, .zero)

/-- `handle_ioctl`, which drops what the two return. -/
def handleIoctl (c : Client) (r : Request) : ClientM (Client × Request) := do
  let (c, r, _) ← packArgs c r
  let (c, r, _) ← unpackArgs c r
  return (c, r)

/-- The interposed `ioctl`; the value returned to the caller is the last component. -/
def ioctl (c : Client) (fd : Int) (r : Request) : ClientM (Client × Request × Int) := do
  if fd = c.clientFd then
    let (c, r) ← handleIoctl c r
    return (c, r, 0)
  else if fd = c.pmiFd then
    let (c, r) ← handleIoctl c r
    return (c, r, 0)
  else
    let v ← realIoctl fd r.code.toUInt32
    return (c, r, v)

end Nvl.Preload

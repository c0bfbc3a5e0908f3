/-
Nvl/Gni/Args.lean

The argument structures that travel between the proxy's two processes
(`gni_priv.h`, `gni_pub.h`, `mdh_addr_t` of `xmem_list.h`), each with its byte
layout on x86-64.

Pointers are 64-bit words.  Padding is spelled out as fields named `pad…`,
because the proxy copies whole structures with `memcpy` and the padding goes
along; so two values of a structure are equal exactly when their blocks are
equal byte for byte.

The `example`s after a layout tie its size to the one in the command word.
-/
import Nvl.Lib.Codec
import Nvl.Gni.Ioctl

namespace Nvl

open SysLib

/-- `gni_mem_handle_t`. -/
structure GniMemHandle where
  qword1 : UInt64
  qword2 : UInt64
  deriving DecidableEq, Inhabited

def GniMemHandle.codec : Codec GniMemHandle :=
  (Codec.u64.prod Codec.u64).ofEquiv
    { toFun := fun a => (a.qword1, a.qword2)
      invFun := fun ⟨q1, q2⟩ => ⟨q1, q2⟩
      left_inv := fun _ => rfl
      right_inv := fun _ => rfl }

/-- `mdh_addr_t`: a memory handle with the address it was made for, the block
the ranks exchange. -/
structure MdhAddr where
  mdh : GniMemHandle
  addr : UInt64
  deriving DecidableEq, Inhabited

def MdhAddr.codec : Codec MdhAddr :=
  (GniMemHandle.codec.prod Codec.u64).ofEquiv
    { toFun := fun a => (a.mdh, a.addr)
      invFun := fun ⟨h, a⟩ => ⟨h, a⟩
      left_inv := fun _ => rfl
      right_inv := fun _ => rfl }

example : MdhAddr.codec.size = 24 := rfl

/-- `gni_nic_setattr_args_t`; `modesWord` holds the bit fields `modes`,
`unused` and `cq_revisit_mode`. -/
structure GniNicSetattrArgs where
  ptag : UInt32
  cookie : UInt32
  rank : UInt32
  modesWord : UInt32
  nicPe : UInt32
  pad : UInt32
  fmaWindow : UInt64
  fmaWindowNwc : UInt64
  fmaWindowGet : UInt64
  fmaCtrl : UInt64
  datagramCounter : UInt64
  deriving DecidableEq, Inhabited

/-- Assignment to the 28-bit field `modes`, the low bits of its word. -/
def GniNicSetattrArgs.setModes (a : GniNicSetattrArgs) (modes : UInt32) : GniNicSetattrArgs :=
  { a with modesWord := (a.modesWord &&& 0xf0000000) ||| (modes &&& 0x0fffffff) }

/-- Assignment to the 2-bit field `cq_revisit_mode`, the high bits of its word. -/
def GniNicSetattrArgs.setCqRevisitMode (a : GniNicSetattrArgs) (mode : UInt32) :
    GniNicSetattrArgs :=
  { a with modesWord := (a.modesWord &&& (0x3fffffff : UInt32)) ||| (mode <<< (30 : UInt32)) }

def GniNicSetattrArgs.codec : Codec GniNicSetattrArgs :=
  (Codec.u32.prod <| Codec.u32.prod <| Codec.u32.prod <| Codec.u32.prod <| Codec.u32.prod <|
    Codec.u32.prod <| Codec.u64.prod <| Codec.u64.prod <| Codec.u64.prod <| Codec.u64.prod <|
    Codec.u64).ofEquiv
    { toFun := fun a => (a.ptag, a.cookie, a.rank, a.modesWord, a.nicPe, a.pad, a.fmaWindow,
        a.fmaWindowNwc, a.fmaWindowGet, a.fmaCtrl, a.datagramCounter)
      invFun := fun ⟨t, c, r, m, n, p, w, v, g, k, d⟩ => ⟨t, c, r, m, n, p, w, v, g, k, d⟩
      left_inv := fun _ => rfl
      right_inv := fun _ => rfl }

example : GniNicSetattrArgs.codec.size = GniArgs.nicSetattr.sizeof.toNat := by decide

/-- The first eight bytes of the attributes are the tag and the cookie. -/
theorem GniNicSetattrArgs.overlay_eight (n a : GniNicSetattrArgs) :
    overlay 8 (GniNicSetattrArgs.codec.encode n) (GniNicSetattrArgs.codec.encode a)
      = GniNicSetattrArgs.codec.encode { a with ptag := n.ptag, cookie := n.cookie } := by
  have hword : ∀ x : UInt32, (Codec.u32.encode x).length = 4 := Codec.length_encode _
  have htake : ∀ x, (Codec.u32.encode x).take 8 = Codec.u32.encode x := fun x =>
    List.take_of_length_le (by rw [hword]; decide)
  have hdrop : ∀ x, (Codec.u32.encode x).drop 8 = [] := fun x =>
    List.drop_of_length_le (by rw [hword]; decide)
  simp [overlay, GniNicSetattrArgs.codec, Codec.ofEquiv, Codec.prod, List.take_append,
    List.drop_append, hword, htake, hdrop]

/-- A copy of eight bytes, of whatever reply, can change nothing else. -/
theorem GniNicSetattrArgs.overlay_eight_reply (a : GniNicSetattrArgs) {r : Bytes}
    (hr : 8 ≤ r.length) : ∃ ptag cookie,
      GniNicSetattrArgs.codec.decode (overlay 8 r (GniNicSetattrArgs.codec.encode a))
        = { a with ptag, cookie } := by
  -- any structure that starts with the eight bytes will do for the reply
  obtain ⟨n, hn⟩ : ∃ n, (GniNicSetattrArgs.codec.encode n).take 8 = r.take 8 := by
    refine ⟨GniNicSetattrArgs.codec.decode (r.take 8 ++ List.replicate 56 0), ?_⟩
    have hlen : (r.take 8).length = 8 := List.length_take_of_le hr
    rw [GniNicSetattrArgs.codec.encode_decode _ (by rw [List.length_append, hlen]; rfl)]
    exact List.take_left' hlen
  refine ⟨n.ptag, n.cookie, ?_⟩
  have hover := GniNicSetattrArgs.overlay_eight n a
  rw [overlay, hn] at hover
  rw [overlay, hover, Codec.decode_encode]

/-- `gni_nic_fmaconfig_args_t`; `fmadId` is the union with `pe_mask_mode`. -/
structure GniNicFmaconfigArgs where
  dlvrMode : UInt16
  fmadId : UInt8
  pad0 : UInt8
  pad1 : UInt32
  kernCqDescr : UInt64
  deriving DecidableEq, Inhabited

def GniNicFmaconfigArgs.codec : Codec GniNicFmaconfigArgs :=
  (Codec.u16.prod <| Codec.u8.prod <| Codec.u8.prod <| Codec.u32.prod Codec.u64).ofEquiv
    { toFun := fun a => (a.dlvrMode, a.fmadId, a.pad0, a.pad1, a.kernCqDescr)
      invFun := fun ⟨m, i, p, q, k⟩ => ⟨m, i, p, q, k⟩
      left_inv := fun _ => rfl
      right_inv := fun _ => rfl }

example : GniNicFmaconfigArgs.codec.size = GniArgs.nicFmaconfig.sizeof.toNat := by decide

/-- `gni_mem_register_args_t`; `p2pToken`, `vaToken` are the `xargs` union. -/
structure GniMemRegisterArgs where
  segmentsCnt : UInt32
  pad0 : UInt32
  address : UInt64
  length : UInt64
  memSegments : UInt64
  kernCqDescr : UInt64
  flags : UInt32
  vmdhIndex : UInt32
  memHndl : GniMemHandle
  p2pToken : UInt64
  vaToken : UInt32
  pad1 : UInt32
  deriving DecidableEq, Inhabited

def GniMemRegisterArgs.codec : Codec GniMemRegisterArgs :=
  (Codec.u32.prod <| Codec.u32.prod <| Codec.u64.prod <| Codec.u64.prod <| Codec.u64.prod <|
    Codec.u64.prod <| Codec.u32.prod <| Codec.u32.prod <| GniMemHandle.codec.prod <|
    Codec.u64.prod <| Codec.u32.prod Codec.u32).ofEquiv
    { toFun := fun a => (a.segmentsCnt, a.pad0, a.address, a.length, a.memSegments,
        a.kernCqDescr, a.flags, a.vmdhIndex, a.memHndl, a.p2pToken, a.vaToken, a.pad1)
      invFun := fun ⟨n, p, a, l, s, k, f, v, h, t, u, q⟩ => ⟨n, p, a, l, s, k, f, v, h, t, u, q⟩
      left_inv := fun _ => rfl
      right_inv := fun _ => rfl }

example : GniMemRegisterArgs.codec.size = GniArgs.memRegister.sizeof.toNat := by decide

/-- `gni_cq_create_args_t`. -/
structure GniCqCreateArgs where
  queue : UInt64
  entryCount : UInt32
  pad0 : UInt32
  memHndl : GniMemHandle
  delayCount : UInt32
  mode : UInt32
  hwRdIndexPtr : UInt64
  kernCqDescr : UInt64
  allowUserInterruptMask : UInt8
  pad1 : UInt8
  pad2 : UInt16
  pad3 : UInt32
  interruptMask : UInt64
  cqSize : UInt64
  cqUserMemory : UInt64
  deriving DecidableEq, Inhabited

def GniCqCreateArgs.codec : Codec GniCqCreateArgs :=
  (Codec.u64.prod <| Codec.u32.prod <| Codec.u32.prod <| GniMemHandle.codec.prod <|
    Codec.u32.prod <| Codec.u32.prod <| Codec.u64.prod <| Codec.u64.prod <| Codec.u8.prod <|
    Codec.u8.prod <| Codec.u16.prod <| Codec.u32.prod <| Codec.u64.prod <|
    Codec.u64.prod Codec.u64).ofEquiv
    { toFun := fun a => (a.queue, a.entryCount, a.pad0, a.memHndl, a.delayCount, a.mode,
        a.hwRdIndexPtr, a.kernCqDescr, a.allowUserInterruptMask, a.pad1, a.pad2, a.pad3,
        a.interruptMask, a.cqSize, a.cqUserMemory)
      invFun := fun ⟨q, e, p, h, d, m, w, k, i, p1, p2, p3, t, s, u⟩ =>
        ⟨q, e, p, h, d, m, w, k, i, p1, p2, p3, t, s, u⟩
      left_inv := fun _ => rfl
      right_inv := fun _ => rfl }

example : GniCqCreateArgs.codec.size = GniArgs.cqCreate.sizeof.toNat := by decide

/-- `gni_cq_destroy_args_t`. -/
structure GniCqDestroyArgs where
  kernCqDescr : UInt64
  deriving DecidableEq, Inhabited

def GniCqDestroyArgs.codec : Codec GniCqDestroyArgs :=
  Codec.u64.ofEquiv
    { toFun := fun a => a.kernCqDescr
      invFun := fun k => ⟨k⟩
      left_inv := fun _ => rfl
      right_inv := fun _ => rfl }

/-- `gni_cq_wait_event_args_t`. -/
structure GniCqWaitEventArgs where
  kernCqDescr : UInt64
  timeout : UInt64
  nextEventPtr : UInt64
  numCqs : UInt32
  which : UInt32
  deriving DecidableEq, Inhabited

def GniCqWaitEventArgs.codec : Codec GniCqWaitEventArgs :=
  (Codec.u64.prod <| Codec.u64.prod <| Codec.u64.prod <| Codec.u32.prod Codec.u32).ofEquiv
    { toFun := fun a => (a.kernCqDescr, a.timeout, a.nextEventPtr, a.numCqs, a.which)
      invFun := fun ⟨k, t, p, n, w⟩ => ⟨k, t, p, n, w⟩
      left_inv := fun _ => rfl
      right_inv := fun _ => rfl }

/-- `gni_post_rdma_args_t`. -/
structure GniPostRdmaArgs where
  remotePe : UInt32
  pad : UInt32
  postDesc : UInt64
  kernCqDescr : UInt64
  srcCqData : UInt64
  usrEventData : UInt64
  deriving DecidableEq, Inhabited

def GniPostRdmaArgs.codec : Codec GniPostRdmaArgs :=
  (Codec.u32.prod <| Codec.u32.prod <| Codec.u64.prod <| Codec.u64.prod <|
    Codec.u64.prod Codec.u64).ofEquiv
    { toFun := fun a => (a.remotePe, a.pad, a.postDesc, a.kernCqDescr, a.srcCqData,
        a.usrEventData)
      invFun := fun ⟨r, p, d, k, s, u⟩ => ⟨r, p, d, k, s, u⟩
      left_inv := fun _ => rfl
      right_inv := fun _ => rfl }

example : GniPostRdmaArgs.codec.size = GniArgs.postRdma.sizeof.toNat := by decide

/-- `gni_post_descriptor_t`. -/
structure GniPostDescriptor where
  nextDescr : UInt64
  prevDescr : UInt64
  postId : UInt64
  status : UInt64
  cqModeComplete : UInt16
  pad0 : UInt16
  type : UInt32
  cqMode : UInt16
  dlvrMode : UInt16
  pad1 : UInt32
  localAddr : UInt64
  localMemHndl : GniMemHandle
  remoteAddr : UInt64
  remoteMemHndl : GniMemHandle
  length : UInt64
  rdmaMode : UInt16
  pad2 : UInt16
  pad3 : UInt32
  srcCqHndl : UInt64
  syncFlagValue : UInt64
  syncFlagAddr : UInt64
  amoCmd : UInt32
  pad4 : UInt32
  firstOperand : UInt64
  secondOperand : UInt64
  cqwriteValue : UInt64
  ceCmd : UInt32
  ceMode : UInt32
  ceRedId : UInt64
  deriving DecidableEq, Inhabited

def GniPostDescriptor.codec : Codec GniPostDescriptor :=
  (Codec.u64.prod <| Codec.u64.prod <| Codec.u64.prod <| Codec.u64.prod <| Codec.u16.prod <|
    Codec.u16.prod <| Codec.u32.prod <| Codec.u16.prod <| Codec.u16.prod <| Codec.u32.prod <|
    Codec.u64.prod <| GniMemHandle.codec.prod <| Codec.u64.prod <| GniMemHandle.codec.prod <|
    Codec.u64.prod <| Codec.u16.prod <| Codec.u16.prod <| Codec.u32.prod <| Codec.u64.prod <|
    Codec.u64.prod <| Codec.u64.prod <| Codec.u32.prod <| Codec.u32.prod <| Codec.u64.prod <|
    Codec.u64.prod <| Codec.u64.prod <| Codec.u32.prod <| Codec.u32.prod Codec.u64).ofEquiv
    { toFun := fun d => (d.nextDescr, d.prevDescr, d.postId, d.status, d.cqModeComplete, d.pad0,
        d.type, d.cqMode, d.dlvrMode, d.pad1, d.localAddr, d.localMemHndl, d.remoteAddr,
        d.remoteMemHndl, d.length, d.rdmaMode, d.pad2, d.pad3, d.srcCqHndl, d.syncFlagValue,
        d.syncFlagAddr, d.amoCmd, d.pad4, d.firstOperand, d.secondOperand, d.cqwriteValue,
        d.ceCmd, d.ceMode, d.ceRedId)
      invFun := fun ⟨nd, pd, pi, st, cc, p0, ty, cm, dm, p1, la, lh, ra, rh, ln, rm, p2, p3, sc,
          sv, sa, am, p4, fo, so, cw, cec, cem, cer⟩ =>
        ⟨nd, pd, pi, st, cc, p0, ty, cm, dm, p1, la, lh, ra, rh, ln, rm, p2, p3, sc,
          sv, sa, am, p4, fo, so, cw, cec, cem, cer⟩
      left_inv := fun _ => rfl
      right_inv := fun _ => rfl }

example : GniPostDescriptor.codec.size = 184 := by decide

/-! ### Fields marked OUT

`inPart` clears the fields of a structure that the header marks OUT, `outPart`
keeps only these.  Padding is in neither. -/

/-- The last two bits of `modesWord`, `cq_revisit_mode`, are marked OUT. -/
def GniNicSetattrArgs.inPart (a : GniNicSetattrArgs) : GniNicSetattrArgs :=
  { a with
    modesWord := a.modesWord &&& 0x3fffffff, nicPe := 0, pad := 0, fmaWindow := 0
    fmaWindowNwc := 0, fmaWindowGet := 0, fmaCtrl := 0, datagramCounter := 0 }

/-- The four windows are left out: their addresses belong to one process. -/
def GniNicSetattrArgs.outPart (a : GniNicSetattrArgs) : UInt32 × UInt32 × UInt64 :=
  (a.modesWord &&& 0xc0000000, a.nicPe, a.datagramCounter)

def GniNicFmaconfigArgs.inPart (a : GniNicFmaconfigArgs) : GniNicFmaconfigArgs :=
  { a with pad0 := 0, pad1 := 0 }

def GniMemRegisterArgs.inPart (a : GniMemRegisterArgs) : GniMemRegisterArgs :=
  { a with pad0 := 0, memHndl := ⟨0, 0⟩, pad1 := 0 }

def GniMemRegisterArgs.outPart (a : GniMemRegisterArgs) : GniMemHandle := a.memHndl

def GniCqCreateArgs.inPart (a : GniCqCreateArgs) : GniCqCreateArgs :=
  { a with
    pad0 := 0, hwRdIndexPtr := 0, kernCqDescr := 0, pad1 := 0, pad2 := 0, pad3 := 0
    interruptMask := 0, cqUserMemory := 0 }

def GniCqCreateArgs.outPart (a : GniCqCreateArgs) : UInt64 × UInt64 × UInt64 × UInt64 :=
  (a.hwRdIndexPtr, a.kernCqDescr, a.interruptMask, a.cqUserMemory)

end Nvl

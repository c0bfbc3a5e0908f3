/-
Nvl/StaticLink/Server.lean

The shadow process, `static-link/xpmem_chnl_serv.c`: one round of the command
loop of `main`, with a definition per `case`, and the collective `allgather`.

A round either goes on to the next command (`next`) or leaves the loop
(`stop`): every failed device call, a failed attach, a failed `assert` and a
failed `select` end the process.  Which of the two happened, and in which
state, is all a round returns; what it did on the way is in its trace.

The locals of `main` that keep their value from one command to the next are
fields of `Server`.  Those written before every use (`buffer`, `apid`, `rc`,
`r_addr`) are plain `let`s.
-/
import Nvl.Proxy.Client
import Nvl.Lib.Scatter

namespace Nvl.StaticLink

open SysLib

/-! ### Calls on the outside -/

/-- An ioctl on the server's own `/dev/kgni0`; `postRdma` shows the descriptor
its argument points to. -/
inductive DeviceCall
  | nicSetattr (a : GniNicSetattrArgs)
  | memRegister (a : GniMemRegisterArgs)
  | postRdma (a : GniPostRdmaArgs) (desc : GniPostDescriptor)
  | cqCreate (a : GniCqCreateArgs)
  | nicFmaConfig (a : GniNicFmaconfigArgs)
  deriving DecidableEq

/-- The argument structure as the device leaves it. -/
@[reducible] def DeviceCall.Out : DeviceCall → Type
  | nicSetattr _ => GniNicSetattrArgs
  | memRegister _ => GniMemRegisterArgs
  | postRdma _ _ => Unit
  | cqCreate _ => GniCqCreateArgs
  | nicFmaConfig _ => GniNicFmaconfigArgs

/-- The allocations whose failure the code looks at. -/
inductive MallocSite
  | listNode
  | ivec
  | tmpBuf
  deriving DecidableEq

/-- The two collectives of `allgather`: the ranks, once, and then the blocks. -/
inductive GatherSite
  | ranks
  | blocks
  deriving DecidableEq

/-- A command as `hcq_get_next_cmd` hands it out. -/
structure Cmd where
  id : Nat
  code : UInt64
  data : Bytes
  deriving DecidableEq

/-- The external calls of the server.  `mallocOut` is the buffer of the gather,
answered with its contents; `xememMake` carries the name it is given. -/
inductive ServerCall
  | select
  | hcqGetNextCmd
  | malloc (site : MallocSite)
  | mallocOut
  | xememMake (vaddr size : UInt64) (name : Option Window)
  | xememGet (segid : UInt64)
  | xememAttach (apid : Int) (size : UInt64)
  | xememRelease (apid : Int)
  | ioctl (c : DeviceCall)
  | pmiGetRank
  | pmiGetSize
  | pmiAllgather (site : GatherSite) (data : Bytes) (len : Nat)
  | pmiFinalize
  | posixMemalign (size : UInt32)
  | hcqCmdReturn (cmd : Nat) (ret : Int) (data : Bytes)

/-- What each call answers.  A `Bool` says whether the call succeeded. -/
@[reducible] def ServerCall.Ans : ServerCall → Type
  | select => Int
  | hcqGetNextCmd => Cmd
  | malloc _ => Bool
  | mallocOut => Option (Nat → UInt8)
  | xememMake _ _ _ => UInt64
  | xememGet _ => Int
  | xememAttach _ _ => UInt64
  | xememRelease _ => Unit
  | ioctl c => Int × c.Out
  | pmiGetRank => Bool × UInt32
  | pmiGetSize => Bool × UInt32
  | pmiAllgather _ _ _ => Bool × Bytes
  | pmiFinalize => Unit
  | posixMemalign _ => Bool × UInt64
  | hcqCmdReturn _ _ _ => Unit

/-- Server programs. -/
abbrev ServerM : Type → Type := Prog ServerCall ServerCall.Ans

namespace ServerM

@[simp] def select : ServerM Int := Prog.call ServerCall.select
@[simp] def hcqGetNextCmd : ServerM Cmd := Prog.call ServerCall.hcqGetNextCmd
@[simp] def malloc (site : MallocSite) : ServerM Bool := Prog.call (ServerCall.malloc site)
@[simp] def mallocOut : ServerM (Option (Nat → UInt8)) := Prog.call ServerCall.mallocOut

@[simp] def xememMake (vaddr size : UInt64) (name : Option Window) : ServerM UInt64 :=
  Prog.call (ServerCall.xememMake vaddr size name)

@[simp] def xememGet (segid : UInt64) : ServerM Int := Prog.call (ServerCall.xememGet segid)

@[simp] def xememAttach (apid : Int) (size : UInt64) : ServerM UInt64 :=
  Prog.call (ServerCall.xememAttach apid size)

@[simp] def xememRelease (apid : Int) : ServerM Unit := Prog.call (ServerCall.xememRelease apid)
@[simp] def ioctl (c : DeviceCall) : ServerM (Int × c.Out) := Prog.call (ServerCall.ioctl c)
@[simp] def pmiGetRank : ServerM (Bool × UInt32) := Prog.call ServerCall.pmiGetRank
@[simp] def pmiGetSize : ServerM (Bool × UInt32) := Prog.call ServerCall.pmiGetSize

@[simp] def pmiAllgather (site : GatherSite) (data : Bytes) (len : Nat) : ServerM (Bool × Bytes) :=
  Prog.call (ServerCall.pmiAllgather site data len)

@[simp] def pmiFinalize : ServerM Unit := Prog.call ServerCall.pmiFinalize

@[simp] def posixMemalign (size : UInt32) : ServerM (Bool × UInt64) :=
  Prog.call (ServerCall.posixMemalign size)

@[simp] def hcqCmdReturn (cmd : Nat) (ret : Int) (data : Bytes) : ServerM Unit :=
  Prog.call (ServerCall.hcqCmdReturn cmd ret data)

end ServerM

/-! ### State of the server -/

/-- The statics of `allgather`: `ivec` is the rank order learnt by the first
call, its `int`s kept as 32-bit words. -/
structure Gather where
  alreadyCalled : Bool
  ivec : List UInt32
  jobSize : UInt32
  deriving DecidableEq

/-- What `main` keeps between commands.  `alpsCookie`, `alpsPtag` and
`instanceId` are set once before the loop; `postDescPtr` is the address of the
local `post_desc`. -/
structure Server where
  mt : MemsegList
  nicSetAttr : GniNicSetattrArgs
  postAttr : GniPostRdmaArgs
  postDesc : GniPostDescriptor
  jobSize : UInt32
  myRank : UInt32
  gather : Gather
  alpsCookie : UInt32
  alpsPtag : UInt32
  instanceId : UInt32
  postDescPtr : UInt64

/-- `MAP_FAILED`. -/
def mapFailed : UInt64 := -1

/-- How `main` can leave its loop. -/
inductive ServerExit
  | returned (v : Int)
  | hcqInvalidHandle
  | selectError
  | assertFailed
  deriving DecidableEq

/-- The end of one round. -/
inductive Round
  | next (s : Server)
  | stop (s : Server) (why : ServerExit)

/-- The state a round ends in. -/
def Round.server : Round → Server
  | next s => s
  | stop s _ => s

/-- Whether the loop goes on. -/
def Round.goesOn : Round → Bool
  | next _ => true
  | stop _ _ => false

open ServerM

/-! ### The collective -/

/-- The ranks gathered by the first call, one `int` each. -/
def readRanks (n : Nat) (ranks : Bytes) : List UInt32 :=
  (List.range n).map fun i => Codec.u32.decode (slice ranks i 4)

/-- First call of `allgather`: learn the order in which `PMI_Allgather` returns
the ranks.  `none` is a failed `assert`. -/
def learnRanks : ServerM (Option Gather) := do
  let (ok, jobSize) ← pmiGetSize
  if !ok then return none
  else
    let (ok, myRank) ← pmiGetRank
    if !ok then return none
    else
      let ok ← malloc .ivec
      if !ok then return none
      else
        let (ok, ranks) ← pmiAllgather .ranks (Codec.u32.encode myRank) 4
        if !ok then return none
        else return some ⟨true, readRanks jobSize.toNat ranks, jobSize⟩

/-- The test of `already_called`. -/
def rankOrder (g : Gather) : ServerM (Option Gather) :=
  if g.alreadyCalled then pure (some g) else learnRanks

/-- `allgather` of the server. -/
def gatherBlocks (g : Gather) (inp out : Bytes) (len : Nat) :
    ServerM (Option (Gather × Bytes)) := do
  let learnt ← rankOrder g
  match learnt with
  | none => return none
  | some g =>
    let ok ← malloc .tmpBuf
    if !ok then return none
    else
      let (ok, tmpBuf) ← pmiAllgather .blocks inp len
      if !ok then return none
      else
        return some (g, scatter (fun i => (g.ivec.getD i 0).toNat) tmpBuf len g.jobSize.toNat out)

/-! ### The cases of the command loop -/

/-- The attributes the server sets its NIC to, whatever the client asked for. -/
def nicAttr (s : Server) : GniNicSetattrArgs :=
  { s.nicSetAttr.setModes 0 with
    cookie := s.alpsCookie, ptag := s.alpsPtag, rank := s.instanceId }

def serveNicSetattr (s : Server) (cmd : Cmd) (ret : Int) : ServerM Round := do
  let (status, nic) ← ioctl (.nicSetattr (nicAttr s))
  if status < 0 then return .stop { s with nicSetAttr := nic } (.returned 0)
  else
    let fmaWin ← xememMake nic.fmaWindow fmaWindowSize (some .win)
    let fmaPut ← xememMake nic.fmaWindowNwc fmaWindowSize (some .put)
    let fmaGet ← xememMake nic.fmaWindowGet fmaWindowSize (some .get)
    let fmaCtrl ← xememMake nic.fmaCtrl ghalFmaCtrlSize (some .ctrl)
    let nic := { nic with
      fmaWindow := fmaWin, fmaWindowNwc := fmaPut, fmaWindowGet := fmaGet, fmaCtrl := fmaCtrl }
    hcqCmdReturn cmd.id ret (GniNicSetattrArgs.codec.encode nic)
    return .next { s with nicSetAttr := nic }

/-- The device call and the reply that end the `MEM_REGISTER` case. -/
def registerWithDevice (s : Server) (cmd : Cmd) (ret : Int) (attr : GniMemRegisterArgs) :
    ServerM Round := do
  let (rc, attr) ← ioctl (.memRegister attr)
  if rc < 0 then return .stop s (.returned rc)
  else
    hcqCmdReturn cmd.id ret (GniMemRegisterArgs.codec.encode attr)
    return .next s

def serveMemRegister (s : Server) (cmd : Cmd) (ret : Int) : ServerM Round := do
  let attr := GniMemRegisterArgs.codec.decode cmd.data
  if attr.segmentsCnt = 1 then
    let apid ← xememGet attr.address
    if apid ≤ 0 then return .stop s .hcqInvalidHandle
    else
      let buffer ← xememAttach apid attr.length
      if buffer = mapFailed then
        xememRelease apid
        return .stop s (.returned (-1))
      else
        let ok ← malloc .listNode
        let mt := listAddElement s.mt ok attr.address buffer attr.length
        registerWithDevice { s with mt := mt } cmd ret { attr with address := buffer }
  else
    -- the segmented form is passed on as it came
    registerWithDevice s cmd ret attr

def servePostRdma (s : Server) (cmd : Cmd) (ret : Int) : ServerM Round := do
  let postDesc := GniPostDescriptor.codec.decode (cmd.data.take GniPostDescriptor.codec.size)
  let postAttr := GniPostRdmaArgs.codec.decode
    ((cmd.data.drop GniPostDescriptor.codec.size).take GniPostRdmaArgs.codec.size)
  let buffer := listFindVaddrBySegid s.mt postDesc.localAddr
  let postDesc := { postDesc with localAddr := buffer }
  let postAttr := { postAttr with postDesc := s.postDescPtr }
  let s := { s with postAttr := postAttr, postDesc := postDesc }
  let (rc, _) ← ioctl (.postRdma postAttr postDesc)
  if rc < 0 then return .stop s (.returned 0)
  else
    -- `rc` itself is the reply; a non-negative `int` is its own 32-bit word
    hcqCmdReturn cmd.id ret (Codec.u32.encode (UInt32.ofNat rc.toNat))
    return .next s

def serveCqCreate (s : Server) (cmd : Cmd) (ret : Int) : ServerM Round := do
  let attr := GniCqCreateArgs.codec.decode cmd.data
  let buffer := listFindVaddrBySegid s.mt attr.queue
  let (rc, attr) ← ioctl (.cqCreate { attr with queue := buffer })
  if rc < 0 then return .stop s (.returned 0)
  else
    hcqCmdReturn cmd.id ret (GniCqCreateArgs.codec.encode attr)
    return .next s

def serveNicFmaConfig (s : Server) (cmd : Cmd) (ret : Int) : ServerM Round := do
  let attr := GniNicFmaconfigArgs.codec.decode cmd.data
  let (rc, attr) ← ioctl (.nicFmaConfig attr)
  if rc < 0 then return .stop s (.returned 0)
  else
    hcqCmdReturn cmd.id ret (GniNicFmaconfigArgs.codec.encode attr)
    return .next s

/-- The block handed to the collective: one of the size of a memory handle has
its segment id replaced by the server's address of that segment. -/
def gatherInput (s : Server) (data : Bytes) : Bytes :=
  if data.length = MdhAddr.codec.size then
    let memhdl := MdhAddr.codec.decode data
    MdhAddr.codec.encode { memhdl with addr := listFindVaddrBySegid s.mt memhdl.addr }
  else data

def serveAllgather (s : Server) (cmd : Cmd) (ret : Int) : ServerM Round := do
  let outbuf ← mallocOut
  match outbuf with
  | none => return .stop s .assertFailed
  | some contents =>
    let out := (List.range (s.jobSize.toNat * cmd.data.length)).map contents
    let gathered ← gatherBlocks s.gather (gatherInput s cmd.data) out cmd.data.length
    match gathered with
    | none => return .stop s .assertFailed
    | some (g, out) =>
      hcqCmdReturn cmd.id ret out
      return .next { s with gather := g }

/-- Of the server, a gather changes what it has learnt about the ranks. -/
theorem serveAllgather_server (s : Server) (cmd : Cmd) (ret : Int) :
    (serveAllgather s cmd ret).Returns fun r => ∃ g, r.server = { s with gather := g } := by
  rw [serveAllgather, ServerM.mallocOut, Prog.call_bind]
  intro outbuf
  rcases outbuf with - | contents
  · exact ⟨s.gather, rfl⟩
  · refine .bind (Prog.returns_true (gatherBlocks ..)) fun gathered _ => ?_
    rcases gathered with - | ⟨g, out⟩
    · exact ⟨s.gather, rfl⟩
    · exact fun _ => ⟨g, rfl⟩

def serveGetrank (s : Server) (cmd : Cmd) (ret : Int) : ServerM Round := do
  let (ok, rank) ← pmiGetRank
  let s := { s with myRank := if ok then rank else s.myRank }
  hcqCmdReturn cmd.id ret (Codec.u32.encode s.myRank)
  return .next s

def serveGetsize (s : Server) (cmd : Cmd) (ret : Int) : ServerM Round := do
  let (ok, size) ← pmiGetSize
  let s := { s with jobSize := if ok then size else s.jobSize }
  hcqCmdReturn cmd.id ret (Codec.u32.encode s.jobSize)
  return .next s

def serveFinalize (s : Server) (cmd : Cmd) (ret : Int) : ServerM Round := do
  ServerM.pmiFinalize
  hcqCmdReturn cmd.id ret []
  return .next s

/-- The one case that replies before it updates its list. -/
def serveMalloc (s : Server) (cmd : Cmd) (ret : Int) : ServerM Round := do
  let mallocsz := Codec.u32.decode (cmd.data.take 4)
  let (ok, buffer) ← posixMemalign mallocsz
  if !ok then return .stop s .assertFailed
  else
    let regMemSeg ← xememMake buffer mallocsz.toUInt64 none
    hcqCmdReturn cmd.id ret (Codec.u64.encode regMemSeg)
    let ok ← malloc .listNode
    return .next { s with mt := listAddElement s.mt ok regMemSeg buffer mallocsz.toUInt64 }

/-- The `switch` on the command code.  A code without a case is dropped. -/
def dispatch (s : Server) (cmd : Cmd) (ret : Int) : ServerM Round :=
  if cmd.code = gniIocNicSetattr.toUInt64 then serveNicSetattr s cmd ret
  else if cmd.code = gniIocMemRegister.toUInt64 then serveMemRegister s cmd ret
  else if cmd.code = gniIocPostRdma.toUInt64 then servePostRdma s cmd ret
  else if cmd.code = gniIocCqCreate.toUInt64 then serveCqCreate s cmd ret
  else if cmd.code = gniIocNicFmaConfig.toUInt64 then serveNicFmaConfig s cmd ret
  else if cmd.code = pmiIocAllgather.toUInt64 then serveAllgather s cmd ret
  else if cmd.code = pmiIocGetrank.toUInt64 then serveGetrank s cmd ret
  else if cmd.code = pmiIocGetsize.toUInt64 then serveGetsize s cmd ret
  else if cmd.code = pmiIocFinalize.toUInt64 then serveFinalize s cmd ret
  else if cmd.code = pmiIocMalloc.toUInt64 then serveMalloc s cmd ret
  else return .next s

/-- What holds of every case and of the code without one holds of the `switch`. -/
theorem dispatch_cases {C : ServerM Round → Prop} (s : Server) (cmd : Cmd) (ret : Int)
    (nicSetattr : cmd.code = gniIocNicSetattr.toUInt64 → C (serveNicSetattr s cmd ret))
    (memRegister : cmd.code = gniIocMemRegister.toUInt64 → C (serveMemRegister s cmd ret))
    (postRdma : cmd.code = gniIocPostRdma.toUInt64 → C (servePostRdma s cmd ret))
    (cqCreate : cmd.code = gniIocCqCreate.toUInt64 → C (serveCqCreate s cmd ret))
    (nicFmaConfig : cmd.code = gniIocNicFmaConfig.toUInt64 → C (serveNicFmaConfig s cmd ret))
    (allgather : cmd.code = pmiIocAllgather.toUInt64 → C (serveAllgather s cmd ret))
    (getrank : cmd.code = pmiIocGetrank.toUInt64 → C (serveGetrank s cmd ret))
    (getsize : cmd.code = pmiIocGetsize.toUInt64 → C (serveGetsize s cmd ret))
    (finalize : cmd.code = pmiIocFinalize.toUInt64 → C (serveFinalize s cmd ret))
    (malloc : cmd.code = pmiIocMalloc.toUInt64 → C (serveMalloc s cmd ret))
    (dropped : C (pure (.next s))) : C (dispatch s cmd ret) := by
  have hite {c : Prop} [Decidable c] {p q : ServerM Round} (hp : c → C p) (hq : C q) :
      C (if c then p else q) := by
    split
    · next hc => exact hp hc
    · exact hq
  apply hite nicSetattr
  apply hite memRegister
  apply hite postRdma
  apply hite cqCreate
  apply hite nicFmaConfig
  apply hite allgather
  apply hite getrank
  apply hite getsize
  apply hite finalize
  apply hite malloc
  exact dropped

/-- One round of the command loop.  The descriptor of the queue is the only one
waited for, so a `select` that did not fail means that a command is there. -/
def serve (s : Server) : ServerM Round := do
  let ret ← select
  if ret = -1 then return .stop s .selectError
  else
    let cmd ← hcqGetNextCmd
    dispatch s cmd ret

end Nvl.StaticLink

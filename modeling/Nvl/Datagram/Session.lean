/-
Nvl/Datagram/Session.lean

Session management of the driver (`kgni_ops.c`): the datagrams that two endpoints exchange
before they can use each other's memory.

A post makes a session, or answers one that the peer began.  Sessions with something to
send are on the list of the task, which hands their packets to the channel of the NIC; the
channel reports each packet back by its number.  A session leaves the list when nothing of
it is under way, and the application takes the result away with a test.

A node has one device.  A session is known by its generation, of which every new one takes
the next; following a generation whose session is freed is a fault, and so are a failed
assertion, a null pointer, and a copy of data that were never written or do not fit.  Each
function holds the lock throughout, except the event handler, which takes none: it finds its
session, writes the report down and lets the packet go, and between these parts, as between
any two turns of the task, anything else can happen.
-/
import Nvl.Lib.Keyed
import Mathlib.Logic.Function.Basic

namespace Nvl.Datagram

open SysLib

/-! ### Data -/

/-- `KGNI_SM_STATE_…`. -/
inductive SmState where
  | locinfoReady
  | reminfoReady
  | completed
  | terminateInit
  | terminated
  | timeout
  deriving DecidableEq

/-- `-1`, as an unsigned word: `GNII_REMOTE_PE_ANY` and `GNII_REMOTE_ID_ANY`. -/
def any : UInt32 := 0xFFFFFFFF

/-- `-1` for a post id. -/
def noPostId : UInt64 := 0xFFFFFFFFFFFFFFFF

structure SmId where
  pe : UInt32
  instId : UInt32
  deriving DecidableEq

/-- `GNI_EP_BOUND`. -/
def SmId.bound (e : SmId) : Bool := e.pe != any && e.instId != any

/-- `GNI_DATAGRAM_MAXSIZE`. -/
def datagramMaxsize : Nat := 128

/-- `kgni_sm_pkt_t`.  The data of a session that the peer began are not written before the
local post, nor is their size. -/
structure SmPkt where
  ptag : UInt8
  cookie : UInt32
  state : SmState
  localId : SmId
  remoteId : SmId
  localGen : Nat
  remoteGen : Nat
  seqNum : Nat
  localUdata : Option (List UInt8)
  deriving DecidableEq

/-- `KGNI_SM_FLAG_…`. -/
structure SmFlags where
  stateChanged : Bool
  sendFailed : Bool
  usrNotified : Bool
  deriving DecidableEq

/-- `flags = KGNI_SM_FLAG_STATE_CHANGED`. -/
def SmFlags.changed : SmFlags := ⟨true, false, false⟩

/-- The values of `gni_return_t` that `snd_status` is compared with, and the others. -/
inductive SndStatus where
  | notDone
  | success
  | errorResource
  | error
  deriving DecidableEq

/-- `kgni_sm_info_t`. -/
structure SmInfo where
  pkt : SmPkt
  postId : UInt64
  flags : SmFlags
  pktsOut : Int
  flrcnt : Nat
  nrxCnt : Nat
  rxDelay : Nat
  virtRemotePe : UInt32
  sndStatus : SndStatus
  nic : Nat
  sndSeqNum : Nat
  rcvdSeqNum : Nat
  remUdata : List UInt8
  deriving DecidableEq

def SmInfo.gen (s : SmInfo) : Nat := s.pkt.localGen

/-- `flags |= KGNI_SM_FLAG_USR_NOTIFIED`. -/
def SmInfo.notified (s : SmInfo) : SmInfo :=
  { s with flags := { s.flags with usrNotified := true } }

/-- A CDM is found by these three. -/
structure Cdm where
  ptag : UInt8
  cookie : UInt32
  instId : UInt32
  deriving DecidableEq

/-- The network translation of a job: `ghal_ntt_to_pe` and `kgni_ntt_physical_to_logical`. -/
structure Ntt where
  grpSize : UInt32
  toPe : UInt32 → UInt32
  toLogical : UInt32 → UInt32

/-- What session management uses of a NIC.  The table of packets has the size of the
channel's limit and one. -/
structure Nic where
  cdm : Option Cdm
  chnl : Bool
  datagramCnt : Option Int
  smPkts : Option (Nat → Option Nat)
  smPktId : Nat
  ntt : Ntt
  kernel : Bool

/-- A call of the event handler that has found its session; `marked` says that it has written
down what became of the packet. -/
structure Handler where
  nic : Nat
  gen : Nat
  status : SndStatus
  marked : Bool

structure Node where
  pe : UInt32
  nics : Nat → Nic
  sessions : List SmInfo
  smList : List Nat
  smGeneration : Nat
  handlers : List Handler

/-- `KGNI_MAX_SM_PKTS`, `KGNI_SM_MAX_RETRANSMITS` and `msecs_to_jiffies`. -/
structure Config where
  maxTxPkts : Nat
  maxRetransmits : Nat
  msecsToJiffies : Nat → Nat

inductive Fault where
  | assertion
  | freed
  | null
  | uninitialised
  | overflow
  deriving DecidableEq

inductive Errno where
  | einval
  | e2big
  | enxio
  | enomem
  | eexist
  | esrch
  deriving DecidableEq

/-! ### Access -/

namespace Node

variable (n : Node)

/-- The sessions of the CDM that the NIC is attached to, in the order of their list. -/
def sessionsOf (i : Nat) : List SmInfo := n.sessions.filter fun s => s.nic = i

def find (g : Nat) : Option SmInfo := findKey SmInfo.gen n.sessions g

def handler (g : Nat) : Option Handler := findKey Handler.gen n.handlers g

def write (s : SmInfo) : Node := { n with sessions := writeKey SmInfo.gen n.sessions s }

/-- `list_del` on the list of the CDM, and `kmem_cache_free`. -/
def free (g : Nat) : Node := { n with sessions := removeKey SmInfo.gen n.sessions g }

/-- `list_add` on `kgni_sm_list`. -/
def enlist (g : Nat) : Node := { n with smList := g :: n.smList }

/-- `list_add`, if the session is not on the list. -/
def enlistNew (g : Nat) : Node := if g ∈ n.smList then n else n.enlist g

/-- `list_del_init` on `kgni_sm_list`. -/
def delist (g : Nat) : Node := { n with smList := n.smList.filter (· ≠ g) }

def setNic (i : Nat) (nic : Nic) : Node := { n with nics := Function.update n.nics i nic }

/-- The counter that the application reads, if it has one. -/
def count (i : Nat) (d : Int) : Node :=
  n.setNic i { n.nics i with datagramCnt := (n.nics i).datagramCnt.map (· + d) }

/-- `kgni_notify_user`; the session is written back. -/
def notify (s : SmInfo) : Node :=
  if (n.nics s.nic).datagramCnt.isSome && !s.flags.usrNotified then
    (n.count s.nic 1).write s.notified
  else n.write s

end Node

/-- The translation at the begin of a call: the address to use, and the virtual one.  The test
for an error of the lookup is made on an unsigned word and never fires. -/
def Ntt.physical (t : Ntt) (asked : Bool) (pe : UInt32) : Except Errno (UInt32 × UInt32) :=
  if t.grpSize ≠ 0 ∧ asked then
    if pe ≥ t.grpSize then .error .enxio else .ok (t.toPe pe, pe)
  else .ok (pe, any)

/-! ### Posting -/

/-- `gni_ep_postdata_args_t`; `inData` are the bytes at `in_data`.  The last two fields are what
the copy and the allocator answer. -/
structure PostArgs where
  remotePe : UInt32
  remoteId : UInt32
  inData : Option (List UInt8)
  inDataLen : Nat
  postId : UInt64
  usePostId : Bool
  copyFails : Bool
  allocFails : Bool

def PostArgs.bound (a : PostArgs) : Bool := SmId.bound ⟨a.remotePe, a.remoteId⟩

/-- What a post is made of once its arguments are checked. -/
structure Post where
  cdm : Cdm
  remote : SmId
  virt : UInt32
  data : List UInt8

/-- The checks of `kgni_sm_add_session`. -/
def checkPost (nic : Nic) (a : PostArgs) : Except Errno Post :=
  match nic.cdm with
  | none => .error .einval
  | some cdm =>
      if a.inDataLen > datagramMaxsize then .error .e2big
      else if !a.bound && !a.usePostId then .error .einval
      else
        match nic.ntt.physical (a.remotePe != any) a.remotePe with
        | .error e => .error e
        | .ok (pe, virt) =>
            if a.inData.isSome && !nic.kernel && a.copyFails then .error .enomem
            else .ok ⟨cdm, ⟨pe, a.remoteId⟩, virt, (a.inData.map (·.take a.inDataLen)).getD []⟩

/-- The session was begun by a peer that this post may answer. -/
def PostArgs.answers (a : PostArgs) (p : Post) (s : SmInfo) : Bool :=
  s.pkt.state == .reminfoReady && (!a.bound || p.remote == s.pkt.remoteId)

/-- The session is to the same peer. -/
def PostArgs.repeats (a : PostArgs) (p : Post) (s : SmInfo) : Bool :=
  a.bound && p.remote == s.pkt.remoteId

/-- The session after an answer. -/
def answered (a : PostArgs) (p : Post) (s : SmInfo) : SmInfo :=
  { s with
    pkt := { s.pkt with localUdata := some p.data, state := .completed }
    flags := .changed
    virtRemotePe := p.virt
    postId := if a.usePostId then a.postId else s.postId }

/-- A session begun here. -/
def begun (n : Node) (i : Nat) (a : PostArgs) (p : Post) : SmInfo where
  pkt :=
    { ptag := p.cdm.ptag
      cookie := p.cdm.cookie
      state := .locinfoReady
      localId := ⟨n.pe, p.cdm.instId⟩
      remoteId := p.remote
      localGen := n.smGeneration
      remoteGen := 0
      seqNum := 1
      localUdata := some p.data }
  postId := if a.usePostId then a.postId else noPostId
  flags := if p.remote.pe ≠ any then .changed else ⟨false, false, false⟩
  pktsOut := 0
  flrcnt := 0
  nrxCnt := 0
  rxDelay := 0
  virtRemotePe := p.virt
  sndStatus := .notDone
  nic := i
  sndSeqNum := 1
  rcvdSeqNum := 0
  remUdata := []

/-- A session is added to the end of the list of its CDM. -/
def Node.add (n : Node) (s : SmInfo) : Node :=
  { n with sessions := n.sessions ++ [s], smGeneration := n.smGeneration + 1 }

/-- `kgni_sm_add_session`; a success says which session holds the data. -/
def addSession (n : Node) (i : Nat) (a : PostArgs) : Except Fault (Node × Except Errno Nat) :=
  match checkPost (n.nics i) a with
  | .error e => .ok (n, .error e)
  | .ok p =>
      match (n.sessionsOf i).find? fun s => a.answers p s || a.repeats p s with
      | some s =>
          if a.answers p s then
            if s.gen ∈ n.smList then .error .assertion
            else .ok ((n.write (answered a p s)).enlist s.gen, .ok s.gen)
          else .ok (n, .error .eexist)
      | none =>
          if a.allocFails then .ok (n, .error .enomem)
          else
            let n' := n.add (begun n i a p)
            if p.remote.pe ≠ any then .ok (n'.enlist n.smGeneration, .ok n.smGeneration)
            else .ok (n', .ok n.smGeneration)

/-! ### Terminating -/

/-- `gni_ep_postdata_term_args_t`. -/
structure TermArgs where
  remotePe : UInt32
  remoteId : UInt32
  postId : UInt64
  usePostId : Bool

def TermArgs.bound (a : TermArgs) : Bool := SmId.bound ⟨a.remotePe, a.remoteId⟩

/-- The checks of `kgni_sm_terminate`. -/
def checkTerm (nic : Nic) (a : TermArgs) : Except Errno SmId :=
  if nic.cdm.isNone then .error .einval
  else if !a.bound && !a.usePostId then .error .einval
  else
    match nic.ntt.physical (a.remotePe != any) a.remotePe with
    | .error e => .error e
    | .ok (pe, _) => .ok ⟨pe, a.remoteId⟩

/-- By post id or by the peer, as the caller asks. -/
def SmInfo.matched (s : SmInfo) (byPostId : Bool) (postId : UInt64) (remote : SmId) : Bool :=
  if byPostId then s.postId != noPostId && postId == s.postId else s.pkt.remoteId == remote

/-- A session that the application gives up. -/
def SmInfo.ending (s : SmInfo) : SmInfo :=
  { s with pkt := { s.pkt with state := .terminateInit }, flags := .changed }

/-- `kgni_sm_terminate`. -/
def terminate (n : Node) (i : Nat) (a : TermArgs) : Except Fault (Node × Except Errno Unit) :=
  match checkTerm (n.nics i) a with
  | .error e => .ok (n, .error e)
  | .ok remote =>
      match (n.sessionsOf i).find? fun s => s.matched (!a.bound) a.postId remote with
      | none => .ok (n, .error .esrch)
      | some s =>
          if !a.bound && s.pkt.remoteId.pe == remote.pe then
            -- an open-ended session that nobody has matched
            if !(n.nics i).chnl then .error .null
            else .ok ((n.free s.gen).count i 1, .ok ())
          else
            .ok ((n.write s.ending).enlistNew s.gen, .ok ())

/-! ### Testing -/

/-- `GNI_POST_…`. -/
inductive PostState where
  | pending
  | completed
  | terminated
  | timeout
  | remoteData
  deriving DecidableEq

/-- `gni_ep_postdata_test_args_t`, and what the copy to the caller answers.  `outData` stands
for the buffer at `out_buff`. -/
structure TestArgs where
  remotePe : UInt32
  remoteId : UInt32
  postId : UInt64
  usePostId : Bool
  probe : Bool
  outBuff : Bool
  buffSize : Nat
  state : PostState
  outData : List UInt8
  copyFails : Bool

def TestArgs.bound (a : TestArgs) : Bool := SmId.bound ⟨a.remotePe, a.remoteId⟩

def SmState.post : SmState → PostState
  | .completed => .completed
  | .terminated => .terminated
  | .timeout => .timeout
  | .reminfoReady => .remoteData
  | .locinfoReady => .pending
  | .terminateInit => .pending

/-- The states in which a session is finished. -/
def SmState.final : SmState → Bool
  | .completed => true
  | .terminated => true
  | .timeout => true
  | _ => false

/-- Where the loop of `kgni_sm_get_state` stands. -/
structure TestAcc where
  node : Node
  attr : TestArgs
  retval : Except Errno Unit
  data : List UInt8
  freeSm : Bool

/-- The address the caller is told: `none` if it has no virtual one. -/
def virtualPe (t : Ntt) (s : SmInfo) : Option UInt32 :=
  if t.grpSize ≠ 0 then
    let virt := if s.virtRemotePe = any then t.toLogical s.pkt.remoteId.pe else s.virtRemotePe
    if virt = any then none else some virt
  else some s.pkt.remoteId.pe

/-- A session with data or a result, before the address of the peer is looked up. -/
def report (i : Nat) (s : SmInfo) (acc : TestAcc) : Except Fault TestAcc :=
  let attr :=
    { acc.attr with
      remotePe := s.pkt.remoteId.pe
      remoteId := s.pkt.remoteId.instId
      postId := s.postId }
  let fits := s.remUdata.length ≤ attr.buffSize
  let acc :=
    { acc with
      attr
      retval := if attr.outBuff ∧ ¬ fits then .error .e2big else acc.retval
      data := if attr.outBuff ∧ fits then s.remUdata else acc.data }
  if s.pkt.state = .reminfoReady then .ok acc
  else if s.gen ∈ acc.node.smList then
    .ok { acc with attr := { acc.attr with state := .pending } }
  else if !(acc.node.nics i).chnl then .error .null
  else .ok { acc with node := acc.node.count i (-1), freeSm := true }

/-- One session that matches; `.inr` ends the loop. -/
def visit (i : Nat) (s : SmInfo) (acc : TestAcc) :
    Except Fault (TestAcc ⊕ (TestAcc × Bool)) :=
  let acc := { acc with attr := { acc.attr with state := s.pkt.state.post }, retval := .ok () }
  let ntt := (acc.node.nics i).ntt
  -- the session goes if it was found finished and has an address
  let leave := fun (acc : TestAcc) =>
    if acc.attr.remotePe ≠ any then
      .inr ({ acc with node := if acc.freeSm then acc.node.free s.gen else acc.node }, false)
    else .inl acc
  if s.pkt.state.final || s.pkt.state == .reminfoReady then
    match report i s acc with
    | .error f => .error f
    | .ok acc =>
        match virtualPe ntt s with
        | none => .ok (.inr ({ acc with retval := .error .enxio }, true))
        | some pe =>
            let node := if ntt.grpSize ≠ 0 then acc.node.write { s with virtRemotePe := pe }
              else acc.node
            .ok (leave { acc with node, attr := { acc.attr with remotePe := pe } })
  else .ok (leave acc)

/-- The loop over the sessions; the mark says that the function returned from within.  What
is matched is what the attributes hold by then. -/
def testLoop (i : Nat) : List SmInfo → TestAcc → Except Fault (TestAcc × Bool)
  | [], acc => .ok (acc, false)
  | s :: l, acc =>
      if s.matched acc.attr.usePostId acc.attr.postId ⟨acc.attr.remotePe, acc.attr.remoteId⟩ then
        match visit i s acc with
        | .error f => .error f
        | .ok (.inr r) => .ok r
        | .ok (.inl acc) => testLoop i l acc
      else testLoop i l acc

/-- The session that a probe reports. -/
def probed (n : Node) (a : TestArgs) (s : SmInfo) : Bool :=
  decide (s.gen ∉ n.smList) && s.pkt.state.final && (!a.usePostId || s.postId != noPostId)

/-- `kgni_sm_probe_state`. -/
def probeState (n : Node) (i : Nat) (a : TestArgs) : TestArgs × Except Errno Unit :=
  match (n.sessionsOf i).find? (probed n a) with
  | none => (a, .error .esrch)
  | some s =>
      if a.usePostId then ({ a with postId := s.postId }, .ok ())
      else
        let a := { a with remoteId := s.pkt.remoteId.instId }
        let ntt := (n.nics i).ntt
        if ntt.grpSize ≠ 0 then
          let pe := ntt.toLogical s.pkt.remoteId.pe
          ({ a with remotePe := pe }, if pe = any then .error .enxio else .ok ())
        else ({ a with remotePe := s.pkt.remoteId.pe }, .ok ())

/-- The end of `kgni_sm_get_state`; a caller in the kernel has its data in place by then. -/
def testResult (kernel : Bool) (virt : UInt32) :
    TestAcc × Bool → Node × TestArgs × Except Errno Unit
  | (acc, within) =>
      let attr := if !within && virt != any then { acc.attr with remotePe := virt } else acc.attr
      if acc.data.isEmpty then (acc.node, attr, acc.retval)
      else if kernel then (acc.node, { attr with outData := acc.data }, acc.retval)
      else if within then (acc.node, attr, acc.retval)
      else if attr.copyFails then (acc.node, attr, .error .enomem)
      else (acc.node, { attr with outData := acc.data }, .ok ())

/-- `kgni_sm_get_state`. -/
def getState (n : Node) (i : Nat) (a : TestArgs) :
    Except Fault (Node × TestArgs × Except Errno Unit) :=
  if (n.nics i).cdm.isNone then .ok (n, a, .error .einval)
  else if a.probe then .ok (n, probeState n i a)
  else
    match (n.nics i).ntt.physical a.bound a.remotePe with
    | .error e => .ok (n, a, .error e)
    | .ok (pe, virt) =>
        if !a.bound && !a.usePostId then .ok (n, { a with remotePe := pe }, .error .einval)
        else
          let acc : TestAcc := ⟨n, { a with remotePe := pe }, .error .esrch, [], false⟩
          match testLoop i (n.sessionsOf i) acc with
          | .error f => .error f
          | .ok r => .ok (testResult (n.nics i).kernel virt r)

/-! ### The task -/

/-- `kgni_sm_rx_set_delay`. -/
def rxSetDelay (c : Config) (now : Nat) (s : SmInfo) : SmInfo :=
  if s.nrxCnt > 2 then
    let tmp := s.nrxCnt - 1
    { s with rxDelay := now + c.msecsToJiffies (min (tmp * tmp) 1000) }
  else { s with rxDelay := 0 }

/-- `kgni_sm_rx_delay`. -/
def rxDelayed (now : Nat) (s : SmInfo) : Bool := s.rxDelay != 0 && now < s.rxDelay

/-- What `kgni_chnl_send` answers. -/
inductive Sent where
  | ok
  | again
  | error
  deriving DecidableEq

/-- A report of the channel: the number of a packet and how it went. -/
structure Event where
  nic : Nat
  pktId : Nat
  status : SndStatus

/-- A part of a call of the event handler; the later ones are named by the session. -/
inductive EventStep where
  | find (e : Event)
  | mark (g : Nat)
  | finish (g : Nat)

/-- What a turn of the task meets: the parts of event handlers before it, the clock at the three
places that read it, and the answer of the channel. -/
structure Turn where
  events : List EventStep
  elapsed : Nat
  setAt : Nat
  checkAt : Nat
  sent : Sent

/-- The search for the next free number.  It would go round for ever if the number in use is 0
and all are taken; `fuel` bounds the rounds, and the end without a number is the assertion. -/
def nextPktId (pkts : Nat → Option Nat) (max id : Nat) : Nat → Nat → Option Nat
  | 0, _ => none
  | fuel + 1, i =>
      if i = id then none
      else
        let i := if i > max then 0 else i
        if pkts i = none then some i else nextPktId pkts max id fuel (i + 1)

/-- A session with a failed packet: the counters of failures. -/
def failed (c : Config) (now : Nat) (s : SmInfo) : SmInfo :=
  if s.flags.sendFailed then
    if s.sndStatus ≠ .errorResource then { s with flrcnt := s.flrcnt + 1 }
    else rxSetDelay c now { s with nrxCnt := s.nrxCnt + 1 }
  else s

/-- The session numbers its packet. -/
def SmInfo.number (s : SmInfo) : SmInfo := { s with pkt := { s.pkt with seqNum := s.sndSeqNum } }

/-- The packet of the session is under way. -/
def SmInfo.launch (s : SmInfo) : SmInfo :=
  { s with
    flags := { s.flags with stateChanged := false, sendFailed := false }
    sndStatus := .notDone
    pktsOut := s.pktsOut + 1 }

/-- The packet of a session is handed to the channel; `s₀` is the session before the counters
were changed. -/
def sendPkt (c : Config) (n : Node) (t : Turn) (s₀ s : SmInfo) :
    Except Fault (Node × Option SmPkt × Bool) :=
  let nic := n.nics s.nic
  match nic.smPkts with
  | none => .error .null
  | some pkts =>
      match t.sent with
      | .error => .error .assertion
      | .again =>
          let n := n.setNic s.nic { nic with smPkts := Function.update pkts nic.smPktId none }
          .ok (n.write { s.number with sndStatus := .notDone, flrcnt := s₀.flrcnt }, none, true)
      | .ok =>
          let pkts := Function.update pkts nic.smPktId (some s.gen)
          match nextPktId pkts c.maxTxPkts nic.smPktId (c.maxTxPkts + 2) (nic.smPktId + 1) with
          | none => .error .assertion
          | some k =>
              let n := n.setNic s.nic { nic with smPkts := pkts, smPktId := k }
              .ok (n.write s.number.launch, some s.number.pkt, false)

/-- A session whose packet failed too often. -/
def SmInfo.expire (s : SmInfo) : SmInfo := { s with pkt := { s.pkt with state := .timeout } }

/-- A session with nothing to send and nothing under way. -/
def SmInfo.settle (s : SmInfo) : SmInfo :=
  if s.pkt.state = .terminateInit then { s with pkt := { s.pkt with state := .terminated } } else s

/-- One session on the list of `kgni_sm_task`: the packet it sent, and whether the walk ends. -/
def turn (c : Config) (n : Node) (t : Turn) (s : SmInfo) :
    Except Fault (Node × Option SmPkt × Bool) :=
  let chnl := (n.nics s.nic).chnl
  if chnl && s.pktsOut == 0 && (s.flags.stateChanged || s.flags.sendFailed) &&
      s.pkt.state != .terminated then
    if s.flags.sendFailed && s.flrcnt > c.maxRetransmits then
      .ok ((n.delist s.gen).notify s.expire, none, false)
    else
      let s' := failed c t.setAt s
      if rxDelayed t.checkAt s' then .ok (n.write s', none, false)
      else sendPkt c n t s s'
  else if s.pktsOut == 0 then
    let n := n.delist s.gen
    .ok (if chnl then n.notify s.settle else n.write s.settle, none, false)
  else .ok (n, none, false)

/-- The first part of `kgni_sm_chnl_event`: the session is taken out of the table. -/
def findEvent (c : Config) (n : Node) (e : Event) : Except Fault Node :=
  let nic := n.nics e.nic
  if nic.cdm.isNone || e.pktId > c.maxTxPkts then .error .assertion
  else
    match nic.smPkts with
    | none => .error .null
    | some pkts =>
        match pkts e.pktId with
        | none => .ok n
        | some g =>
            .ok { n.setNic e.nic { nic with smPkts := Function.update pkts e.pktId none } with
              handlers := ⟨e.nic, g, e.status, false⟩ :: n.handlers }

/-- The session whose packet is reported on. -/
def Handler.report (r : Handler) (s : SmInfo) : SmInfo :=
  let s' :=
    if r.status ≠ .success then
      -- a termination that cannot be delivered is one all the same
      { s.settle with flags := { s.flags with sendFailed := true } }
    else { s with sndSeqNum := s.sndSeqNum + 1 }
  { s' with sndStatus := r.status }

/-- The second part: the report is written down. -/
def markEvent (n : Node) (g : Nat) : Except Fault Node :=
  match n.handler g with
  | none => .ok n
  | some r =>
      if r.marked then .ok n
      else
        match n.find g with
        | none => .error .freed
        | some s =>
            .ok { n.write (r.report s) with
              handlers := writeKey Handler.gen n.handlers { r with marked := true } }

/-- The packet of the session is not under way any more. -/
def SmInfo.land (s : SmInfo) : SmInfo := { s with pktsOut := s.pktsOut - 1 }

/-- The last part: the count of the packets is taken down. -/
def finishEvent (n : Node) (g : Nat) : Except Fault Node :=
  match n.handler g with
  | none => .ok n
  | some r =>
      if !r.marked then .ok n
      else
        match n.find g with
        | none => .error .freed
        | some s =>
            if s.pktsOut - 1 < 0 then .error .assertion
            else .ok { n.write s.land with handlers := removeKey Handler.gen n.handlers g }

/-- `kgni_sm_chnl_event`, part by part. -/
def chnlEvent (c : Config) (n : Node) : EventStep → Except Fault Node
  | .find e => findEvent c n e
  | .mark g => markEvent n g
  | .finish g => finishEvent n g

def chnlEvents (c : Config) (n : Node) : List EventStep → Except Fault Node
  | [] => .ok n
  | e :: l =>
      match chnlEvent c n e with
      | .error f => .error f
      | .ok n => chnlEvents c n l

/-- The walk of `kgni_sm_task` over its list, with the packets it sends. -/
def taskLoop (c : Config) (n : Node) : List Nat → List Turn → Except Fault (Node × List SmPkt)
  | g :: l, t :: ts =>
      match chnlEvents c n t.events with
      | .error f => .error f
      | .ok n =>
          if t.elapsed > 1 then .ok (n, [])
          else
            match n.find g with
            | none => .error .freed
            | some s =>
                match turn c n t s with
                | .error f => .error f
                | .ok (n, sent, true) => .ok (n, sent.toList)
                | .ok (n, sent, false) =>
                    match taskLoop c n l ts with
                    | .error f => .error f
                    | .ok (n, sent') => .ok (n, sent.toList ++ sent')
  | _, _ => .ok (n, [])

/-- `kgni_sm_task`. -/
def smTask (c : Config) (n : Node) (ts : List Turn) : Except Fault (Node × List SmPkt) :=
  taskLoop c n n.smList ts

/-! ### Receiving -/

/-- The packet is for this session. -/
def SmInfo.concerns (s : SmInfo) (p : SmPkt) : Bool :=
  s.pkt.remoteId == p.localId && s.pkt.localId == p.remoteId

/-- The packet is from an older session, or says it is finished without knowing this one. -/
def SmInfo.stale (s : SmInfo) (p : SmPkt) : Bool :=
  (p.remoteGen == 0 && p.state == .completed) ||
    (p.remoteGen != 0 && p.remoteGen != s.pkt.localGen)

/-- A finished session does not stand in the way of a new one. -/
def SmInfo.passes (s : SmInfo) (p : SmPkt) : Bool :=
  !s.stale p && p.state != .terminateInit && s.pkt.state == .completed && p.state != .completed

/-- A session without a peer that the packet may bind. -/
def SmInfo.open (s : SmInfo) (p : SmPkt) : Bool :=
  !s.pkt.remoteId.bound && s.pkt.localId == p.remoteId

/-- The loop of `kgni_sm_chnl_rcv`: the session that takes the packet, and the first open one
before it. -/
def rcvLoop (p : SmPkt) : List SmInfo → Option SmInfo → Option SmInfo × Option SmInfo
  | [], first => (none, first)
  | s :: l, first =>
      if s.concerns p then
        if s.passes p then rcvLoop p l first else (some s, first)
      else if first.isNone && s.open p then rcvLoop p l (some s)
      else rcvLoop p l first

/-- `memcpy` of the data of a packet. -/
def udata (p : SmPkt) : Except Fault (List UInt8) :=
  match p.localUdata with
  | none => .error .uninitialised
  | some d => if d.length > datagramMaxsize then .error .overflow else .ok d

/-- The session with the data, generation and number of the packet. -/
def SmInfo.learns (s : SmInfo) (p : SmPkt) (state : SmState) (d : List UInt8) : SmInfo :=
  { s with
    pkt := { s.pkt with state, remoteGen := p.localGen }
    rcvdSeqNum := p.seqNum
    remUdata := d }

/-- The peer has given the session up. -/
def SmInfo.cut (s : SmInfo) (p : SmPkt) : SmInfo :=
  let s' := s.learns p .terminated s.remUdata
  { s' with flags := { s.flags with stateChanged := false, sendFailed := false } }

/-- Both sides have posted; the peer is to be told. -/
def SmInfo.cross (s : SmInfo) (p : SmPkt) (d : List UInt8) : SmInfo :=
  let s' := s.learns p .completed d
  { s' with flags := { s.flags with stateChanged := true } }

/-- An open session gets its peer. -/
def SmInfo.bind (s : SmInfo) (p : SmPkt) (d : List UInt8) : SmInfo :=
  let s' := s.learns p .completed d
  { s' with pkt := { s'.pkt with remoteId := p.localId }, flags := .changed }

/-- The packet is taken by a session. -/
def take (n : Node) (s : SmInfo) (p : SmPkt) : Except Fault Node :=
  if s.stale p then .ok n
  else if p.state = .terminateInit then
    if s.pkt.state = .reminfoReady then
      if s.gen ∈ n.smList then .error .assertion else .ok (n.free s.gen)
    else .ok (n.notify (s.cut p))
  else if s.pkt.state = .locinfoReady then
    match p.state with
    | .locinfoReady =>
        match udata p with
        | .error f => .error f
        | .ok d => .ok ((n.write (s.cross p d)).enlistNew s.gen)
    | .completed =>
        match udata p with
        | .error f => .error f
        | .ok d => .ok (n.notify (s.learns p .completed d))
    | _ => .ok n
  else .ok n

/-- A session begun by the peer. -/
def offered (n : Node) (i : Nat) (cdm : Cdm) (p : SmPkt) (d : List UInt8) : SmInfo where
  pkt :=
    { ptag := cdm.ptag
      cookie := cdm.cookie
      state := .reminfoReady
      localId := ⟨n.pe, cdm.instId⟩
      remoteId := p.localId
      localGen := n.smGeneration
      remoteGen := p.localGen
      seqNum := 1
      localUdata := none }
  postId := noPostId
  flags := ⟨false, false, false⟩
  pktsOut := 0
  flrcnt := 0
  nrxCnt := 0
  rxDelay := 0
  virtRemotePe := any
  sndStatus := .notDone
  nic := i
  sndSeqNum := 1
  rcvdSeqNum := p.seqNum
  remUdata := d

/-- No session takes the packet: it binds an open one or begins one. -/
def place (n : Node) (i : Nat) (cdm : Cdm) (p : SmPkt) (allocFails : Bool) :
    Option SmInfo → Except Fault Node
  | some s =>
      match udata p with
      | .error f => .error f
      | .ok d =>
          if s.gen ∈ n.smList then .error .assertion
          else .ok ((n.write (s.bind p d)).enlist s.gen)
  | none =>
      if allocFails then .ok n
      else
        match udata p with
        | .error f => .error f
        | .ok d => .ok (n.add (offered n i cdm p d))

/-- `kgni_sm_chnl_rcv`; the mark says whether the packet was this channel's. -/
def chnlRcv (n : Node) (i : Nat) (p : SmPkt) (allocFails : Bool) : Except Fault (Node × Bool) :=
  match (n.nics i).cdm with
  | none => .error .assertion
  | some cdm =>
      if p.cookie ≠ cdm.cookie ∨ p.remoteId.instId ≠ cdm.instId then .ok (n, false)
      else
        let mine := fun r : Except Fault Node => r.map fun n => (n, true)
        match rcvLoop p (n.sessionsOf i) none with
        | (some s, _) => mine (take n s p)
        | (none, first) =>
            if p.state = .completed ∨ p.state = .terminateInit ∨ p.remoteGen ≠ 0 then .ok (n, true)
            else mine (place n i cdm p allocFails first)

/-! ### Attaching and detaching -/

/-- What `kgni_nic_attach` sets up for session management. -/
def attach (n : Node) (i : Nat) (cdm : Cdm) (datagramCnt : Option Int) (kernel : Bool) : Node :=
  let nic := n.nics i
  if nic.cdm.isSome then n
  else
    n.setNic i
      { nic with
        cdm := some cdm
        chnl := true
        datagramCnt
        smPkts := some fun _ => none
        kernel }

/-- `kgni_job_config` and `kgni_resource_incref`, as far as addresses are concerned. -/
def jobConfig (n : Node) (i : Nat) (ntt : Ntt) : Node := n.setNic i { n.nics i with ntt }

/-- The first part of `kgni_nic_detach`: the NIC has no channel any more.  The lock is then
given up until the channel is destroyed. -/
def detachChnl (n : Node) (i : Nat) : Node := n.setNic i { n.nics i with chnl := false }

/-- The second part, with `kgni_sm_cleanup`. -/
def detach (n : Node) (i : Nat) : Node :=
  let gone := (n.sessionsOf i).map SmInfo.gen
  let n := { n with
    sessions := n.sessions.filter fun s => s.nic ≠ i
    smList := n.smList.filter fun g => g ∉ gone }
  n.setNic i { n.nics i with cdm := none, smPkts := none }

end Nvl.Datagram

/-
Nvl/StaticLink/Transparency.lean

What the caller of `ioctl` finds in its structures afterwards.

A device reads the fields marked IN and writes the fields marked OUT.  Seen
through the proxy the same should hold of the caller's structures: the OUT fields
are what the device produced on the server, the windows are the client's own
attachments, and nothing else has changed.

Every case of `pack_args` copies a whole reply over the caller's structure, in
which the server has put its own words, and puts back by hand what it remembers.
`CQ_CREATE` and `POST_RDMA` do; `MEM_REGISTER` leaves the server's address, an
`ALLGATHER` of a handle leaves the segment id, and `NIC_SETATTR` leaves the
attributes the server chose.  `transparent_iff_sameWords` says when nobody can tell.
-/
import Nvl.StaticLink.Replies

namespace Nvl.StaticLink

open SysLib

/-! ### The contract -/

/-- The device writes no field but those marked OUT. -/
structure DeviceKeepsIn (env : (o : ServerCall) → o.Ans) : Prop where
  nicSetattr : ∀ a, (env (.ioctl (.nicSetattr a))).2.inPart = a.inPart
  memRegister : ∀ a, (env (.ioctl (.memRegister a))).2.inPart = a.inPart
  cqCreate : ∀ a, (env (.ioctl (.cqCreate a))).2.inPart = a.inPart
  nicFmaConfig : ∀ a, (env (.ioctl (.nicFmaConfig a))).2.inPart = a.inPart

/-- The client can attach what the server exports. -/
structure ClientAttaches (env : (o : ClientCall) → o.Ans) : Prop where
  get : ∀ k segid, 0 < env (.xememGet k segid)
  attach : ∀ k apid size, env (.xememAttachNocache k apid size) ≠ 0

/-- Where the client attaches a segment: under the permit it gets for it. -/
def clientAttached (env : (o : ClientCall) → o.Ans) (k : Window) (segid size : UInt64) : UInt64 :=
  env (.xememAttachNocache k (env (.xememGet k segid)) size)

/-- The reply with the windows where the client attached them. -/
def attachWindows (env : (o : ClientCall) → o.Ans) (a : GniNicSetattrArgs) : GniNicSetattrArgs :=
  { a with
    fmaWindow := clientAttached env .win a.fmaWindow fmaWindowSize
    fmaWindowNwc := clientAttached env .put a.fmaWindowNwc fmaWindowSize
    fmaWindowGet := clientAttached env .get a.fmaWindowGet fmaWindowSize
    fmaCtrl := clientAttached env .ctrl a.fmaCtrl ghalFmaCtrlSize }

/-- The windows are where the client attached those that `sent` names. -/
structure OwnWindows (env : (o : ClientCall) → o.Ans) (sent a : GniNicSetattrArgs) : Prop where
  win : a.fmaWindow = clientAttached env .win sent.fmaWindow fmaWindowSize
  put : a.fmaWindowNwc = clientAttached env .put sent.fmaWindowNwc fmaWindowSize
  get : a.fmaWindowGet = clientAttached env .get sent.fmaWindowGet fmaWindowSize
  ctrl : a.fmaCtrl = clientAttached env .ctrl sent.fmaCtrl ghalFmaCtrlSize

/-- The caller's structures hold what the device produced in the one call that was made of it.
Of a gather no device knows. -/
def Produced (e : Event) : List DeviceCall → Request → Prop
  | [.nicSetattr x], .nicSetattr a =>
      let out := (e.serverEnv (.ioctl (.nicSetattr x))).2
      a.outPart = out.outPart ∧ OwnWindows e.clientEnv (exportWindows e.serverEnv out) a
  | [.memRegister x], .memRegister a =>
      a.outPart = (e.serverEnv (.ioctl (.memRegister x))).2.outPart
  | [.cqCreate x], .cqCreate a => a.outPart = (e.serverEnv (.ioctl (.cqCreate x))).2.outPart
  | [.nicFmaConfig _], .nicFmaConfig _ => True
  | [.postRdma _ _], .postRdma _ _ => True
  | [], .allgather _ _ _ => True
  | _, _ => False

/-- The caller cannot tell the proxy from the device. -/
def Transparent (w : World) (e : Event) : Prop :=
  ∃ r, (w.ioctl e).2 = some (r, 0) ∧ r.inPart = e.request.inPart ∧
    ∃ calls, (w.ioctl e).1.deviceLog = w.deviceLog ++ calls ∧ Produced e calls r

/-- The requests in question.  The input block of a gather has the length that
its arguments say. -/
def Event.Forwarding (e : Event) : Prop :=
  match e.request with
  | .nicSetattr _ => True
  | .nicFmaConfig _ => True
  | .memRegister _ => True
  | .cqCreate _ => True
  | .postRdma _ _ => True
  | .allgather a inData _ => inData.length = a.inDataLen.toNat
  | _ => False

/-- The words left behind are those the caller had there: the attributes it asks
for are the server's, the address of a registration is the one passed to the
device, the address in a handle is its own segment id. -/
def World.SameWords (w : World) (e : Event) : Prop :=
  match e.request with
  | .nicSetattr a => (nicAttr w.server).inPart = a.inPart
  | .memRegister a =>
      if a.segmentsCnt = 1 then attached e.serverEnv (e.sent a) = a.address
      else (e.sent a).address = a.address
  | .allgather a inData _ => a.inDataLen.toNat = MdhAddr.codec.size →
      listFindSegidByVaddr w.client.mt (MdhAddr.codec.decode inData).addr
        = (MdhAddr.codec.decode inData).addr
  | _ => True

/-! ### What the caller gets back -/

section Returned

variable {w : World} {e : Event} {code : UInt64} {data : Bytes}

/-- What `pack_args` makes of the reply is what the caller gets. -/
theorem ioctl_returned {c : Client} {r : Request} {p : PackRet} (hl : w.Live) (hs : w.Served e)
    (hc : commandOf w.client e.clientEnv e.request = some (code, data))
    (hpack : ∀ w', w.issue e.serverEnv code data = (some w.nextCmd, w') →
      w'.ret = (w.reply e).data →
      (packArgs w.client e.request).run (handler e) w = (some (c, r, p), w')) :
    (w.ioctl e).2 = some (r, 0) := by
  obtain ⟨l, hissue, -⟩ := issue_served hl hs hc
  rw [ioctl_of_some hl.notWaiting (hpack _ hissue rfl)]

theorem ioctl_cqCreate {a : GniCqCreateArgs} (hl : w.Live) (hs : w.Served e)
    (hreq : e.request = .cqCreate a) :
    (w.ioctl e).2 = some (.cqCreate
      { GniCqCreateArgs.codec.decode (w.reply e).data with queue := a.queue }, 0) := by
  refine ioctl_returned (p := .zero) (c := w.client) hl hs (by rw [hreq]; rfl) ?_
  intro w' hissue hret
  rw [hreq]
  simp [packArgs, hissue, hret]

theorem ioctl_memRegister {a : GniMemRegisterArgs} (hl : w.Live) (hs : w.Served e)
    (hreq : e.request = .memRegister a) :
    (w.ioctl e).2
      = some (.memRegister (GniMemRegisterArgs.codec.decode (w.reply e).data), 0) := by
  refine ioctl_returned (p := .zero)
    (c := clientAfter w.client e.clientEnv (w.reply e).data e.request) hl hs
    (by rw [hreq]; rfl) ?_
  intro w' hissue hret
  rw [hreq]
  simp [packArgs, clientAfter, hissue, hret]

theorem ioctl_nicFmaConfig {a : GniNicFmaconfigArgs} (hl : w.Live) (hs : w.Served e)
    (hreq : e.request = .nicFmaConfig a) :
    (w.ioctl e).2
      = some (.nicFmaConfig (GniNicFmaconfigArgs.codec.decode (w.reply e).data), 0) := by
  refine ioctl_returned (p := .zero) (c := w.client) hl hs (by rw [hreq]; rfl) ?_
  intro w' hissue hret
  rw [hreq]
  simp [packArgs, hissue, hret]

theorem ioctl_postRdma {a : GniPostRdmaArgs} {desc : GniPostDescriptor} (hl : w.Live)
    (hs : w.Served e) (hreq : e.request = .postRdma a desc) :
    (w.ioctl e).2 = some (.postRdma a desc, 0) := by
  refine ioctl_returned (p := .zero) (c := w.client) hl hs (by rw [hreq]; rfl) ?_
  intro w' hissue hret
  rw [hreq]
  simp [packArgs, hissue]

theorem run_attachWindow_some (ha : ClientAttaches e.clientEnv) (k : Window) (segid size : UInt64)
    (w : World) : (attachWindow k segid size).run (handler e) w
      = (some (some (clientAttached e.clientEnv k segid size)), w) := by
  have hget := ha.get k segid
  have hatt := ha.attach k (e.clientEnv (.xememGet k segid)) size
  rw [attachWindow, ClientM.xememGet, Prog.call_bind, Prog.run_step]
  show Prog.run (handler e) (if e.clientEnv (.xememGet k segid) ≤ 0 then _ else _) w = _
  rw [if_neg (not_le.mpr hget), ClientM.xememAttachNocache, Prog.call_bind, Prog.run_step]
  show Prog.run (handler e) (if e.clientEnv (.xememAttachNocache k
    (e.clientEnv (.xememGet k segid)) size) = 0 then _ else _) w = _
  rw [if_neg hatt]
  rfl

theorem ioctl_nicSetattr {a : GniNicSetattrArgs} (hl : w.Live) (hs : w.Served e)
    (ha : ClientAttaches e.clientEnv) (hreq : e.request = .nicSetattr a) :
    (w.ioctl e).2 = some (.nicSetattr (attachWindows e.clientEnv
      (GniNicSetattrArgs.codec.decode (w.reply e).data)), 0) := by
  refine ioctl_returned (p := .zero) (c := w.client) hl hs (by rw [hreq]; rfl) ?_
  intro w' hissue hret
  rw [hreq, packArgs, packNicSetattr, ← hret]
  simp only [ClientM.hcqCmdIssue, ClientM.hcqGetRetData, ClientM.hcqCmdComplete, ClientM.retData,
    Prog.call_bind, Prog.run_step, handler_hcqCmdIssue, hissue, handler_hcqGetRetData,
    handler_hcqCmdComplete, handler_retData, Prog.run_bind, run_attachWindow_some ha]
  rfl

end Returned

/-! ### When the proxy is transparent -/

section Transparent

variable {w : World} {e : Event} {es : List Event}

/-- What remains to be looked at once the caller's structures are known. -/
theorem transparent_iff_of_returned {r : Request} (hl : w.Live) (hs : w.Served e)
    (hret : (w.ioctl e).2 = some (r, 0)) (hout : Produced e (w.reply e).device.toList r) :
    Transparent w e ↔ r.inPart = e.request.inPart := by
  constructor
  · rintro ⟨r', hret', hin, -⟩
    rw [hret] at hret'
    obtain ⟨rfl, -⟩ := Prod.mk.inj (Option.some.inj hret')
    exact hin
  · intro hin
    exact ⟨r, hret, hin, _, (ioctl_served hl hs).device, hout⟩

theorem address_inPart_iff (a : GniMemRegisterArgs) (addr : UInt64) :
    GniMemRegisterArgs.inPart { a with address := addr } = a.inPart ↔ addr = a.address := by
  constructor
  · intro h
    exact congrArg GniMemRegisterArgs.address h
  · rintro rfl
    rfl

theorem transparent_memRegister {a : GniMemRegisterArgs} (hl : w.Live) (hs : w.Served e)
    (hdev : DeviceKeepsIn e.serverEnv) (hreq : e.request = .memRegister a) :
    Transparent w e ↔ w.SameWords e := by
  have hreply : w.reply e = replyMemRegister w.server e.serverEnv (e.sent a) := by
    rw [World.reply, hreq]
  have hret := ioctl_memRegister hl hs hreq
  rw [hreply] at hret
  have hdecode : GniMemRegisterArgs.codec.decode
      (replyMemRegister w.server e.serverEnv (e.sent a)).data
      = (e.serverEnv (.ioctl (.memRegister (registration e.serverEnv (e.sent a))))).2 :=
    Codec.decode_encode _ _
  rw [hdecode] at hret
  rw [transparent_iff_of_returned hl hs hret, World.SameWords, hreq]
  · show Request.memRegister _ = Request.memRegister _ ↔ if a.segmentsCnt = 1 then _ else _
    rw [Request.memRegister.injEq, hdev.memRegister, registration]
    by_cases hone : a.segmentsCnt = 1
    · rw [if_pos (show (e.sent a).segmentsCnt = 1 from hone), if_pos hone]
      exact address_inPart_iff a _
    · rw [if_neg (show (e.sent a).segmentsCnt ≠ 1 from hone), if_neg hone]
      exact address_inPart_iff a _
  · rw [hreply]
    exact rfl

theorem transparent_nicSetattr {a : GniNicSetattrArgs} (hl : w.Live) (hs : w.Served e)
    (hattach : ClientAttaches e.clientEnv) (hdev : DeviceKeepsIn e.serverEnv)
    (hreq : e.request = .nicSetattr a) : Transparent w e ↔ w.SameWords e := by
  have hreply : w.reply e = replyNicSetattr w.server e.serverEnv := by
    rw [World.reply, hreq]
  have hret := ioctl_nicSetattr hl hs hattach hreq
  rw [hreply] at hret
  have hdecode : GniNicSetattrArgs.codec.decode (replyNicSetattr w.server e.serverEnv).data
      = exportWindows e.serverEnv (e.serverEnv (.ioctl (.nicSetattr (nicAttr w.server)))).2 :=
    Codec.decode_encode _ _
  rw [hdecode] at hret
  rw [transparent_iff_of_returned hl hs hret, World.SameWords, hreq]
  · -- neither side's windows are among the fields compared
    show Request.nicSetattr (e.serverEnv (.ioctl (.nicSetattr (nicAttr w.server)))).2.inPart
      = Request.nicSetattr _ ↔ _
    rw [Request.nicSetattr.injEq, hdev.nicSetattr]
  · rw [hreply]
    exact ⟨rfl, rfl, rfl, rfl, rfl⟩

theorem transparent_cqCreate {a : GniCqCreateArgs} (hl : w.Live) (hs : w.Served e)
    (hdev : DeviceKeepsIn e.serverEnv) (hreq : e.request = .cqCreate a) : Transparent w e := by
  have hret := ioctl_cqCreate hl hs hreq
  have hreply : w.reply e = replyCqCreate w.server e.serverEnv
      { a with queue := listFindSegidByVaddr w.client.mt a.queue } := by
    rw [World.reply, hreq]
  rw [hreply, replyCqCreate, Codec.decode_encode] at hret
  refine (transparent_iff_of_returned hl hs hret ?_).mpr ?_
  · rw [hreply]
    exact rfl
  · -- the queue is restored by hand, the other IN fields come back from the device
    have hin := hdev.cqCreate { a with
      queue := listFindVaddrBySegid w.server.mt (listFindSegidByVaddr w.client.mt a.queue) }
    rw [hreq]
    exact congrArg (fun x => Request.cqCreate { x with queue := a.queue }) hin

theorem transparent_nicFmaConfig {a : GniNicFmaconfigArgs} (hl : w.Live) (hs : w.Served e)
    (hdev : DeviceKeepsIn e.serverEnv) (hreq : e.request = .nicFmaConfig a) :
    Transparent w e := by
  have hret := ioctl_nicFmaConfig hl hs hreq
  have hreply : w.reply e = replyNicFmaConfig w.server e.serverEnv a := by
    rw [World.reply, hreq]
  rw [hreply, replyNicFmaConfig, Codec.decode_encode] at hret
  refine (transparent_iff_of_returned hl hs hret ?_).mpr ?_
  · rw [hreply]
    trivial
  · rw [hreq]
    exact congrArg Request.nicFmaConfig (hdev.nicFmaConfig a)

theorem transparent_postRdma {a : GniPostRdmaArgs} {desc : GniPostDescriptor} (hl : w.Live)
    (hs : w.Served e) (hreq : e.request = .postRdma a desc) : Transparent w e := by
  refine (transparent_iff_of_returned hl hs (ioctl_postRdma hl hs hreq) ?_).mpr ?_
  · rw [World.reply, hreq]
    trivial
  · rw [hreq]

/-- A block comes out of the client's lookup as it went in exactly if it is not
taken for a handle, or its address is its own segment id. -/
theorem gatherData_eq_iff {c : Client} {a : PmiAllgatherArgs} {inData : Bytes}
    (hlen : inData.length = a.inDataLen.toNat) :
    gatherData c a inData = inData ↔ (a.inDataLen.toNat = MdhAddr.codec.size →
      listFindSegidByVaddr c.mt (MdhAddr.codec.decode inData).addr
        = (MdhAddr.codec.decode inData).addr) := by
  rw [gatherData]
  by_cases hsize : a.inDataLen.toNat = MdhAddr.codec.size
  · have hin : inData.length = MdhAddr.codec.size := hlen.trans hsize
    rw [if_pos hsize, List.take_of_length_le (le_of_eq hin), List.drop_of_length_le (le_of_eq hin),
      List.append_nil]
    constructor
    · intro h _
      have hdec := congrArg MdhAddr.codec.decode h
      rw [Codec.decode_encode] at hdec
      exact congrArg MdhAddr.addr hdec
    · intro h
      rw [h hsize]
      exact MdhAddr.codec.encode_decode inData hin
  · rw [if_neg hsize]
    exact iff_of_true rfl fun h => absurd h hsize

theorem transparent_allgather {a : PmiAllgatherArgs} {inData outData : Bytes} (hl : w.Live)
    (hs : w.Served e) (hlen : inData.length = a.inDataLen.toNat)
    (hreq : e.request = .allgather a inData outData) : Transparent w e ↔ w.SameWords e := by
  rw [transparent_iff_of_returned hl hs (ioctl_allgather hl hs hreq), World.SameWords, hreq]
  · show Request.allgather a _ [] = Request.allgather a inData [] ↔ _
    rw [Request.allgather.injEq]
    refine Iff.trans ?_ (gatherData_eq_iff hlen)
    simp
  · rw [World.reply, hreq]
    trivial

/-- **Transparency.**  In every reachable state a request that is answered leaves
the caller's structures as the device would, exactly if the words that the proxy
leaves in them are those the caller had there. -/
theorem transparent_iff_sameWords (hw : w.Initial) (hwait : (w.run es).waiting = none)
    (hs : (w.run es).Served e) (he : e.Forwarding) (hattach : ClientAttaches e.clientEnv)
    (hdev : DeviceKeepsIn e.serverEnv) : Transparent (w.run es) e ↔ (w.run es).SameWords e := by
  have hl := run_live hw.live hwait
  generalize w.run es = w at hl hs
  rw [Event.Forwarding] at he
  cases hreq : e.request with
  | memRegister a => exact transparent_memRegister hl hs hdev hreq
  | nicSetattr a => exact transparent_nicSetattr hl hs hattach hdev hreq
  | allgather a inData outData =>
      rw [hreq] at he
      exact transparent_allgather hl hs he hreq
  | cqCreate a =>
      refine iff_of_true (transparent_cqCreate hl hs hdev hreq) ?_
      rw [World.SameWords, hreq]
      trivial
  | nicFmaConfig a =>
      refine iff_of_true (transparent_nicFmaConfig hl hs hdev hreq) ?_
      rw [World.SameWords, hreq]
      trivial
  | postRdma a desc =>
      refine iff_of_true (transparent_postRdma hl hs hreq) ?_
      rw [World.SameWords, hreq]
      trivial
  | _ =>
      rw [hreq] at he
      exact he.elim

theorem deviceKeepsIn_calm (addr : UInt64) (status : Int) :
    DeviceKeepsIn (calmServer addr status) where
  nicSetattr := fun _ => rfl
  memRegister := fun _ => rfl
  cqCreate := fun _ => rfl
  nicFmaConfig := fun _ => rfl

theorem clientAttaches_calm (segid : UInt64) : ClientAttaches (calmClient segid) where
  get := fun _ _ => Int.one_pos
  attach := fun _ _ _ => show (0x1000 : UInt64) ≠ 0 by decide

/-- A completion queue is created, and its address is restored. -/
theorem transparent_calm_cqCreate :
    freshWorld.Initial ∧ (freshWorld.run [calmEvent (.getsize 0)]).waiting = none ∧
      Transparent (freshWorld.run [calmEvent (.getsize 0)])
        (calmEvent (.cqCreate { (default : GniCqCreateArgs) with queue := 0x1000 })) := by
  have hwait : (freshWorld.run [calmEvent (.getsize 0)]).waiting = none := rfl
  refine ⟨freshWorld_initial, hwait, ?_⟩
  have hkind : (calmEvent (.cqCreate { (default : GniCqCreateArgs) with
    queue := 0x1000 })).Forwarding := trivial
  refine (transparent_iff_sameWords freshWorld_initial hwait ?_ hkind (clientAttaches_calm 5)
    (deviceKeepsIn_calm 0x20000 0)).mpr trivial
  exact (served_iff_answerable (devicesSucceed_calm _)).mpr (show (1 : Int) ≠ -1 by decide)

/-- The caller of a `MEM_REGISTER` of its buffer at 0x1000 finds the address at
which the server attached it. -/
theorem transparent_memRegister_fails :
    freshWorld.Initial ∧ freshWorld.waiting = none ∧
      freshWorld.Served (calmEvent (.memRegister
        { (default : GniMemRegisterArgs) with segmentsCnt := 1, address := 0x1000 })) ∧
      (freshWorld.ioctl (calmEvent (.memRegister
        { (default : GniMemRegisterArgs) with segmentsCnt := 1, address := 0x1000 }))).2
        = some (.memRegister
          { (default : GniMemRegisterArgs) with segmentsCnt := 1, address := 0x20000 }, 0) ∧
      ¬ Transparent freshWorld (calmEvent (.memRegister
        { (default : GniMemRegisterArgs) with segmentsCnt := 1, address := 0x1000 })) := by
  have hret : (freshWorld.ioctl (calmEvent (.memRegister
      { (default : GniMemRegisterArgs) with segmentsCnt := 1, address := 0x1000 }))).2
      = some (.memRegister
        { (default : GniMemRegisterArgs) with segmentsCnt := 1, address := 0x20000 }, 0) := by
    decide
  refine ⟨freshWorld_initial, rfl, ?_, hret, ?_⟩
  · refine (served_iff_answerable (devicesSucceed_calm _)).mpr ⟨show (1 : Int) ≠ -1 by decide, ?_⟩
    exact fun _ => ⟨Int.one_pos, show (0x20000 : UInt64) ≠ mapFailed by decide⟩
  · rintro ⟨r, hr, hin, -⟩
    rw [hret] at hr
    obtain ⟨rfl, -⟩ := Prod.mk.inj (Option.some.inj hr)
    exact absurd hin (by decide)

end Transparent

end Nvl.StaticLink

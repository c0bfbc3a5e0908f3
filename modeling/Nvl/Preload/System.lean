/-
Nvl/Preload/System.lean

The preloaded client with the server it was written for, `cray/xpmem_chnl_serv.c`.

That server is the static one less two things: it leaves the window addresses in
the attributes of `NIC_SETATTR`, where the client does not look for segment ids,
and it has no case for `NIC_FMA_CONFIG`.  Queue and processes are those of the
static system, and so are all requests that neither of the two clients nor the
two servers treat in their own way (`ioctlOn_common`).
-/
import Nvl.Preload.Client
import Nvl.StaticLink.Translation
import Nvl.StaticLink.Transparency

namespace Nvl.Preload

open SysLib StaticLink

/-! ### The server -/

open ServerM in
/-- `NIC_SETATTR`: the segments are made under their names, and the reply has the
device's own addresses. -/
def serveNicSetattr (s : Server) (cmd : Cmd) (ret : Int) : ServerM Round := do
  let (status, nic) ← ServerM.ioctl (.nicSetattr (nicAttr s))
  if status < 0 then return .stop { s with nicSetAttr := nic } (.returned 0)
  else
    let _ ← xememMake nic.fmaWindow fmaWindowSize (some .win)
    let _ ← xememMake nic.fmaWindowNwc fmaWindowSize (some .put)
    let _ ← xememMake nic.fmaWindowGet fmaWindowSize (some .get)
    let _ ← xememMake nic.fmaCtrl ghalFmaCtrlSize (some .ctrl)
    hcqCmdReturn cmd.id ret (GniNicSetattrArgs.codec.encode nic)
    return .next { s with nicSetAttr := nic }

/-- The `switch` on the command code; the other cases are the static server's. -/
def dispatch (s : Server) (cmd : Cmd) (ret : Int) : ServerM Round :=
  if cmd.code = gniIocNicSetattr.toUInt64 then serveNicSetattr s cmd ret
  else if cmd.code = gniIocNicFmaConfig.toUInt64 then return .next s
  else StaticLink.dispatch s cmd ret

/-- One round of the command loop. -/
def serve (s : Server) : ServerM Round := do
  let ret ← ServerM.select
  if ret = -1 then return .stop s .selectError
  else
    let cmd ← ServerM.hcqGetNextCmd
    dispatch s cmd ret

/-! ### The system -/

/-- `hcq_cmd_issue`, with this server at the other end. -/
def issue (w : World) (env : (o : ServerCall) → o.Ans) (code : UInt64) (data : Bytes) :
    Option Nat × World :=
  let cmd : Cmd := ⟨w.nextCmd, code, data⟩
  let queued := { w with nextCmd := w.nextCmd + 1, log := w.log ++ [Entry.issued cmd] }
  if w.running then
    let round := (serve w.server).exec (fetching cmd env)
    let served := { queued with
      server := round.1.server, running := round.1.goesOn,
      log := queued.log ++ round.2.map Entry.server }
    match round.2.findSome? (replyTo cmd.id) with
    | some data => (some cmd.id, { served with ret := data })
    | none => (none, { served with waiting := some cmd.id })
  else (none, { queued with waiting := some cmd.id })

/-- How the system answers the calls of the client. -/
def handler (e : Event) : (o : ClientCall) → World → Option o.Ans × World
  | .hcqCmdIssue code data, w => issue w e.serverEnv code data
  | o, w => StaticLink.handler e o w

/-- One ioctl of the application. -/
def ioctlOn (w : World) (e : Event) : World × Option (Request × Int) :=
  if w.waiting.isSome then (w, none)
  else
    match (ioctl w.client (e.device.fd w.client) e.request).run (handler e) w with
    | (some (c, r, v), w') => ({ w' with client := c }, some (r, v))
    | (none, w') => (w', none)

/-- A sequence of ioctls. -/
def runOn (w : World) (es : List Event) : World := es.foldl (fun w e => (ioctlOn w e).1) w

/-! ### What is the same -/

/-- A code that both servers treat alike. -/
def SameCase (code : UInt64) : Prop :=
  code ≠ gniIocNicSetattr.toUInt64 ∧ code ≠ gniIocNicFmaConfig.toUInt64

section Same

variable {w : World} {e : Event} {env : (o : ServerCall) → o.Ans} {code : UInt64} {data : Bytes}

theorem serve_eq (h : SameCase code) (s : Server) (id : Nat) :
    (serve s).exec (fetching ⟨id, code, data⟩ env)
      = (StaticLink.serve s).exec (fetching ⟨id, code, data⟩ env) := by
  have hdispatch : ∀ ret, dispatch s ⟨id, code, data⟩ ret
      = StaticLink.dispatch s ⟨id, code, data⟩ ret := by
    intro ret
    rw [dispatch, if_neg h.1, if_neg h.2]
  by_cases hsel : env .select = -1
  · simp [serve, StaticLink.serve, fetching, hsel]
  · simp [serve, StaticLink.serve, fetching, hsel, hdispatch]

theorem issue_eq (h : SameCase code) : issue w env code data = w.issue env code data := by
  simp only [issue, serve_eq h]
  rfl

/-- The calls that both systems answer alike. -/
def SameCall : ClientCall → Prop
  | .hcqCmdIssue code _ => SameCase code
  | _ => True

theorem handler_eq (o : ClientCall) (h : SameCall o) : handler e o = StaticLink.handler e o := by
  funext w
  cases o with
  | hcqCmdIssue code data => exact issue_eq h
  | _ => rfl

/-- The requests that nothing treats in its own way. -/
def Common : Request → Prop
  | .memRegister _ => True
  | .cqCreate _ => True
  | .allgather _ _ _ => True
  | _ => False

theorem packArgs_common {r : Request} (h : Common r) (c : Client) :
    packArgs c r = StaticLink.packArgs c r ∧ (StaticLink.packArgs c r).All SameCall ∧
      (StaticLink.packArgs c r).Returns fun x => Common x.2.1 := by
  have hreg : SameCase gniIocMemRegister.toUInt64 := ⟨by decide, by decide⟩
  have hcq : SameCase gniIocCqCreate.toUInt64 := ⟨by decide, by decide⟩
  have hgather : SameCase pmiIocAllgather.toUInt64 := ⟨by decide, by decide⟩
  cases r with
  | memRegister a =>
      exact ⟨rfl, by simp [StaticLink.packArgs, SameCall, hreg],
        by simp [StaticLink.packArgs, Common]⟩
  | cqCreate a =>
      exact ⟨rfl, by simp [StaticLink.packArgs, SameCall, hcq],
        by simp [StaticLink.packArgs, Common]⟩
  | allgather a inData outData =>
      exact ⟨rfl, by simp [StaticLink.packArgs, allgather, SameCall, hgather],
        by simp [StaticLink.packArgs, allgather, Common]⟩
  | _ => exact h.elim

theorem unpackArgs_common {r : Request} (h : Common r) (c : Client) :
    unpackArgs c r = pure (c, r, .zero) := by
  cases r with
  | nicSetattr a => exact h.elim
  | _ => rfl

/-- Both devices lead to `handle_ioctl`, and the value returned is always 0. -/
theorem ioctl_device (c : Client) (d : Device) (r : Request) :
    ioctl c (d.fd c) r = (handleIoctl c r >>= fun x => pure (x.1, x.2, 0)) := by
  cases d with
  | kgni => exact if_pos rfl
  | pmi =>
      show (if c.pmiFd = c.clientFd then _ else if c.pmiFd = c.pmiFd then _ else _) = _
      rw [if_pos rfl, ite_self]

theorem ioctlOn_of_some {w' : World} {c c' : Client} {r r' : Request} {p q : PackRet}
    (hw : w.waiting = none)
    (hpack : (packArgs w.client e.request).run (handler e) w = (some (c, r, p), w'))
    (hunpack : (unpackArgs c r).run (handler e) w' = (some (c', r', q), w')) :
    ioctlOn w e = ({ w' with client := c' }, some (r', 0)) := by
  have hh : (handleIoctl w.client e.request).run (handler e) w = (some (c', r'), w') := by
    rw [handleIoctl, Prog.run_bind_some hpack, Prog.run_bind_some hunpack]
    rfl
  rw [ioctlOn, hw, ioctl_device, Prog.run_bind_some hh]
  rfl

/-- A common request is carried out as the static system would. -/
theorem ioctlOn_common (hl : w.Live) (hs : w.Served e) (hr : Common e.request) :
    ioctlOn w e = w.ioctl e := by
  obtain ⟨hpackArgs, hall, hreturns⟩ := packArgs_common hr w.client
  obtain ⟨⟨code, data⟩, hc⟩ : ∃ x, commandOf w.client e.clientEnv e.request = some x := by
    cases hreq : e.request with
    | printed code =>
        rw [hreq] at hr
        exact hr.elim
    | _ => exact ⟨_, rfl⟩
  obtain ⟨l, hissue, -⟩ := issue_served hl hs hc
  obtain ⟨r', p, hpack⟩ := run_packArgs_some hc hissue
  have hsame : (StaticLink.packArgs w.client e.request).run (handler e) w = _ :=
    (Prog.run_congr hall handler_eq w).trans hpack
  rw [ioctl_of_some hl.notWaiting hpack, ioctlOn_of_some (q := .zero) hl.notWaiting
    (by rw [hpackArgs]; exact hsame) (by rw [unpackArgs_common (hreturns.run hpack)]; rfl)]

/-! ### What is not -/

/-- A post differs in what the caller finds in its descriptor. -/
theorem ioctlOn_postRdma {a : GniPostRdmaArgs} {desc : GniPostDescriptor} (hl : w.Live)
    (hs : w.Served e) (hreq : e.request = .postRdma a desc) :
    ioctlOn w e = ((w.ioctl e).1, some (.postRdma a
      { desc with localAddr := listFindSegidByVaddr w.client.mt desc.localAddr }, 0)) := by
  have hpost : SameCase gniIocPostRdma.toUInt64 := ⟨by decide, by decide⟩
  obtain ⟨w', hissue⟩ : ∃ w', w.issue e.serverEnv gniIocPostRdma.toUInt64
      (GniPostDescriptor.codec.encode
        { desc with localAddr := listFindSegidByVaddr w.client.mt desc.localAddr }
        ++ GniPostRdmaArgs.codec.encode a) = (some w.nextCmd, w') := by
    obtain ⟨l, hissue, -⟩ := issue_served (e := e) hl hs (by rw [hreq]; rfl)
    exact ⟨_, hissue⟩
  have hpack : (StaticLink.packArgs w.client e.request).run (StaticLink.handler e) w
      = (some (w.client, .postRdma a desc, .zero), w') := by
    rw [hreq]
    simp [StaticLink.packArgs, hissue]
  have hpack' : (packArgs w.client e.request).run (handler e) w = (some (w.client, .postRdma a
      { desc with localAddr := listFindSegidByVaddr w.client.mt desc.localAddr }, .zero), w') := by
    rw [hreq]
    simp [packArgs, packPostRdma, handler, StaticLink.handler, issue_eq hpost, hissue]
  rw [ioctl_of_some hl.notWaiting hpack, ioctlOn_of_some (q := .zero) hl.notWaiting hpack' rfl]

/-- What the device makes of the server's attributes. -/
def nicResult (s : Server) (env : (o : ServerCall) → o.Ans) : GniNicSetattrArgs :=
  (env (.ioctl (.nicSetattr (nicAttr s)))).2

theorem exec_serve (s : Server) (cmd : Cmd) (hsel : env .select ≠ -1) :
    (serve s).exec (fetching cmd env)
      = (((dispatch s cmd (env .select)).exec (fetching cmd env)).1,
          ⟨.select, env .select⟩ :: ⟨.hcqGetNextCmd, cmd⟩ ::
            ((dispatch s cmd (env .select)).exec (fetching cmd env)).2) := by
  simp [serve, fetching, hsel]

theorem issue_nicSetattr (data : Bytes) (hl : w.Live) (hsel : env .select ≠ -1)
    (hdev : 0 ≤ (env (.ioctl (.nicSetattr (nicAttr w.server)))).1) :
    ∃ l, issue w env gniIocNicSetattr.toUInt64 data = (some w.nextCmd, { w with
        server := { w.server with nicSetAttr := nicResult w.server env }
        nextCmd := w.nextCmd + 1
        ret := GniNicSetattrArgs.codec.encode (nicResult w.server env)
        log := w.log ++ l }) ∧
      l.filterMap Entry.deviceCall = [.nicSetattr (nicAttr w.server)] := by
  have hrep : Replies (fetching ⟨w.nextCmd, gniIocNicSetattr.toUInt64, data⟩ env)
      (dispatch w.server ⟨w.nextCmd, gniIocNicSetattr.toUInt64, data⟩ (env .select))
      w.nextCmd ⟨{ w.server with nicSetAttr := nicResult w.server env },
        GniNicSetattrArgs.codec.encode (nicResult w.server env),
        some (.nicSetattr (nicAttr w.server))⟩ := by
    refine .then rfl <| .ioctl <| .else (not_lt.mpr hdev) ?_
    exact .step rfl <| .step rfl <| .step rfl <| .step rfl <| replies_return ..
  have hserve := exec_serve w.server ⟨w.nextCmd, gniIocNicSetattr.toUInt64, data⟩ hsel
  obtain ⟨hnext, hreply, hdevice, -⟩ := hrep
  -- as for the static server, the trace of the case itself can stay abstract
  generalize (dispatch w.server ⟨w.nextCmd, gniIocNicSetattr.toUInt64, data⟩ (env .select)).exec
    (fetching ⟨w.nextCmd, gniIocNicSetattr.toUInt64, data⟩ env) = round at *
  obtain ⟨round, tr⟩ := round
  obtain rfl : round = .next { w.server with nicSetAttr := nicResult w.server env } := hnext
  refine ⟨.issued ⟨w.nextCmd, gniIocNicSetattr.toUInt64, data⟩ ::
    .server ⟨.select, env .select⟩ ::
    .server ⟨.hcqGetNextCmd, ⟨w.nextCmd, gniIocNicSetattr.toUInt64, data⟩⟩ ::
    tr.map Entry.server, ?_, ?_⟩
  · have hfind : List.findSome? (replyTo w.nextCmd) (⟨.select, env .select⟩ ::
        ⟨.hcqGetNextCmd, ⟨w.nextCmd, gniIocNicSetattr.toUInt64, data⟩⟩ :: tr)
        = some (GniNicSetattrArgs.codec.encode (nicResult w.server env)) := hreply
    simp only [issue, hl.running, if_true, hserve]
    rw [hfind]
    simp [Round.server, Round.goesOn]
  · show (tr.map Entry.server).filterMap Entry.deviceCall = _
    rw [deviceCalls_map_server]
    exact hdevice

/-- Where the client attaches the segment it finds under a window's name. -/
def windowAt (env : (o : ClientCall) → o.Ans) (k : Window) (size : UInt64) : UInt64 :=
  clientAttached env k (env (.xememLookupSegid k)) size

theorem run_attachWindow_some (ha : ClientAttaches e.clientEnv) (k : Window)
    (segid removed size : UInt64) (w : World) :
    (attachWindow k segid removed size).run (handler e) w
      = (some (some (clientAttached e.clientEnv k segid size)), w) := by
  have hget := ha.get k segid
  have hatt := ha.attach k (e.clientEnv (.xememGet k segid)) size
  rw [attachWindow, ClientM.xememGet, Prog.call_bind, Prog.run_step]
  show Prog.run (handler e) (if e.clientEnv (.xememGet k segid) ≤ 0 then _ else _) w = _
  rw [if_neg (not_le.mpr hget), ClientM.xememAttachNocache, Prog.call_bind, Prog.run_step]
  show Prog.run (handler e) (if e.clientEnv (.xememAttachNocache k
    (e.clientEnv (.xememGet k segid)) size) = 0 then _ else _) w = _
  rw [if_neg hatt]
  rfl

/-- The attributes with the windows where the client attached them. -/
def withWindows (env : (o : ClientCall) → o.Ans) (a : GniNicSetattrArgs) : GniNicSetattrArgs :=
  { a with
    fmaWindow := windowAt env .win fmaWindowSize
    fmaWindowNwc := windowAt env .put fmaWindowSize
    fmaWindowGet := windowAt env .get fmaWindowSize
    fmaCtrl := windowAt env .ctrl ghalFmaCtrlSize }

/-- The list with the windows in it; the control window is recorded with the size
of the others. -/
def recordWindows (env : (o : ClientCall) → o.Ans) (mt : MemsegList) : MemsegList :=
  let add (mt : MemsegList) (k : Window) (size : UInt64) :=
    listAddElement mt (env .malloc) (env (.xememLookupSegid k)) (windowAt env k size) fmaWindowSize
  add (add (add (add mt .win fmaWindowSize) .put fmaWindowSize) .get fmaWindowSize)
    .ctrl ghalFmaCtrlSize

theorem handler_xememLookupSegid (k : Window) (w : World) : handler e (.xememLookupSegid k) w
    = (some (e.clientEnv (.xememLookupSegid k)), w) := rfl

theorem run_record (c : Client) (segid addr len : UInt64) (w : World) :
    (record c segid addr len).run (handler e) w = (some { c with
      mt := listAddElement c.mt (e.clientEnv .malloc) segid addr len }, w) := rfl

theorem run_unpackNicSetattr (ha : ClientAttaches e.clientEnv) (c : Client)
    (a : GniNicSetattrArgs) (w : World) :
    (unpackArgs c (.nicSetattr a)).run (handler e) w
      = (some ({ c with mt := recordWindows e.clientEnv c.mt },
          .nicSetattr (withWindows e.clientEnv a), .zero), w) := by
  rw [unpackArgs, unpackNicSetattr]
  simp only [ClientM.xememLookupSegid, Prog.call_bind, Prog.run_step, handler_xememLookupSegid,
    Prog.run_bind, run_attachWindow_some ha, run_record]
  rfl

theorem run_packNicSetattr {w' : World} {id : Nat} {nic a : GniNicSetattrArgs} (c : Client)
    (hissue : issue w e.serverEnv gniIocNicSetattr.toUInt64 (GniNicSetattrArgs.codec.encode a)
      = (some id, w')) (hret : w'.ret = GniNicSetattrArgs.codec.encode nic) :
    (packArgs c (.nicSetattr a)).run (handler e) w
      = (some (c, .nicSetattr { a with ptag := nic.ptag, cookie := nic.cookie }, .zero), w') := by
  simp [packArgs, packNicSetattr, handler, StaticLink.handler, hissue, hret,
    GniNicSetattrArgs.overlay_eight]

/-- `NIC_SETATTR`: of the reply only the tag and the cookie reach the caller. -/
theorem ioctlOn_nicSetattr {a : GniNicSetattrArgs} (hl : w.Live) (hok : CallsSucceed e)
    (hreq : e.request = .nicSetattr a) :
    ∃ l, ioctlOn w e = ({ w with
        client := { w.client with mt := recordWindows e.clientEnv w.client.mt }
        server := { w.server with nicSetAttr := nicResult w.server e.serverEnv }
        nextCmd := w.nextCmd + 1
        ret := GniNicSetattrArgs.codec.encode (nicResult w.server e.serverEnv)
        log := w.log ++ l }, some (.nicSetattr (withWindows e.clientEnv { a with
          ptag := (nicResult w.server e.serverEnv).ptag
          cookie := (nicResult w.server e.serverEnv).cookie }), 0)) ∧
      l.filterMap Entry.deviceCall = [.nicSetattr (nicAttr w.server)] := by
  have ha : ClientAttaches e.clientEnv := ⟨hok.clientGet, hok.clientAttach⟩
  obtain ⟨l, hissue, hdevice⟩ := issue_nicSetattr (GniNicSetattrArgs.codec.encode a) hl
    hok.select (hok.ioctl _)
  refine ⟨l, ?_, hdevice⟩
  have hpack := run_packNicSetattr w.client hissue rfl
  rw [← hreq] at hpack
  rw [ioctlOn_of_some hl.notWaiting hpack (run_unpackNicSetattr ha _ _ _)]

end Same

end Nvl.Preload

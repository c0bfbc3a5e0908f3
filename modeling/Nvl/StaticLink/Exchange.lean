/-
Nvl/StaticLink/Exchange.lean

One request, end to end.

The client's half (`commandOf`, `clientAfter`) says which command a request
becomes and what the reply does to the client.  The server's half says, for
each code, when a round replies, with what, and what the device sees.  The two
meet in

* `ioctl_served`: a request that is `Served` returns 0, and the states, the
  device log and the queue log after it are given outright;
* `ioctl_unserved`: any other request leaves the client waiting.

Everything about whole runs is derived from these two.
-/
import Nvl.StaticLink.System

namespace Nvl.StaticLink

open SysLib

/-! ### The client's half -/

section Client

variable (c : Client) (env : (o : ClientCall) → o.Ans)

/-- The command a request is forwarded as, if it is forwarded. -/
def commandOf : Request → Option (UInt64 × Bytes)
  | .nicSetattr a => some (gniIocNicSetattr.toUInt64, GniNicSetattrArgs.codec.encode a)
  | .cqCreate a => some (gniIocCqCreate.toUInt64,
      GniCqCreateArgs.codec.encode { a with queue := listFindSegidByVaddr c.mt a.queue })
  | .memRegister a => some (gniIocMemRegister.toUInt64,
      GniMemRegisterArgs.codec.encode { a with address := env (.xememMake a.address a.length) })
  | .cqWaitEvent a => some (gniIocCqWaitEvent.toUInt64, GniCqWaitEventArgs.codec.encode
      { a with nextEventPtr := listFindSegidByVaddr c.mt a.nextEventPtr })
  | .cqDestroy a => some (gniIocCqDestroy.toUInt64, GniCqDestroyArgs.codec.encode a)
  | .allgather a inData _ => some (pmiIocAllgather.toUInt64,
      (gatherData c a inData).take a.inDataLen.toNat)
  | .getsize _ => some (pmiIocGetsize.toUInt64, Codec.u32.encode (env .mallocInt))
  | .getrank _ => some (pmiIocGetrank.toUInt64, Codec.u32.encode (env .mallocInt))
  | .finalize => some (pmiIocFinalize.toUInt64, [])
  | .barrier => some (pmiIocBarrier.toUInt64, [])
  | .nicFmaConfig a => some (gniIocNicFmaConfig.toUInt64, GniNicFmaconfigArgs.codec.encode a)
  | .postRdma a desc => some (gniIocPostRdma.toUInt64,
      GniPostDescriptor.codec.encode
        { desc with localAddr := listFindSegidByVaddr c.mt desc.localAddr }
        ++ GniPostRdmaArgs.codec.encode a)
  | .printed _ => none

/-- The client after the reply `ret`. -/
def clientAfter (ret : Bytes) : Request → Client
  | .memRegister a => { c with
      mt := listAddElement c.mt (env .malloc) (env (.xememMake a.address a.length))
        a.address a.length }
  | .getsize _ => { c with commSize := Codec.u32.decode (ret.take 4) }
  | .getrank _ => { c with myRank := Codec.u32.decode (ret.take 4) }
  | _ => c

end Client

section Handler

variable (e : Event) (w : World)

@[simp] theorem handler_hcqCmdIssue (code : UInt64) (data : Bytes) :
    handler e (.hcqCmdIssue code data) w = w.issue e.serverEnv code data := rfl

@[simp] theorem handler_hcqGetRetData (cmd : Nat) :
    handler e (.hcqGetRetData cmd) w = (some cmd, w) := rfl

@[simp] theorem handler_retData (ptr : Nat) : handler e (.retData ptr) w = (some w.ret, w) := rfl

@[simp] theorem handler_hcqCmdComplete (cmd : Nat) :
    handler e (.hcqCmdComplete cmd) w = (some (), w) := rfl

@[simp] theorem handler_xememMake (vaddr size : UInt64) :
    handler e (.xememMake vaddr size) w = (some (e.clientEnv (.xememMake vaddr size)), w) := rfl

@[simp] theorem handler_malloc : handler e .malloc w = (some (e.clientEnv .malloc), w) := rfl

@[simp] theorem handler_mallocInt :
    handler e .mallocInt w = (some (e.clientEnv .mallocInt), w) := rfl

/-- Attaching a window always returns, whatever comes of it. -/
theorem run_attachWindow (k : Window) (segid size : UInt64) :
    ∃ r, (attachWindow k segid size).run (handler e) w = (some r, w) := by
  unfold attachWindow
  rw [ClientM.xememGet, Prog.call_bind, Prog.run_step]
  show ∃ r, Prog.run (handler e)
    (if e.clientEnv (.xememGet k segid) ≤ 0 then _ else _) w = (some r, w)
  by_cases hget : e.clientEnv (.xememGet k segid) ≤ 0
  · rw [if_pos hget]
    exact ⟨none, rfl⟩
  · rw [if_neg hget, ClientM.xememAttachNocache, Prog.call_bind, Prog.run_step]
    show ∃ r, Prog.run (handler e) (if e.clientEnv (.xememAttachNocache k
      (e.clientEnv (.xememGet k segid)) size) = 0 then _ else _) w = (some r, w)
    by_cases hatt : e.clientEnv (.xememAttachNocache k
        (e.clientEnv (.xememGet k segid)) size) = 0
    · rw [if_pos hatt]
      exact ⟨none, rfl⟩
    · rw [if_neg hatt]
      exact ⟨some _, rfl⟩

end Handler

section Pack

variable {e : Event} {w w' : World} {c : Client} {code : UInt64} {data : Bytes} {id : Nat}
  {r : Request}

theorem run_packNicSetattr {a : GniNicSetattrArgs}
    (hi : w.issue e.serverEnv gniIocNicSetattr.toUInt64 (GniNicSetattrArgs.codec.encode a)
      = (some id, w')) :
    ∃ r p, (packNicSetattr c a).run (handler e) w = (some (c, r, p), w') := by
  rw [packNicSetattr]
  simp only [ClientM.hcqCmdIssue, ClientM.hcqGetRetData, ClientM.hcqCmdComplete, ClientM.retData,
    Prog.call_bind, Prog.run_step, handler_hcqCmdIssue, hi, handler_hcqGetRetData,
    handler_hcqCmdComplete, handler_retData]
  -- each window either ends the case or leads to the next
  obtain ⟨fmaWin, hwin⟩ := run_attachWindow e w' .win
    (GniNicSetattrArgs.codec.decode w'.ret).fmaWindow fmaWindowSize
  rw [Prog.run_bind_some hwin]
  rcases fmaWin with - | fmaWin
  · exact ⟨_, _, rfl⟩
  obtain ⟨fmaPut, hput⟩ := run_attachWindow e w' .put
    (GniNicSetattrArgs.codec.decode w'.ret).fmaWindowNwc fmaWindowSize
  simp only [Prog.run_step, handler_retData]
  rw [Prog.run_bind_some hput]
  rcases fmaPut with - | fmaPut
  · exact ⟨_, _, rfl⟩
  obtain ⟨fmaGet, hget⟩ := run_attachWindow e w' .get
    (GniNicSetattrArgs.codec.decode w'.ret).fmaWindowGet fmaWindowSize
  simp only [Prog.run_step, handler_retData]
  rw [Prog.run_bind_some hget]
  rcases fmaGet with - | fmaGet
  · exact ⟨_, _, rfl⟩
  obtain ⟨fmaCtrl, hctrl⟩ := run_attachWindow e w' .ctrl
    (GniNicSetattrArgs.codec.decode w'.ret).fmaCtrl ghalFmaCtrlSize
  simp only [Prog.run_step, handler_retData]
  rw [Prog.run_bind_some hctrl]
  rcases fmaCtrl with - | fmaCtrl <;> exact ⟨_, _, rfl⟩

/-- After a reply every case of `pack_args` returns. -/
theorem run_packArgs_some (hc : commandOf c e.clientEnv r = some (code, data))
    (hi : w.issue e.serverEnv code data = (some id, w')) :
    ∃ r' p, (packArgs c r).run (handler e) w
      = (some (clientAfter c e.clientEnv w'.ret r, r', p), w') := by
  cases r with
  | nicSetattr a =>
      obtain ⟨rfl, rfl⟩ := Prod.mk.inj (Option.some.inj hc)
      exact run_packNicSetattr hi
  | printed code => exact absurd hc (by simp [commandOf])
  | _ =>
      obtain ⟨rfl, rfl⟩ := Prod.mk.inj (Option.some.inj hc)
      simp [packArgs, allgather, pmiFinalize, pmiBarrier, clientAfter, hi]

/-- Without a reply no case of `pack_args` returns. -/
theorem run_packArgs_none (hc : commandOf c e.clientEnv r = some (code, data))
    (hi : w.issue e.serverEnv code data = (none, w')) :
    (packArgs c r).run (handler e) w = (none, w') := by
  -- every case issues its command first, and that call does not return
  cases r with
  | printed code => exact absurd hc (by simp [commandOf])
  | _ =>
      obtain ⟨rfl, rfl⟩ := Prod.mk.inj (Option.some.inj hc)
      simp [packArgs, packNicSetattr, allgather, pmiFinalize, pmiBarrier, hi]

/-- Both devices lead to `handle_ioctl`, and the value returned is always 0. -/
theorem wrapIoctl_device (d : Device) :
    wrapIoctl c (d.fd c) r = (handleIoctl c r >>= fun x => pure (x.1, x.2, 0)) := by
  cases d with
  | kgni => exact if_pos rfl
  | pmi =>
      -- should the two descriptors be equal, the first branch does the same
      show (if c.pmiFd = c.clientFd then _ else if c.pmiFd = c.pmiFd then _ else _) = _
      rw [if_pos rfl, ite_self]

theorem ioctl_of_some {c' : Client} {r' : Request} {p : PackRet} (hw : w.waiting = none)
    (h : (packArgs w.client e.request).run (handler e) w = (some (c', r', p), w')) :
    w.ioctl e = ({ w' with client := c' }, some (r', 0)) := by
  have hh : (handleIoctl w.client e.request).run (handler e) w = (some (c', r'), w') := by
    rw [handleIoctl, Prog.run_bind_some h]
    rfl
  rw [World.ioctl, hw, wrapIoctl_device, Prog.run_bind_some hh]
  rfl

theorem ioctl_of_none (hw : w.waiting = none)
    (h : (packArgs w.client e.request).run (handler e) w = (none, w')) :
    w.ioctl e = (w', none) := by
  have hh : (handleIoctl w.client e.request).run (handler e) w = (none, w') := by
    rw [handleIoctl, Prog.run_bind_none h]
  rw [World.ioctl, hw, wrapIoctl_device, Prog.run_bind_none hh]
  rfl

end Pack

/-! ### The server's half -/

/-- What a round makes of a command it replies to. -/
structure Reply where
  server : Server
  data : Bytes
  device : Option DeviceCall

section Round

variable {env : (o : ServerCall) → o.Ans} {id : Nat} {a : Reply}

/-- On the answers `env`, the program `p` replies to command `id` once, as `a`
says, and the loop goes on. -/
structure Replies (env : (o : ServerCall) → o.Ans) (p : ServerM Round) (id : Nat) (a : Reply) :
    Prop where
  goesOn : (p.exec env).1 = .next a.server
  reply : (p.exec env).2.findSome? (replyTo id) = some a.data
  device : (p.exec env).2.filterMap deviceCallIn = a.device.toList
  queue : (p.exec env).2.filterMap queueEventIn = [.returned id]

/-- On the answers `env`, the program `p` does not reply to command `id`. -/
def Silent (env : (o : ServerCall) → o.Ans) (p : ServerM Round) (id : Nat) : Prop :=
  (p.exec env).2.findSome? (replyTo id) = none

/-- Calls that touch neither the device nor the queue. -/
def ServerCall.quiet : ServerCall → Bool
  | .ioctl _ => false
  | .hcqGetNextCmd => false
  | .hcqCmdReturn _ _ _ => false
  | _ => true

/-- A part of a round that makes quiet calls only. -/
def Quiet {α : Type} (env : (o : ServerCall) → o.Ans) (p : ServerM α) : Prop :=
  ∀ c ∈ (p.exec env).2, c.1.quiet = true

section Quiet

variable {α β : Type}

theorem quiet_ret (x : α) : Quiet env (.ret x) := by
  intro c hc
  cases hc

theorem Quiet.step {o : ServerCall} {k : o.Ans → ServerM α} (ho : o.quiet = true)
    (h : Quiet env (k (env o))) : Quiet env (.step o k) := by
  intro c hc
  rcases List.mem_cons.mp hc with rfl | hc'
  · exact ho
  · exact h c hc'

theorem Quiet.ite {c : Prop} [Decidable c] {p q : ServerM α} (hp : Quiet env p)
    (hq : Quiet env q) : Quiet env (if c then p else q) := by
  split
  · exact hp
  · exact hq

theorem Quiet.bind {p : ServerM α} {f : α → ServerM β} (hp : Quiet env p)
    (hf : Quiet env (f (p.exec env).1)) : Quiet env (p >>= f) := by
  intro c hc
  rw [Prog.exec_bind] at hc
  rcases List.mem_append.mp hc with hc' | hc'
  · exact hp c hc'
  · exact hf c hc'

end Quiet

/-- The reply, last thing in a round. -/
theorem replies_return (ret : Int) (data : Bytes) (s : Server) :
    Replies env (.step (.hcqCmdReturn id ret data) fun _ => .ret (.next s)) id
      ⟨s, data, none⟩ where
  goesOn := rfl
  reply := by simp [replyTo]
  device := rfl
  queue := rfl

theorem Replies.step {o : ServerCall} {k : o.Ans → ServerM Round} (ho : o.quiet = true)
    (h : Replies env (k (env o)) id a) : Replies env (.step o k) id a := by
  obtain ⟨h1, h2, h3, h4⟩ := h
  -- a quiet call adds an entry that none of the three projections sees
  refine ⟨h1, ?_, ?_, ?_⟩
  · cases o <;> first | exact h2 | cases ho
  · cases o <;> first | exact h3 | cases ho
  · cases o <;> first | exact h4 | cases ho

theorem Replies.bind {α : Type} {p : ServerM α} {f : α → ServerM Round}
    (hp : Quiet env p) (h : Replies env (f (p.exec env).1) id a) :
    Replies env (p >>= f) id a := by
  -- the calls of `p` come first in the trace, and all of them are quiet
  induction p with
  | ret x => exact h
  | step o k ih =>
      refine .step (hp _ List.mem_cons_self) (ih _ ?_ h)
      intro c hc
      exact hp c (List.mem_cons_of_mem _ hc)

theorem Replies.ioctl {c : DeviceCall} {k : Int × c.Out → ServerM Round} {s : Server}
    {data : Bytes} (h : Replies env (k (env (.ioctl c))) id ⟨s, data, none⟩) :
    Replies env (.step (.ioctl c) k) id ⟨s, data, some c⟩ where
  goesOn := h.goesOn
  reply := h.reply
  device := congrArg (c :: ·) h.device
  queue := h.queue

theorem Replies.then {c : Prop} [Decidable c] {p q : ServerM Round} (hc : c)
    (h : Replies env p id a) : Replies env (if c then p else q) id a := by
  rw [if_pos hc]
  exact h

theorem Replies.else {c : Prop} [Decidable c] {p q : ServerM Round} (hc : ¬ c)
    (h : Replies env q id a) : Replies env (if c then p else q) id a := by
  rw [if_neg hc]
  exact h

theorem silent_ret (r : Round) : Silent env (.ret r) id := rfl

theorem Silent.step {o : ServerCall} {k : o.Ans → ServerM Round} (ho : o.quiet = true)
    (h : Silent env (k (env o)) id) : Silent env (.step o k) id := by
  cases o <;> first | exact h | cases ho

theorem Silent.bind {α : Type} {p : ServerM α} {f : α → ServerM Round}
    (hp : Quiet env p) (h : Silent env (f (p.exec env).1) id) :
    Silent env (p >>= f) id := by
  induction p with
  | ret x => exact h
  | step o k ih =>
      refine .step (hp _ List.mem_cons_self) (ih _ ?_ h)
      intro c hc
      exact hp c (List.mem_cons_of_mem _ hc)

theorem Silent.ioctl {c : DeviceCall} {k : Int × c.Out → ServerM Round}
    (h : Silent env (k (env (.ioctl c))) id) : Silent env (.step (.ioctl c) k) id := h

theorem Silent.then {c : Prop} [Decidable c] {p q : ServerM Round} (hc : c)
    (h : Silent env p id) : Silent env (if c then p else q) id := by
  rw [if_pos hc]
  exact h

theorem Silent.else {c : Prop} [Decidable c] {p q : ServerM Round} (hc : ¬ c)
    (h : Silent env q id) : Silent env (if c then p else q) id := by
  rw [if_neg hc]
  exact h

end Round

section Cases

variable (s : Server) (env : (o : ServerCall) → o.Ans) (cmd : Cmd) (ret : Int)

/-- The attributes with the windows replaced by their segment ids. -/
def exportWindows (nic : GniNicSetattrArgs) : GniNicSetattrArgs :=
  { nic with
    fmaWindow := env (.xememMake nic.fmaWindow fmaWindowSize (some .win))
    fmaWindowNwc := env (.xememMake nic.fmaWindowNwc fmaWindowSize (some .put))
    fmaWindowGet := env (.xememMake nic.fmaWindowGet fmaWindowSize (some .get))
    fmaCtrl := env (.xememMake nic.fmaCtrl ghalFmaCtrlSize (some .ctrl)) }

def replyNicSetattr : Reply :=
  let nic := exportWindows env (env (.ioctl (.nicSetattr (nicAttr s)))).2
  ⟨{ s with nicSetAttr := nic }, GniNicSetattrArgs.codec.encode nic, some (.nicSetattr (nicAttr s))⟩

theorem serveNicSetattr_replies (h : 0 ≤ (env (.ioctl (.nicSetattr (nicAttr s)))).1) :
    Replies env (serveNicSetattr s cmd ret) cmd.id (replyNicSetattr s env) := by
  refine .ioctl <| .else (not_lt.mpr h) ?_
  exact .step rfl <| .step rfl <| .step rfl <| .step rfl <| replies_return ..

theorem serveNicSetattr_silent (h : (env (.ioctl (.nicSetattr (nicAttr s)))).1 < 0) :
    Silent env (serveNicSetattr s cmd ret) cmd.id :=
  .ioctl <| .then h <| silent_ret _

/-- Where the server attaches the segment of a registration. -/
def attached (a : GniMemRegisterArgs) : UInt64 :=
  env (.xememAttach (env (.xememGet a.address)) a.length)

/-- The server's list after a registration: the segmented form leaves it. -/
def registered (a : GniMemRegisterArgs) : Server :=
  if a.segmentsCnt = 1 then
    { s with
      mt := listAddElement s.mt (env (.malloc .listNode)) a.address (attached env a) a.length }
  else s

/-- The registration as the device sees it. -/
def registration (a : GniMemRegisterArgs) : GniMemRegisterArgs :=
  if a.segmentsCnt = 1 then { a with address := attached env a } else a

def replyMemRegister (a : GniMemRegisterArgs) : Reply :=
  let call := DeviceCall.memRegister (registration env a)
  ⟨registered s env a, GniMemRegisterArgs.codec.encode (env (.ioctl call)).2, some call⟩

/-- The segment of a registration can be mapped. -/
def Attaches (a : GniMemRegisterArgs) : Prop :=
  a.segmentsCnt = 1 → 0 < env (.xememGet a.address) ∧ attached env a ≠ mapFailed

theorem serveMemRegister_replies {a : GniMemRegisterArgs}
    (hdata : GniMemRegisterArgs.codec.decode cmd.data = a) (hatt : Attaches env a)
    (h : 0 ≤ (env (.ioctl (.memRegister (registration env a)))).1) :
    Replies env (serveMemRegister s cmd ret) cmd.id (replyMemRegister s env a) := by
  subst hdata
  rw [replyMemRegister, registered, registration] at *
  by_cases hone : (GniMemRegisterArgs.codec.decode cmd.data).segmentsCnt = 1
  · obtain ⟨hget, hmap⟩ := hatt hone
    rw [if_pos hone] at *
    rw [if_pos hone]
    refine .then hone <| .step rfl <| .else (not_le.mpr hget) <| .step rfl <| .else hmap <|
      .step rfl ?_
    exact .ioctl <| .else (not_lt.mpr h) <| replies_return ..
  · -- the segmented form goes straight to the device
    rw [if_neg hone] at *
    rw [if_neg hone]
    exact .else hone <| .ioctl <| .else (not_lt.mpr h) <| replies_return ..

theorem serveMemRegister_silent {a : GniMemRegisterArgs}
    (hdata : GniMemRegisterArgs.codec.decode cmd.data = a)
    (h : ¬ (Attaches env a ∧ 0 ≤ (env (.ioctl (.memRegister (registration env a)))).1)) :
    Silent env (serveMemRegister s cmd ret) cmd.id := by
  subst hdata
  by_cases hone : (GniMemRegisterArgs.codec.decode cmd.data).segmentsCnt = 1
  · refine .then hone <| .step rfl ?_
    by_cases hget : env (.xememGet (GniMemRegisterArgs.codec.decode cmd.data).address) ≤ 0
    · exact .then hget <| silent_ret _
    · refine .else hget <| .step rfl ?_
      by_cases hmap : attached env (GniMemRegisterArgs.codec.decode cmd.data) = mapFailed
      · exact .then hmap <| .step rfl <| silent_ret _
      · refine .else hmap <| .step rfl ?_
        rw [registration, if_pos hone] at h
        have hrc := not_and.mp h fun _ => ⟨not_le.mp hget, hmap⟩
        exact .ioctl <| .then (not_le.mp hrc) <| silent_ret _
  · rw [registration, if_neg hone] at h
    have hrc := not_and.mp h fun hone' => absurd hone' hone
    exact .else hone <| .ioctl <| .then (not_le.mp hrc) <| silent_ret _

/-- The post as the device sees it: the segment id in `local_addr` becomes the
server's address, and `post_desc` points to the server's copy. -/
def postCall (desc : GniPostDescriptor) (a : GniPostRdmaArgs) : DeviceCall :=
  .postRdma { a with postDesc := s.postDescPtr }
    { desc with localAddr := listFindVaddrBySegid s.mt desc.localAddr }

def replyPostRdma (desc : GniPostDescriptor) (a : GniPostRdmaArgs) : Reply where
  server := { s with
    postAttr := { a with postDesc := s.postDescPtr }
    postDesc := { desc with localAddr := listFindVaddrBySegid s.mt desc.localAddr } }
  data := Codec.u32.encode (UInt32.ofNat (env (.ioctl (postCall s desc a))).1.toNat)
  device := some (postCall s desc a)

section PostRdma

variable {desc : GniPostDescriptor} {a : GniPostRdmaArgs}

theorem servePostRdma_replies
    (hdesc : GniPostDescriptor.codec.decode (cmd.data.take GniPostDescriptor.codec.size) = desc)
    (ha : GniPostRdmaArgs.codec.decode
      ((cmd.data.drop GniPostDescriptor.codec.size).take GniPostRdmaArgs.codec.size) = a)
    (h : 0 ≤ (env (.ioctl (postCall s desc a))).1) :
    Replies env (servePostRdma s cmd ret) cmd.id (replyPostRdma s env desc a) := by
  subst hdesc ha
  exact .ioctl <| .else (not_lt.mpr h) <| replies_return ..

theorem servePostRdma_silent
    (hdesc : GniPostDescriptor.codec.decode (cmd.data.take GniPostDescriptor.codec.size) = desc)
    (ha : GniPostRdmaArgs.codec.decode
      ((cmd.data.drop GniPostDescriptor.codec.size).take GniPostRdmaArgs.codec.size) = a)
    (h : (env (.ioctl (postCall s desc a))).1 < 0) :
    Silent env (servePostRdma s cmd ret) cmd.id := by
  subst hdesc ha
  exact .ioctl <| .then h <| silent_ret _

end PostRdma

/-- The queue as the device sees it. -/
def cqCall (a : GniCqCreateArgs) : DeviceCall :=
  .cqCreate { a with queue := listFindVaddrBySegid s.mt a.queue }

def replyCqCreate (a : GniCqCreateArgs) : Reply where
  server := s
  data := GniCqCreateArgs.codec.encode
    (env (.ioctl (.cqCreate { a with queue := listFindVaddrBySegid s.mt a.queue }))).2
  device := some (cqCall s a)

theorem serveCqCreate_replies {a : GniCqCreateArgs}
    (hdata : GniCqCreateArgs.codec.decode cmd.data = a)
    (h : 0 ≤ (env (.ioctl (cqCall s a))).1) :
    Replies env (serveCqCreate s cmd ret) cmd.id (replyCqCreate s env a) := by
  subst hdata
  exact .ioctl <| .else (not_lt.mpr h) <| replies_return ..

theorem serveCqCreate_silent {a : GniCqCreateArgs}
    (hdata : GniCqCreateArgs.codec.decode cmd.data = a)
    (h : (env (.ioctl (cqCall s a))).1 < 0) :
    Silent env (serveCqCreate s cmd ret) cmd.id := by
  subst hdata
  exact .ioctl <| .then h <| silent_ret _

def replyNicFmaConfig (a : GniNicFmaconfigArgs) : Reply where
  server := s
  data := GniNicFmaconfigArgs.codec.encode (env (.ioctl (.nicFmaConfig a))).2
  device := some (.nicFmaConfig a)

theorem serveNicFmaConfig_replies {a : GniNicFmaconfigArgs}
    (hdata : GniNicFmaconfigArgs.codec.decode cmd.data = a)
    (h : 0 ≤ (env (.ioctl (.nicFmaConfig a))).1) :
    Replies env (serveNicFmaConfig s cmd ret) cmd.id (replyNicFmaConfig s env a) := by
  subst hdata
  exact .ioctl <| .else (not_lt.mpr h) <| replies_return ..

theorem serveNicFmaConfig_silent {a : GniNicFmaconfigArgs}
    (hdata : GniNicFmaconfigArgs.codec.decode cmd.data = a)
    (h : (env (.ioctl (.nicFmaConfig a))).1 < 0) :
    Silent env (serveNicFmaConfig s cmd ret) cmd.id := by
  subst hdata
  exact .ioctl <| .then h <| silent_ret _

def replyGetrank : Reply where
  server := { s with myRank := if (env .pmiGetRank).1 then (env .pmiGetRank).2 else s.myRank }
  data := Codec.u32.encode (if (env .pmiGetRank).1 then (env .pmiGetRank).2 else s.myRank)
  device := none

theorem serveGetrank_replies :
    Replies env (serveGetrank s cmd ret) cmd.id (replyGetrank s env) :=
  .step rfl <| replies_return ..

def replyGetsize : Reply where
  server := { s with jobSize := if (env .pmiGetSize).1 then (env .pmiGetSize).2 else s.jobSize }
  data := Codec.u32.encode (if (env .pmiGetSize).1 then (env .pmiGetSize).2 else s.jobSize)
  device := none

theorem serveGetsize_replies :
    Replies env (serveGetsize s cmd ret) cmd.id (replyGetsize s env) :=
  .step rfl <| replies_return ..

theorem serveFinalize_replies :
    Replies env (serveFinalize s cmd ret) cmd.id ⟨s, [], none⟩ :=
  .step rfl <| replies_return ..

/-! ### The collective of one round -/

/-- Every call of the first collective succeeds. -/
def RanksOk : Prop :=
  (env .pmiGetSize).1 = true ∧ (env .pmiGetRank).1 = true ∧ env (.malloc .ivec) = true ∧
    (env (.pmiAllgather .ranks (Codec.u32.encode (env .pmiGetRank).2) 4)).1 = true

/-- What the first collective learns. -/
def learnt : Gather where
  alreadyCalled := true
  ivec := readRanks (env .pmiGetSize).2.toNat
    (env (.pmiAllgather .ranks (Codec.u32.encode (env .pmiGetRank).2) 4)).2
  jobSize := (env .pmiGetSize).2

/-- The order of the ranks that a collective uses. -/
def Gather.orLearnt (g : Gather) : Gather := if g.alreadyCalled then g else learnt env

theorem exec_learnRanks_some (h : RanksOk env) :
    (learnRanks.exec env).1 = some (learnt env) := by
  obtain ⟨h1, h2, h3, h4⟩ := h
  simp [learnRanks, learnt, h1, h2, h3, h4]

theorem exec_learnRanks_none (h : ¬ RanksOk env) : (learnRanks.exec env).1 = none := by
  -- whichever call fails, what comes after it is not reached
  cases h1 : (env .pmiGetSize).1 with
  | false => simp [learnRanks, h1]
  | true =>
    cases h2 : (env .pmiGetRank).1 with
    | false => simp [learnRanks, h1, h2]
    | true =>
      cases h3 : env (.malloc .ivec) with
      | false => simp [learnRanks, h1, h2, h3]
      | true =>
        have h4 : (env (.pmiAllgather .ranks (Codec.u32.encode (env .pmiGetRank).2) 4)).1
            = false := by
          rw [Bool.eq_false_iff]
          exact fun h4 => h ⟨h1, h2, h3, h4⟩
        simp [learnRanks, h1, h2, h3, h4]

theorem quiet_learnRanks : Quiet env learnRanks :=
  .step rfl <| .ite (quiet_ret _) <| .step rfl <| .ite (quiet_ret _) <| .step rfl <|
    .ite (quiet_ret _) <| .step rfl <| .ite (quiet_ret _) (quiet_ret _)

theorem exec_rankOrder_some {g : Gather} (h : g.alreadyCalled = false → RanksOk env) :
    ((rankOrder g).exec env).1 = some (g.orLearnt env) := by
  cases hg : g.alreadyCalled with
  | true => simp [rankOrder, Gather.orLearnt, hg]
  | false => simp [rankOrder, Gather.orLearnt, hg, exec_learnRanks_some env (h hg)]

section Gather

variable (g : Gather) (inp out : Bytes) (len : Nat)

/-- Every call of a collective succeeds. -/
structure GatherOk : Prop where
  ranks : g.alreadyCalled = false → RanksOk env
  tmpBuf : env (.malloc .tmpBuf) = true
  blocks : (env (.pmiAllgather .blocks inp len)).1 = true

/-- The output of a collective. -/
def gathered : Bytes :=
  scatter (fun i => ((g.orLearnt env).ivec.getD i 0).toNat)
    (env (.pmiAllgather .blocks inp len)).2 len (g.orLearnt env).jobSize.toNat out

variable {g inp len}

variable {env} in
/-- The command at hand makes no difference to them. -/
theorem GatherOk.fetching (h : GatherOk env g inp len) (cmd : Cmd) :
    GatherOk (fetching cmd env) g inp len := ⟨h.ranks, h.tmpBuf, h.blocks⟩

theorem exec_gatherBlocks_some (h : GatherOk env g inp len) :
    ((gatherBlocks g inp out len).exec env).1
      = some (g.orLearnt env, gathered env g inp out len) := by
  have hr := exec_rankOrder_some env h.ranks
  simp [gatherBlocks, gathered, hr, h.tmpBuf, h.blocks]

theorem exec_gatherBlocks_none (h : ¬ GatherOk env g inp len) :
    ((gatherBlocks g inp out len).exec env).1 = none := by
  by_cases hr : g.alreadyCalled = false → RanksOk env
  · -- the order of the ranks is known, so one of the last two calls failed
    have hknown := exec_rankOrder_some env hr
    cases htmp : env (.malloc .tmpBuf) with
    | false => simp [gatherBlocks, hknown, htmp]
    | true =>
        have hb : (env (.pmiAllgather .blocks inp len)).1 = false := by
          by_contra hb
          exact h ⟨hr, htmp, by simpa using hb⟩
        simp [gatherBlocks, hknown, htmp, hb]
  · obtain ⟨hg, hbad⟩ := Classical.not_imp.mp hr
    simp [gatherBlocks, rankOrder, hg, exec_learnRanks_none env hbad]

theorem quiet_gatherBlocks : Quiet env (gatherBlocks g inp out len) := by
  refine Quiet.bind (p := rankOrder g) ?_ ?_
  · exact .ite (quiet_ret _) (quiet_learnRanks env)
  split
  · exact quiet_ret _
  · exact .step rfl <| .ite (quiet_ret _) <| .step rfl <| .ite (quiet_ret _) (quiet_ret _)

end Gather

/-- The buffer of the gather before the collective. -/
def freshOut (contents : Nat → UInt8) (n : Nat) : Bytes := (List.range n).map contents

@[simp] theorem length_freshOut (contents : Nat → UInt8) (n : Nat) :
    (freshOut contents n).length = n := by
  simp [freshOut]

def replyAllgather (data : Bytes) (contents : Nat → UInt8) : Reply where
  server := { s with gather := s.gather.orLearnt env }
  data := gathered env s.gather (gatherInput s data)
    (freshOut contents (s.jobSize.toNat * data.length)) data.length
  device := none

theorem serveAllgather_replies {contents : Nat → UInt8} (hout : env .mallocOut = some contents)
    (h : GatherOk env s.gather (gatherInput s cmd.data) cmd.data.length) :
    Replies env (serveAllgather s cmd ret) cmd.id
      (replyAllgather s env cmd.data contents) := by
  refine .step rfl ?_
  show Replies env (match env .mallocOut with | none => _ | some contents => _) _ _
  rw [hout]
  refine .bind (quiet_gatherBlocks env _) ?_
  rw [exec_gatherBlocks_some _ _ h]
  exact replies_return ..

theorem serveAllgather_silent
    (h : ¬ ((env .mallocOut).isSome = true ∧
      GatherOk env s.gather (gatherInput s cmd.data) cmd.data.length)) :
    Silent env (serveAllgather s cmd ret) cmd.id := by
  refine .step rfl ?_
  show Silent env (match env .mallocOut with | none => _ | some contents => _) _
  rcases hout : env .mallocOut with - | contents
  · exact silent_ret _
  · have hbad := not_and.mp h (by rw [hout]; rfl)
    refine .bind (quiet_gatherBlocks env _) ?_
    rw [exec_gatherBlocks_none _ _ hbad]
    exact silent_ret _

end Cases

/-! ### The case of a code -/

section Dispatch

variable (s : Server) (id : Nat) (data : Bytes) (ret : Int)

theorem dispatch_memRegister : dispatch s ⟨id, gniIocMemRegister.toUInt64, data⟩ ret
    = serveMemRegister s ⟨id, gniIocMemRegister.toUInt64, data⟩ ret := rfl

theorem dispatch_postRdma : dispatch s ⟨id, gniIocPostRdma.toUInt64, data⟩ ret
    = servePostRdma s ⟨id, gniIocPostRdma.toUInt64, data⟩ ret := rfl

theorem dispatch_cqCreate : dispatch s ⟨id, gniIocCqCreate.toUInt64, data⟩ ret
    = serveCqCreate s ⟨id, gniIocCqCreate.toUInt64, data⟩ ret := rfl

theorem dispatch_allgather : dispatch s ⟨id, pmiIocAllgather.toUInt64, data⟩ ret
    = serveAllgather s ⟨id, pmiIocAllgather.toUInt64, data⟩ ret := rfl

end Dispatch

/-! ### The two halves together -/

/-- The server is in its loop and the client is not blocked. -/
structure World.Live (w : World) : Prop where
  running : w.running = true
  notWaiting : w.waiting = none

section Exchange

variable (w : World) (e : Event)

/-- The registration as the client sends it, its address the new segment id. -/
def Event.sent (e : Event) (a : GniMemRegisterArgs) : GniMemRegisterArgs :=
  { a with address := e.clientEnv (.xememMake a.address a.length) }

/-- The block the server is sent by an `ALLGATHER`. -/
def World.block (w : World) (a : PmiAllgatherArgs) (inData : Bytes) : Bytes :=
  (gatherData w.client a inData).take a.inDataLen.toNat

/-- What the server makes of a request that it answers. -/
def World.reply : Reply :=
  match e.request with
  | .nicSetattr _ => replyNicSetattr w.server e.serverEnv
  | .cqCreate a =>
      replyCqCreate w.server e.serverEnv
        { a with queue := listFindSegidByVaddr w.client.mt a.queue }
  | .memRegister a => replyMemRegister w.server e.serverEnv (e.sent a)
  | .allgather a inData _ =>
      replyAllgather w.server e.serverEnv (w.block a inData)
        ((e.serverEnv .mallocOut).getD fun _ => 0)
  | .getsize _ => replyGetsize w.server e.serverEnv
  | .getrank _ => replyGetrank w.server e.serverEnv
  | .nicFmaConfig a => replyNicFmaConfig w.server e.serverEnv a
  | .postRdma a desc =>
      replyPostRdma w.server e.serverEnv
        { desc with localAddr := listFindSegidByVaddr w.client.mt desc.localAddr } a
  | _ => ⟨w.server, [], none⟩

/-- The conditions for an answer that have nothing to do with the device or
PMI: the server has a case for the code, `select` does not fail, the segment of
a registration can be mapped, and the buffers of a gather can be allocated. -/
def World.Answerable : Prop :=
  match e.request with
  | .printed _ => True
  | .cqWaitEvent _ => False
  | .cqDestroy _ => False
  | .barrier => False
  | .memRegister a => e.serverEnv .select ≠ -1 ∧ Attaches e.serverEnv (e.sent a)
  | .allgather _ _ _ => e.serverEnv .select ≠ -1 ∧ (e.serverEnv .mallocOut).isSome = true ∧
      (w.server.gather.alreadyCalled = false → e.serverEnv (.malloc .ivec) = true) ∧
      e.serverEnv (.malloc .tmpBuf) = true
  | _ => e.serverEnv .select ≠ -1

/-- The device call of the request succeeds, if there is one. -/
def World.DeviceOk : Prop := ∀ c ∈ (w.reply e).device, 0 ≤ (e.serverEnv (.ioctl c)).1

/-- The PMI calls of a gather succeed. -/
def World.PmiOk : Prop :=
  match e.request with
  | .allgather a inData _ =>
      (w.server.gather.alreadyCalled = false → (e.serverEnv .pmiGetSize).1 = true ∧
        (e.serverEnv .pmiGetRank).1 = true ∧ (e.serverEnv (.pmiAllgather .ranks
          (Codec.u32.encode (e.serverEnv .pmiGetRank).2) 4)).1 = true) ∧
      (e.serverEnv (.pmiAllgather .blocks (gatherInput w.server (w.block a inData))
        (w.block a inData).length)).1 = true
  | _ => True

/-- Exactly the requests the server answers. -/
structure World.Served : Prop where
  answerable : w.Answerable e
  device : w.DeviceOk e
  pmi : w.PmiOk e

variable {w e} {code : UInt64} {data : Bytes}

/-- All calls of a gather succeed. -/
theorem World.Served.gatherOk {a : PmiAllgatherArgs} {inData outData : Bytes} (h : w.Served e)
    (hreq : e.request = .allgather a inData outData) :
    GatherOk e.serverEnv w.server.gather (gatherInput w.server (w.block a inData))
      (w.block a inData).length := by
  obtain ⟨hans, -, hpmi⟩ := h
  rw [World.Answerable, hreq] at hans
  rw [World.PmiOk, hreq] at hpmi
  obtain ⟨-, -, hivec, htmp⟩ := hans
  refine ⟨fun hg => ?_, htmp, hpmi.2⟩
  obtain ⟨hsize, hrank, hranks⟩ := hpmi.1 hg
  exact ⟨hsize, hrank, hivec hg, hranks⟩

theorem dispatch_replies (id : Nat) (ret : Int) (h : w.Served e)
    (hc : commandOf w.client e.clientEnv e.request = some (code, data)) :
    Replies (fetching ⟨id, code, data⟩ e.serverEnv) (dispatch w.server ⟨id, code, data⟩ ret) id
      (w.reply e) := by
  have ⟨hans, hdev, _⟩ := h
  obtain ⟨d, r, clientEnv, serverEnv⟩ := e
  -- in each case `hc` says with which code and data the request was sent
  cases r with
  | printed code => exact absurd hc (by simp [commandOf])
  | nicSetattr a =>
      obtain ⟨rfl, rfl⟩ := Prod.mk.inj (Option.some.inj hc)
      exact serveNicSetattr_replies _ _ _ _ (hdev _ rfl)
  | cqCreate a =>
      obtain ⟨rfl, rfl⟩ := Prod.mk.inj (Option.some.inj hc)
      exact serveCqCreate_replies _ _ _ _ (Codec.decode_encode _ _) (hdev _ rfl)
  | memRegister a =>
      obtain ⟨rfl, rfl⟩ := Prod.mk.inj (Option.some.inj hc)
      rw [dispatch_memRegister]
      exact serveMemRegister_replies _ _ _ _ (Codec.decode_encode _ _) hans.2 (hdev _ rfl)
  | cqWaitEvent a => exact hans.elim
  | cqDestroy a => exact hans.elim
  | barrier => exact hans.elim
  | allgather a inData outData =>
      obtain ⟨rfl, rfl⟩ := Prod.mk.inj (Option.some.inj hc)
      obtain ⟨contents, hsome⟩ := Option.isSome_iff_exists.mp hans.2.1
      have hget : (serverEnv .mallocOut).getD (fun _ => 0) = contents := by
        rw [show serverEnv .mallocOut = some contents from hsome]
        rfl
      show Replies _ _ _ (replyAllgather _ _ _ ((serverEnv .mallocOut).getD fun _ => 0))
      rw [hget]
      exact serveAllgather_replies _ _ _ _ hsome ((h.gatherOk rfl).fetching _)
  | getsize n =>
      obtain ⟨rfl, rfl⟩ := Prod.mk.inj (Option.some.inj hc)
      exact serveGetsize_replies ..
  | getrank n =>
      obtain ⟨rfl, rfl⟩ := Prod.mk.inj (Option.some.inj hc)
      exact serveGetrank_replies ..
  | finalize =>
      obtain ⟨rfl, rfl⟩ := Prod.mk.inj (Option.some.inj hc)
      exact serveFinalize_replies ..
  | nicFmaConfig a =>
      obtain ⟨rfl, rfl⟩ := Prod.mk.inj (Option.some.inj hc)
      exact serveNicFmaConfig_replies _ _ _ _ (Codec.decode_encode _ _) (hdev _ rfl)
  | postRdma a desc =>
      obtain ⟨rfl, rfl⟩ := Prod.mk.inj (Option.some.inj hc)
      -- descriptor and arguments travel in one buffer, in this order
      exact servePostRdma_replies _ _ _ _ (Codec.decode_take_append ..)
        (Codec.decode_drop_append ..) (hdev _ rfl)

/-- When `select` did not fail, a request that is not served gets no reply. -/
theorem dispatch_silent (id : Nat) (ret : Int) (h : ¬ w.Served e) (hsel : e.serverEnv .select ≠ -1)
    (hc : commandOf w.client e.clientEnv e.request = some (code, data)) :
    Silent (fetching ⟨id, code, data⟩ e.serverEnv) (dispatch w.server ⟨id, code, data⟩ ret)
      id := by
  obtain ⟨d, r, clientEnv, serverEnv⟩ := e
  -- a request of the common kind is served unless the device call fails
  have hfail : ∀ c, (w.reply ⟨d, r, clientEnv, serverEnv⟩).device = some c →
      w.Answerable ⟨d, r, clientEnv, serverEnv⟩ → w.PmiOk ⟨d, r, clientEnv, serverEnv⟩ →
      (serverEnv (.ioctl c)).1 < 0 := by
    intro c hcall hans hpmi
    by_contra hge
    refine h ⟨hans, ?_, hpmi⟩
    intro c' hc'
    obtain rfl := Option.some.inj (hcall.symm.trans hc')
    exact not_lt.mp hge
  cases r with
  | printed code => exact absurd hc (by simp [commandOf])
  | nicSetattr a =>
      obtain ⟨rfl, rfl⟩ := Prod.mk.inj (Option.some.inj hc)
      exact serveNicSetattr_silent _ _ _ _ (hfail _ rfl hsel trivial)
  | cqCreate a =>
      obtain ⟨rfl, rfl⟩ := Prod.mk.inj (Option.some.inj hc)
      exact serveCqCreate_silent _ _ _ _ (Codec.decode_encode _ _) (hfail _ rfl hsel trivial)
  | memRegister a =>
      obtain ⟨rfl, rfl⟩ := Prod.mk.inj (Option.some.inj hc)
      rw [dispatch_memRegister]
      refine serveMemRegister_silent _ _ _ _ (Codec.decode_encode _ _) ?_
      rintro ⟨hatt, hge⟩
      exact absurd (hfail _ rfl ⟨hsel, hatt⟩ trivial) (not_lt.mpr hge)
  -- three codes have no case in the server's `switch`
  | cqWaitEvent a =>
      obtain ⟨rfl, rfl⟩ := Prod.mk.inj (Option.some.inj hc)
      exact silent_ret _
  | cqDestroy a =>
      obtain ⟨rfl, rfl⟩ := Prod.mk.inj (Option.some.inj hc)
      exact silent_ret _
  | barrier =>
      obtain ⟨rfl, rfl⟩ := Prod.mk.inj (Option.some.inj hc)
      exact silent_ret _
  | allgather a inData outData =>
      obtain ⟨rfl, rfl⟩ := Prod.mk.inj (Option.some.inj hc)
      rw [dispatch_allgather]
      refine serveAllgather_silent _ _ _ _ ?_
      rintro ⟨hout, hranks, htmp, hblocks⟩
      refine h ⟨⟨hsel, hout, fun hg => (hranks hg).2.2.1, htmp⟩, ?_, ?_, hblocks⟩
      · intro c hc'
        cases hc'
      · intro hg
        exact ⟨(hranks hg).1, (hranks hg).2.1, (hranks hg).2.2.2⟩
  | getsize n => exact absurd ⟨hsel, by rintro c ⟨⟩, trivial⟩ h
  | getrank n => exact absurd ⟨hsel, by rintro c ⟨⟩, trivial⟩ h
  | finalize => exact absurd ⟨hsel, by rintro c ⟨⟩, trivial⟩ h
  | nicFmaConfig a =>
      obtain ⟨rfl, rfl⟩ := Prod.mk.inj (Option.some.inj hc)
      exact serveNicFmaConfig_silent _ _ _ _ (Codec.decode_encode _ _) (hfail _ rfl hsel trivial)
  | postRdma a desc =>
      obtain ⟨rfl, rfl⟩ := Prod.mk.inj (Option.some.inj hc)
      exact servePostRdma_silent _ _ _ _ (Codec.decode_take_append ..)
        (Codec.decode_drop_append ..) (hfail _ rfl hsel trivial)

/-- The life of a command that is answered. -/
def Cmd.answered (cmd : Cmd) : List QueueEvent :=
  [.issued cmd, .fetched cmd, .returned cmd.id]

theorem select_of_served (h : w.Served e)
    (hc : commandOf w.client e.clientEnv e.request = some (code, data)) :
    e.serverEnv .select ≠ -1 := by
  obtain ⟨hans, -, -⟩ := h
  obtain ⟨d, r, clientEnv, serverEnv⟩ := e
  cases r with
  | printed code => exact absurd hc (by simp [commandOf])
  | memRegister a => exact hans.1
  | allgather a inData outData => exact hans.1
  | cqWaitEvent a => exact hans.elim
  | cqDestroy a => exact hans.elim
  | barrier => exact hans.elim
  | _ => exact hans

theorem exec_serve {env : (o : ServerCall) → o.Ans} (s : Server) (cmd : Cmd)
    (hsel : env .select ≠ -1) :
    (serve s).exec (fetching cmd env)
      = (((dispatch s cmd (env .select)).exec (fetching cmd env)).1,
          ⟨.select, env .select⟩ :: ⟨.hcqGetNextCmd, cmd⟩ ::
            ((dispatch s cmd (env .select)).exec (fetching cmd env)).2) := by
  simp [serve, fetching, hsel]

/-- A trace whose device calls succeed holds no failed call. -/
theorem not_failed_of_mem {α : Type} (env : (o : ServerCall) → o.Ans) (p : ServerM α)
    (h : ∀ c ∈ (p.exec env).2.filterMap deviceCallIn, 0 ≤ (env (.ioctl c)).1)
    (c : Σ o : ServerCall, o.Ans) (hc : c ∈ (p.exec env).2) : ¬ (Entry.server c).Failed := by
  have hans := Prog.snd_eq_of_mem_exec hc
  obtain ⟨o, answer⟩ := c
  obtain rfl : answer = env o := hans
  cases o with
  | ioctl d => exact not_lt.mpr (h d (List.mem_filterMap.mpr ⟨_, hc, rfl⟩))
  | _ => exact not_false

theorem issue_served (hl : w.Live) (h : w.Served e)
    (hc : commandOf w.client e.clientEnv e.request = some (code, data)) :
    ∃ l, w.issue e.serverEnv code data = (some w.nextCmd, { w with
        server := (w.reply e).server, nextCmd := w.nextCmd + 1, ret := (w.reply e).data,
        log := w.log ++ l }) ∧
      l.filterMap Entry.deviceCall = (w.reply e).device.toList ∧
      l.filterMap Entry.queueEvent = Cmd.answered ⟨w.nextCmd, code, data⟩ ∧
      ∀ x ∈ l, ¬ x.Failed := by
  have hrep := dispatch_replies w.nextCmd (e.serverEnv .select) h hc
  have hserve := exec_serve w.server ⟨w.nextCmd, code, data⟩ (select_of_served h hc)
  obtain ⟨hnext, hreply, hdevice, hqueue⟩ := hrep
  have hclean := not_failed_of_mem (fetching ⟨w.nextCmd, code, data⟩ e.serverEnv)
    (dispatch w.server ⟨w.nextCmd, code, data⟩ (e.serverEnv .select))
    (by rw [hdevice]; exact fun c hc => h.device c (Option.mem_toList.mp hc))
  -- all that matters of the round is in hand; its trace can stay abstract
  generalize (dispatch w.server ⟨w.nextCmd, code, data⟩ (e.serverEnv .select)).exec
    (fetching ⟨w.nextCmd, code, data⟩ e.serverEnv) = round at *
  obtain ⟨round, tr⟩ := round
  obtain rfl : round = .next (w.reply e).server := hnext
  -- the log gets the command, the two calls at the head of the loop, and the trace
  refine ⟨.issued ⟨w.nextCmd, code, data⟩ :: .server ⟨.select, e.serverEnv .select⟩ ::
    .server ⟨.hcqGetNextCmd, ⟨w.nextCmd, code, data⟩⟩ :: tr.map Entry.server, ?_, ?_, ?_, ?_⟩
  · have hfind : List.findSome? (replyTo w.nextCmd) (⟨.select, e.serverEnv .select⟩ ::
        ⟨.hcqGetNextCmd, ⟨w.nextCmd, code, data⟩⟩ :: tr) = some (w.reply e).data := hreply
    simp only [World.issue, hl.running, if_true, hserve]
    rw [hfind]
    simp [Round.server, Round.goesOn]
  · show (tr.map Entry.server).filterMap Entry.deviceCall = _
    rw [deviceCalls_map_server]
    exact hdevice
  · show _ :: _ :: (tr.map Entry.server).filterMap Entry.queueEvent = _
    rw [queueEvents_map_server, hqueue]
    rfl
  · intro x hx
    rcases List.mem_cons.mp hx with rfl | hx
    · exact not_false
    rcases List.mem_cons.mp hx with rfl | hx
    · exact not_false
    rcases List.mem_cons.mp hx with rfl | hx
    · exact not_false
    obtain ⟨c, hc, rfl⟩ := List.mem_map.mp hx
    exact hclean c hc

/-- A round replies to nobody unless its dispatch does. -/
theorem serve_silent {env : (o : ServerCall) → o.Ans} (s : Server) (cmd : Cmd)
    (h : env .select ≠ -1 →
      Silent (fetching cmd env) (dispatch s cmd (env .select)) cmd.id) :
    Silent (fetching cmd env) (serve s) cmd.id := by
  by_cases hsel : env .select = -1
  · simp [Silent, serve, fetching, hsel, replyTo]
  · rw [Silent, exec_serve s cmd hsel]
    exact h hsel

theorem issue_unserved (h : ¬ w.Served e)
    (hc : commandOf w.client e.clientEnv e.request = some (code, data)) :
    (w.issue e.serverEnv code data).1 = none ∧
      (w.issue e.serverEnv code data).2.waiting = some w.nextCmd := by
  cases hrun : w.running with
  | false => simp [World.issue, hrun]
  | true =>
      have hfind : ((serve w.server).exec (fetching ⟨w.nextCmd, code, data⟩
          e.serverEnv)).2.findSome? (replyTo w.nextCmd) = none :=
        serve_silent _ ⟨w.nextCmd, code, data⟩ fun hsel => dispatch_silent _ _ h hsel hc
      simp only [World.issue, hrun, if_true]
      rw [hfind]
      exact ⟨rfl, rfl⟩

variable (w e) in
/-- The commands of a request: one if it is forwarded, else none. -/
def World.commands : List Cmd :=
  ((commandOf w.client e.clientEnv e.request).map fun c => ⟨w.nextCmd, c.1, c.2⟩).toList

/-- The outcome of a request that was carried out. -/
structure Carried (w : World) (e : Event) : Prop where
  live : (w.ioctl e).1.Live
  returns : ∃ r, (w.ioctl e).2 = some (r, 0)
  client : (w.ioctl e).1.client = clientAfter w.client e.clientEnv (w.reply e).data e.request
  server : (w.ioctl e).1.server = (w.reply e).server
  device : (w.ioctl e).1.deviceLog = w.deviceLog ++ (w.reply e).device.toList
  queue : (w.ioctl e).1.queueLog = w.queueLog ++ (w.commands e).flatMap Cmd.answered
  noFailure : ¬ w.DeviceFailed e

theorem ioctl_printed (hl : w.Live) (d : Device) (code : UInt64)
    (clientEnv : (o : ClientCall) → o.Ans) (serverEnv : (o : ServerCall) → o.Ans) :
    w.ioctl ⟨d, .printed code, clientEnv, serverEnv⟩ = (w, some (.printed code, 0)) :=
  ioctl_of_some (p := .zero) hl.notWaiting rfl

/-- A request that is served is carried out. -/
theorem ioctl_served (hl : w.Live) (h : w.Served e) : Carried w e := by
  rcases hc : commandOf w.client e.clientEnv e.request with - | ⟨code, data⟩
  · -- not forwarded: the case of `pack_args` only prints
    obtain ⟨d, r, clientEnv, serverEnv⟩ := e
    obtain ⟨code, rfl⟩ : ∃ code, r = .printed code := by
      cases r <;> first | exact ⟨_, rfl⟩ | cases hc
    have hio := ioctl_printed hl d code clientEnv serverEnv
    refine ⟨?_, ?_, ?_, ?_, ?_, ?_, ?_⟩ <;> first | rw [hio] | rw [World.DeviceFailed, hio]
    · exact hl
    · exact ⟨_, rfl⟩
    · rfl
    · rfl
    · exact (List.append_nil _).symm
    · exact (List.append_nil _).symm
    · simp
  · obtain ⟨l, hissue, hdevice, hqueue, hclean⟩ := issue_served hl h hc
    obtain ⟨r', p, hpack⟩ := run_packArgs_some hc hissue
    have hio := ioctl_of_some hl.notWaiting hpack
    refine ⟨?_, ?_, ?_, ?_, ?_, ?_, ?_⟩ <;> first | rw [hio] | rw [World.DeviceFailed, hio]
    · exact ⟨hl.running, hl.notWaiting⟩
    · exact ⟨r', rfl⟩
    · show (w.log ++ l).filterMap Entry.deviceCall = _
      rw [List.filterMap_append, hdevice]
      rfl
    · show (w.log ++ l).filterMap Entry.queueEvent = _
      rw [List.filterMap_append, hqueue, World.commands, hc]
      rfl
    · rintro ⟨x, hx, hfail⟩
      have hx' : x ∈ l := by simpa using hx
      exact hclean x hx' hfail

/-- A request that is not served never returns. -/
theorem ioctl_unserved (hl : w.Live) (h : ¬ w.Served e) :
    (w.ioctl e).2 = none ∧ (w.ioctl e).1.waiting = some w.nextCmd := by
  rcases hc : commandOf w.client e.clientEnv e.request with - | ⟨code, data⟩
  · obtain ⟨d, r, clientEnv, serverEnv⟩ := e
    cases r with
    | printed code => exact absurd ⟨trivial, by rintro c ⟨⟩, trivial⟩ h
    | _ => cases hc
  · obtain ⟨hnone, hwait⟩ := issue_unserved h hc
    have hissue : w.issue e.serverEnv code data = (none, (w.issue e.serverEnv code data).2) :=
      Prod.ext hnone rfl
    rw [ioctl_of_none hl.notWaiting (run_packArgs_none hc hissue)]
    exact ⟨rfl, hwait⟩

/-- What a forwarded request does to the server and to the log: the log gets the
command and the calls of the round that serves it, whether or not a reply is
among them. -/
theorem ioctl_round (hl : w.Live)
    (hc : commandOf w.client e.clientEnv e.request = some (code, data)) :
    (w.ioctl e).1.server
        = ((serve w.server).exec (fetching ⟨w.nextCmd, code, data⟩ e.serverEnv)).1.server ∧
      (w.ioctl e).1.log = w.log ++ .issued ⟨w.nextCmd, code, data⟩ ::
        ((serve w.server).exec (fetching ⟨w.nextCmd, code, data⟩ e.serverEnv)).2.map
          Entry.server := by
  have hissue : (w.issue e.serverEnv code data).2.server
        = ((serve w.server).exec (fetching ⟨w.nextCmd, code, data⟩ e.serverEnv)).1.server ∧
      (w.issue e.serverEnv code data).2.log = w.log ++ .issued ⟨w.nextCmd, code, data⟩ ::
        ((serve w.server).exec (fetching ⟨w.nextCmd, code, data⟩ e.serverEnv)).2.map
          Entry.server := by
    simp only [World.issue, hl.running, if_true]
    split <;> simp
  rcases hi : w.issue e.serverEnv code data with ⟨- | id, w'⟩
  · rw [hi] at hissue
    rw [ioctl_of_none hl.notWaiting (run_packArgs_none hc hi)]
    exact hissue
  · rw [hi] at hissue
    obtain ⟨r', p, hpack⟩ := run_packArgs_some hc hi
    rw [ioctl_of_some hl.notWaiting hpack]
    exact hissue

/-- A request that is not forwarded leaves both as they are. -/
theorem ioctl_unforwarded (hl : w.Live)
    (hc : commandOf w.client e.clientEnv e.request = none) : (w.ioctl e).1 = w := by
  obtain ⟨d, r, clientEnv, serverEnv⟩ := e
  cases r with
  | printed code => rw [ioctl_printed hl]
  | _ => cases hc

/-- The caller of an `ALLGATHER` finds its own block edited and the reply copied
over the front of its output. -/
theorem ioctl_allgather {a : PmiAllgatherArgs} {inData outData : Bytes} (hl : w.Live)
    (h : w.Served e) (hreq : e.request = .allgather a inData outData) :
    (w.ioctl e).2 = some (.allgather a (gatherData w.client a inData)
      (overlay (w.client.commSize.toNat * a.inDataLen.toNat) (w.reply e).data outData), 0) := by
  have hc : commandOf w.client e.clientEnv e.request
      = some (pmiIocAllgather.toUInt64, w.block a inData) := by
    rw [hreq]
    rfl
  obtain ⟨l, hissue, -⟩ := issue_served hl h hc
  have hpack : (packArgs w.client e.request).run (handler e) w
      = (some (w.client, .allgather a (gatherData w.client a inData)
          (overlay (w.client.commSize.toNat * a.inDataLen.toNat) (w.reply e).data outData), .zero),
        { w with
          server := (w.reply e).server, nextCmd := w.nextCmd + 1, ret := (w.reply e).data,
          log := w.log ++ l }) := by
    rw [World.block] at hissue
    rw [hreq]
    simp [packArgs, allgather, hissue]
  rw [ioctl_of_some hl.notWaiting hpack]

end Exchange

end Nvl.StaticLink

/-
Nvl/Preload/Interchange.lean

Can one client library stand in for the other?

The two systems take the same requests and meet the same outside; `Twin` says what
they have in common after any number of requests that came out alike.  Both
servers then hold the same segments, and differ at most in the attributes they
remember; the preloaded client's list has the windows in it as well.

`Alike` says, request by request, when the two come out alike:

* `NIC_SETATTR`, if both servers remember the same attributes and the device
  answers with those the caller had, apart from the tag and the cookie, which are
  all that the preloaded client copies;
* `CQ_CREATE` and `POST_RDMA`, if the windows in the one list do not get in the way
  of the lookup, and a post only if the address in the descriptor is its own
  segment id, because the preloaded client leaves that id in it;
* `ALLGATHER` of a handle, if both clients find the same segment id.
-/
import Nvl.Preload.System

namespace Nvl.Preload

open SysLib StaticLink

/-! ### The same outcome -/

/-- A request without the addresses at which the windows are attached. -/
def blank : Request → Request
  | .nicSetattr a => .nicSetattr
      { a with fmaWindow := 0, fmaWindowNwc := 0, fmaWindowGet := 0, fmaCtrl := 0 }
  | r => r

/-- Static system in `w` and preloaded one in `w'`: the caller finds the same in its
structures and buffers, and the device has seen the same. -/
structure SameOutcome (w w' : World) (e : Event) : Prop where
  returns : ∃ r r', (w.ioctl e).2 = some (r, 0) ∧ (ioctlOn w' e).2 = some (r', 0) ∧
    blank r' = blank r
  device : (ioctlOn w' e).1.deviceLog = (w.ioctl e).1.deviceLog

/-- The requests in question. -/
def Shared : Request → Prop
  | .nicSetattr _ => True
  | .memRegister _ => True
  | .cqCreate _ => True
  | .postRdma _ _ => True
  | .allgather _ _ _ => True
  | _ => False

/-- The attributes agree outside the tag, the cookie and the windows. -/
structure SameRest (nic a : GniNicSetattrArgs) : Prop where
  rank : nic.rank = a.rank
  modesWord : nic.modesWord = a.modesWord
  nicPe : nic.nicPe = a.nicPe
  pad : nic.pad = a.pad
  datagramCounter : nic.datagramCounter = a.datagramCounter

/-- The two systems will do the same with a request. -/
def Alike (w w' : World) (e : Event) : Prop :=
  match e.request with
  | .nicSetattr a => nicAttr w'.server = nicAttr w.server ∧
      SameRest (nicResult w.server e.serverEnv) a
  | .cqCreate a => w'.translate a.queue = w.translate a.queue
  | .postRdma _ desc => listFindSegidByVaddr w'.client.mt desc.localAddr = desc.localAddr ∧
      w'.translate desc.localAddr = w.translate desc.localAddr
  | .allgather a inData _ => a.inDataLen.toNat = MdhAddr.codec.size →
      listFindSegidByVaddr w'.client.mt
          (MdhAddr.codec.decode (inData.take MdhAddr.codec.size)).addr
        = listFindSegidByVaddr w.client.mt
          (MdhAddr.codec.decode (inData.take MdhAddr.codec.size)).addr
  | _ => True

/-- What the two have in common. -/
structure Twin (w w' : World) : Prop where
  live : w.Live
  live' : w'.Live
  server : ∃ nic, w'.server = { w.server with nicSetAttr := nic }
  commSize : w'.client.commSize = w.client.commSize
  device : w'.deviceLog = w.deviceLog

section Step

variable {w w' : World} {e : Event}

theorem sameOutcome_iff {r r' : Request} {d d' : List DeviceCall} (h : Twin w w')
    (hret : (w.ioctl e).2 = some (r, 0)) (hret' : (ioctlOn w' e).2 = some (r', 0))
    (hdev : (w.ioctl e).1.deviceLog = w.deviceLog ++ d)
    (hdev' : (ioctlOn w' e).1.deviceLog = w'.deviceLog ++ d') :
    SameOutcome w w' e ↔ blank r' = blank r ∧ d' = d := by
  constructor
  · rintro ⟨⟨q, q', hq, hq', hblank⟩, hlog⟩
    rw [hret] at hq
    rw [hret'] at hq'
    obtain ⟨rfl, -⟩ := Prod.mk.inj (Option.some.inj hq)
    obtain ⟨rfl, -⟩ := Prod.mk.inj (Option.some.inj hq')
    rw [hdev, hdev', h.device] at hlog
    exact ⟨hblank, List.append_cancel_left hlog⟩
  · rintro ⟨hblank, rfl⟩
    exact ⟨⟨r, r', hret, hret', hblank⟩, by rw [hdev, hdev', h.device]⟩

/-! ### Request by request -/

/-- The caller's block comes out the same exactly if the same id is found. -/
theorem gatherData_eq_iff (c c' : Client) (a : PmiAllgatherArgs) (inData : Bytes) :
    gatherData c' a inData = gatherData c a inData ↔
      (a.inDataLen.toNat = MdhAddr.codec.size →
        listFindSegidByVaddr c'.mt (MdhAddr.codec.decode (inData.take MdhAddr.codec.size)).addr
          = listFindSegidByVaddr c.mt
            (MdhAddr.codec.decode (inData.take MdhAddr.codec.size)).addr) := by
  rw [gatherData, gatherData]
  by_cases hsize : a.inDataLen.toNat = MdhAddr.codec.size
  · rw [if_pos hsize, if_pos hsize]
    constructor
    · intro hdata _
      have henc := List.append_cancel_right hdata
      have hhdl := congrArg MdhAddr.codec.decode henc
      rw [Codec.decode_encode, Codec.decode_encode] at hhdl
      exact congrArg MdhAddr.addr hhdl
    · intro hseg
      simp only [hseg hsize]
  · rw [if_neg hsize, if_neg hsize]
    exact ⟨fun _ hsize' => absurd hsize' hsize, fun _ => rfl⟩

section Common

variable (h : Twin w w') (hs : w.Served e) (hs' : w'.Served e)
include h hs hs'

theorem sameOutcome_memRegister {a : GniMemRegisterArgs} (hreq : e.request = .memRegister a) :
    SameOutcome w w' e := by
  have hreply : ∀ v : World, v.reply e = replyMemRegister v.server e.serverEnv (e.sent a) := by
    intro v
    rw [World.reply, hreq]
  have hcommon := ioctlOn_common h.live' hs' (by rw [hreq]; trivial)
  have hret := ioctl_memRegister h.live hs hreq
  have hret' := ioctl_memRegister h.live' hs' hreq
  rw [← hcommon] at hret'
  have hdev' := (ioctl_served h.live' hs').device
  rw [← hcommon] at hdev'
  rw [sameOutcome_iff h hret hret' (ioctl_served h.live hs).device hdev', hreply, hreply]
  exact ⟨rfl, rfl⟩

theorem sameOutcome_cqCreate {a : GniCqCreateArgs} (hreq : e.request = .cqCreate a) :
    SameOutcome w w' e ↔ Alike w w' e := by
  have hreply : ∀ v : World, v.reply e = replyCqCreate v.server e.serverEnv
      { a with queue := listFindSegidByVaddr v.client.mt a.queue } := by
    intro v
    rw [World.reply, hreq]
  have hcommon := ioctlOn_common h.live' hs' (by rw [hreq]; trivial)
  have hret := ioctl_cqCreate h.live hs hreq
  have hret' := ioctl_cqCreate h.live' hs' hreq
  rw [← hcommon] at hret'
  have hdev' := (ioctl_served h.live' hs').device
  rw [← hcommon] at hdev'
  rw [sameOutcome_iff h hret hret' (ioctl_served h.live hs).device hdev', hreply, hreply, Alike,
    hreq]
  show _ ∧ [DeviceCall.cqCreate { a with queue := w'.translate a.queue }]
    = [DeviceCall.cqCreate { a with queue := w.translate a.queue }] ↔
      w'.translate a.queue = w.translate a.queue
  constructor
  · rintro ⟨-, hcall⟩
    injection hcall with hcall
    injection hcall with hargs
    exact congrArg GniCqCreateArgs.queue hargs
  · intro htr
    have hdata : (replyCqCreate w'.server e.serverEnv
        { a with queue := listFindSegidByVaddr w'.client.mt a.queue }).data
        = (replyCqCreate w.server e.serverEnv
          { a with queue := listFindSegidByVaddr w.client.mt a.queue }).data := by
      show GniCqCreateArgs.codec.encode (e.serverEnv (.ioctl (.cqCreate
        { a with queue := w'.translate a.queue }))).2 = _
      rw [htr]
      rfl
    rw [hdata, htr]
    exact ⟨rfl, rfl⟩

theorem sameOutcome_allgather {a : PmiAllgatherArgs} {inData outData : Bytes}
    (hreq : e.request = .allgather a inData outData) : SameOutcome w w' e ↔ Alike w w' e := by
  have hreply : ∀ v : World, v.reply e = replyAllgather v.server e.serverEnv (v.block a inData)
      ((e.serverEnv .mallocOut).getD fun _ => 0) := by
    intro v
    rw [World.reply, hreq]
  have hcommon := ioctlOn_common h.live' hs' (by rw [hreq]; trivial)
  have hret := ioctl_allgather h.live hs hreq
  have hret' := ioctl_allgather h.live' hs' hreq
  rw [← hcommon] at hret'
  have hdev' := (ioctl_served h.live' hs').device
  rw [← hcommon] at hdev'
  rw [sameOutcome_iff h hret hret' (ioctl_served h.live hs).device hdev', hreply, hreply, Alike,
    hreq]
  constructor
  · rintro ⟨hblank, -⟩
    injection hblank with _ hdata
    exact (gatherData_eq_iff _ _ a inData).mp hdata
  · intro hseg
    have hdata := (gatherData_eq_iff w.client w'.client a inData).mpr hseg
    -- the same block goes over, and the servers hold the same segments
    have hblock : w'.block a inData = w.block a inData := by
      rw [World.block, World.block, hdata]
    obtain ⟨nic, hserver⟩ := h.server
    refine ⟨?_, rfl⟩
    rw [hdata, hblock, h.commSize, hserver]
    rfl

end Common

theorem sameOutcome_postRdma {a : GniPostRdmaArgs} {desc : GniPostDescriptor} (h : Twin w w')
    (hs : w.Served e) (hs' : w'.Served e) (hreq : e.request = .postRdma a desc) :
    SameOutcome w w' e ↔ Alike w w' e := by
  have hret := ioctl_postRdma h.live hs hreq
  have hpost := ioctlOn_postRdma h.live' hs' hreq
  have hret' : (ioctlOn w' e).2 = some (.postRdma a
      { desc with localAddr := listFindSegidByVaddr w'.client.mt desc.localAddr }, 0) := by
    rw [hpost]
  have hdev' := deviceLog_postRdma h.live' hs' hreq
  rw [show (w'.ioctl e).1 = (ioctlOn w' e).1 by rw [hpost]] at hdev'
  rw [sameOutcome_iff h hret hret' (deviceLog_postRdma h.live hs hreq) hdev', Alike, hreq]
  constructor
  · rintro ⟨hblank, hcall⟩
    injection hblank with _ hdesc
    injection hcall with hcall
    injection hcall with _ hdesc'
    exact ⟨congrArg GniPostDescriptor.localAddr hdesc,
      congrArg GniPostDescriptor.localAddr hdesc'⟩
  · rintro ⟨hseg, htr⟩
    obtain ⟨nic, hserver⟩ := h.server
    rw [hseg, htr, hserver]
    exact ⟨rfl, rfl⟩

theorem sameOutcome_nicSetattr {a : GniNicSetattrArgs} (h : Twin w w') (hok : CallsSucceed e)
    (hs : w.Served e) (hreq : e.request = .nicSetattr a) :
    SameOutcome w w' e ↔ Alike w w' e := by
  have ha : ClientAttaches e.clientEnv := ⟨hok.clientGet, hok.clientAttach⟩
  have hreply : w.reply e = replyNicSetattr w.server e.serverEnv := by
    rw [World.reply, hreq]
  have hret := ioctl_nicSetattr h.live hs ha hreq
  have hdev := (ioctl_served h.live hs).device
  rw [hreply] at hret hdev
  obtain ⟨l, hio, hcall⟩ := ioctlOn_nicSetattr h.live' hok hreq
  have hret' := congrArg Prod.snd hio
  have hdev' : (ioctlOn w' e).1.deviceLog = w'.deviceLog ++ [.nicSetattr (nicAttr w'.server)] := by
    rw [hio, World.deviceLog, List.filterMap_append, hcall]
    rfl
  rw [sameOutcome_iff h hret hret' hdev hdev', Alike, hreq]
  have hdecode : GniNicSetattrArgs.codec.decode (replyNicSetattr w.server e.serverEnv).data
      = exportWindows e.serverEnv (nicResult w.server e.serverEnv) := Codec.decode_encode _ _
  rw [hdecode]
  show _ ∧ [DeviceCall.nicSetattr (nicAttr w'.server)]
    = [DeviceCall.nicSetattr (nicAttr w.server)] ↔ _
  constructor
  · rintro ⟨hblank, hcall⟩
    injection hcall with hcall
    injection hcall with hattr
    injection hblank with hargs
    injection hargs with _ _ hrank hmodes hnicPe hpad _ _ _ _ hcounter
    exact ⟨hattr, hrank.symm, hmodes.symm, hnicPe.symm, hpad.symm, hcounter.symm⟩
  · rintro ⟨hattr, hrank, hmodes, hnicPe, hpad, hcounter⟩
    have hresult : nicResult w'.server e.serverEnv = nicResult w.server e.serverEnv := by
      rw [nicResult, nicResult, hattr]
    refine ⟨?_, by rw [hattr]⟩
    rw [hresult]
    simp only [blank, withWindows, StaticLink.attachWindows, exportWindows, hrank, hmodes, hnicPe,
      hpad, hcounter]

theorem Shared.hasCase (h : Shared e.request) : e.HasCase := by
  rw [Event.HasCase]
  split
  next hreq => rwa [hreq] at h
  next hreq => rwa [hreq] at h
  next hreq => rwa [hreq] at h
  · trivial

/-- None of the requests sets `comm_size`. -/
theorem Shared.commSize {r : Request} (h : Shared r) (c : Client)
    (env : (o : ClientCall) → o.Ans) (ret : Bytes) :
    (clientAfter c env ret r).commSize = c.commSize := by
  cases r with
  | getsize k => exact h.elim
  | _ => rfl

/-- A request comes out the same exactly if it fits. -/
theorem sameOutcome_iff_alike (h : Twin w w') (hok : CallsSucceed e)
    (hshared : Shared e.request) : SameOutcome w w' e ↔ Alike w w' e := by
  have hs : w.Served e := hok.served hshared.hasCase
  have hs' : w'.Served e := hok.served hshared.hasCase
  cases hreq : e.request with
  | nicSetattr a => exact sameOutcome_nicSetattr h hok hs hreq
  | memRegister a =>
      refine iff_of_true (sameOutcome_memRegister h hs hs' hreq) ?_
      rw [Alike, hreq]
      trivial
  | cqCreate a => exact sameOutcome_cqCreate h hs hs' hreq
  | postRdma a desc => exact sameOutcome_postRdma h hs hs' hreq
  | allgather a inData outData => exact sameOutcome_allgather h hs hs' hreq
  | _ =>
      rw [hreq] at hshared
      exact hshared.elim

/-- A request that is no `NIC_SETATTR` leaves the preloaded system where it would
leave the static one. -/
theorem ioctlOn_fst (hl : w'.Live) (hok : CallsSucceed e) (hshared : Shared e.request)
    (hnic : ∀ a, e.request ≠ .nicSetattr a) : (ioctlOn w' e).1 = (w'.ioctl e).1 := by
  have hs' : w'.Served e := hok.served hshared.hasCase
  cases hreq : e.request with
  | nicSetattr a => exact absurd hreq (hnic a)
  | memRegister a => rw [ioctlOn_common hl hs' (by rw [hreq]; trivial)]
  | cqCreate a => rw [ioctlOn_common hl hs' (by rw [hreq]; trivial)]
  | postRdma a desc => rw [ioctlOn_postRdma hl hs' hreq]
  | allgather a inData outData => rw [ioctlOn_common hl hs' (by rw [hreq]; trivial)]
  | _ =>
      rw [hreq] at hshared
      exact hshared.elim

/-- Whatever a request that fits does to one server, it does to the other. -/
theorem Twin.reply_server (h : Twin w w') (hshared : Shared e.request)
    (hnic : ∀ a, e.request ≠ .nicSetattr a) (halike : Alike w w' e) :
    ∃ nic, (w'.reply e).server = { (w.reply e).server with nicSetAttr := nic } := by
  obtain ⟨nic, hserver⟩ := h.server
  obtain ⟨d, r, clientEnv, serverEnv⟩ := e
  cases r with
  | nicSetattr a => exact absurd rfl (hnic a)
  | memRegister a =>
      show ∃ nic, registered w'.server _ _ = { registered w.server _ _ with nicSetAttr := nic }
      rw [registered, registered, hserver]
      split
      · exact ⟨nic, rfl⟩
      · exact ⟨nic, rfl⟩
  | cqCreate a => exact ⟨nic, hserver⟩
  | allgather a inData outData =>
      refine ⟨nic, ?_⟩
      show { w'.server with gather := w'.server.gather.orLearnt serverEnv } = _
      rw [hserver]
      rfl
  | postRdma a desc =>
      -- the server keeps the descriptor with the address it found
      have htr : w'.translate desc.localAddr = w.translate desc.localAddr := halike.2
      refine ⟨nic, ?_⟩
      show { w'.server with
        postAttr := { a with postDesc := w'.server.postDescPtr }
        postDesc := { desc with localAddr := w'.translate desc.localAddr } } = _
      rw [htr, hserver]
      rfl
  | _ => exact hshared.elim

/-- After a request that came out the same they are twins again. -/
theorem Twin.ioctl (h : Twin w w') (hok : CallsSucceed e) (hshared : Shared e.request)
    (hsame : SameOutcome w w' e) : Twin (w.ioctl e).1 (ioctlOn w' e).1 := by
  have hs : w.Served e := hok.served hshared.hasCase
  have hs' : w'.Served e := hok.served hshared.hasCase
  have hc := ioctl_served h.live hs
  have hsize : (w.ioctl e).1.client.commSize = w.client.commSize := by
    rw [hc.client, hshared.commSize]
  by_cases hnic : ∃ a, e.request = .nicSetattr a
  · obtain ⟨a, hreq⟩ := hnic
    obtain ⟨nic, hserver⟩ := h.server
    obtain ⟨l, hio, -⟩ := ioctlOn_nicSetattr h.live' hok hreq
    refine ⟨hc.live, ?_, ⟨nicResult w'.server e.serverEnv, ?_⟩, ?_, hsame.device⟩
    · rw [hio]
      exact ⟨h.live'.running, h.live'.notWaiting⟩
    · rw [hio, hc.server, World.reply, hreq, hserver]
      rfl
    · rw [hio, hsize]
      exact h.commSize
  · have hno : ∀ a, e.request ≠ .nicSetattr a := fun a hreq => hnic ⟨a, hreq⟩
    have hfst := ioctlOn_fst h.live' hok hshared hno
    have hc' := ioctl_served h.live' hs'
    have hserver := h.reply_server hshared hno ((sameOutcome_iff_alike h hok hshared).mp hsame)
    refine ⟨hc.live, ?_, ?_, ?_, hsame.device⟩
    · rw [hfst]
      exact hc'.live
    · rw [hfst, hc.server, hc'.server]
      exact hserver
    · rw [hfst, hsize, hc'.client, hshared.commSize, h.commSize]

end Step

/-! ### Sequences -/

/-- Both systems right after they started, with the same outside. -/
structure Started (w w' : World) : Prop where
  static : w.Initial
  preloaded : w'.Initial
  server : w'.server = w.server
  commSize : w'.client.commSize = w.client.commSize

theorem Started.twin {w w' : World} (h : Started w w') : Twin w w' where
  live := h.static.live
  live' := h.preloaded.live
  server := ⟨w.server.nicSetAttr, h.server⟩
  commSize := h.commSize
  device := by rw [World.deviceLog, World.deviceLog, h.static.noLog, h.preloaded.noLog]

/-- A property of every place in a list: the first place, and those behind it. -/
theorem forall_places_cons {α : Type} {P : List α → α → Prop} {x : α} {l : List α} :
    (∀ fs e gs, x :: l = fs ++ e :: gs → P fs e) ↔
      P [] x ∧ ∀ fs e gs, l = fs ++ e :: gs → P (x :: fs) e := by
  constructor
  · intro h
    exact ⟨h [] x l rfl, fun fs e gs hl => h (x :: fs) e gs (by rw [hl]; rfl)⟩
  · rintro ⟨hhead, htail⟩ fs e gs hl
    rcases fs with - | ⟨y, fs⟩
    · obtain ⟨rfl, -⟩ := List.cons.inj hl
      exact hhead
    · obtain ⟨rfl, hrest⟩ := List.cons.inj hl
      exact htail fs e gs hrest

theorem sameOutcomes_iff {w w' : World} {es : List Event} (h : Twin w w')
    (hes : ∀ e ∈ es, Shared e.request ∧ CallsSucceed e) :
    (∀ fs e gs, es = fs ++ e :: gs → SameOutcome (w.run fs) (runOn w' fs) e) ↔
      ∀ fs e gs, es = fs ++ e :: gs → Alike (w.run fs) (runOn w' fs) e := by
  induction es generalizing w w' with
  | nil => exact iff_of_true (by simp) (by simp)
  | cons x es ih =>
      obtain ⟨hshared, hok⟩ := hes x List.mem_cons_self
      have hstep := sameOutcome_iff_alike h hok hshared
      have hnext := fun hsame => ih (h.ioctl hok hshared hsame)
        fun e he => hes e (List.mem_cons_of_mem _ he)
      rw [forall_places_cons, forall_places_cons]
      -- up to a request that comes out differently the two are twins
      constructor
      · rintro ⟨hsame, hrest⟩
        exact ⟨hstep.mp hsame, (hnext hsame).mp hrest⟩
      · rintro ⟨halike, hrest⟩
        have hsame := hstep.mpr halike
        exact ⟨hsame, (hnext hsame).mpr hrest⟩

/-- **Interchangeability.**  Over any sequence of the shared requests the two systems
do the same after every request exactly if each one fits the states it meets. -/
theorem interchangeable_iff {w w' : World} {es : List Event} (hw : Started w w')
    (hes : ∀ e ∈ es, Shared e.request ∧ CallsSucceed e) :
    (∀ fs e gs, es = fs ++ e :: gs → SameOutcome (w.run fs) (runOn w' fs) e) ↔
      ∀ fs e gs, es = fs ++ e :: gs → Alike (w.run fs) (runOn w' fs) e :=
  sameOutcomes_iff hw.twin hes

theorem started_fresh : Started freshWorld freshWorld :=
  ⟨freshWorld_initial, freshWorld_initial, rfl, rfl⟩

/-- Attributes with the rank the server will set, a buffer away from the windows,
and a queue in it. -/
def plainRequests : List Event :=
  [calmEvent (.nicSetattr { (default : GniNicSetattrArgs) with rank := 9 }),
    calmEvent (.memRegister { (default : GniMemRegisterArgs) with
      segmentsCnt := 1, address := 0x80000000, length := 0x1000 }),
    calmEvent (.cqCreate { (default : GniCqCreateArgs) with queue := 0x80000100 })]

theorem interchangeable_plainRequests : Started freshWorld freshWorld ∧
    ∀ fs e gs, plainRequests = fs ++ e :: gs →
      SameOutcome (freshWorld.run fs) (runOn freshWorld fs) e := by
  refine ⟨started_fresh, (interchangeable_iff started_fresh ?_).mpr ?_⟩
  · intro e he
    simp only [plainRequests, List.mem_cons, List.not_mem_nil, or_false] at he
    rcases he with rfl | rfl | rfl <;> exact ⟨trivial, callsSucceed_calm _ _ _ (by decide)⟩
  · rw [plainRequests, forall_places_cons, forall_places_cons, forall_places_cons]
    have hqueue : World.translate (runOn freshWorld (plainRequests.take 2)) 0x80000100
        = (freshWorld.run (plainRequests.take 2)).translate 0x80000100 := by
      decide +kernel
    exact ⟨⟨rfl, rfl, rfl, rfl, rfl, rfl⟩, trivial, hqueue, by simp⟩

/-- The preloaded client copies eight bytes of the attributes, and leaves the segment
id in a posted descriptor. -/
theorem interchangeable_fails :
    ¬ SameOutcome freshWorld freshWorld (calmEvent (.nicSetattr default)) ∧
      ¬ SameOutcome (freshWorld.run [registerEvent 5 0x80000000 0x1000 0x20000])
        (runOn freshWorld [registerEvent 5 0x80000000 0x1000 0x20000])
        (calmEvent (.postRdma default
          { (default : GniPostDescriptor) with localAddr := 0x80000000 })) := by
  have hok : ∀ r, CallsSucceed (calmEvent r) := fun r => callsSucceed_calm _ r _ (by decide)
  constructor
  · rw [sameOutcome_iff_alike started_fresh.twin (hok (.nicSetattr default)) trivial]
    rintro ⟨-, hrest⟩
    exact absurd hrest.rank (by decide)
  · have hreg : CallsSucceed (registerEvent 5 0x80000000 0x1000 0x20000) :=
      callsSucceed_calm _ _ _ (by decide)
    have htwin := started_fresh.twin.ioctl hreg trivial
      ((sameOutcome_iff_alike started_fresh.twin hreg trivial).mpr trivial)
    rw [show freshWorld.run [registerEvent 5 0x80000000 0x1000 0x20000]
        = (freshWorld.ioctl (registerEvent 5 0x80000000 0x1000 0x20000)).1 from rfl,
      show runOn freshWorld [registerEvent 5 0x80000000 0x1000 0x20000]
        = (ioctlOn freshWorld (registerEvent 5 0x80000000 0x1000 0x20000)).1 from rfl,
      sameOutcome_iff_alike htwin (hok (.postRdma _ _)) trivial]
    rintro ⟨hseg, -⟩
    have hfound : listFindSegidByVaddr
        (ioctlOn freshWorld (registerEvent 5 0x80000000 0x1000 0x20000)).1.client.mt 0x80000000
        = 5 := rfl
    exact absurd (hfound.symm.trans hseg) (by decide)

end Nvl.Preload

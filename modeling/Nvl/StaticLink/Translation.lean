/-
Nvl/StaticLink/Translation.lean

What becomes of an address on its way from the application to the device.

Seen from outside, the proxy keeps one table of registrations: a segment with
the range the client registered and the place where the server attached it.
The two processes each hold half of it, and `Agree` says that their lists are
the two projections of the table.  `agree_run` is the simulation: over any run
of plain requests both lists follow the table `registrations es`.

A translation is then a lookup in the table, and everything about it is a
question about the *first* registration that covers an address
(`translate_of_find?`).  The server returns the start of its attachment, so an
address in the middle of a range comes out as the start of the other one.
-/
import Nvl.StaticLink.Replies

namespace Nvl.StaticLink

open SysLib

/-! ### The table of registrations -/

/-- One registered buffer, as both processes know it. -/
structure Registration where
  segid : UInt64
  clientAddr : UInt64
  serverAddr : UInt64
  length : UInt64
  memHndl : GniMemHandle

namespace Registration

variable (r : Registration)

/-- The client's half. -/
def clientSeg : XpmemSeg := ⟨r.segid, r.clientAddr, r.length⟩

/-- The server's half. -/
def serverSeg : XpmemSeg := ⟨r.segid, r.serverAddr, r.length⟩

def clientRange : Set ℕ := addrRange r.clientAddr r.length

def serverRange : Set ℕ := addrRange r.serverAddr r.length

end Registration

/-- The registration a request makes: the segment `xemem_make` returns for the
client's range, where `xemem_attach` puts it, and the handle of the device. -/
def Event.registration (e : Event) : Option Registration :=
  match e.request with
  | .memRegister a =>
      some {
        segid := (e.sent a).address
        clientAddr := a.address
        serverAddr := attached e.serverEnv (e.sent a)
        length := a.length
        memHndl := (e.serverEnv (.ioctl (.memRegister
          (StaticLink.registration e.serverEnv (e.sent a))))).2.memHndl }
  | _ => none

/-- The table after a run. -/
def registrations (es : List Event) : List Registration := es.filterMap Event.registration

/-- Every call on the outside succeeds, on both sides. -/
structure CallsSucceed (e : Event) : Prop extends DevicesSucceed e where
  clientMalloc : e.clientEnv .malloc = true
  clientGet : ∀ k segid, 0 < e.clientEnv (.xememGet k segid)
  clientAttach : ∀ k apid size, e.clientEnv (.xememAttachNocache k apid size) ≠ 0
  select : e.serverEnv .select ≠ -1
  malloc : ∀ site, e.serverEnv (.malloc site) = true
  mallocOut : (e.serverEnv .mallocOut).isSome = true
  xememGet : ∀ segid, 0 < e.serverEnv (.xememGet segid)
  xememAttach : ∀ apid size, e.serverEnv (.xememAttach apid size) ≠ mapFailed

/-- The requests that make up a program's communication, registrations in their
unsegmented form. -/
def Event.Plain (e : Event) : Prop :=
  match e.request with
  | .memRegister a => a.segmentsCnt = 1
  | .cqCreate _ => True
  | .postRdma _ _ => True
  | .nicSetattr _ => True
  | .nicFmaConfig _ => True
  | .allgather _ _ _ => True
  | .getsize _ => True
  | .getrank _ => True
  | _ => False

/-- The server's `switch` has a case for the request, or it is not forwarded. -/
def Event.HasCase (e : Event) : Prop :=
  match e.request with
  | .cqWaitEvent _ => False
  | .cqDestroy _ => False
  | .barrier => False
  | _ => True

/-- A plain request on which every call succeeds. -/
structure Smooth (e : Event) : Prop where
  plain : e.Plain
  ok : CallsSucceed e

/-! ### The two lists follow the table -/

/-- The lists are the two projections of a table. -/
structure Agree (w : World) (regs : List Registration) : Prop where
  client : w.client.mt = regs.map Registration.clientSeg
  server : w.server.mt = regs.map Registration.serverSeg

variable {w : World} {e : Event} {es : List Event} {regs : List Registration}

theorem CallsSucceed.served (hok : CallsSucceed e) (hcase : e.HasCase) : w.Served e := by
  rw [served_iff_answerable hok.toDevicesSucceed, World.Answerable]
  rw [Event.HasCase] at hcase
  cases hreq : e.request with
  | printed code => trivial
  | cqWaitEvent a =>
      rw [hreq] at hcase
      exact hcase.elim
  | cqDestroy a =>
      rw [hreq] at hcase
      exact hcase.elim
  | barrier =>
      rw [hreq] at hcase
      exact hcase.elim
  | memRegister a => exact ⟨hok.select, fun _ => ⟨hok.xememGet _, hok.xememAttach _ _⟩⟩
  | allgather a inData outData =>
      exact ⟨hok.select, hok.mallocOut, fun _ => hok.malloc _, hok.malloc _⟩
  | _ => exact hok.select

theorem Event.Plain.hasCase (h : e.Plain) : e.HasCase := by
  rw [Event.Plain] at h
  rw [Event.HasCase]
  split at h <;> simp_all

theorem Smooth.served (h : Smooth e) : w.Served e := h.ok.served h.plain.hasCase

/-- One request: both lists get the entry of its registration, if it has one. -/
theorem Agree.ioctl (h : Agree w regs) (hl : w.Live) (he : Smooth e) :
    Agree (w.ioctl e).1 (regs ++ e.registration.toList) := by
  have hc := ioctl_served hl he.served
  obtain ⟨hplain, hok⟩ := he
  have hmalloc := hok.clientMalloc
  have hnode := hok.malloc .listNode
  constructor
  · rw [hc.client]
    obtain ⟨d, r, clientEnv, serverEnv⟩ := e
    cases r with
    | memRegister a =>
        -- the entry keeps the caller's address; only the command carries the segment id
        show listAddElement w.client.mt (clientEnv .malloc) _ _ _ = _
        rw [show clientEnv .malloc = true from hmalloc, listAddElement_true, h.client]
        rw [List.map_append]
        rfl
    | _ =>
        show w.client.mt = (regs ++ []).map Registration.clientSeg
        rw [List.append_nil]
        exact h.client
  · rw [hc.server]
    obtain ⟨d, r, clientEnv, serverEnv⟩ := e
    cases r with
    | memRegister a =>
        have hone : (Event.sent ⟨d, .memRegister a, clientEnv, serverEnv⟩ a).segmentsCnt = 1 :=
          hplain
        show (registered w.server serverEnv _).mt = _
        rw [registered, if_pos hone]
        show listAddElement w.server.mt (serverEnv (.malloc .listNode)) _ _ _ = _
        rw [show serverEnv (.malloc .listNode) = true from hnode, listAddElement_true, h.server]
        rw [List.map_append]
        rfl
    | _ =>
        show w.server.mt = (regs ++ []).map Registration.serverSeg
        rw [List.append_nil]
        exact h.server

theorem agree_run_of (h : Agree w regs) (hl : w.Live) (hes : ∀ e ∈ es, Smooth e) :
    Agree (w.run es) (regs ++ registrations es) ∧ (w.run es).Live := by
  induction es generalizing w regs with
  | nil =>
      rw [registrations, List.filterMap_nil, List.append_nil]
      exact ⟨h, hl⟩
  | cons e es ih =>
      have he := hes e List.mem_cons_self
      have hrest : ∀ e' ∈ es, Smooth e' := fun e' he' => hes e' (List.mem_cons_of_mem _ he')
      have hstep := ih (h.ioctl hl he) (ioctl_served hl he.served).live hrest
      have htable : registrations (e :: es) = e.registration.toList ++ registrations es := by
        rcases hr : e.registration with - | r <;> simp [registrations, hr]
      rw [htable, ← List.append_assoc]
      exact hstep

/-- **Simulation**: over a run of smooth requests the two lists are the
projections of the table, and the system stays up. -/
theorem agree_run (hw : w.Initial) (hes : ∀ e ∈ es, Smooth e) :
    Agree (w.run es) (registrations es) ∧ (w.run es).Live := by
  have hempty : Agree w [] := ⟨hw.clientList, hw.serverList⟩
  exact agree_run_of hempty hw.live hes

/-! ### Translation -/

/-- Client lookup, then server lookup. -/
def World.translate (w : World) (addr : UInt64) : UInt64 :=
  listFindVaddrBySegid w.server.mt (listFindSegidByVaddr w.client.mt addr)

/-- An address goes to the attachment of the first registration that covers
it: to its start. -/
theorem translate_of_find? {addr : UInt64} {q : Registration} (h : Agree w regs)
    (hseg : regs.Pairwise fun r s => r.segid ≠ s.segid)
    (hq : (regs.find? fun r => r.clientSeg.covers addr) = some q) :
    w.translate addr = q.serverAddr := by
  have hclient : listFindSegidByVaddr w.client.mt addr = q.segid := by
    rw [h.client]
    -- the client's list is the table seen from its side, so the search is one in the table
    refine listFindSegidByVaddr_of_find? (p := q.clientSeg) ?_
    rw [List.find?_map]
    exact congrArg (Option.map Registration.clientSeg) hq
  have hserver : listFindVaddrBySegid w.server.mt q.segid = q.serverAddr := by
    rw [h.server]
    refine listFindVaddrBySegid_of_find? (p := q.serverSeg) ?_
    rw [List.find?_map]
    exact congrArg (Option.map Registration.serverSeg)
      (find?_key hseg (List.mem_of_find?_eq_some hq))
  rw [World.translate, hclient, hserver]

theorem deviceLog_postRdma {a : GniPostRdmaArgs} {desc : GniPostDescriptor} (hl : w.Live)
    (hs : w.Served e) (hreq : e.request = .postRdma a desc) :
    (w.ioctl e).1.deviceLog = w.deviceLog ++
      [.postRdma { a with postDesc := w.server.postDescPtr }
        { desc with localAddr := w.translate desc.localAddr }] := by
  rw [(ioctl_served hl hs).device, World.reply, hreq]
  rfl

theorem deviceLog_cqCreate {a : GniCqCreateArgs} (hl : w.Live) (hs : w.Served e)
    (hreq : e.request = .cqCreate a) :
    (w.ioctl e).1.deviceLog = w.deviceLog ++
      [.cqCreate { a with queue := w.translate a.queue }] := by
  rw [(ioctl_served hl hs).device, World.reply, hreq]
  rfl

/-- What `xemem_make` promises of the ranges it accepts. -/
def Exported (regs : List Registration) : Prop :=
  ∀ r ∈ regs, Exportable r.clientAddr r.length

/-- Segment ids differ and the client's ranges do not overlap. -/
structure Apart (regs : List Registration) : Prop where
  segids : regs.Pairwise fun r s => r.segid ≠ s.segid
  ranges : regs.Pairwise fun r s => Disjoint r.clientRange s.clientRange

theorem covers_iff_mem (hx : Exported regs) {r : Registration} (hr : r ∈ regs) (addr : UInt64) :
    r.clientSeg.covers addr = true ↔ addr.toNat ∈ r.clientRange :=
  XpmemSeg.covers_iff (p := r.clientSeg) (hx r hr) addr

/-- In disjoint ranges an address is found in the range it belongs to. -/
theorem translate_of_mem {addr : UInt64} {r : Registration} (h : Agree w regs)
    (hx : Exported regs) (hapart : Apart regs) (hr : r ∈ regs)
    (haddr : addr.toNat ∈ r.clientRange) : w.translate addr = r.serverAddr := by
  refine translate_of_find? h hapart.segids ?_
  exact find?_range hapart.ranges (fun s hs => covers_iff_mem hx hs addr) hr haddr

theorem start_mem_clientRange (hx : Exported regs) {r : Registration} (hr : r ∈ regs) :
    r.clientAddr.toNat ∈ r.clientRange :=
  ⟨le_rfl, Nat.lt_add_of_pos_right (hx r hr).nonempty⟩

/-! ### Two registrations, for evaluation -/

/-- Register `[addr, addr + len)` as segment `segid`, attached at `attach`; the
handle is the segment id. -/
def registerEvent (segid addr len attach : UInt64) : Event where
  device := .kgni
  request := .memRegister { (default : GniMemRegisterArgs) with
    segmentsCnt := 1, address := addr, length := len, memHndl := ⟨segid, 0⟩ }
  clientEnv := calmClient segid
  serverEnv := calmServer attach 0

/-- Post from `addr` under the handle of segment `segid`. -/
def postEvent (segid addr : UInt64) : Event :=
  calmEvent (.postRdma default
    { (default : GniPostDescriptor) with localAddr := addr, localMemHndl := ⟨segid, 0⟩ })

theorem callsSucceed_calm (d : Device) (r : Request) (segid : UInt64) {attach : UInt64}
    (h : attach ≠ mapFailed) : CallsSucceed ⟨d, r, calmClient segid, calmServer attach 0⟩ where
  ioctl := fun _ => le_rfl
  pmiGetSize := rfl
  pmiGetRank := rfl
  pmiAllgather := fun _ _ _ => rfl
  clientMalloc := rfl
  clientGet := fun _ _ => Int.one_pos
  clientAttach := fun _ _ _ => show (0x1000 : UInt64) ≠ 0 by decide
  select := show (1 : Int) ≠ -1 by decide
  malloc := fun _ => rfl
  mallocOut := rfl
  xememGet := fun _ => Int.one_pos
  xememAttach := fun _ _ => h

theorem smooth_register (segid addr len : UInt64) {attach : UInt64} (h : attach ≠ mapFailed) :
    Smooth (registerEvent segid addr len attach) := ⟨rfl, callsSucceed_calm _ _ _ h⟩

theorem smooth_post (segid addr : UInt64) : Smooth (postEvent segid addr) :=
  ⟨trivial, callsSucceed_calm _ _ _ (by decide)⟩

/-- Two buffers side by side. -/
def twoBuffers : List Event :=
  [registerEvent 5 0x1000 0x100 0x20000, registerEvent 6 0x1100 0x100 0x30000]

theorem smooth_twoBuffers : ∀ e ∈ twoBuffers, Smooth e := by
  intro e he
  simp only [twoBuffers, List.mem_cons, List.not_mem_nil, or_false] at he
  rcases he with rfl | rfl <;> exact smooth_register _ _ _ (by decide)

theorem registrations_twoBuffers : registrations twoBuffers
    = [⟨5, 0x1000, 0x20000, 0x100, ⟨5, 0⟩⟩, ⟨6, 0x1100, 0x30000, 0x100, ⟨6, 0⟩⟩] := rfl

theorem exported_twoBuffers : Exported (registrations twoBuffers) := by
  intro r hr
  rw [registrations_twoBuffers] at hr
  simp only [List.mem_cons, List.not_mem_nil, or_false] at hr
  rcases hr with rfl | rfl <;> exact ⟨by decide, by decide⟩

theorem apart_twoBuffers : Apart (registrations twoBuffers) := by
  rw [registrations_twoBuffers]
  refine ⟨by simp, ?_⟩
  simp [Registration.clientRange, addrRange, Set.Ico_disjoint_Ico]

/-! ### The lists agree -/

/-- The two lists, compared entry by entry, and against the table. -/
structure ListsAgree (w : World) (regs : List Registration) : Prop extends Agree w regs where
  sameLength : w.client.mt.length = w.server.mt.length
  samePlaces : ∀ (k : Nat) (c s : XpmemSeg), w.client.mt[k]? = some c →
    w.server.mt[k]? = some s → c.segid = s.segid ∧ c.length = s.length

theorem Agree.listsAgree (h : Agree w regs) : ListsAgree w regs := by
  refine ⟨h, ?_, ?_⟩
  · rw [h.client, h.server, List.length_map, List.length_map]
  · intro k c s hc hs
    rw [h.client, List.getElem?_map] at hc
    rw [h.server, List.getElem?_map] at hs
    obtain ⟨r, hr, rfl⟩ := Option.map_eq_some_iff.mp hc
    rw [hr] at hs
    obtain rfl := Option.some.inj hs
    exact ⟨rfl, rfl⟩

/-- The device sees the queue of a `CQ_CREATE` and the `local_addr` of a post
at `addr`. -/
structure DeviceSees (w : World) (e : Event) (addr : UInt64) : Prop where
  cqCreate : ∀ a, e.request = .cqCreate a →
    (w.ioctl e).1.deviceLog = w.deviceLog ++ [.cqCreate { a with queue := addr }]
  postRdma : ∀ a desc, e.request = .postRdma a desc → ∃ a',
    (w.ioctl e).1.deviceLog = w.deviceLog ++ [.postRdma a' { desc with localAddr := addr }]

/-- The address a request hands to the proxy for translation. -/
def Event.address (e : Event) : Option UInt64 :=
  match e.request with
  | .cqCreate a => some a.queue
  | .postRdma _ desc => some desc.localAddr
  | _ => none

theorem deviceSees_translate {addr : UInt64} (hl : w.Live) (hs : w.Served e)
    (haddr : e.address = some addr) : DeviceSees w e (w.translate addr) := by
  constructor
  · intro a hreq
    rw [Event.address, hreq] at haddr
    obtain rfl := Option.some.inj haddr
    exact deviceLog_cqCreate hl hs hreq
  · intro a desc hreq
    rw [Event.address, hreq] at haddr
    obtain rfl := Option.some.inj haddr
    exact ⟨_, deviceLog_postRdma hl hs hreq⟩

/-- **The two lists agree** after every request of a run of smooth requests,
which all return; and a queue or `local_addr` at the start of a registered range
reaches the device as the start of that registration's attachment. -/
theorem listsAgree_run (hw : w.Initial) (hes : ∀ e ∈ es, Smooth e) :
    (∀ fs, fs <+: es → (w.run fs).waiting = none ∧ ListsAgree (w.run fs) (registrations fs)) ∧
    ∀ fs e, fs ++ [e] <+: es → Exported (registrations fs) → Apart (registrations fs) →
      ∀ r ∈ registrations fs, e.address = some r.clientAddr →
        DeviceSees (w.run fs) e r.serverAddr := by
  have hsmooth : ∀ fs, fs <+: es → ∀ e ∈ fs, Smooth e := fun fs hfs e he => hes e (hfs.mem he)
  constructor
  · intro fs hfs
    obtain ⟨hagree, hlive⟩ := agree_run hw (hsmooth fs hfs)
    exact ⟨hlive.notWaiting, hagree.listsAgree⟩
  · intro fs e hfs hx hapart r hr haddr
    have hpre : fs <+: es := (List.prefix_append fs [e]).trans hfs
    obtain ⟨hagree, hlive⟩ := agree_run hw (hsmooth fs hpre)
    have he : Smooth e := hsmooth _ hfs e (by simp)
    rw [← translate_of_mem hagree hx hapart hr (start_mem_clientRange hx hr)]
    exact deviceSees_translate hlive he.served haddr

theorem listsAgree_twoBuffers :
    (∀ fs, fs <+: twoBuffers ++ [postEvent 6 0x1100] →
      (freshWorld.run fs).waiting = none ∧ ListsAgree (freshWorld.run fs) (registrations fs)) ∧
    DeviceSees (freshWorld.run twoBuffers) (postEvent 6 0x1100) 0x30000 := by
  have hes : ∀ e ∈ twoBuffers ++ [postEvent 6 0x1100], Smooth e := by
    intro e he
    rcases List.mem_append.mp he with he' | he'
    · exact smooth_twoBuffers e he'
    · rw [List.mem_singleton.mp he']
      exact smooth_post _ _
  obtain ⟨hlists, hsees⟩ := listsAgree_run freshWorld_initial hes
  refine ⟨hlists, ?_⟩
  exact hsees twoBuffers _ List.prefix_rfl exported_twoBuffers apart_twoBuffers
    ⟨6, 0x1100, 0x30000, 0x100, ⟨6, 0⟩⟩ (by simp [registrations_twoBuffers]) rfl

/-! ### Addresses inside a range -/

/-- The `local_addr` the device is shown by a post. -/
def PostedAt (w : World) (e : Event) (addr : UInt64) : Prop :=
  ∃ a desc, (w.ioctl e).1.deviceLog = w.deviceLog ++ [.postRdma a desc] ∧ desc.localAddr = addr

theorem postedAt_iff {a : GniPostRdmaArgs} {desc : GniPostDescriptor} {addr : UInt64}
    (hl : w.Live) (hs : w.Served e) (hreq : e.request = .postRdma a desc) :
    PostedAt w e addr ↔ w.translate desc.localAddr = addr := by
  have hlog := deviceLog_postRdma hl hs hreq
  constructor
  · rintro ⟨a', desc', hlog', rfl⟩
    rw [hlog] at hlog'
    have hcall := List.append_cancel_left hlog'
    simp only [List.cons.injEq, DeviceCall.postRdma.injEq, and_true] at hcall
    rw [← hcall.2]
  · rintro rfl
    exact ⟨_, _, hlog, rfl⟩

/-- **Interior addresses lose their offset.**  A post at offset `off` of a
registered range reaches the device at that offset of the attachment exactly
when `off` is 0. -/
theorem postedAt_interior_iff {a : GniPostRdmaArgs} {desc : GniPostDescriptor} {r : Registration}
    {off : UInt64} (hw : w.Initial) (hes : ∀ e ∈ es, Smooth e)
    (hx : Exported (registrations es)) (hapart : Apart (registrations es))
    (he : Smooth e) (hreq : e.request = .postRdma a desc) (hr : r ∈ registrations es)
    (hoff : off.toNat < r.length.toNat) (haddr : desc.localAddr = r.clientAddr + off) :
    PostedAt (w.run es) e (r.serverAddr + off) ↔ off = 0 := by
  obtain ⟨hagree, hlive⟩ := agree_run hw hes
  -- the posted address lies in the range of `r`, so the lookup goes to `r`
  have hnowrap := (hx r hr).noWrap
  have hsum : desc.localAddr.toNat = r.clientAddr.toNat + off.toNat := by
    rw [haddr, UInt64.toNat_add]
    exact Nat.mod_eq_of_lt (by omega)
  have hmem : desc.localAddr.toNat ∈ r.clientRange := by
    rw [hsum]
    exact ⟨Nat.le_add_right _ _, Nat.add_lt_add_left hoff _⟩
  rw [postedAt_iff hlive he.served hreq, translate_of_mem hagree hx hapart hr hmem]
  exact UInt64.left_eq_add

theorem postedAt_postEvent_iff (hl : w.Live) (segid addr target : UInt64) :
    PostedAt w (postEvent segid addr) target ↔ w.translate addr = target :=
  postedAt_iff hl (smooth_post segid addr).served rfl

theorem postedAt_start_of_second :
    PostedAt (freshWorld.run twoBuffers) (postEvent 6 0x1100) (0x30000 + 0) := by
  have hr : ⟨6, 0x1100, 0x30000, 0x100, ⟨6, 0⟩⟩ ∈ registrations twoBuffers := by
    simp [registrations_twoBuffers]
  have hoff : (0 : UInt64).toNat < (0x100 : UInt64).toNat := by decide
  have hiff := postedAt_interior_iff freshWorld_initial smooth_twoBuffers exported_twoBuffers
    apart_twoBuffers (smooth_post 6 0x1100) rfl hr hoff rfl
  exact hiff.mpr rfl

/-- A post from byte 16 of the second buffer goes out from its byte 0. -/
theorem postedAt_interior_fails :
    freshWorld.Initial ∧ (∀ e ∈ twoBuffers, Smooth e) ∧ Exported (registrations twoBuffers) ∧
      Apart (registrations twoBuffers) ∧ Smooth (postEvent 6 (0x1100 + 16)) ∧
      PostedAt (freshWorld.run twoBuffers) (postEvent 6 (0x1100 + 16)) 0x30000 ∧
      ¬ PostedAt (freshWorld.run twoBuffers) (postEvent 6 (0x1100 + 16)) (0x30000 + 16) := by
  have hlive := (agree_run freshWorld_initial smooth_twoBuffers).2
  have htr : (freshWorld.run twoBuffers).translate (0x1100 + 16) = 0x30000 := by decide
  refine ⟨freshWorld_initial, smooth_twoBuffers, exported_twoBuffers, apart_twoBuffers,
    smooth_post _ _, (postedAt_postEvent_iff hlive _ _ _).mpr htr, ?_⟩
  rw [postedAt_postEvent_iff hlive, htr]
  decide

/-! ### Overlapping registrations -/

/-- A post shows the device the handle of registration `r` together with an
address inside the attachment of `r`. -/
def PostPaired (w : World) (e : Event) (r : Registration) : Prop :=
  ∃ a desc, (w.ioctl e).1.deviceLog = w.deviceLog ++ [.postRdma a desc] ∧
    desc.localMemHndl = r.memHndl ∧ desc.localAddr.toNat ∈ r.serverRange

theorem postPaired_iff {a : GniPostRdmaArgs} {desc : GniPostDescriptor} {r : Registration}
    (hl : w.Live) (hs : w.Served e) (hreq : e.request = .postRdma a desc)
    (hhndl : desc.localMemHndl = r.memHndl) :
    PostPaired w e r ↔ (w.translate desc.localAddr).toNat ∈ r.serverRange := by
  have hlog := deviceLog_postRdma hl hs hreq
  constructor
  · rintro ⟨a', desc', hlog', -, hmem⟩
    have hposted : PostedAt w e desc'.localAddr := ⟨a', desc', hlog', rfl⟩
    rwa [(postedAt_iff hl hs hreq).mp hposted]
  · intro hmem
    exact ⟨_, _, hlog, hhndl, hmem⟩

/-- **Handle and address stay paired** exactly as long as no older registration
covers the posted address. -/
theorem postPaired_iff_no_older {a : GniPostRdmaArgs} {desc : GniPostDescriptor}
    {r : Registration} {k : Nat} (hw : w.Initial) (hes : ∀ e ∈ es, Smooth e)
    (hx : Exported (registrations es))
    (hseg : (registrations es).Pairwise fun q s => q.segid ≠ s.segid)
    (hmaps : (registrations es).Pairwise fun q s => Disjoint q.serverRange s.serverRange)
    (he : Smooth e) (hreq : e.request = .postRdma a desc)
    (hk : (registrations es)[k]? = some r) (hhndl : desc.localMemHndl = r.memHndl)
    (haddr : desc.localAddr.toNat ∈ r.clientRange) :
    PostPaired (w.run es) e r ↔
      ∀ j < k, ∀ q, (registrations es)[j]? = some q → desc.localAddr.toNat ∉ q.clientRange := by
  obtain ⟨hagree, hlive⟩ := agree_run hw hes
  have hr := List.mem_of_getElem? hk
  have hcov := fun q hq => covers_iff_mem (r := q) hx hq desc.localAddr
  have hstart : ∀ q ∈ registrations es, q.serverAddr.toNat ∈ q.serverRange := fun q hq =>
    ⟨le_rfl, Nat.lt_add_of_pos_right (hx q hq).nonempty⟩
  -- the lookup stops at the first registration that covers the address
  obtain ⟨i, q, hik, hq, hqcov, hfind, hbefore⟩ := find?_first
    (p := fun q => q.clientSeg.covers desc.localAddr) hk ((hcov r hr).mpr haddr)
  have hqmem := List.mem_of_getElem? hq
  rw [postPaired_iff hlive he.served hreq hhndl, translate_of_find? hagree hseg hfind]
  constructor
  · -- an older one would be found instead, and its attachment is elsewhere
    intro hin j hj s hs hcover
    have hij : i ≤ j := by
      by_contra hlt
      have hno := hbefore j (not_le.mp hlt) s hs
      rw [(hcov s (List.mem_of_getElem? hs)).mpr hcover] at hno
      cases hno
    obtain ⟨hi, rfl⟩ := List.getElem?_eq_some_iff.mp hq
    obtain ⟨hk', rfl⟩ := List.getElem?_eq_some_iff.mp hk
    have hdisj := List.pairwise_iff_getElem.mp hmaps i k hi hk' (lt_of_le_of_lt hij hj)
    exact Set.disjoint_left.mp hdisj (hstart _ hqmem) hin
  · intro hnone
    rcases Nat.lt_or_eq_of_le hik with hlt | rfl
    · exact absurd ((hcov q hqmem).mp hqcov) (hnone i hlt q hq)
    · obtain rfl := Option.some.inj (hk.symm.trans hq)
      exact hstart r hr

theorem postPaired_second_buffer : PostPaired (freshWorld.run twoBuffers) (postEvent 6 0x1180)
    ⟨6, 0x1100, 0x30000, 0x100, ⟨6, 0⟩⟩ := by
  have hmaps : (registrations twoBuffers).Pairwise
      fun q s => Disjoint q.serverRange s.serverRange := by
    rw [registrations_twoBuffers]
    simp [Registration.serverRange, addrRange, Set.Ico_disjoint_Ico]
  refine (postPaired_iff_no_older (k := 1) freshWorld_initial smooth_twoBuffers
    exported_twoBuffers apart_twoBuffers.segids hmaps (smooth_post _ _) rfl rfl rfl ?_).mpr ?_
  · exact ⟨by decide, by decide⟩
  · intro j hj q hq hmem
    obtain rfl : j = 0 := Nat.lt_one_iff.mp hj
    obtain rfl := Option.some.inj hq
    exact absurd hmem.2 (by decide)

/-- The same buffer, registered twice. -/
def sameBuffer : List Event :=
  [registerEvent 5 0x1000 0x100 0x20000, registerEvent 6 0x1000 0x100 0x30000]

theorem registrations_sameBuffer : registrations sameBuffer
    = [⟨5, 0x1000, 0x20000, 0x100, ⟨5, 0⟩⟩, ⟨6, 0x1000, 0x30000, 0x100, ⟨6, 0⟩⟩] := rfl

/-- A post under the second handle goes out from the first attachment. -/
theorem postPaired_sameBuffer_fails :
    freshWorld.Initial ∧ (∀ e ∈ sameBuffer, Smooth e) ∧ Exported (registrations sameBuffer) ∧
      ((registrations sameBuffer).Pairwise fun q s => q.segid ≠ s.segid) ∧
      ((registrations sameBuffer).Pairwise fun q s => Disjoint q.serverRange s.serverRange) ∧
      PostedAt (freshWorld.run sameBuffer) (postEvent 6 0x1000) 0x20000 ∧
      ¬ PostPaired (freshWorld.run sameBuffer) (postEvent 6 0x1000)
        ⟨6, 0x1000, 0x30000, 0x100, ⟨6, 0⟩⟩ := by
  have hes : ∀ e ∈ sameBuffer, Smooth e := by
    intro e he
    simp only [sameBuffer, List.mem_cons, List.not_mem_nil, or_false] at he
    rcases he with rfl | rfl <;> exact smooth_register _ _ _ (by decide)
  have hlive := (agree_run freshWorld_initial hes).2
  have htr : (freshWorld.run sameBuffer).translate 0x1000 = 0x20000 := by decide
  refine ⟨freshWorld_initial, hes, ?_, ?_, ?_, ?_, ?_⟩
  · intro r hr
    rw [registrations_sameBuffer] at hr
    simp only [List.mem_cons, List.not_mem_nil, or_false] at hr
    rcases hr with rfl | rfl <;> exact ⟨by decide, by decide⟩
  · simp [registrations_sameBuffer]
  · simp [registrations_sameBuffer, Registration.serverRange, addrRange, Set.Ico_disjoint_Ico]
  · exact (postedAt_postEvent_iff hlive _ _ _).mpr htr
  · rintro ⟨a, desc, hlog, -, hmem⟩
    have haddr := (postedAt_postEvent_iff hlive _ _ _).mp ⟨a, desc, hlog, rfl⟩
    rw [htr] at haddr
    rw [← haddr] at hmem
    exact absurd hmem.1 (by decide)

end Nvl.StaticLink

/-
Nvl/Proxy/Windows.lean

What a failed `NIC_SETATTR` leaves behind, in both clients.

The four FMA windows are attached one after the other, each by an access permit
for its segment and an attachment through the permit.  Attaching them is all or
nothing if a failure at any window undoes what the request did before it and is
reported.  The clients undo the failed window only, and `ioctl` returns 0.

The statements are about paths, `Prog.Path`: every call may be answered in any
way, also two calls of the same kind in one request.
-/
import Nvl.Preload.Client

namespace Nvl

open SysLib

/-! ### What a trace says -/

/-- A call of a client with its answer. -/
abbrev ClientEvent : Type := Σ o : ClientCall, o.Ans

abbrev ClientTrace : Type := Prog.Trace ClientCall ClientCall.Ans

namespace ClientEvent

/-- The window and segment that a permit was asked for. -/
def asked : ClientEvent → Option (Window × UInt64)
  | ⟨.xememGet w segid, _⟩ => some (w, segid)
  | _ => none

/-- The permit obtained; an attachment lives as long as its permit. -/
def permit : ClientEvent → Option Int
  | ⟨.xememGet _ _, apid⟩ => if apid ≤ 0 then none else some apid
  | _ => none

def release : ClientEvent → Option Int
  | ⟨.xememRelease apid, _⟩ => some apid
  | _ => none

def removal : ClientEvent → Option UInt64
  | ⟨.xememRemove segid, _⟩ => some segid
  | _ => none

/-- `xemem_get` failed for the window. -/
def refused : ClientEvent → Option Window
  | ⟨.xememGet w _, apid⟩ => if apid ≤ 0 then some w else none
  | _ => none

/-- `xemem_attach_nocache` failed for the window. -/
def unattached : ClientEvent → Option Window
  | ⟨.xememAttachNocache w _ _, addr⟩ => if addr = 0 then some w else none
  | _ => none

/-- A list element was allocated. -/
def allocated : ClientEvent → Option Unit
  | ⟨.malloc, ok⟩ => if ok then some () else none
  | _ => none

end ClientEvent

namespace ClientTrace

def asked (tr : ClientTrace) : List (Window × UInt64) := tr.filterMap ClientEvent.asked
def permits (tr : ClientTrace) : List Int := tr.filterMap ClientEvent.permit
def releases (tr : ClientTrace) : List Int := tr.filterMap ClientEvent.release
def removals (tr : ClientTrace) : List UInt64 := tr.filterMap ClientEvent.removal
def refused (tr : ClientTrace) : List Window := tr.filterMap ClientEvent.refused
def unattached (tr : ClientTrace) : List Window := tr.filterMap ClientEvent.unattached
def allocated (tr : ClientTrace) : List Unit := tr.filterMap ClientEvent.allocated

/-- One of the two calls for the window failed. -/
def Failed (tr : ClientTrace) (w : Window) : Prop := w ∈ refused tr ∨ w ∈ unattached tr

/-- Every reply read was a block of at least eight bytes. -/
def RepliesRead (tr : ClientTrace) : Prop :=
  ∀ p (r : Bytes), (⟨.retData p, r⟩ : ClientEvent) ∈ tr → 8 ≤ r.length

variable (tr tr' : ClientTrace)

@[simp] theorem asked_append : asked (tr ++ tr') = asked tr ++ asked tr' :=
  List.filterMap_append

@[simp] theorem permits_append : permits (tr ++ tr') = permits tr ++ permits tr' :=
  List.filterMap_append

@[simp] theorem releases_append : releases (tr ++ tr') = releases tr ++ releases tr' :=
  List.filterMap_append

@[simp] theorem removals_append : removals (tr ++ tr') = removals tr ++ removals tr' :=
  List.filterMap_append

@[simp] theorem refused_append : refused (tr ++ tr') = refused tr ++ refused tr' :=
  List.filterMap_append

@[simp] theorem unattached_append : unattached (tr ++ tr') = unattached tr ++ unattached tr' :=
  List.filterMap_append

@[simp] theorem allocated_append : allocated (tr ++ tr') = allocated tr ++ allocated tr' :=
  List.filterMap_append

variable {tr} {w : Window} {segid size : UInt64} {apid : Int} {addr : UInt64}

theorem permits_get_of_pos (h : ¬ apid ≤ 0) :
    permits (⟨.xememGet w segid, apid⟩ :: tr) = apid :: permits tr :=
  List.filterMap_cons_some (if_neg h)

theorem permits_get_of_nonpos (h : apid ≤ 0) :
    permits (⟨.xememGet w segid, apid⟩ :: tr) = permits tr :=
  List.filterMap_cons_none (if_pos h)

theorem refused_get_of_pos (h : ¬ apid ≤ 0) :
    refused (⟨.xememGet w segid, apid⟩ :: tr) = refused tr :=
  List.filterMap_cons_none (if_neg h)

theorem refused_get_of_nonpos (h : apid ≤ 0) :
    refused (⟨.xememGet w segid, apid⟩ :: tr) = w :: refused tr :=
  List.filterMap_cons_some (if_pos h)

theorem unattached_attach_of_ne (h : addr ≠ 0) :
    unattached (⟨.xememAttachNocache w apid size, addr⟩ :: tr) = unattached tr :=
  List.filterMap_cons_none (if_neg h)

end ClientTrace

open ClientTrace

/-- The four fields of the caller's structure that the request fills in. -/
def GniNicSetattrArgs.windows (a : GniNicSetattrArgs) : UInt64 × UInt64 × UInt64 × UInt64 :=
  (a.fmaWindow, a.fmaWindowNwc, a.fmaWindowGet, a.fmaCtrl)

/-- A `NIC_SETATTR` that failed at window `w` has undone everything: `c` and `args`
before, `c'`, `r` and the value `v` returned after the calls `tr`. -/
structure AllOrNothing (c : Client) (args : GniNicSetattrArgs) (tr : ClientTrace) (w : Window)
    (c' : Client) (r : Request) (v : Int) : Prop where
  released : (permits tr).Perm (releases tr)
  listKept : c'.mt = c.mt
  removed : ∃ segid, (w, segid) ∈ asked tr ∧ removals tr = [segid]
  fieldsKept : ∃ a, r = .nicSetattr a ∧ a.windows = args.windows
  reported : v ≠ 0

/-! ### What the request has done so far -/

/-- The windows attached before `w`, in order. -/
def Window.earlier : Window → List Window
  | win => []
  | put => [win]
  | get => [win, put]
  | ctrl => [win, put, get]

/-- After the calls `tr` the windows in `segs` are attached, nothing has failed, and
the list of segments has gone from `mt` to `mt'`. -/
structure Attached (mt : MemsegList) (segs : List (Window × UInt64)) (tr : ClientTrace)
    (mt' : MemsegList) : Prop where
  asked : asked tr = segs
  permits : (permits tr).length = segs.length
  releases : releases tr = []
  removals : removals tr = []
  refused : refused tr = []
  unattached : unattached tr = []
  grown : mt'.length = mt.length + (allocated tr).length
  same : allocated tr = [] → mt' = mt

/-- The windows in `segs` are attached and the next one, `w`, has failed. -/
structure Broken (mt : MemsegList) (segs : List (Window × UInt64)) (w : Window)
    (segid removed : UInt64) (tr : ClientTrace) (mt' : MemsegList) : Prop where
  asked : asked tr = segs ++ [(w, segid)]
  permits : ∃ kept : List Int, kept.length = segs.length ∧ permits tr = kept ++ releases tr
  failed : (refused tr = [w] ∧ unattached tr = [] ∧ removals tr = [segid]) ∨
    (refused tr = [] ∧ unattached tr = [w] ∧ removals tr = [removed])
  grown : mt'.length = mt.length + (allocated tr).length
  same : allocated tr = [] → mt' = mt

variable {mt mt' mt'' : MemsegList} {segs segs' : List (Window × UInt64)} {w : Window}
  {segid removed : UInt64} {tr tr' : ClientTrace}

theorem Attached.append (h : Attached mt segs tr mt') (h' : Attached mt' segs' tr' mt'') :
    Attached mt (segs ++ segs') (tr ++ tr') mt'' where
  asked := by rw [asked_append, h.asked, h'.asked]
  permits := by rw [permits_append, List.length_append, h.permits, h'.permits, List.length_append]
  releases := by rw [releases_append, h.releases, h'.releases, List.nil_append]
  removals := by rw [removals_append, h.removals, h'.removals, List.nil_append]
  refused := by rw [refused_append, h.refused, h'.refused, List.nil_append]
  unattached := by rw [unattached_append, h.unattached, h'.unattached, List.nil_append]
  grown := by rw [allocated_append, List.length_append, h'.grown, h.grown, Nat.add_assoc]
  same := by
    intro hnone
    rw [allocated_append, List.append_eq_nil_iff] at hnone
    rw [h'.same hnone.2, h.same hnone.1]

theorem Attached.broken (h : Attached mt segs tr mt')
    (h' : Broken mt' segs' w segid removed tr' mt'') :
    Broken mt (segs ++ segs') w segid removed (tr ++ tr') mt'' where
  asked := by rw [asked_append, h.asked, h'.asked, List.append_assoc]
  permits := by
    obtain ⟨kept, hlen, hkept⟩ := h'.permits
    refine ⟨ClientTrace.permits tr ++ kept, ?_, ?_⟩
    · rw [List.length_append, List.length_append, h.permits, hlen]
    · rw [permits_append, releases_append, h.releases, hkept, List.nil_append, List.append_assoc]
  failed := by
    rw [refused_append, unattached_append, removals_append, h.refused, h.unattached, h.removals]
    exact h'.failed
  grown := by rw [allocated_append, List.length_append, h'.grown, h.grown, Nat.add_assoc]
  same := by
    intro hnone
    rw [allocated_append, List.append_eq_nil_iff] at hnone
    rw [h'.same hnone.2, h.same hnone.1]

/-! ### The rules of one step -/

/-- A call that no part of the trace is about. -/
def ClientCall.Quiet (o : ClientCall) : Prop := ∀ mt r, Attached mt [] [⟨o, r⟩] mt

theorem quiet_of_none {o : ClientCall} (h : ∀ r, ClientEvent.asked ⟨o, r⟩ = none ∧
    ClientEvent.permit ⟨o, r⟩ = none ∧ ClientEvent.release ⟨o, r⟩ = none ∧
      ClientEvent.removal ⟨o, r⟩ = none ∧ ClientEvent.refused ⟨o, r⟩ = none ∧
        ClientEvent.unattached ⟨o, r⟩ = none ∧ ClientEvent.allocated ⟨o, r⟩ = none) :
    o.Quiet := by
  intro mt r
  obtain ⟨h₁, h₂, h₃, h₄, h₅, h₆, h₇⟩ := h r
  exact ⟨by simp [asked, h₁], by simp [permits, h₂], by simp [releases, h₃],
    by simp [removals, h₄], by simp [refused, h₅], by simp [unattached, h₆],
    by simp [allocated, h₇], fun _ => rfl⟩

variable {α : Type} {R : ClientTrace → α → Prop} {tr₀ : ClientTrace}

/-- A quiet call leaves things as they are. -/
theorem Attached.call {o : ClientCall} {k : o.Ans → ClientM α} (h : Attached mt segs tr₀ mt')
    (ho : o.Quiet)
    (hk : ∀ r, Attached mt segs (tr₀ ++ [⟨o, r⟩]) mt' →
      (k r).Meets fun tr => R (tr₀ ++ [⟨o, r⟩] ++ tr)) :
    (Prog.step o k).Meets fun tr => R (tr₀ ++ tr) := by
  apply Prog.Meets.step
  intro r
  have hnext := h.append (ho mt' r)
  rw [List.append_nil] at hnext
  refine (hk r hnext).mono fun tr a hR => ?_
  rwa [List.append_assoc] at hR

/-- A window is attached, or it has failed. -/
theorem attachWindow_meets (mt : MemsegList) (w : Window) (segid removed size : UInt64) :
    (Preload.attachWindow w segid removed size).Meets fun tr a =>
      (a = none → Broken mt [] w segid removed tr mt) ∧
        (a ≠ none → Attached mt [(w, segid)] tr mt) := by
  apply Prog.Meets.step
  intro apid
  apply Prog.Meets.ite
  · intro hle
    refine .step fun _ => .ret ⟨fun _ => ?_, fun h => absurd rfl h⟩
    exact ⟨rfl, ⟨[], rfl, permits_get_of_nonpos hle⟩, .inl ⟨refused_get_of_nonpos hle, rfl, rfl⟩,
      rfl, fun _ => rfl⟩
  · intro hpos
    apply Prog.Meets.step
    intro addr
    apply Prog.Meets.ite
    · rintro rfl
      refine .step fun _ => .step fun _ => .ret ⟨fun _ => ?_, fun h => absurd rfl h⟩
      exact ⟨rfl, ⟨[], rfl, permits_get_of_pos hpos⟩, .inr ⟨refused_get_of_pos hpos, rfl, rfl⟩,
        rfl, fun _ => rfl⟩
    · intro haddr
      refine .ret ⟨nofun, fun _ => ?_⟩
      exact ⟨rfl, congrArg List.length (permits_get_of_pos hpos), rfl, rfl,
        refused_get_of_pos hpos, unattached_attach_of_ne haddr, rfl, fun _ => rfl⟩

/-- One get-and-attach sequence, after what was done before. -/
theorem Attached.attach {size : UInt64} {k : Option UInt64 → ClientM α}
    (h : Attached mt segs tr₀ mt')
    (hnone : ∀ tr, Broken mt segs w segid removed tr mt' →
      (k none).Meets fun tr' => R (tr ++ tr'))
    (hsome : ∀ tr addr, Attached mt (segs ++ [(w, segid)]) tr mt' →
      (k (some addr)).Meets fun tr' => R (tr ++ tr')) :
    (Preload.attachWindow w segid removed size >>= k).Meets fun tr => R (tr₀ ++ tr) := by
  refine (attachWindow_meets mt' w segid removed size).bind ?_
  rintro tr a ⟨hbroken, hattached⟩
  simp only [← List.append_assoc]
  cases a with
  | none =>
      have hb := h.broken (hbroken rfl)
      rw [List.append_nil] at hb
      exact hnone _ hb
  | some addr => exact hsome _ addr (h.append (hattached nofun))

/-- Recording a window makes the list longer by one entry, if there is memory for it. -/
theorem Attached.record {c : Client} {addr len : UInt64} {k : Client → ClientM α}
    (h : Attached mt segs tr₀ c.mt)
    (hk : ∀ tr c', Attached mt segs tr c'.mt → (k c').Meets fun tr' => R (tr ++ tr')) :
    (Preload.record c segid addr len >>= k).Meets fun tr => R (tr₀ ++ tr) := by
  apply Prog.Meets.step
  intro ok
  have hmalloc : Attached c.mt [] [⟨.malloc, ok⟩]
      (listAddElement c.mt ok segid addr len) := by
    cases ok
    · exact ⟨rfl, rfl, rfl, rfl, rfl, rfl, rfl, fun _ => rfl⟩
    · exact ⟨rfl, rfl, rfl, rfl, rfl, rfl, by simp [listAddElement, allocated,
        ClientEvent.allocated], nofun⟩
  have hnext := h.append hmalloc
  rw [List.append_nil] at hnext
  have hafter := hk _ { c with mt := listAddElement c.mt ok segid addr len } hnext
  refine hafter.mono fun tr a hR => ?_
  rwa [List.append_assoc] at hR

/-! ### What is left behind -/

/-- The static client removes the segment that failed. -/
def OwnSegment (_ : List (Window × UInt64)) (_ : Window) (segid removed : UInt64) : Prop :=
  removed = segid

/-- The preloaded client names the first window's segment when it is the second that failed. -/
def FirstForSecond (segs : List (Window × UInt64)) (w : Window) (segid removed : UInt64) : Prop :=
  if w = .put then (Window.win, removed) ∈ segs else removed = segid

/-- How attaching the windows ends: with all of them, or with a failure at one, the
structure `a` as it was.  Which segment a failed attach removes is given by `P`. -/
def Ends (P : List (Window × UInt64) → Window → UInt64 → UInt64 → Prop) (mt : MemsegList)
    (a : GniNicSetattrArgs) (tr : ClientTrace) (out : Client × Request × PackRet) : Prop :=
  (∃ segs, Attached mt segs tr out.1.mt) ∨
    (out.2.1 = .nicSetattr a ∧ ∃ w segs segid removed, segs.map Prod.fst = w.earlier ∧
      P segs w segid removed ∧ Broken mt segs w segid removed tr out.1.mt)

variable {P : List (Window × UInt64) → Window → UInt64 → UInt64 → Prop} {c c' : Client}
  {a args : GniNicSetattrArgs} {r : Request} {v : PackRet}

theorem Broken.ends (h : Broken mt segs w segid removed tr c'.mt)
    (hsegs : segs.map Prod.fst = w.earlier) (hP : P segs w segid removed) :
    (Prog.ret (c', .nicSetattr a, v) : ClientM (Client × Request × PackRet)).Meets fun tr' =>
      Ends P mt a (tr ++ tr') := by
  apply Prog.Meets.ret
  rw [List.append_nil]
  exact .inr ⟨rfl, w, segs, segid, removed, hsegs, hP, h⟩

theorem Attached.ends (h : Attached mt segs tr c'.mt) :
    (Prog.ret (c', r, v) : ClientM (Client × Request × PackRet)).Meets fun tr' =>
      Ends P mt a (tr ++ tr') := by
  apply Prog.Meets.ret
  rw [List.append_nil]
  exact .inl ⟨segs, h⟩

theorem Attached.append_ends {out : Client × Request × PackRet} (h : Attached mt [] tr mt')
    (hends : Ends P mt' a tr' out) : Ends P mt a (tr ++ tr') out := by
  rcases hends with ⟨segs, h'⟩ | ⟨hr, w, segs, segid, removed, hsegs, hP, h'⟩
  · exact .inl ⟨_, h.append h'⟩
  · exact .inr ⟨hr, w, segs, segid, removed, hsegs, hP, h.broken h'⟩

theorem attached_nil (mt : MemsegList) : Attached mt [] [] mt :=
  ⟨rfl, rfl, rfl, rfl, rfl, rfl, rfl, fun _ => rfl⟩

theorem quiet_retData (p : Nat) : (ClientCall.retData p).Quiet :=
  quiet_of_none fun _ => ⟨rfl, rfl, rfl, rfl, rfl, rfl, rfl⟩

theorem quiet_xememLookupSegid (w : Window) : (ClientCall.xememLookupSegid w).Quiet :=
  quiet_of_none fun _ => ⟨rfl, rfl, rfl, rfl, rfl, rfl, rfl⟩

theorem quiet_hcqCmdIssue (code : UInt64) (data : Bytes) :
    (ClientCall.hcqCmdIssue code data).Quiet :=
  quiet_of_none fun _ => ⟨rfl, rfl, rfl, rfl, rfl, rfl, rfl⟩

theorem quiet_hcqGetRetData (cmd : Nat) : (ClientCall.hcqGetRetData cmd).Quiet :=
  quiet_of_none fun _ => ⟨rfl, rfl, rfl, rfl, rfl, rfl, rfl⟩

theorem quiet_hcqCmdComplete (cmd : Nat) : (ClientCall.hcqCmdComplete cmd).Quiet :=
  quiet_of_none fun _ => ⟨rfl, rfl, rfl, rfl, rfl, rfl, rfl⟩

/-- The four fields after the first copy of the reply, `b`, are the caller's. -/
def KeepsFields (args : GniNicSetattrArgs) (tr : ClientTrace) (a : GniNicSetattrArgs) : Prop :=
  ∃ p b, (⟨.retData p, b⟩ : ClientEvent) ∈ tr ∧
    a = GniNicSetattrArgs.codec.decode (overlay 8 b (GniNicSetattrArgs.codec.encode args))

theorem KeepsFields.windows (h : KeepsFields args tr a) (hread : RepliesRead tr) :
    a.windows = args.windows := by
  obtain ⟨p, b, hb, rfl⟩ := h
  obtain ⟨ptag, cookie, hcopy⟩ := args.overlay_eight_reply (hread p b hb)
  rw [hcopy]
  rfl

theorem KeepsFields.append (h : KeepsFields args tr a) (tr' : ClientTrace) :
    KeepsFields args (tr ++ tr') a := by
  obtain ⟨p, b, hb, ha⟩ := h
  exact ⟨p, b, List.mem_append_left _ hb, ha⟩

/-- The static client attaches the windows in `pack_args`, after the first copy. -/
theorem static_packNicSetattr_meets (c : Client) (args : GniNicSetattrArgs) :
    (StaticLink.packNicSetattr c args).Meets fun tr out =>
      ∃ a, KeepsFields args tr a ∧ Ends OwnSegment c.mt a tr out := by
  have h := attached_nil c.mt
  refine .step fun cmd => .step fun p => .step fun _ => .step fun b => ?_
  have hquiet : Attached c.mt [] [⟨.hcqCmdIssue _ _, cmd⟩, ⟨.hcqGetRetData cmd, p⟩,
      ⟨.hcqCmdComplete cmd, ()⟩, ⟨.retData p, b⟩] c.mt :=
    ((quiet_hcqCmdIssue _ _ _ _).append (quiet_hcqGetRetData _ _ _)).append
      ((quiet_hcqCmdComplete _ _ _).append (quiet_retData _ _ _))
  refine Prog.Meets.mono (R := Ends OwnSegment c.mt (GniNicSetattrArgs.codec.decode
    (overlay 8 b (GniNicSetattrArgs.codec.encode args)))) ?_ fun tr out hends =>
      ⟨_, ⟨p, b, by simp, rfl⟩, hquiet.append_ends hends⟩
  refine h.call (quiet_retData p) fun b₁ h => ?_
  refine h.attach (fun tr hb => hb.ends rfl rfl) fun tr _ h => ?_
  refine h.call (quiet_retData p) fun b₂ h => ?_
  refine h.attach (fun tr hb => hb.ends rfl rfl) fun tr _ h => ?_
  refine h.call (quiet_retData p) fun b₃ h => ?_
  refine h.attach (fun tr hb => hb.ends rfl rfl) fun tr _ h => ?_
  refine h.call (quiet_retData p) fun b₄ h => ?_
  refine h.attach (fun tr hb => hb.ends rfl rfl) fun tr _ h => ?_
  exact h.call (quiet_retData p) fun b₅ h => h.ends

/-- The preloaded client attaches and records them in `unpack_args`. -/
theorem preload_unpackNicSetattr_meets (c : Client) (a : GniNicSetattrArgs) :
    (Preload.unpackNicSetattr c a).Meets (Ends FirstForSecond c.mt a) := by
  have h := attached_nil c.mt
  change Prog.Meets (fun tr => Ends FirstForSecond c.mt a ([] ++ tr)) _
  refine h.call (quiet_xememLookupSegid _) fun winSeg h => ?_
  refine h.attach (fun tr hb => hb.ends rfl rfl) fun tr _ h => ?_
  refine h.record fun tr c₁ h => ?_
  refine h.call (quiet_xememLookupSegid _) fun putSeg h => ?_
  refine h.attach (fun tr hb => hb.ends rfl (List.mem_singleton_self _)) fun tr _ h => ?_
  refine h.record fun tr c₂ h => ?_
  refine h.call (quiet_xememLookupSegid _) fun getSeg h => ?_
  refine h.attach (fun tr hb => hb.ends rfl rfl) fun tr _ h => ?_
  refine h.record fun tr c₃ h => ?_
  refine h.call (quiet_xememLookupSegid _) fun ctrlSeg h => ?_
  refine h.attach (fun tr hb => hb.ends rfl rfl) fun tr _ h => ?_
  exact h.record fun tr c₄ h => h.ends

/-! ### The intercepted call -/

/-- What a path of the whole call comes to. -/
def CallEnds (P : List (Window × UInt64) → Window → UInt64 → UInt64 → Prop) (c : Client)
    (args : GniNicSetattrArgs) (tr : ClientTrace) (out : Client × Request × Int) : Prop :=
  out.2.2 = 0 ∧ ∃ a ret, KeepsFields args tr a ∧ Ends P c.mt a tr (out.1, out.2.1, ret)

/-- `handle_ioctl` answers nothing, and the call returns 0. -/
theorem CallEnds.of_handle {p : ClientM (Client × Request)} (hp : p.Meets fun tr out =>
    ∃ a ret, KeepsFields args tr a ∧ Ends P c.mt a tr (out.1, out.2, ret)) :
    (p >>= fun x => (Prog.ret (x.1, x.2, 0) : ClientM (Client × Request × Int))).Meets
      (CallEnds P c args) := by
  refine hp.bind fun tr x hx => .ret ?_
  rw [List.append_nil]
  exact ⟨rfl, hx⟩

theorem wrapIoctl_client (c : Client) (fd : Int) (args : GniNicSetattrArgs) :
    (StaticLink.wrapIoctl c fd (.nicSetattr args)).Returns fun x => x.1 = c := by
  have hhandle : (StaticLink.handleIoctl c (.nicSetattr args)).Returns fun x => x.1 = c :=
    .bind (StaticLink.packNicSetattr_client c args) fun x hx => hx
  rw [StaticLink.wrapIoctl]
  simp only [Prog.returns_ite]
  exact ⟨fun _ => hhandle.bind fun x hx => hx,
    fun _ => ⟨fun _ => hhandle.bind fun x hx => hx, fun _ _ => rfl⟩⟩

theorem wrapIoctl_meets {fd : Int} (hfd : fd = c.clientFd ∨ fd = c.pmiFd)
    (args : GniNicSetattrArgs) : (StaticLink.wrapIoctl c fd (.nicSetattr args)).Meets
      (CallEnds OwnSegment c args) := by
  have hhandle : (StaticLink.handleIoctl c (.nicSetattr args)).Meets fun tr out =>
      ∃ a ret, KeepsFields args tr a ∧ Ends OwnSegment c.mt a tr (out.1, out.2, ret) := by
    refine (static_packNicSetattr_meets c args).bind ?_
    rintro tr ⟨c', r, ret⟩ ⟨a, hkeeps, hends⟩
    apply Prog.Meets.ret
    rw [List.append_nil]
    exact ⟨a, ret, hkeeps, hends⟩
  have hcall := CallEnds.of_handle hhandle
  refine .ite (fun _ => hcall) fun hne => .ite (fun _ => hcall) fun hne' => ?_
  exact absurd hfd (not_or_intro hne hne')

/-- `pack_args` of the preloaded client only copies. -/
theorem preload_packNicSetattr_meets (c : Client) (args : GniNicSetattrArgs) :
    (Preload.packNicSetattr c args).Meets fun tr out =>
      ∃ a, out = (c, .nicSetattr a, .zero) ∧ KeepsFields args tr a ∧ Attached c.mt [] tr c.mt := by
  refine .step fun cmd => .step fun p => .step fun _ => .step fun b => .ret ?_
  refine ⟨_, rfl, ⟨p, b, by simp, rfl⟩, ?_⟩
  exact ((quiet_hcqCmdIssue _ _ _ _).append (quiet_hcqGetRetData _ _ _)).append
    ((quiet_hcqCmdComplete _ _ _).append (quiet_retData _ _ _))

theorem ioctl_meets {fd : Int} (hfd : fd = c.clientFd ∨ fd = c.pmiFd)
    (args : GniNicSetattrArgs) : (Preload.ioctl c fd (.nicSetattr args)).Meets
      (CallEnds FirstForSecond c args) := by
  have hhandle : (Preload.handleIoctl c (.nicSetattr args)).Meets fun tr out =>
      ∃ a ret, KeepsFields args tr a ∧ Ends FirstForSecond c.mt a tr (out.1, out.2, ret) := by
    refine (preload_packNicSetattr_meets c args).bind ?_
    rintro tr _ ⟨a, rfl, hkeeps, hquiet⟩
    refine (preload_unpackNicSetattr_meets c a).bind ?_
    rintro tr' ⟨c', r, ret⟩ hends
    apply Prog.Meets.ret
    rw [List.append_nil]
    exact ⟨a, ret, hkeeps.append tr', hquiet.append_ends hends⟩
  have hcall := CallEnds.of_handle hhandle
  refine .ite (fun _ => hcall) fun hne => .ite (fun _ => hcall) fun hne' => ?_
  exact absurd hfd (not_or_intro hne hne')

/-! ### Failures -/

theorem Attached.not_failed (h : Attached mt segs tr mt') : ¬ Failed tr w := by
  rw [Failed, h.refused, h.unattached]
  simp

theorem Broken.eq_of_failed {w' : Window} (h : Broken mt segs w segid removed tr mt')
    (hf : Failed tr w') : w' = w := by
  rcases h.failed with ⟨hr, hu, -⟩ | ⟨hr, hu, -⟩ <;> simpa [Failed, hr, hu] using hf

/-- If a window has failed, it is the one the request stopped at. -/
theorem Ends.broken {out : Client × Request × PackRet} (h : Ends P mt a tr out)
    (hf : Failed tr w) : out.2.1 = .nicSetattr a ∧ ∃ segs segid removed,
      segs.map Prod.fst = w.earlier ∧ P segs w segid removed ∧
        Broken mt segs w segid removed tr out.1.mt := by
  rcases h with ⟨segs, h⟩ | ⟨hr, w', segs, segid, removed, hsegs, hP, h⟩
  · exact absurd hf h.not_failed
  · obtain rfl := h.eq_of_failed hf
    exact ⟨hr, segs, segid, removed, hsegs, hP, h⟩

/-- The permits of the windows before stay; only the first window has none before it. -/
theorem Broken.released_iff (h : Broken mt segs w segid removed tr mt')
    (hsegs : segs.map Prod.fst = w.earlier) :
    (ClientTrace.permits tr).Perm (releases tr) ↔ w = .win := by
  obtain ⟨kept, hlen, hkept⟩ := h.permits
  have hsize : kept.length = w.earlier.length := by rw [hlen, ← hsegs, List.length_map]
  rw [hkept]
  constructor
  · intro hperm
    have hnone : kept.length = 0 := by
      have := hperm.length_eq
      rw [List.length_append] at this
      omega
    rw [hnone] at hsize
    cases w with
    | win => rfl
    | put | get | ctrl => cases hsize
  · rintro rfl
    obtain rfl : kept = [] := List.length_eq_zero_iff.mp hsize
    exact List.Perm.refl _

theorem Broken.listKept_iff (h : Broken mt segs w segid removed tr mt') :
    mt' = mt ↔ allocated tr = [] := by
  refine ⟨fun heq => ?_, h.same⟩
  have := h.grown
  rw [heq] at this
  exact List.length_eq_zero_iff.mp (by omega)

theorem Broken.mem_asked (h : Broken mt segs w segid removed tr mt') :
    (w, segid) ∈ ClientTrace.asked tr := by
  rw [h.asked]
  exact List.mem_append_right _ (List.mem_singleton_self _)

/-- A failed `xemem_get` is tidied up by removing the window's own segment. -/
theorem Broken.removals_of_refused (h : Broken mt segs w segid removed tr mt')
    (hu : w ∉ unattached tr) : removals tr = [segid] := by
  rcases h.failed with ⟨-, -, hrem⟩ | ⟨-, hw, -⟩
  · exact hrem
  · exact absurd (by rw [hw]; exact List.mem_singleton_self w) hu

theorem Broken.removals_of_unattached (h : Broken mt segs w segid removed tr mt')
    (hu : w ∈ unattached tr) : removals tr = [removed] := by
  rcases h.failed with ⟨-, hnone, -⟩ | ⟨-, -, hrem⟩
  · rw [hnone] at hu
    cases hu
  · exact hrem

/-- The only segment removed is the one of window `w`. -/
def RemovesOnly (tr : ClientTrace) (w : Window) : Prop :=
  ∃ segid, (w, segid) ∈ asked tr ∧ removals tr = [segid]

/-- What both clients do alike after a failure at `w`. -/
structure AttachFailure (args : GniNicSetattrArgs) (tr : ClientTrace) (w : Window) (r : Request)
    (v : Int) : Prop where
  unreported : v = 0
  released : (permits tr).Perm (releases tr) ↔ w = .win
  fieldsKept : RepliesRead tr → ∃ a, r = .nicSetattr a ∧ a.windows = args.windows

theorem CallEnds.attachFailure {v : Int} (h : CallEnds P c args tr (c', r, v))
    (hf : Failed tr w) : AttachFailure args tr w r v ∧ ∃ segs segid removed,
      P segs w segid removed ∧ Broken c.mt segs w segid removed tr c'.mt := by
  obtain ⟨hv, a, ret, hkeeps, hends⟩ := h
  obtain ⟨hr, segs, segid, removed, hsegs, hP, hbroken⟩ := hends.broken hf
  refine ⟨⟨hv, hbroken.released_iff hsegs, fun hread => ?_⟩, segs, segid, removed, hP, hbroken⟩
  exact ⟨a, hr, hkeeps.windows hread⟩

/-- **Attaching the windows is never all or nothing.**  Whichever call fails for
whichever window, in either client, `ioctl` returns 0, and the permits obtained before
are given back only if there were none.  The four fields stay as they were.  The static
client keeps its list and removes the segment that failed.  The preloaded one has
recorded every window before, as far as there was memory, and after a failed attach of
the second window it removes the segment of the first. -/
theorem windows_never_allOrNothing {c c' : Client} {fd : Int} {args : GniNicSetattrArgs}
    {tr : ClientTrace} {w : Window} {r : Request} {v : Int}
    (hfd : fd = c.clientFd ∨ fd = c.pmiFd) (hf : Failed tr w) :
    (Prog.Path (StaticLink.wrapIoctl c fd (.nicSetattr args)) tr (c', r, v) →
      ¬ AllOrNothing c args tr w c' r v ∧ AttachFailure args tr w r v ∧ c'.mt = c.mt ∧
        RemovesOnly tr w) ∧
    (Prog.Path (Preload.ioctl c fd (.nicSetattr args)) tr (c', r, v) →
      ¬ AllOrNothing c args tr w c' r v ∧ AttachFailure args tr w r v ∧
        (c'.mt = c.mt ↔ allocated tr = []) ∧
          RemovesOnly tr (if w = .put ∧ w ∈ unattached tr then .win else w)) := by
  constructor
  · intro hpath
    obtain ⟨hfail, segs, segid, removed, hown, hbroken⟩ :=
      (wrapIoctl_meets hfd args _ _ hpath).attachFailure hf
    obtain rfl : removed = segid := hown
    have hc : c' = c := (wrapIoctl_client c fd args).path hpath
    refine ⟨fun h => h.reported hfail.unreported, hfail, congrArg Client.mt hc, ?_⟩
    refine ⟨removed, hbroken.mem_asked, ?_⟩
    rcases hbroken.failed with ⟨-, -, hrem⟩ | ⟨-, -, hrem⟩ <;> exact hrem
  · intro hpath
    obtain ⟨hfail, segs, segid, removed, hP, hbroken⟩ :=
      (ioctl_meets hfd args _ _ hpath).attachFailure hf
    refine ⟨fun h => h.reported hfail.unreported, hfail, hbroken.listKept_iff, ?_⟩
    by_cases hsecond : w = .put ∧ w ∈ unattached tr
    · obtain ⟨rfl, hu⟩ := hsecond
      rw [if_pos ⟨rfl, hu⟩]
      refine ⟨removed, ?_, hbroken.removals_of_unattached hu⟩
      rw [hbroken.asked]
      exact List.mem_append_left _ hP
    · rw [if_neg hsecond]
      refine ⟨segid, hbroken.mem_asked, ?_⟩
      by_cases hu : w ∈ unattached tr
      · have hown : removed = segid := by
          rwa [FirstForSecond, if_neg fun hw => hsecond ⟨hw, hu⟩] at hP
        rw [hbroken.removals_of_unattached hu, hown]
      · exact hbroken.removals_of_refused hu

/-- A client with the device open and an empty list. -/
def openClient : Client := { mt := [], commSize := 1, myRank := 0, clientFd := 3, pmiFd := 4 }

/-- Everything succeeds but the attachment of the second window. -/
def secondFails : (o : ClientCall) → o.Ans
  | .malloc => true
  | .mallocInt => 0
  | .xememMake _ _ => 0
  | .xememLookupSegid w => if w = .win then 21 else 22
  | .xememGet w _ => if w = .win then 7 else 8
  | .xememAttachNocache w _ _ => if w = .put then 0 else 0x40000000
  | .xememRelease _ => ()
  | .xememRemove _ => ()
  | .hcqCmdIssue _ _ => 0
  | .hcqGetRetData _ => 0
  | .retData _ => List.replicate 64 0
  | .hcqCmdComplete _ => ()
  | .realIoctl _ _ => 0

/-- The path of the preloaded client on these answers. -/
def secondFailsTrace : ClientTrace :=
  (Prog.exec secondFails (Preload.ioctl openClient 3 (.nicSetattr default))).2

/-- The two permits are 7 and 8 and the first one stays; the first window stays in the
list; its segment, 21, is removed while it is attached; and the caller is told 0. -/
theorem windows_secondFails :
    permits secondFailsTrace = [7, 8] ∧ releases secondFailsTrace = [8] ∧
      removals secondFailsTrace = [21] ∧ ClientTrace.Failed secondFailsTrace .put ∧
        ∃ c' r v, Prog.Path (Preload.ioctl openClient 3 (.nicSetattr default)) secondFailsTrace
          (c', r, v) ∧ ¬ AllOrNothing openClient default secondFailsTrace .put c' r v := by
  refine ⟨rfl, rfl, rfl, .inr (List.mem_singleton_self _), _, _, _,
    Prog.path_exec secondFails _, fun h => h.reported rfl⟩

theorem windows_never_allOrNothing_secondFails :
    RemovesOnly secondFailsTrace .win := by
  have hf : ClientTrace.Failed secondFailsTrace .put := .inr (List.mem_singleton_self _)
  have h := (windows_never_allOrNothing (c := openClient) (.inl rfl) hf).2
    (Prog.path_exec secondFails (Preload.ioctl openClient 3 (.nicSetattr default)))
  exact h.2.2.2

end Nvl

/-
Nvl/StaticLink/Provenance.lean

Where do the addresses come from that the server passes on?

An address of the application changes its meaning twice on the way: the client
replaces it by a segment id, the server replaces that by its own address of the
segment.  The log tells which addresses the server obtained, from `xemem_attach`
or from an allocation, and which ones it handed to the device or to PMI.

Every address in the server's list was obtained (`mapped_run`), in every
reachable state and whatever is answered.  So a lookup that succeeds passes on an
address of the server.  A lookup that fails passes on the word -1, since neither
side looks at the outcome, and a segmented registration is passed on as it came:
the segment id where its address was, and a list in the memory of the client.
-/
import Nvl.StaticLink.Translation

namespace Nvl.StaticLink

open SysLib

/-! ### Addresses in the log -/

/-- The address of a mapping or of an allocation that the server made. -/
def obtainedIn : (Σ o : ServerCall, o.Ans) → Option UInt64
  | ⟨.xememAttach _ _, addr⟩ => if addr = mapFailed then none else some addr
  | ⟨.posixMemalign _, answer⟩ =>
      if answer.1 = true ∧ answer.2 ≠ mapFailed then some answer.2 else none
  | _ => none

/-- A memory address in a call to the device or to PMI, with where it comes from. -/
inductive Passed
  /-- The server has put it there. -/
  | stored (addr : UInt64)
  /-- It is there as the client sent it, which is a segment id. -/
  | sent (addr : UInt64)
  /-- That of the segment `i` of a list in the memory of the client. -/
  | listed (list : UInt64) (i : Nat)
  deriving DecidableEq

/-- The server has obtained the address.  A word of the client is none of its own, whatever the
number. -/
def Passed.Own (obtained : List UInt64) : Passed → Prop
  | stored addr => addr ∈ obtained
  | sent _ => False
  | listed _ _ => False

/-- The memory addresses that a call hands to the device or to PMI.  The server replaces the
address of a registration if it is not segmented (`registers_as_sent`). -/
def passedIn : (Σ o : ServerCall, o.Ans) → List Passed
  | ⟨.ioctl (.memRegister a), _⟩ =>
      if a.segmentsCnt = 1 then [.stored a.address]
      else .sent a.address :: (List.range a.segmentsCnt.toNat).map (.listed a.memSegments)
  | ⟨.ioctl (.cqCreate a), _⟩ => [.stored a.queue]
  | ⟨.ioctl (.postRdma _ desc), _⟩ => [.stored desc.localAddr]
  | ⟨.pmiAllgather .blocks data _, _⟩ =>
      if data.length = MdhAddr.codec.size then [.stored (MdhAddr.codec.decode data).addr] else []
  | _ => []

def Entry.obtained : Entry → Option UInt64
  | .issued _ => none
  | .server c => obtainedIn c

def Entry.passed : Entry → List Passed
  | .issued _ => []
  | .server c => passedIn c

/-- The addresses the server has obtained so far. -/
def World.obtained (w : World) : List UInt64 := w.log.filterMap Entry.obtained

/-- The addresses that are passed on for a request. -/
def World.passed (w : World) (e : Event) : List Passed :=
  ((w.ioctl e).1.log.drop w.log.length).flatMap Entry.passed

/-- Only addresses of the server are passed on for a request. -/
def World.OwnAddresses (w : World) (e : Event) : Prop :=
  ∀ p ∈ w.passed e, p.Own (w.ioctl e).1.obtained

theorem filterMap_obtained_server (tr : Prog.Trace ServerCall ServerCall.Ans) :
    (tr.map Entry.server).filterMap Entry.obtained = tr.filterMap obtainedIn :=
  List.filterMap_map

theorem flatMap_passed_server (tr : Prog.Trace ServerCall ServerCall.Ans) :
    (tr.map Entry.server).flatMap Entry.passed = tr.flatMap passedIn :=
  List.flatMap_map ..

theorem notFound_not_obtained (w : World) : notFound ∉ w.obtained := by
  intro h
  obtain ⟨x, -, hx⟩ := List.mem_filterMap.mp h
  rcases x with cmd | ⟨o, answer⟩
  · cases hx
  · cases o with
    | xememAttach apid size =>
        have hx' : (if answer = mapFailed then none else some answer) = some notFound := hx
        split at hx'
        · cases hx'
        · next hne => exact hne (Option.some.inj hx')
    | posixMemalign size =>
        have hx' : (if answer.1 = true ∧ answer.2 ≠ mapFailed then some answer.2 else none)
          = some notFound := hx
        split at hx'
        · next hok => exact hok.2 (Option.some.inj hx')
        · cases hx'
    | _ => cases hx

/-! ### The server's list -/

section Round

variable (env : (o : ServerCall) → o.Ans) (s : Server) (cmd : Cmd) (ret : Int)

theorem serveNicSetattr_mt : (serveNicSetattr s cmd ret).Returns fun r => r.server.mt = s.mt := by
  simp [serveNicSetattr, Round.server]

theorem servePostRdma_mt : (servePostRdma s cmd ret).Returns fun r => r.server.mt = s.mt := by
  simp [servePostRdma, Round.server]

theorem serveCqCreate_mt : (serveCqCreate s cmd ret).Returns fun r => r.server.mt = s.mt := by
  simp [serveCqCreate, Round.server]

theorem serveNicFmaConfig_mt :
    (serveNicFmaConfig s cmd ret).Returns fun r => r.server.mt = s.mt := by
  simp [serveNicFmaConfig, Round.server]

theorem serveAllgather_mt : (serveAllgather s cmd ret).Returns fun r => r.server.mt = s.mt := by
  refine (serveAllgather_server s cmd ret).mono ?_
  rintro r ⟨g, hr⟩
  rw [hr]

theorem serveGetrank_mt : (serveGetrank s cmd ret).Returns fun r => r.server.mt = s.mt := by
  simp [serveGetrank, Round.server]

theorem serveGetsize_mt : (serveGetsize s cmd ret).Returns fun r => r.server.mt = s.mt := by
  simp [serveGetsize, Round.server]

theorem serveFinalize_mt : (serveFinalize s cmd ret).Returns fun r => r.server.mt = s.mt := by
  simp [serveFinalize, Round.server]

/-- On the answers `env`, and with `known` obtained before, the addresses in the
list that a program leaves have been obtained. -/
def Keeps (env : (o : ServerCall) → o.Ans) (known : List UInt64) (p : ServerM Round) : Prop :=
  ∀ q ∈ (p.exec env).1.server.mt, q.address ∈ known ++ (p.exec env).2.filterMap obtainedIn

variable {env s} {known : List UInt64} {p q : ServerM Round}

theorem Keeps.of_returns (h : p.Returns fun r => r.server.mt = s.mt)
    (hs : ∀ q ∈ s.mt, q.address ∈ known) : Keeps env known p := by
  intro q hq
  rw [h.exec env] at hq
  exact List.mem_append_left _ (hs q hq)

theorem keeps_ret {r : Round} (h : ∀ q ∈ r.server.mt, q.address ∈ known) :
    Keeps env known (.ret r) :=
  fun q hq => List.mem_append_left _ (h q hq)

theorem Keeps.step {o : ServerCall} {k : o.Ans → ServerM Round}
    (h : Keeps env (known ++ (obtainedIn ⟨o, env o⟩).toList) (k (env o))) :
    Keeps env known (.step o k) := by
  intro q hq
  have hk := h q hq
  rw [List.append_assoc] at hk
  have hcons : (Prog.exec env (.step o k)).2.filterMap obtainedIn
      = (obtainedIn ⟨o, env o⟩).toList ++ ((k (env o)).exec env).2.filterMap obtainedIn := by
    rcases ho : obtainedIn ⟨o, env o⟩ with - | a <;> simp [ho]
  rw [hcons]
  exact hk

theorem Keeps.ite {c : Prop} [Decidable c] (hp : c → Keeps env known p)
    (hq : ¬ c → Keeps env known q) : Keeps env known (if c then p else q) := by
  split
  · next hc => exact hp hc
  · next hc => exact hq hc

theorem registerWithDevice_keeps (attr : GniMemRegisterArgs)
    (hs : ∀ q ∈ s.mt, q.address ∈ known) : Keeps env known (registerWithDevice s cmd ret attr) :=
  .of_returns (s := s) (by simp [registerWithDevice, Round.server]) hs

/-- The one case that adds to the list adds the address it has just attached. -/
theorem serveMemRegister_keeps (hs : ∀ q ∈ s.mt, q.address ∈ known) :
    Keeps env known (serveMemRegister s cmd ret) := by
  refine .ite (fun _ => ?_) fun _ => registerWithDevice_keeps _ _ _ hs
  have hs' : ∀ more, ∀ q ∈ s.mt, q.address ∈ known ++ more := fun more q hq =>
    List.mem_append_left _ (hs q hq)
  refine .step <| .ite (fun _ => keeps_ret (hs' _)) fun _ =>
    .step <| .ite (fun _ => ?_) fun hmap => ?_
  · exact .step <| keeps_ret fun q hq => by simp [hs q hq]
  · refine .step <| registerWithDevice_keeps _ _ _ ?_
    intro q hq
    rw [listAddElement] at hq
    split at hq
    · rcases List.mem_append.mp hq with hq' | hq'
      · simp [hs q hq']
      · rw [List.mem_singleton.mp hq']
        simp [obtainedIn, if_neg hmap]
    · simp [hs q hq]

/-- No request of a client makes the server allocate. -/
theorem commandOf_ne_malloc {c : Client} {env : (o : ClientCall) → o.Ans} {r : Request}
    {code : UInt64} {data : Bytes} (h : commandOf c env r = some (code, data)) :
    code ≠ pmiIocMalloc.toUInt64 := by
  cases r with
  | printed code => cases h
  | _ =>
      obtain ⟨rfl, -⟩ := Prod.mk.inj (Option.some.inj h)
      decide

theorem dispatch_keeps (hcode : cmd.code ≠ pmiIocMalloc.toUInt64)
    (hs : ∀ q ∈ s.mt, q.address ∈ known) : Keeps env known (dispatch s cmd ret) := by
  apply dispatch_cases
  · exact fun _ => .of_returns (serveNicSetattr_mt s cmd ret) hs
  · exact fun _ => serveMemRegister_keeps _ _ hs
  · exact fun _ => .of_returns (servePostRdma_mt s cmd ret) hs
  · exact fun _ => .of_returns (serveCqCreate_mt s cmd ret) hs
  · exact fun _ => .of_returns (serveNicFmaConfig_mt s cmd ret) hs
  · exact fun _ => .of_returns (serveAllgather_mt s cmd ret) hs
  · exact fun _ => .of_returns (serveGetrank_mt s cmd ret) hs
  · exact fun _ => .of_returns (serveGetsize_mt s cmd ret) hs
  · exact fun _ => .of_returns (serveFinalize_mt s cmd ret) hs
  · exact fun h => absurd h hcode
  · exact keeps_ret hs

theorem serve_keeps (hcode : cmd.code ≠ pmiIocMalloc.toUInt64)
    (hs : ∀ q ∈ s.mt, q.address ∈ known) : Keeps (fetching cmd env) known (serve s) := by
  refine .step <| .ite (fun _ => keeps_ret fun q hq => List.mem_append_left _ (hs q hq)) fun _ => ?_
  exact .step <| dispatch_keeps cmd _ hcode fun q hq => by simp [hs q hq]

end Round

section Run

variable {w : World} {e : Event} {es : List Event} {code : UInt64} {data : Bytes}

/-- Every address in the server's list is one that the server obtained. -/
def World.Mapped (w : World) : Prop := ∀ q ∈ w.server.mt, q.address ∈ w.obtained

/-- What a forwarded request adds to the addresses obtained. -/
theorem obtained_ioctl (hl : w.Live)
    (hc : commandOf w.client e.clientEnv e.request = some (code, data)) :
    (w.ioctl e).1.obtained = w.obtained ++
      ((serve w.server).exec (fetching ⟨w.nextCmd, code, data⟩ e.serverEnv)).2.filterMap
        obtainedIn := by
  rw [World.obtained, (ioctl_round hl hc).2, List.filterMap_append, List.filterMap_cons]
  show _ ++ (List.map Entry.server _).filterMap Entry.obtained = _
  rw [filterMap_obtained_server]
  rfl

theorem Mapped.ioctl (hl : w.Live) (h : w.Mapped) : (w.ioctl e).1.Mapped := by
  rcases hc : commandOf w.client e.clientEnv e.request with - | ⟨code, data⟩
  · rw [ioctl_unforwarded hl hc]
    exact h
  · rw [World.Mapped, obtained_ioctl hl hc, (ioctl_round hl hc).1]
    exact serve_keeps _ (commandOf_ne_malloc hc) h

/-- In every reachable state the server's list holds addresses it obtained. -/
theorem mapped_run (hw : w.Initial) : (w.run es).Mapped := by
  refine run_invariant_any World.Mapped hw.live ?_ fun w e hl h => Mapped.ioctl hl h
  intro q hq
  rw [hw.serverList] at hq
  cases hq

/-! ### The addresses of a request -/

/-- What is passed on for a forwarded request: nothing, if `select` fails. -/
theorem passed_ioctl (hl : w.Live)
    (hc : commandOf w.client e.clientEnv e.request = some (code, data)) :
    w.passed e = if e.serverEnv .select = -1 then []
      else ((dispatch w.server ⟨w.nextCmd, code, data⟩ (e.serverEnv .select)).exec
        (fetching ⟨w.nextCmd, code, data⟩ e.serverEnv)).2.flatMap passedIn := by
  rw [World.passed, (ioctl_round hl hc).2, List.drop_left]
  show List.flatMap _ (List.map Entry.server _) = _
  rw [flatMap_passed_server]
  by_cases hsel : e.serverEnv .select = -1
  · rw [if_pos hsel]
    simp [serve, fetching, hsel, passedIn]
  · rw [if_neg hsel, exec_serve _ _ hsel]
    rfl

end Run

section Passed

variable (env : (o : ServerCall) → o.Ans) (s : Server) (cmd : Cmd) (ret : Int)

theorem passed_serveCqCreate : ((serveCqCreate s cmd ret).exec env).2.flatMap passedIn
    = [.stored (listFindVaddrBySegid s.mt (GniCqCreateArgs.codec.decode cmd.data).queue)] := by
  simp only [serveCqCreate, ServerM.ioctl, Prog.call_bind, Prog.exec_step, List.flatMap_cons]
  split <;> rfl

theorem passed_servePostRdma : ((servePostRdma s cmd ret).exec env).2.flatMap passedIn
    = [.stored (listFindVaddrBySegid s.mt (GniPostDescriptor.codec.decode
        (cmd.data.take GniPostDescriptor.codec.size)).localAddr)] := by
  simp only [servePostRdma, ServerM.ioctl, Prog.call_bind, Prog.exec_step, List.flatMap_cons]
  split <;> rfl

theorem passed_registerWithDevice (a : GniMemRegisterArgs) :
    ((registerWithDevice s cmd ret a).exec env).2.flatMap passedIn
      = if a.segmentsCnt = 1 then [.stored a.address]
        else .sent a.address :: (List.range a.segmentsCnt.toNat).map (.listed a.memSegments) := by
  simp only [registerWithDevice, ServerM.ioctl, Prog.call_bind, Prog.exec_step, List.flatMap_cons]
  split <;> exact List.append_nil _

/-- The segmented form goes to the device as the client sent it. -/
theorem registers_as_sent {a : GniMemRegisterArgs}
    (ha : GniMemRegisterArgs.codec.decode cmd.data = a) (hone : a.segmentsCnt ≠ 1) :
    serveMemRegister s cmd ret = registerWithDevice s cmd ret a := by
  subst ha
  exact if_neg hone

/-- A registration passes on where it was attached, if it is not segmented. -/
theorem mem_passed_serveMemRegister {a : GniMemRegisterArgs}
    (ha : GniMemRegisterArgs.codec.decode cmd.data = a) (hone : a.segmentsCnt = 1) (p : Passed) :
    p ∈ ((serveMemRegister s cmd ret).exec env).2.flatMap passedIn ↔
      0 < env (.xememGet a.address) ∧ attached env a ≠ mapFailed ∧
        p = .stored (attached env a) := by
  subst ha
  rw [serveMemRegister, attached, if_pos hone]
  simp only [ServerM.xememGet, Prog.call_bind, Prog.exec_step, List.flatMap_cons]
  show p ∈ [] ++ _ ↔ _
  rw [List.nil_append]
  by_cases hget : env (.xememGet (GniMemRegisterArgs.codec.decode cmd.data).address) ≤ 0
  · simp [hget, not_lt.mpr hget]
  · simp only [hget, if_false, ServerM.xememAttach, Prog.call_bind, Prog.exec_step,
      List.flatMap_cons]
    show p ∈ [] ++ _ ↔ _
    rw [List.nil_append]
    by_cases hmap : env (.xememAttach
        (env (.xememGet (GniMemRegisterArgs.codec.decode cmd.data).address))
        (GniMemRegisterArgs.codec.decode cmd.data).length) = mapFailed
    · simp [hmap, passedIn]
    · simp only [hmap, if_false, ServerM.malloc, Prog.call_bind, Prog.exec_step,
        List.flatMap_cons, passed_registerWithDevice, hone, if_true]
      simp [passedIn, not_le.mp hget, hmap]

theorem attached_mem_obtained {a : GniMemRegisterArgs}
    (ha : GniMemRegisterArgs.codec.decode cmd.data = a) (hone : a.segmentsCnt = 1)
    (hget : 0 < env (.xememGet a.address)) (hmap : attached env a ≠ mapFailed) :
    attached env a ∈ ((serveMemRegister s cmd ret).exec env).2.filterMap obtainedIn := by
  subst ha
  refine List.mem_filterMap.mpr ⟨⟨.xememAttach
    (env (.xememGet (GniMemRegisterArgs.codec.decode cmd.data).address))
    (GniMemRegisterArgs.codec.decode cmd.data).length, attached env _⟩, ?_, if_neg hmap⟩
  rw [serveMemRegister, if_pos hone]
  simp only [ServerM.xememGet, Prog.call_bind, Prog.exec_step, not_le.mpr hget, if_false,
    ServerM.xememAttach]
  exact List.mem_cons_of_mem _ List.mem_cons_self

/-- Nothing is passed on while the ranks are learnt. -/
theorem passed_rankOrder (g : Gather) : ((rankOrder g).exec env).2.flatMap passedIn = [] := by
  have hall : (rankOrder g).All fun o => ∀ r, passedIn ⟨o, r⟩ = [] := by
    rw [rankOrder, Prog.all_ite]
    exact ⟨fun _ => trivial, fun _ => by simp [learnRanks, passedIn]⟩
  refine List.flatMap_eq_nil_iff.mpr fun c hc => ?_
  exact hall.of_mem_exec hc c.2

theorem mem_passed_gatherBlocks {p : Passed} {g : Gather} {inp out : Bytes} {len : Nat}
    (hlen : inp.length = MdhAddr.codec.size) :
    p ∈ ((gatherBlocks g inp out len).exec env).2.flatMap passedIn ↔
      (g.alreadyCalled = false → RanksOk env) ∧ env (.malloc .tmpBuf) = true ∧
        p = .stored (MdhAddr.codec.decode inp).addr := by
  rw [gatherBlocks, Prog.exec_bind, List.flatMap_append, passed_rankOrder, List.nil_append]
  by_cases hr : g.alreadyCalled = false → RanksOk env
  · rw [exec_rankOrder_some env hr, and_iff_right hr]
    cases htmp : env (.malloc .tmpBuf) with
    | false => simp [htmp, passedIn]
    | true =>
        simp only [ServerM.malloc, Prog.call_bind, Prog.exec_step, htmp, List.flatMap_cons]
        cases hb : (env (.pmiAllgather .blocks inp len)).1 <;> simp [hb, passedIn, hlen]
  · obtain ⟨hg, hbad⟩ := Classical.not_imp.mp hr
    simp [rankOrder, hg, exec_learnRanks_none env hbad, hbad]

theorem mem_passed_serveAllgather (hlen : cmd.data.length = MdhAddr.codec.size) (p : Passed) :
    p ∈ ((serveAllgather s cmd ret).exec env).2.flatMap passedIn ↔
      (env .mallocOut).isSome = true ∧ (s.gather.alreadyCalled = false → RanksOk env) ∧
        env (.malloc .tmpBuf) = true ∧
        p = .stored (listFindVaddrBySegid s.mt (MdhAddr.codec.decode cmd.data).addr) := by
  have hin : gatherInput s cmd.data = MdhAddr.codec.encode { MdhAddr.codec.decode cmd.data with
      addr := listFindVaddrBySegid s.mt (MdhAddr.codec.decode cmd.data).addr } := if_pos hlen
  rw [serveAllgather, ServerM.mallocOut, Prog.call_bind, Prog.exec_step, List.flatMap_cons]
  show p ∈ [] ++ _ ↔ _
  rw [List.nil_append]
  rcases hout : env .mallocOut with - | contents
  · simp
  · rw [hin, Prog.exec_bind, List.flatMap_append, List.mem_append,
      mem_passed_gatherBlocks env (Codec.length_encode _ _), Codec.decode_encode]
    -- the reply that may follow passes nothing on
    generalize (Prog.exec env (gatherBlocks _ _ _ _)).1 = result
    rcases result with - | ⟨g, out⟩ <;> simp [passedIn]

end Passed

/-! ### Exactly when the addresses are the server's own -/

section Own

variable {w : World} {e : Event} {es : List Event}

/-- The requests that hand an address to the proxy. -/
def Event.Addressed (e : Event) : Prop :=
  match e.request with
  | .memRegister _ => True
  | .cqCreate _ => True
  | .postRdma _ _ => True
  | .allgather a _ _ => a.inDataLen.toNat = MdhAddr.codec.size
  | _ => False

variable (w e) in
/-- The round gets as far as the call that takes the address. -/
def World.Reaches : Prop :=
  e.serverEnv .select ≠ -1 ∧
    match e.request with
    | .allgather _ _ _ => (e.serverEnv .mallocOut).isSome = true ∧
        (w.server.gather.alreadyCalled = false → RanksOk e.serverEnv) ∧
        e.serverEnv (.malloc .tmpBuf) = true
    | _ => True

/-- The segment that the client finds for an address is in the server's list. -/
def World.Known (w : World) (addr : UInt64) : Prop :=
  listFindSegidByVaddr w.client.mt addr ∈ w.server.mt.map XpmemSeg.segid

variable (w e) in
/-- The address of a request belongs to a segment that both sides know; a
registration is not segmented. -/
def World.Backed : Prop :=
  match e.request with
  | .memRegister a => a.segmentsCnt = 1
  | .cqCreate a => w.Known a.queue
  | .postRdma _ desc => w.Known desc.localAddr
  | .allgather _ inData _ =>
      w.Known (MdhAddr.codec.decode (inData.take MdhAddr.codec.size)).addr
  | _ => True

/-- The lookup of a segment id gives an address of the server exactly if it finds
the segment. -/
theorem lookup_obtained_iff (h : w.Mapped) {more : List UInt64} (hmore : notFound ∉ more)
    (segid : UInt64) :
    listFindVaddrBySegid w.server.mt segid ∈ w.obtained ++ more ↔
      segid ∈ w.server.mt.map XpmemSeg.segid := by
  rcases hf : w.server.mt.find? fun p => decide (p.segid = segid) with - | p
  · -- a miss is the word -1
    have hnone : segid ∉ w.server.mt.map XpmemSeg.segid := by
      intro hmem
      obtain ⟨p, hp, rfl⟩ := List.mem_map.mp hmem
      exact List.find?_eq_none.mp hf p hp (decide_eq_true rfl)
    refine iff_of_false ?_ hnone
    rw [listFindVaddrBySegid_eq, hf, List.mem_append]
    exact not_or.mpr ⟨notFound_not_obtained w, hmore⟩
  · have hp := List.mem_of_find?_eq_some hf
    have hkey : p.segid = segid := by simpa using List.find?_some hf
    rw [listFindVaddrBySegid_of_find? hf]
    refine iff_of_true (List.mem_append_left _ (h p hp)) ?_
    exact List.mem_map.mpr ⟨p, hp, hkey⟩

/-- A request that passes on the answer of one lookup, if it gets that far. -/
theorem ownAddresses_of_lookup {code : UInt64} {data : Bytes} {R : Prop} {segid : UInt64}
    (hl : w.Live) (hm : w.Mapped)
    (hc : commandOf w.client e.clientEnv e.request = some (code, data))
    (hpass : ∀ p, p ∈ w.passed e ↔ R ∧ p = .stored (listFindVaddrBySegid w.server.mt segid)) :
    w.OwnAddresses e ↔ (R → segid ∈ w.server.mt.map XpmemSeg.segid) := by
  have hmore := notFound_not_obtained (w.ioctl e).1
  rw [obtained_ioctl hl hc, List.mem_append] at hmore
  have hlookup := lookup_obtained_iff hm (not_or.mp hmore).2 segid
  rw [World.OwnAddresses, obtained_ioctl hl hc]
  constructor
  · intro h hR
    exact hlookup.mp (h _ ((hpass _).mpr ⟨hR, rfl⟩))
  · intro h p hp
    obtain ⟨hR, rfl⟩ := (hpass p).mp hp
    exact hlookup.mpr (h hR)

/-- A block of the size of a handle is sent with the segment id of its address. -/
theorem block_handle {a : PmiAllgatherArgs} (inData : Bytes)
    (h : a.inDataLen.toNat = MdhAddr.codec.size) :
    w.block a inData = MdhAddr.codec.encode
      { MdhAddr.codec.decode (inData.take MdhAddr.codec.size) with
        addr := listFindSegidByVaddr w.client.mt
          (MdhAddr.codec.decode (inData.take MdhAddr.codec.size)).addr } := by
  rw [World.block, gatherData, if_pos h, h]
  exact List.take_left' (Codec.length_encode _ _)

/-- A round that ends before it has a command passes nothing on. -/
theorem ownAddresses_of_select (hl : w.Live) (hsel : e.serverEnv .select = -1) :
    w.OwnAddresses e := by
  rcases hc : commandOf w.client e.clientEnv e.request with - | ⟨code, data⟩
  · rw [World.OwnAddresses, World.passed, ioctl_unforwarded hl hc, List.drop_length]
    exact fun a ha => absurd ha List.not_mem_nil
  · rw [World.OwnAddresses, passed_ioctl hl hc, if_pos hsel]
    exact fun a ha => absurd ha List.not_mem_nil

theorem ownAddresses_memRegister {a : GniMemRegisterArgs} (hl : w.Live)
    (hreq : e.request = .memRegister a) (hsel : e.serverEnv .select ≠ -1) :
    w.OwnAddresses e ↔ w.Backed e := by
  have hc : commandOf w.client e.clientEnv e.request
      = some (gniIocMemRegister.toUInt64, GniMemRegisterArgs.codec.encode (e.sent a)) := by
    rw [hreq]
    rfl
  have hbacked : w.Backed e ↔ a.segmentsCnt = 1 := by
    rw [World.Backed, hreq]
  rw [hbacked, World.OwnAddresses, passed_ioctl hl hc, if_neg hsel, obtained_ioctl hl hc,
    exec_serve _ _ hsel, dispatch_memRegister, List.filterMap_cons_none rfl,
    List.filterMap_cons_none rfl]
  constructor
  · -- the segment id in a segmented registration is not the server's
    intro h
    by_contra hone
    have hsent : (e.sent a).segmentsCnt ≠ 1 := hone
    rw [registers_as_sent _ _ _ (Codec.decode_encode _ (e.sent a)) hsent,
      passed_registerWithDevice, if_neg hsent] at h
    exact h _ List.mem_cons_self
  · -- what is passed on was attached in this very round
    intro hone p hp
    have hsent : (e.sent a).segmentsCnt = 1 := hone
    obtain ⟨hget, hmap, rfl⟩ := (mem_passed_serveMemRegister _ _ _ _
      (Codec.decode_encode _ (e.sent a)) hsent p).mp hp
    refine List.mem_append_right _ ?_
    exact attached_mem_obtained _ _
      ⟨w.nextCmd, gniIocMemRegister.toUInt64, GniMemRegisterArgs.codec.encode (e.sent a)⟩ _
      (Codec.decode_encode _ (e.sent a)) hsent hget hmap

/-- **Only server-side addresses reach the device and PMI** exactly if the request
does not get that far or its address belongs to a segment that both sides know. -/
theorem ownAddresses_iff (hw : w.Initial) (hwait : (w.run es).waiting = none)
    (he : e.Addressed) :
    (w.run es).OwnAddresses e ↔ ((w.run es).Reaches e → (w.run es).Backed e) := by
  have hl := run_live hw.live hwait
  have hm : (w.run es).Mapped := mapped_run hw
  generalize w.run es = w at hl hm
  by_cases hsel : e.serverEnv .select = -1
  · exact iff_of_true (ownAddresses_of_select hl hsel) fun h => absurd hsel h.1
  rw [World.Reaches, and_iff_right hsel]
  rw [Event.Addressed] at he
  cases hreq : e.request with
  | memRegister a =>
      rw [ownAddresses_memRegister hl hreq hsel]
      exact ⟨fun h _ => h, fun h => h trivial⟩
  | cqCreate a =>
      have hc : commandOf w.client e.clientEnv e.request = some (gniIocCqCreate.toUInt64,
          GniCqCreateArgs.codec.encode
            { a with queue := listFindSegidByVaddr w.client.mt a.queue }) := by
        rw [hreq]
        rfl
      rw [World.Backed, hreq]
      refine ownAddresses_of_lookup hl hm hc fun p => ?_
      rw [passed_ioctl hl hc, if_neg hsel, dispatch_cqCreate, passed_serveCqCreate,
        Codec.decode_encode, List.mem_singleton, true_and]
  | postRdma a desc =>
      have hc : commandOf w.client e.clientEnv e.request = some (gniIocPostRdma.toUInt64,
          GniPostDescriptor.codec.encode
            { desc with localAddr := listFindSegidByVaddr w.client.mt desc.localAddr }
            ++ GniPostRdmaArgs.codec.encode a) := by
        rw [hreq]
        rfl
      rw [World.Backed, hreq]
      refine ownAddresses_of_lookup hl hm hc fun p => ?_
      rw [passed_ioctl hl hc, if_neg hsel, dispatch_postRdma, passed_servePostRdma,
        Codec.decode_take_append, List.mem_singleton, true_and]
  | allgather a inData outData =>
      rw [hreq] at he
      have hblock := block_handle (w := w) inData he
      have hc : commandOf w.client e.clientEnv e.request
          = some (pmiIocAllgather.toUInt64, w.block a inData) := by
        rw [hreq]
        rfl
      rw [World.Backed, hreq]
      refine ownAddresses_of_lookup hl hm hc fun p => ?_
      rw [passed_ioctl hl hc, if_neg hsel, dispatch_allgather,
        mem_passed_serveAllgather _ _ _ _ (by rw [hblock, Codec.length_encode]), hblock,
        Codec.decode_encode, and_assoc, and_assoc]
      rfl
  | _ =>
      rw [hreq] at he
      exact he.elim

/-- A post from a registered buffer. -/
theorem ownAddresses_registered :
    freshWorld.Initial ∧
      (freshWorld.run [registerEvent 5 0x1000 0x100 0x20000]).waiting = none ∧
      (freshWorld.run [registerEvent 5 0x1000 0x100 0x20000]).OwnAddresses
        (postEvent 5 0x1010) := by
  have hwait : (freshWorld.run [registerEvent 5 0x1000 0x100 0x20000]).waiting = none := rfl
  refine ⟨freshWorld_initial, hwait, ?_⟩
  have haddr : (postEvent 5 0x1010).Addressed := trivial
  refine (ownAddresses_iff freshWorld_initial hwait haddr).mpr fun _ => ?_
  exact show listFindSegidByVaddr _ 0x1010 ∈ List.map XpmemSeg.segid _ by decide

/-- A post from a buffer that nobody registered shows the device the word -1, and a
segmented registration shows it a segment id and a list of the client. -/
theorem ownAddresses_fails :
    freshWorld.Initial ∧ freshWorld.waiting = none ∧
      freshWorld.passed (postEvent 5 0x1000) = [.stored notFound] ∧
      ¬ freshWorld.OwnAddresses (postEvent 5 0x1000) ∧
      freshWorld.passed (calmEvent (.memRegister { (default : GniMemRegisterArgs) with
        segmentsCnt := 2, memSegments := 0x1000 })) =
          [.sent 5, .listed 0x1000 0, .listed 0x1000 1] ∧
      ¬ freshWorld.OwnAddresses (calmEvent (.memRegister { (default : GniMemRegisterArgs) with
        segmentsCnt := 2, memSegments := 0x1000 })) := by
  refine ⟨freshWorld_initial, rfl, by decide, ?_, by decide, ?_⟩
  · intro h
    have hown : notFound ∈ (freshWorld.ioctl (postEvent 5 0x1000)).1.obtained :=
      h (.stored notFound) (by decide)
    exact notFound_not_obtained _ hown
  · intro h
    exact h (.sent 5) (by decide)

end Own

end Nvl.StaticLink

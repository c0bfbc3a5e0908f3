/-
Nvl/StaticLink/Gathers.lean

A gather as the applications make it, through `gather` of their utility
functions, at any time and with any data.

Each rank has its own history, whatever it was, as long as the client came
through it.  Two things of the history matter:

* how often the rank has gathered before; its server's statics are those of
  `Caches`, and the order of PMI cancels out as it does for one server call;
* whether it has asked for the size, because the copy back takes
  `comm_size * len` bytes and `comm_size` is 0 before.

`reply_eq_rankOrdered` is what the server returns; what the application finds is
then a question about the copy and about the one block size that both sides
take for a memory handle.
-/
import Nvl.StaticLink.Allgather
import Nvl.StaticLink.Collective

namespace Nvl.StaticLink

open SysLib

variable {w : World} {e : Event} {es : List Event}

/-! ### The collectives of a run -/

/-- The collectives a server has taken part in. -/
def World.gatherLog (w : World) : List Collective :=
  w.log.filterMap fun x => match x with
    | .server c => collectiveIn c
    | .issued _ => none

theorem gatherLog_map_server (tr : Prog.Trace ServerCall ServerCall.Ans) :
    (tr.map Entry.server).filterMap (fun x => match x with
      | .server c => collectiveIn c
      | .issued _ => none) = tr.filterMap collectiveIn := List.filterMap_map

/-- A forwarded request adds the collectives of its round. -/
theorem gatherLog_round (hl : w.Live) {code : UInt64} {data : Bytes}
    (hc : commandOf w.client e.clientEnv e.request = some (code, data)) :
    (w.ioctl e).1.gatherLog = w.gatherLog ++
      ((serve w.server).exec (fetching ⟨w.nextCmd, code, data⟩ e.serverEnv)).2.filterMap
        collectiveIn := by
  rw [World.gatherLog, (ioctl_round hl hc).2, List.filterMap_append, List.filterMap_cons_none rfl,
    gatherLog_map_server]
  rfl

def isCollective : ServerCall → Bool
  | .pmiAllgather _ _ _ => true
  | _ => false

theorem collectiveIn_eq_none {c : Σ o : ServerCall, o.Ans} (h : isCollective c.1 = false) :
    collectiveIn c = none := by
  obtain ⟨o, r⟩ := c
  cases o with
  | pmiAllgather _ _ _ => cases h
  | _ => rfl

/-- No other case of the server makes a collective. -/
theorem all_dispatch (s : Server) (cmd : Cmd) (ret : Int)
    (h : cmd.code ≠ pmiIocAllgather.toUInt64) :
    (dispatch s cmd ret).All fun o => isCollective o = false := by
  apply dispatch_cases
  · simp [serveNicSetattr, isCollective]
  · simp [serveMemRegister, registerWithDevice, isCollective]
  · simp [servePostRdma, isCollective]
  · simp [serveCqCreate, isCollective]
  · simp [serveNicFmaConfig, isCollective]
  · exact fun hcode => absurd hcode h
  · simp [serveGetrank, isCollective]
  · simp [serveGetsize, isCollective]
  · simp [serveFinalize, isCollective]
  · simp [serveMalloc, isCollective]
  · simp

/-- A request that is not a gather adds no collective. -/
theorem gatherLog_other (hl : w.Live) (hs : w.Served e)
    (hno : ∀ a inData outData, e.request ≠ .allgather a inData outData) :
    (w.ioctl e).1.gatherLog = w.gatherLog := by
  rcases hc : commandOf w.client e.clientEnv e.request with - | ⟨code, data⟩
  · rw [ioctl_unforwarded hl hc]
  · have hcode : code ≠ pmiIocAllgather.toUInt64 := by
      cases hreq : e.request with
      | allgather a inData outData => exact absurd hreq (hno a inData outData)
      | printed k =>
          rw [hreq] at hc
          cases hc
      | _ =>
          rw [hreq] at hc
          obtain ⟨rfl, -⟩ := Prod.mk.inj (Option.some.inj hc)
          decide
    have hall := all_dispatch w.server ⟨w.nextCmd, code, data⟩ (e.serverEnv .select) hcode
    rw [gatherLog_round hl hc, exec_serve _ _ (select_of_served hs hc),
      List.filterMap_cons_none rfl, List.filterMap_cons_none rfl]
    refine (congrArg _ (List.filterMap_eq_nil_iff.mpr ?_)).trans (List.append_nil _)
    intro c hmem
    exact collectiveIn_eq_none (hall.of_mem_exec hmem)

section Gather

variable {a : PmiAllgatherArgs} {inData outData : Bytes}

/-- A gather adds its own collectives, and the statics follow. -/
theorem gatherLog_allgather (hl : w.Live) (hs : w.Served e)
    (hreq : e.request = .allgather a inData outData) :
    (w.ioctl e).1.gatherLog = w.gatherLog ++ w.server.gather.calls e.serverEnv
        (gatherInput w.server (w.block a inData)) (w.block a inData).length ∧
      (w.ioctl e).1.server.gather = w.server.gather.orLearnt e.serverEnv := by
  have hc : commandOf w.client e.clientEnv e.request
      = some (pmiIocAllgather.toUInt64, w.block a inData) := by
    rw [hreq]
    rfl
  have hok := hs.gatherOk hreq
  constructor
  · obtain ⟨hans, -, -⟩ := hs
    rw [World.Answerable, hreq] at hans
    obtain ⟨contents, hout⟩ := Option.isSome_iff_exists.mp hans.2.1
    have hfetched := hok.fetching ⟨w.nextCmd, pmiIocAllgather.toUInt64, w.block a inData⟩
    have hcalls := collectives_gatherBlocks hfetched
      (freshOut contents (w.server.jobSize.toNat * (w.block a inData).length))
    have hround := exec_gatherBlocks_some _
      (freshOut contents (w.server.jobSize.toNat * (w.block a inData).length)) hfetched
    have hmalloc : fetching ⟨w.nextCmd, pmiIocAllgather.toUInt64, w.block a inData⟩ e.serverEnv
        .mallocOut = some contents := hout
    rw [gatherLog_round hl hc, exec_serve _ _ hans.1, dispatch_allgather, serveAllgather,
      List.filterMap_cons_none rfl, List.filterMap_cons_none rfl, ServerM.mallocOut, Prog.call_bind,
      Prog.exec_step, List.filterMap_cons_none rfl, hmalloc]
    simp only [Prog.exec_bind]
    rw [← freshOut, hround, List.filterMap_append, hcalls]
    exact congrArg _ (List.append_nil _)
  · rw [(ioctl_served hl hs).server, World.reply, hreq]
    rfl

end Gather

def Event.isGather (e : Event) : Bool :=
  match e.request with
  | .allgather _ _ _ => true
  | _ => false

theorem isGather_iff : e.isGather = true ↔
    ∃ a inData outData, e.request = .allgather a inData outData := by
  rw [Event.isGather]
  cases e.request <;> simp

/-- How often a run gathers. -/
def gatherCount (es : List Event) : Nat := es.countP Event.isGather

/-- What a server has cached follows the gathers of its run. -/
theorem caches_run {rank size : UInt32} {k : Nat} (hl : w.Live)
    (hwait : (w.run es).waiting = none) (hrank : ∀ e ∈ es, (e.serverEnv .pmiGetRank).2 = rank)
    (hsize : ∀ e ∈ es, (e.serverEnv .pmiGetSize).2 = size)
    (h : Caches rank size k w.gatherLog w.server.gather) :
    Caches rank size (k + gatherCount es) (w.run es).gatherLog (w.run es).server.gather := by
  induction es generalizing w k with
  | nil => exact h
  | cons e es ih =>
      have hs := served_of_returned hl hwait
      have hnext := fun k => ih (k := k) (ioctl_served hl hs).live hwait
        (fun e' he' => hrank e' (List.mem_cons_of_mem _ he'))
        (fun e' he' => hsize e' (List.mem_cons_of_mem _ he'))
      obtain rfl := hrank e List.mem_cons_self
      obtain rfl := hsize e List.mem_cons_self
      cases hreq : e.isGather with
      | true =>
          obtain ⟨a, inData, outData, hg⟩ := isGather_iff.mp hreq
          obtain ⟨hlog, hgather⟩ := gatherLog_allgather hl hs hg
          have hcall := h.call (gatherInput w.server (w.block a inData)) (w.block a inData).length
          rw [← hlog, ← hgather] at hcall
          rw [gatherCount, List.countP_cons_of_pos hreq, Nat.add_comm _ 1, ← Nat.add_assoc]
          exact hnext (k + 1) hcall
      | false =>
          have hno : ∀ a inData outData, e.request ≠ .allgather a inData outData := by
            intro a inData outData hg
            rw [isGather_iff.mpr ⟨a, inData, outData, hg⟩] at hreq
            cases hreq
          have hgather : (w.ioctl e).1.server.gather = w.server.gather := by
            rw [(ioctl_served hl hs).server]
            obtain ⟨d, r, clientEnv, serverEnv⟩ := e
            cases r with
            | allgather a inData outData => exact absurd rfl (hno a inData outData)
            | memRegister a =>
                show (registered w.server serverEnv _).gather = _
                rw [registered]
                split <;> rfl
            | _ => rfl
          rw [← gatherLog_other hl hs hno, ← hgather] at h
          rw [gatherCount, List.countP_cons_of_neg (by simp [hreq])]
          exact hnext k h

/-! ### What the lists can hold -/

/-- Every entry of the two lists comes from a registration of the run. -/
structure ListsFrom (w : World) (regs : List Registration) : Prop where
  client : ∀ q ∈ w.client.mt, ∃ r ∈ regs, q = r.clientSeg
  server : ∀ q ∈ w.server.mt, ∃ r ∈ regs, q.segid = r.segid

theorem ListsFrom.ioctl {regs : List Registration} (h : ListsFrom w regs) (hl : w.Live)
    (hs : w.Served e) (hreg : ∀ r ∈ e.registration, r ∈ regs) : ListsFrom (w.ioctl e).1 regs := by
  have hc := ioctl_served hl hs
  obtain ⟨d, r, clientEnv, serverEnv⟩ := e
  cases r with
  | memRegister a =>
      have hr := hreg _ rfl
      constructor
      · intro q hq
        rw [hc.client] at hq
        rcases mem_listAddElement hq with hq | rfl
        · exact h.client q hq
        · exact ⟨_, hr, rfl⟩
      · intro q hq
        rw [hc.server] at hq
        replace hq : q ∈ (registered w.server serverEnv _).mt := hq
        rw [registered] at hq
        split at hq
        · rcases mem_listAddElement hq with hq | rfl
          · exact h.server q hq
          · exact ⟨_, hr, rfl⟩
        · exact h.server q hq
  | _ =>
      constructor
      · rw [hc.client]
        exact h.client
      · rw [hc.server]
        exact h.server

theorem listsFrom_run (hw : w.Initial) (hwait : (w.run es).waiting = none) :
    ListsFrom (w.run es) (registrations es) := by
  refine run_invariant_returned (fun w => ListsFrom w (registrations es)) hw.live ?_ hwait ?_
  · constructor
    · rw [hw.clientList]
      exact fun q hq => absurd hq List.not_mem_nil
    · rw [hw.serverList]
      exact fun q hq => absurd hq List.not_mem_nil
  · intro w' e he hl hs h
    exact h.ioctl hl hs fun r hr => List.mem_filterMap.mpr ⟨e, he, hr⟩

/-! ### `gather` -/

/-- The arguments `gather` fills in: the length is an `int`, its field a `uint16_t`.
`comm_size` is left as the stack had it. -/
def gatherArgs (stack : UInt32) (inp out : UInt64) (len : Nat) : PmiAllgatherArgs where
  commSize := stack
  inData := inp
  inDataLen := UInt16.ofNat len
  outData := out

/-- A rank that calls `gather`: how it started and what it did before, its buffers
and where they are, and what the outside answers. -/
structure Member where
  start : World
  history : List Event
  inp : Bytes
  out : Bytes
  inAddr : UInt64
  outAddr : UInt64
  stack : UInt32
  clientEnv : (o : ClientCall) → o.Ans
  serverEnv : (o : ServerCall) → o.Ans

namespace Member

variable (m : Member) (len : Nat)

def args : PmiAllgatherArgs := gatherArgs m.stack m.inAddr m.outAddr len

/-- The `ioctl` of `gather (in, out, len)`, with `out` as given. -/
def event (out : Bytes) : Event :=
  ⟨.pmi, .allgather (m.args len) m.inp out, m.clientEnv, m.serverEnv⟩

/-- The state in which the call is made. -/
def world : World := m.start.run m.history

/-- What its server hands to the collective. -/
def contribution : Bytes := gatherInput m.world.server (m.world.block (m.args len) m.inp)

/-- Its part in the collective. -/
def turn : Turn :=
  ⟨m.world.gatherLog, m.world.server.gather, m.serverEnv, m.contribution len⟩

/-- The collectives of a rank up to and including its call. -/
def collectives : List Collective := (m.world.ioctl (m.event len m.out)).1.gatherLog

/-- Rank number `rank` of `n` makes its `k`-th gather, of `len` bytes: it got
through its history, PMI knows the job, and the calls of the gather itself
succeed.  The products of `int`s in the code do not overflow. -/
structure Joins (n rank k : Nat) : Prop where
  initial : m.start.Initial
  unfetched : m.start.client.commSize = 0
  returned : m.world.waiting = none
  /-- `main` asks PMI for the size before its loop -/
  jobSize : m.start.server.jobSize.toNat = n
  sizes : ∀ e ∈ m.event len m.out :: m.history,
    (e.serverEnv .pmiGetSize).2 = m.start.server.jobSize
  number : ∀ e ∈ m.event len m.out :: m.history, (e.serverEnv .pmiGetRank).2.toNat = rank
  earlier : gatherCount m.history = k
  block : m.inp.length = len
  room : n * len ≤ m.out.length
  ok : CallsSucceed (m.event len m.out)
  fits : n * len < 2 ^ 31

end Member

section Block

theorem length_gatherInput (s : Server) (data : Bytes) :
    (gatherInput s data).length = data.length := by
  rw [gatherInput]
  split
  next h => rw [Codec.length_encode, h]
  · rfl

/-- The client sends as many bytes as the length field says. -/
theorem length_block {a : PmiAllgatherArgs} {inData : Bytes}
    (h : a.inDataLen.toNat ≤ inData.length) :
    (w.block a inData).length = a.inDataLen.toNat := by
  rw [World.block, List.length_take, gatherData]
  split
  next hsize =>
    rw [hsize] at h ⊢
    rw [List.length_append, Codec.length_encode, List.length_drop]
    omega
  · omega

end Block

section Members

variable {n k len : Nat} {σ : Equiv.Perm (Fin n)} {ms : Fin n → Member}

namespace Member.Joins

variable {m : Member} {rank : Nat}

theorem live (h : m.Joins len n rank k) : m.world.Live := run_live h.initial.live h.returned

theorem served (h : m.Joins len n rank k) (out : Bytes) : m.world.Served (m.event len out) := by
  have hok : CallsSucceed (m.event len out) := ⟨⟨h.ok.ioctl, h.ok.pmiGetSize, h.ok.pmiGetRank,
    h.ok.pmiAllgather⟩, h.ok.clientMalloc, h.ok.clientGet, h.ok.clientAttach, h.ok.select,
    h.ok.malloc, h.ok.mallocOut, h.ok.xememGet, h.ok.xememAttach⟩
  exact hok.served trivial

theorem serverSize (h : m.Joins len n rank k) : m.world.server.jobSize.toNat = n := by
  rw [Member.world, jobSize_run h.initial.live h.returned
    (fun e he => h.sizes e (List.mem_cons_of_mem _ he)) rfl, h.jobSize]

/-- The length that goes over the queue. -/
theorem length_contribution (h : m.Joins len n rank k) :
    (m.world.block (m.args len) m.inp).length = len % 2 ^ 16 ∧
      (m.contribution len).length = len % 2 ^ 16 := by
  have hle : (m.args len).inDataLen.toNat ≤ m.inp.length := by
    rw [h.block]
    exact Nat.mod_le _ _
  have hblock := length_block (w := m.world) hle
  exact ⟨hblock, (length_gatherInput _ _).trans hblock⟩

theorem collectives_eq (h : m.Joins len n rank k) :
    m.collectives len = (m.turn len).log (len % 2 ^ 16) := by
  rw [Member.collectives, (gatherLog_allgather h.live (h.served m.out) rfl).1,
    h.length_contribution.1]
  rfl

theorem inJob (h : m.Joins len n rank k) :
    (m.turn len).InJob n rank k (len % 2 ^ 16) := by
  have hsize : ∀ e ∈ m.history, (e.serverEnv .pmiGetSize).2 = (m.serverEnv .pmiGetSize).2 :=
    fun e he => (h.sizes e (List.mem_cons_of_mem _ he)).trans
      (h.sizes _ List.mem_cons_self).symm
  have hrank : ∀ e ∈ m.history, (e.serverEnv .pmiGetRank).2 = (m.serverEnv .pmiGetRank).2 :=
    fun e he => UInt32.toNat_inj.mp ((h.number e (List.mem_cons_of_mem _ he)).trans
      (h.number _ List.mem_cons_self).symm)
  have hnone : Caches (m.serverEnv .pmiGetRank).2 (m.serverEnv .pmiGetSize).2 0
      m.start.gatherLog m.start.server.gather := by
    rw [World.gatherLog, h.initial.noLog]
    exact .none h.initial.noGather
  have hcaches := caches_run h.initial.live h.returned hrank hsize hnone
  rw [Nat.zero_add, h.earlier] at hcaches
  refine ⟨hcaches, h.number _ List.mem_cons_self, ?_, h.length_contribution.2⟩
  exact (congrArg UInt32.toNat (h.sizes _ List.mem_cons_self)).trans h.jobSize

end Member.Joins

/-- The contributions of all ranks, in the order of the ranks. -/
def rankOrdered (ms : Fin n → Member) (len : Nat) : Bytes :=
  (List.ofFn fun r => (ms r).contribution len).flatten

theorem length_rankOrdered (hms : ∀ r, (ms r).Joins len n r k) :
    (rankOrdered ms len).length = n * (len % 2 ^ 16) :=
  length_flatten_ofFn fun r => (hms r).length_contribution.2

variable (hms : ∀ r, (ms r).Joins len n r k)
  (hpmi : PmiOrder σ fun r => (ms r).collectives len)
include hms hpmi

/-- A server's reply is the contributions in the order of the ranks. -/
theorem reply_eq_rankOrdered (r : Fin n) (out : Bytes) :
    ((ms r).world.reply ((ms r).event len out)).data = rankOrdered ms len := by
  have h := hms r
  have hjob : ∀ q, ((ms q).turn len).InJob n q k (len % 2 ^ 16) :=
    fun q => (hms q).inJob
  have horder : PmiOrder σ fun q => ((ms q).turn len).log (len % 2 ^ 16) := by
    have hlogs : (fun q => (ms q).collectives len)
        = fun q => ((ms q).turn len).log (len % 2 ^ 16) :=
      funext fun q => (hms q).collectives_eq
    rw [← hlogs]
    exact hpmi
  have hreply : ((ms r).world.reply ((ms r).event len out)).data
      = (((ms r).turn len).loop
          (freshOut (((ms r).serverEnv .mallocOut).getD fun _ => 0) (n * (len % 2 ^ 16)))
          (len % 2 ^ 16)).1 := by
    rw [← gathered_eq_loop]
    show gathered _ _ _ (freshOut _ (_ * ((ms r).world.block _ _).length))
      ((ms r).world.block _ _).length = _
    rw [h.length_contribution.1, h.serverSize]
    rfl
  have hplaced := placed_loop hjob horder r (length_freshOut
    (((ms r).serverEnv .mallocOut).getD fun _ => 0) (n * (len % 2 ^ 16))).ge
  rw [hreply]
  exact eq_flatten_ofFn (hplaced.length.trans (length_freshOut _ _)) hplaced.blocks

/-- What the application finds after `gather`. -/
theorem ioctl_gather (r : Fin n) (out : Bytes) :
    ((ms r).world.ioctl ((ms r).event len out)).2
      = some (.allgather ((ms r).args len) (gatherData (ms r).world.client ((ms r).args len)
          (ms r).inp) (overlay ((ms r).world.client.commSize.toNat * (len % 2 ^ 16))
            (rankOrdered ms len) out), 0) := by
  rw [ioctl_allgather (hms r).live ((hms r).served out) rfl, reply_eq_rankOrdered hms hpmi r out]
  rfl

end Members

/-! ### How much is stored -/

/-- The result has `n * len` bytes, and all of them are stored, whatever `out`
held before; what is behind them stays. -/
def StoresAll {n : Nat} (ms : Fin n → Member) (len : Nat) (r : Fin n) : Prop :=
  (rankOrdered ms len).length = n * len ∧
    ∀ out : Bytes, n * len ≤ out.length → ∃ inData,
      ((ms r).world.ioctl ((ms r).event len out)).2 = some (.allgather ((ms r).args len) inData
        (rankOrdered ms len ++ out.drop (n * len)), 0)

/-- The application has asked for the size. -/
def Member.Fetched (m : Member) : Prop := ∃ e ∈ m.history, ∃ j, e.request = .getsize j

section Stores

variable {n k len : Nat} {σ : Equiv.Perm (Fin n)} {ms : Fin n → Member}

theorem Member.Joins.commSize {m : Member} {rank : Nat} (h : m.Joins len n rank k)
    (hget : m.Fetched) : m.world.client.commSize.toNat = n := by
  rw [Member.world, commSize_run h.initial.live h.returned
    (fun e he => h.sizes e (List.mem_cons_of_mem _ he)) rfl hget, h.jobSize]

theorem Member.Joins.commSize_unfetched {m : Member} {rank : Nat} (h : m.Joins len n rank k)
    (hget : ¬ m.Fetched) : m.world.client.commSize.toNat = 0 := by
  have hno : ∀ e ∈ m.history, ∀ j, e.request ≠ .getsize j :=
    fun e he j hj => hget ⟨e, he, j, hj⟩
  rw [Member.world, commSize_run_unfetched h.initial.live h.returned hno, h.unfetched]
  rfl

/-- Some buffer shows that nothing was stored. -/
theorem exists_ne_self {l : Bytes} (hl : l ≠ []) :
    ∃ out : Bytes, out.length = l.length ∧ out ≠ l := by
  rcases l with - | ⟨b, l⟩
  · exact absurd rfl hl
  · refine ⟨(b + 1) :: l, rfl, ?_⟩
    intro heq
    have hb : b + 1 = b := (List.cons.inj heq).1
    exact absurd hb (by simp)

/-- A longer length is cut off on its way. -/
theorem lt_of_storesAll {r : Fin n} (hms : ∀ r, (ms r).Joins len n r k)
    (h : StoresAll ms len r) : len < 2 ^ 16 := by
  have hmod : len % 2 ^ 16 = len :=
    Nat.eq_of_mul_eq_mul_left r.pos ((length_rankOrdered hms).symm.trans h.1)
  rw [← hmod]
  exact Nat.mod_lt _ (by decide)

/-- Without the size nothing is copied. -/
theorem fetched_of_storesAll {r : Fin n} (hms : ∀ r, (ms r).Joins len n r k)
    (hpmi : PmiOrder σ fun r => (ms r).collectives len) (hpos : 0 < len)
    (h : StoresAll ms len r) : (ms r).Fetched := by
  obtain ⟨hlen, hstored⟩ := h
  by_contra hget
  have hne : rankOrdered ms len ≠ [] := by
    intro hnil
    rw [hnil, List.length_nil] at hlen
    exact absurd hlen.symm (Nat.mul_pos r.pos hpos).ne'
  -- the buffer comes back as it was, so one that differs from the result shows it
  obtain ⟨out, hout, hdiff⟩ := exists_ne_self hne
  obtain ⟨inData, hret⟩ := hstored out (by rw [hout, hlen])
  rw [ioctl_gather hms hpmi, (hms r).commSize_unfetched hget, Nat.zero_mul,
    List.drop_of_length_le (by rw [hout, hlen]), List.append_nil] at hret
  simp only [Option.some.injEq, Prod.mk.injEq, Request.allgather.injEq, and_true,
    true_and] at hret
  exact hdiff hret.2

/-- **Everything is delivered** exactly if the rank has asked for the size and the
length fits its 16-bit field. -/
theorem storesAll_iff (hms : ∀ r, (ms r).Joins len n r k)
    (hpmi : PmiOrder σ fun r => (ms r).collectives len) (hpos : 0 < len) (r : Fin n) :
    StoresAll ms len r ↔ (ms r).Fetched ∧ len < 2 ^ 16 := by
  constructor
  · intro h
    exact ⟨fetched_of_storesAll hms hpmi hpos h, lt_of_storesAll hms h⟩
  · rintro ⟨hget, hlt⟩
    have hmod : len % 2 ^ 16 = len := Nat.mod_eq_of_lt hlt
    have hlength := length_rankOrdered hms
    rw [hmod] at hlength
    refine ⟨hlength, fun out _ => ?_⟩
    refine ⟨gatherData (ms r).world.client ((ms r).args len) (ms r).inp, ?_⟩
    rw [ioctl_gather hms hpmi, (hms r).commSize hget, hmod, overlay,
      List.take_of_length_le hlength.le]

end Stores

/-! ### What is stored -/

/-- The call returns, and everybody's bytes are in their place; the caller's own
block is as it was. -/
def Delivered {n : Nat} (ms : Fin n → Member) (len : Nat) (r : Fin n) : Prop :=
  ∃ out, ((ms r).world.ioctl ((ms r).event len (ms r).out)).2
      = some (.allgather ((ms r).args len) (ms r).inp out, 0) ∧
    ∀ q : Fin n, slice out q len = (ms q).inp

/-- The data of a rank is no memory handle: if it has the size of one, what would
be its address is in no registered range.  `xemem_make` does not hand out `-1`. -/
structure Member.NoHandle (m : Member) (len : Nat) : Prop where
  exported : Exported (registrations m.history)
  segids : ∀ r ∈ registrations m.history, r.segid ≠ notFound
  outside : len = MdhAddr.codec.size → ∀ r ∈ registrations m.history,
    (MdhAddr.codec.decode m.inp).addr.toNat ∉ r.clientRange

section Data

variable {n k len rank : Nat} {σ : Equiv.Perm (Fin n)} {ms : Fin n → Member} {m : Member}

/-- The data with a miss for its address. -/
def Member.missed (m : Member) : Bytes :=
  MdhAddr.codec.encode { MdhAddr.codec.decode m.inp with addr := notFound }

theorem missed_eq_iff (hlen : m.inp.length = MdhAddr.codec.size) :
    m.missed = m.inp ↔ (MdhAddr.codec.decode m.inp).addr = notFound := by
  rw [Member.missed]
  constructor
  · intro h
    rw [← h, Codec.decode_encode]
  · intro h
    rw [← h]
    exact MdhAddr.codec.encode_decode _ hlen

/-- A block of any other size goes through as it is. -/
theorem contribution_plain (h : m.Joins len n rank k) (hlt : len < 2 ^ 16)
    (hlen : len ≠ MdhAddr.codec.size) :
    gatherData m.world.client (m.args len) m.inp = m.inp ∧ m.contribution len = m.inp := by
  have hfield : (m.args len).inDataLen.toNat = len := Nat.mod_eq_of_lt hlt
  have hdata : gatherData m.world.client (m.args len) m.inp = m.inp := by
    rw [gatherData, if_neg (by rw [hfield]; exact hlen)]
  refine ⟨hdata, ?_⟩
  rw [Member.contribution, World.block, hdata, hfield,
    List.take_of_length_le h.block.le, gatherInput, if_neg (by rw [h.block]; exact hlen)]

/-- A block of that size comes out with a miss for its address, on both sides. -/
theorem contribution_missed (h : m.Joins len n rank k) (hno : m.NoHandle len)
    (hlen : len = MdhAddr.codec.size) :
    gatherData m.world.client (m.args len) m.inp = m.missed ∧ m.contribution len = m.missed := by
  have hlists := listsFrom_run h.initial h.returned
  have hfield : (m.args len).inDataLen.toNat = MdhAddr.codec.size := by
    rw [hlen]
    rfl
  have hinp : m.inp.length = MdhAddr.codec.size := h.block.trans hlen
  have hclient : listFindSegidByVaddr m.world.client.mt (MdhAddr.codec.decode m.inp).addr
      = notFound := by
    rw [← List.append_nil m.world.client.mt]
    refine listFindSegidByVaddr_append_of_not_covers ?_ []
    rintro ⟨q, hq, hcov⟩
    obtain ⟨r, hr, rfl⟩ := hlists.client q hq
    exact hno.outside hlen r hr ((covers_iff_mem hno.exported hr _).mp hcov)
  have hserver : listFindVaddrBySegid m.world.server.mt notFound = notFound := by
    rw [listFindVaddrBySegid_eq, List.find?_eq_none.mpr]
    · rfl
    intro q hq hseg
    obtain ⟨r, hr, hsegid⟩ := hlists.server q hq
    exact hno.segids r hr (hsegid.symm.trans (of_decide_eq_true hseg))
  have hdata : gatherData m.world.client (m.args len) m.inp = m.missed := by
    rw [gatherData, if_pos hfield, List.take_of_length_le hinp.le, List.drop_of_length_le hinp.le,
      List.append_nil, hclient]
    rfl
  refine ⟨hdata, ?_⟩
  have hmissed : m.missed.length = MdhAddr.codec.size := Codec.length_encode _ _
  rw [Member.contribution, World.block, hdata, hfield, List.take_of_length_le hmissed.le,
    gatherInput, if_pos hmissed, Member.missed, Codec.decode_encode]
  show MdhAddr.codec.encode ⟨_, listFindVaddrBySegid m.world.server.mt notFound⟩ = _
  rw [hserver]

section Job

variable (hms : ∀ r, (ms r).Joins len n r k)
  (hpmi : PmiOrder σ fun r => (ms r).collectives len) (hno : ∀ r, (ms r).NoHandle len)
  (hfetched : ∀ r, (ms r).world.client.commSize.toNat = n) (hlen : 0 < len ∧ len < 2 ^ 16)
include hms hpmi hfetched hlen

/-- Block `q` of the output is what rank `q` contributed. -/
theorem ioctl_gather_blocks (r : Fin n) :
    ∃ out, ((ms r).world.ioctl ((ms r).event len (ms r).out)).2
        = some (.allgather ((ms r).args len)
          (gatherData (ms r).world.client ((ms r).args len) (ms r).inp) out, 0) ∧
      ∀ q : Fin n, slice out q len = (ms q).contribution len := by
  have hmod : len % 2 ^ 16 = len := Nat.mod_eq_of_lt hlen.2
  have hlength := length_rankOrdered hms
  have hret := ioctl_gather hms hpmi r (ms r).out
  rw [hmod] at hlength
  rw [hfetched, hmod, overlay, List.take_of_length_le hlength.le] at hret
  refine ⟨_, hret, fun q => ?_⟩
  rw [slice_append_left (by rw [hlength]; exact Nat.mul_le_mul_right _ q.isLt)]
  exact slice_flatten_ofFn (fun q => (hms q).length_contribution.2.trans hmod) q

include hno

theorem notFound_of_delivered {r : Fin n} (h : Delivered ms len r)
    (hsize : len = MdhAddr.codec.size) (q : Fin n) :
    (MdhAddr.codec.decode (ms q).inp).addr = notFound := by
  obtain ⟨out, hout, hall⟩ := h
  obtain ⟨out', hret, hslice⟩ := ioctl_gather_blocks hms hpmi hfetched hlen r
  rw [hret] at hout
  simp only [Option.some.injEq, Prod.mk.injEq, Request.allgather.injEq, and_true,
    true_and] at hout
  obtain ⟨-, rfl⟩ := hout
  rw [← missed_eq_iff ((hms q).block.trans hsize),
    ← (contribution_missed (hms q) (hno q) hsize).2, ← hslice q]
  exact hall q

/-- **Transparency of a gather.**  The bytes arrive as they were passed in exactly
if they are not taken for a handle, or the word taken for the address is the
lookup's own value for a miss. -/
theorem delivered_iff (r : Fin n) :
    Delivered ms len r ↔
      (len = MdhAddr.codec.size → ∀ q, (MdhAddr.codec.decode (ms q).inp).addr = notFound) := by
  constructor
  · exact notFound_of_delivered hms hpmi hno hfetched hlen
  · intro hcond
    have hsame : ∀ q, gatherData (ms q).world.client ((ms q).args len) (ms q).inp = (ms q).inp ∧
        (ms q).contribution len = (ms q).inp := by
      intro q
      by_cases hsize : len = MdhAddr.codec.size
      · have hmiss := (missed_eq_iff ((hms q).block.trans hsize)).mpr (hcond hsize q)
        obtain ⟨hdata, hcontr⟩ := contribution_missed (hms q) (hno q) hsize
        exact ⟨hdata.trans hmiss, hcontr.trans hmiss⟩
      · exact contribution_plain (hms q) hlen.2 hsize
    obtain ⟨out, hret, hslice⟩ := ioctl_gather_blocks hms hpmi hfetched hlen r
    rw [(hsame r).1] at hret
    exact ⟨out, hret, fun q => (hslice q).trans (hsame q).2⟩

end Job

end Data

/-! ### A job of two ranks, for evaluation -/

/-- Rank `r` of two gathers `inp r` after `history r`.  PMI returns rank 1 first,
with `b`, and then rank 0, with `a`. -/
def swapMember (a b : Bytes) (inp : Fin 2 → Bytes) (history : Fin 2 → List Event) (r : Fin 2) :
    Member where
  start := { freshWorld with server := { freshWorld.server with jobSize := 2 } }
  history := history r
  inp := inp r
  out := List.replicate (2 * (inp r).length) 0
  inAddr := 0x1000
  outAddr := 0x2000
  stack := 0
  clientEnv := calmClient 5
  serverEnv := swapEnv a b r

theorem callsSucceed_swap (a b : Bytes) (r : Fin 2) (q : Request) :
    CallsSucceed ⟨.pmi, q, calmClient 5, swapEnv a b r⟩ where
  ioctl := fun _ => le_rfl
  pmiGetSize := rfl
  pmiGetRank := rfl
  pmiAllgather := fun site _ _ => by cases site <;> rfl
  clientMalloc := rfl
  clientGet := fun _ _ => Int.one_pos
  clientAttach := fun _ _ _ => show (0x1000 : UInt64) ≠ 0 by decide
  select := show (1 : Int) ≠ -1 by decide
  malloc := fun _ => rfl
  mallocOut := rfl
  xememGet := fun _ => Int.one_pos
  xememAttach := fun _ _ => show (0x1000 : UInt64) ≠ mapFailed by decide

/-- The rank asks for the size first, or not. -/
def askFirst (a b : Bytes) (ask : Bool) (r : Fin 2) : List Event :=
  if ask then [⟨.pmi, .getsize 0, calmClient 5, swapEnv a b r⟩] else []

theorem joins_swap {a b : Bytes} {inp : Fin 2 → Bytes} {ask : Bool} {len : Nat}
    (hlen : ∀ r, (inp r).length = len) (hfits : 2 * len < 2 ^ 31) (r : Fin 2) :
    (swapMember a b inp (askFirst a b ask) r).Joins len 2 r 0 := by
  have henv : ∀ e ∈ (swapMember a b inp (askFirst a b ask) r).event len
      (swapMember a b inp (askFirst a b ask) r).out :: askFirst a b ask r,
      e.serverEnv = swapEnv a b r := by
    intro e he
    rcases List.mem_cons.mp he with rfl | he
    · rfl
    · cases ask with
      | false => cases he
      | true =>
          obtain rfl := List.mem_singleton.mp he
          rfl
  have hrank : ∀ r : Fin 2, (swapEnv a b r .pmiGetRank).2.toNat = r :=
    Fin.forall_fin_two.mpr ⟨rfl, rfl⟩
  refine ⟨⟨rfl, rfl, rfl, rfl, rfl, rfl⟩, rfl, ?_, rfl, ?_, ?_, ?_, hlen r, ?_,
    callsSucceed_swap a b r _, hfits⟩
  · cases ask <;> rfl
  · intro e he
    rw [henv e he]
    rfl
  · intro e he
    rw [henv e he]
    exact hrank r
  · cases ask <;> rfl
  · simp [swapMember, hlen r]

theorem pmiOrder_swap {a b : Bytes} {inp : Fin 2 → Bytes} {ask : Bool} {len : Nat}
    (hlen : ∀ r, (inp r).length = len) (hfits : 2 * len < 2 ^ 31)
    (hcontr : ∀ r, (swapMember a b inp (askFirst a b ask) r).contribution len = ![a, b] r) :
    PmiOrder (Equiv.swap 0 1)
      fun r => (swapMember a b inp (askFirst a b ask) r).collectives len := by
  have hlog : ∀ r : Fin 2, (swapMember a b inp (askFirst a b ask) r).collectives len
      = [⟨.ranks, Codec.u32.encode (UInt32.ofNat r), 4, Codec.u32.encode 1 ++ Codec.u32.encode 0⟩,
        ⟨.blocks, ![a, b] r, len % 2 ^ 16, b ++ a⟩] := by
    intro r
    rw [(joins_swap hlen hfits r).collectives_eq, ← hcontr r]
    cases ask <;> rfl
  intro k cs hcs _
  have hflat : (List.ofFn fun i => (cs (Equiv.swap 0 1 i)).data).flatten
      = (cs 1).data ++ (cs 0).data := by
    simp [List.ofFn_succ]
  rw [hflat]
  simp only [hlog] at hcs
  rcases k with - | - | k
  · rw [← Option.some.inj (hcs 0), ← Option.some.inj (hcs 1)]
    exact fun r => (congrArg Collective.answer (Option.some.inj (hcs r))).symm
  · rw [← Option.some.inj (hcs 0), ← Option.some.inj (hcs 1)]
    exact fun r => (congrArg Collective.answer (Option.some.inj (hcs r))).symm
  · cases hcs 0

/-- One byte each, with and without asking for the size. -/
def bytePair (ask : Bool) : Fin 2 → Member :=
  swapMember [1] [2] ![[1], [2]] (askFirst [1] [2] ask)

theorem joins_bytePair (ask : Bool) (r : Fin 2) : (bytePair ask r).Joins 1 2 r 0 :=
  joins_swap (Fin.forall_fin_two.mpr ⟨rfl, rfl⟩) (by decide) r

theorem pmiOrder_bytePair (ask : Bool) :
    PmiOrder (Equiv.swap 0 1) fun r => (bytePair ask r).collectives 1 := by
  refine pmiOrder_swap (Fin.forall_fin_two.mpr ⟨rfl, rfl⟩) (by decide) ?_
  cases ask <;> exact Fin.forall_fin_two.mpr ⟨rfl, rfl⟩

theorem storesAll_bytePair : StoresAll (bytePair true) 1 0 :=
  (storesAll_iff (joins_bytePair true) (pmiOrder_bytePair true) Nat.one_pos 0).mpr
    ⟨⟨_, List.mem_singleton.mpr rfl, 0, rfl⟩, by decide⟩

/-- A block of 65536 bytes is sent as one of none. -/
def longPair : Fin 2 → Member :=
  swapMember [] [] (fun _ => List.replicate 65536 7) (askFirst [] [] true)

theorem joins_longPair (r : Fin 2) : (longPair r).Joins 65536 2 r 0 :=
  joins_swap (fun _ => List.length_replicate ..) (by decide) r

/-- Nothing is stored by a rank that never asked for the size, and nothing of a
block whose length does not fit. -/
theorem storesAll_fails :
    ((∀ r, (bytePair false r).Joins 1 2 r 0) ∧ ¬ StoresAll (bytePair false) 1 0) ∧
      (∀ r, (longPair r).Joins 65536 2 r 0) ∧ (longPair 0).Fetched ∧
        ¬ StoresAll longPair 65536 0 := by
  refine ⟨⟨joins_bytePair false, ?_⟩, joins_longPair, ⟨_, List.mem_singleton.mpr rfl, 0, rfl⟩, ?_⟩
  · intro h
    obtain ⟨e, he, -⟩ := fetched_of_storesAll (joins_bytePair false) (pmiOrder_bytePair false)
      Nat.one_pos h
    cases he
  · intro h
    exact absurd (lt_of_storesAll joins_longPair h) (lt_irrefl _)

theorem delivered_bytePair : Delivered (bytePair true) 1 0 := by
  refine (delivered_iff (joins_bytePair true) (pmiOrder_bytePair true) ?_ ?_ (by decide) 0).mpr ?_
  · intro r
    exact ⟨fun _ hr => (List.not_mem_nil hr).elim, fun _ hr => (List.not_mem_nil hr).elim,
      fun _ _ hr => (List.not_mem_nil hr).elim⟩
  · exact Fin.forall_fin_two.mpr ⟨rfl, rfl⟩
  · intro hsize
    cases hsize

/-- 24 zero bytes, with a miss for an address. -/
def zeroMissed : Bytes := List.replicate 16 0 ++ List.replicate 8 255

/-- Blocks of 24 zero bytes, on ranks that registered nothing. -/
def zeroPair : Fin 2 → Member :=
  swapMember zeroMissed zeroMissed (fun _ => List.replicate 24 0)
    (askFirst zeroMissed zeroMissed true)

theorem joins_zeroPair (r : Fin 2) : (zeroPair r).Joins 24 2 r 0 :=
  joins_swap (fun _ => List.length_replicate ..) (by decide) r

theorem noHandle_zeroPair (r : Fin 2) : (zeroPair r).NoHandle 24 :=
  ⟨fun _ hr => (List.not_mem_nil hr).elim, fun _ hr => (List.not_mem_nil hr).elim,
    fun _ _ hr => (List.not_mem_nil hr).elim⟩

/-- They arrive with their last eight bytes set. -/
theorem delivered_fails :
    (∀ r, (zeroPair r).Joins 24 2 r 0) ∧ (∀ r, (zeroPair r).NoHandle 24) ∧
      (∀ r, (zeroPair r).world.client.commSize.toNat = 2) ∧ ¬ Delivered zeroPair 24 0 := by
  have hfetched : ∀ r, (zeroPair r).world.client.commSize.toNat = 2 :=
    Fin.forall_fin_two.mpr ⟨rfl, rfl⟩
  refine ⟨joins_zeroPair, noHandle_zeroPair, hfetched, ?_⟩
  intro h
  have hpmi : PmiOrder (Equiv.swap 0 1) fun r => (zeroPair r).collectives 24 :=
    pmiOrder_swap (fun _ => List.length_replicate ..) (by decide)
      (Fin.forall_fin_two.mpr ⟨rfl, rfl⟩)
  have hmiss := notFound_of_delivered joins_zeroPair hpmi noHandle_zeroPair hfetched (by decide) h
    rfl 0
  exact absurd hmiss (by decide)

end Nvl.StaticLink

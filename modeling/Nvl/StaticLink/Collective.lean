/-
Nvl/StaticLink/Collective.lean

The exchange of memory handles in a job of `n` ranks.

Every rank is a client with its own server and its own history.  In one
`ALLGATHER` each client replaces the address in its handle by a segment id, its
server replaces that by its own address of the segment, and `PMI_Allgather`
hands the blocks of all ranks to every server, in an order that nobody knows.
The first collective of a server gathers the ranks themselves in that same
order, and the second is scattered through them; so the order cancels out
(`exchange`), whatever permutation it is.

`PmiContract` is all that is assumed of `PMI_Allgather`.  The sizes
`comm_size * len` and `job_size * len` are taken without overflow: C leaves an
overflowing product of `int`s undefined.
-/
import Nvl.StaticLink.Translation

namespace Nvl.StaticLink

open SysLib

variable {w : World} {e : Event} {es : List Event}

/-! ### What a history leaves alone -/

theorem run_live_of_smooth (hl : w.Live) (hes : ∀ e ∈ es, Smooth e) : (w.run es).Live :=
  run_live_of_served hl fun e he _ => (hes e he).served

/-- The server's notion of the job size is what PMI says. -/
theorem jobSize_ioctl {N : UInt32} (hl : w.Live) (hs : w.Served e)
    (hN : (e.serverEnv .pmiGetSize).2 = N) (h : w.server.jobSize = N) :
    (w.ioctl e).1.server.jobSize = N := by
  rw [(ioctl_served hl hs).server]
  obtain ⟨d, r, clientEnv, serverEnv⟩ := e
  cases r with
  | getsize k =>
      show (if (serverEnv .pmiGetSize).1 then (serverEnv .pmiGetSize).2 else _) = N
      split
      · exact hN
      · exact h
  | memRegister a =>
      show (registered w.server serverEnv _).jobSize = N
      rw [registered]
      split <;> exact h
  | _ => exact h

theorem jobSize_run {N : UInt32} (hl : w.Live) (hwait : (w.run es).waiting = none)
    (hN : ∀ e ∈ es, (e.serverEnv .pmiGetSize).2 = N) (h : w.server.jobSize = N) :
    (w.run es).server.jobSize = N :=
  run_invariant_returned (fun w => w.server.jobSize = N) hl h hwait
    fun _ e he hl' hs h' => jobSize_ioctl hl' hs (hN e he) h'

/-- A history without a gather leaves the server's statics alone. -/
theorem noGather_run (hl : w.Live) (hes : ∀ e ∈ es, Smooth e)
    (hno : ∀ e ∈ es, ∀ a inData outData, e.request ≠ .allgather a inData outData)
    (h : w.server.gather.alreadyCalled = false) :
    (w.run es).server.gather.alreadyCalled = false := by
  refine run_invariant (fun w => w.server.gather.alreadyCalled = false) hl h
    (fun e he _ => (hes e he).served) ?_
  intro w' e he hl' h'
  have hnot := hno e he
  rw [(ioctl_served hl' (hes e he).served).server]
  obtain ⟨d, r, clientEnv, serverEnv⟩ := e
  cases r with
  | allgather a inData outData => exact absurd rfl (hnot a inData outData)
  | memRegister a =>
      show (registered w'.server serverEnv _).gather.alreadyCalled = false
      rw [registered]
      split <;> exact h'
  | _ => exact h'

/-- The client after a `GETSIZE`, and after anything else. -/
theorem commSize_ioctl {N : UInt32} (hl : w.Live) (hs : w.Served e)
    (hN : (e.serverEnv .pmiGetSize).2 = N) (hjob : w.server.jobSize = N)
    (h : (∃ k, e.request = .getsize k) ∨ w.client.commSize = N) :
    (w.ioctl e).1.client.commSize = N := by
  rw [(ioctl_served hl hs).client]
  obtain ⟨d, r, clientEnv, serverEnv⟩ := e
  cases r with
  | getsize k =>
      -- the reply is the server's size, and the client reads an `int` off its front
      have hsize : (if (serverEnv .pmiGetSize).1 then (serverEnv .pmiGetSize).2
          else w.server.jobSize) = N := by
        split
        · exact hN
        · exact hjob
      show Codec.u32.decode ((Codec.u32.encode (if (serverEnv .pmiGetSize).1 then
        (serverEnv .pmiGetSize).2 else w.server.jobSize)).take 4) = N
      have htake := Codec.decode_take_append Codec.u32 N []
      rw [List.append_nil] at htake
      rw [hsize]
      exact htake
  | _ =>
      rcases h with ⟨k, hk⟩ | h
      · cases hk
      · exact h

/-- Once fetched, the client's `comm_size` stays what PMI says. -/
theorem commSize_run {N : UInt32} (hl : w.Live) (hwait : (w.run es).waiting = none)
    (hN : ∀ e ∈ es, (e.serverEnv .pmiGetSize).2 = N) (hjob : w.server.jobSize = N)
    (hget : ∃ e ∈ es, ∃ k, e.request = .getsize k) : (w.run es).client.commSize = N := by
  -- up to the first `GETSIZE` nothing is known of `comm_size`; from there on it is fixed
  obtain ⟨e, he, hk⟩ := hget
  obtain ⟨before, after, rfl⟩ := List.append_of_mem he
  have hbefore := returned_of_append hwait
  have hlive := run_live hl hbefore
  rw [World.run_append] at hwait ⊢
  have hserved := served_of_returned hlive hwait
  have hsize := jobSize_run hl hbefore (fun e' he' => hN e' (List.mem_append_left _ he')) hjob
  have hstep := ioctl_served hlive hserved
  refine (run_invariant_returned (fun w => w.server.jobSize = N ∧ w.client.commSize = N)
    hstep.live ⟨jobSize_ioctl hlive hserved (hN e he) hsize,
      commSize_ioctl hlive hserved (hN e he) hsize (.inl hk)⟩ hwait ?_).2
  intro w' e' he' hl' hs' h'
  have hN' := hN e' (List.mem_append_right _ (List.mem_cons_of_mem _ he'))
  exact ⟨jobSize_ioctl hl' hs' hN' h'.1, commSize_ioctl hl' hs' hN' h'.1 (.inr h'.2)⟩

/-- Before it is fetched, it is what it was. -/
theorem commSize_run_unfetched (hl : w.Live) (hwait : (w.run es).waiting = none)
    (hno : ∀ e ∈ es, ∀ k, e.request ≠ .getsize k) :
    (w.run es).client.commSize = w.client.commSize := by
  refine run_invariant_returned (fun w' => w'.client.commSize = w.client.commSize) hl rfl hwait ?_
  intro w' e he hl' hs h'
  rw [(ioctl_served hl' hs).client]
  have hnot := hno e he
  obtain ⟨d, r, clientEnv, serverEnv⟩ := e
  cases r with
  | getsize k => exact absurd rfl (hnot k)
  | _ => exact h'

/-! ### The collectives of a request -/

/-- A call of `PMI_Allgather`, with its data and length. -/
def Entry.collective : Entry → Option (GatherSite × Bytes × Nat)
  | .server ⟨.pmiAllgather site data len, _⟩ => some (site, data, len)
  | _ => none

/-- The collectives made for a request, in order. -/
def World.collectives (w : World) (e : Event) : List (GatherSite × Bytes × Nat) :=
  ((w.ioctl e).1.log.drop w.log.length).filterMap Entry.collective

/-- The first gather of a server makes two collectives. -/
theorem collectives_allgather {a : PmiAllgatherArgs} {inData outData : Bytes} (hl : w.Live)
    (he : Smooth e) (hreq : e.request = .allgather a inData outData)
    (hfirst : w.server.gather.alreadyCalled = false) :
    w.collectives e = [(.ranks, Codec.u32.encode (e.serverEnv .pmiGetRank).2, 4),
      (.blocks, gatherInput w.server (w.block a inData), (w.block a inData).length)] := by
  have hc : commandOf w.client e.clientEnv e.request
      = some (pmiIocAllgather.toUInt64, w.block a inData) := by
    rw [hreq]
    rfl
  have hok := he.ok
  obtain ⟨contents, hout⟩ := Option.isSome_iff_exists.mp hok.mallocOut
  rw [World.collectives, (ioctl_round hl hc).2, List.drop_left, exec_serve _ _ hok.select]
  show ((Prog.exec _ (serveAllgather _ _ _)).2.map Entry.server).filterMap Entry.collective = _
  simp only [serveAllgather, ServerM.mallocOut, Prog.pure_eq_ret, gatherBlocks, rankOrder, hfirst,
    Bool.false_eq_true, if_false, learnRanks, ServerM.pmiGetSize, Bool.not_eq_eq_eq_not,
    Bool.not_true, ServerM.pmiGetRank, ServerM.malloc, ServerM.pmiAllgather, Prog.call_bind,
    Prog.step_bind, ServerM.hcqCmdReturn, Prog.exec_step, fetching, hout, hok.pmiGetSize,
    Bool.true_eq_false, hok.pmiGetRank, hok.malloc, hok.pmiAllgather, Prog.ret_bind, Prog.exec_ret]
  rfl

/-! ### A job -/

/-- One rank when it makes its gather: how it started, what it did before, the
request, and what it contributes. -/
structure Rank where
  start : World
  history : List Event
  event : Event
  args : PmiAllgatherArgs
  mdh : GniMemHandle
  buffer : Registration
  outData : Bytes

/-- The state in which the gather is made. -/
def Rank.world (R : Rank) : World := R.start.run R.history

/-- What is known of rank number `rank` of a job of `n`. -/
structure Rank.Ready (R : Rank) (n rank : Nat) : Prop where
  initial : R.start.Initial
  smooth : ∀ e ∈ R.history, Smooth e
  /-- `main` asks PMI for the size before its loop -/
  jobSize : R.start.server.jobSize.toNat = n
  sizes : ∀ e ∈ R.event :: R.history, (e.serverEnv .pmiGetSize).2 = R.start.server.jobSize
  number : (R.event.serverEnv .pmiGetRank).2.toNat = rank
  fetched : ∃ e ∈ R.history, ∃ k, e.request = .getsize k
  noGather : ∀ e ∈ R.history, ∀ a inData outData, e.request ≠ .allgather a inData outData
  exported : Exported (registrations R.history)
  apart : Apart (registrations R.history)
  registered : R.buffer ∈ registrations R.history
  gather : Smooth R.event
  request : R.event.request = .allgather R.args
    (MdhAddr.codec.encode ⟨R.mdh, R.buffer.clientAddr⟩) R.outData
  handleSize : R.args.inDataLen.toNat = MdhAddr.codec.size
  room : n * MdhAddr.codec.size ≤ R.outData.length

/-- `PMI_Allgather`: when the ranks call it together, rank `r` with `data r`,
every rank gets all contributions, in the order `σ` of the job. -/
def PmiContract {n : Nat} (σ : Equiv.Perm (Fin n)) (ranks : Fin n → Rank) : Prop :=
  ∀ site len (data : Fin n → Bytes),
    (∀ r, (site, data r, len) ∈ (ranks r).world.collectives (ranks r).event) →
    ∀ r, ((ranks r).event.serverEnv (.pmiAllgather site (data r) len)).2
      = (List.ofFn fun i => data (σ i)).flatten

section Ready

variable {R : Rank} {n rank : Nat}

/-- The block a rank's server hands to the collective: its handle, with the
server's address of the buffer. -/
def Rank.contribution (R : Rank) : Bytes :=
  MdhAddr.codec.encode ⟨R.mdh, R.buffer.serverAddr⟩

theorem Rank.Ready.live (h : R.Ready n rank) : R.world.Live :=
  run_live_of_smooth h.initial.live h.smooth

theorem Rank.Ready.firstGather (h : R.Ready n rank) :
    R.world.server.gather.alreadyCalled = false :=
  noGather_run h.initial.live h.smooth h.noGather h.initial.noGather

theorem Rank.Ready.size (h : R.Ready n rank) : (R.event.serverEnv .pmiGetSize).2.toNat = n := by
  rw [h.sizes _ List.mem_cons_self, h.jobSize]

theorem Rank.Ready.serverSize (h : R.Ready n rank) : R.world.server.jobSize.toNat = n := by
  rw [Rank.world, jobSize_run h.initial.live h.live.notWaiting
    (fun e he => h.sizes e (List.mem_cons_of_mem _ he)) rfl, h.jobSize]

theorem Rank.Ready.commSize (h : R.Ready n rank) : R.world.client.commSize.toNat = n := by
  rw [Rank.world, commSize_run h.initial.live h.live.notWaiting
    (fun e he => h.sizes e (List.mem_cons_of_mem _ he)) rfl h.fetched, h.jobSize]

/-- The client sends the handle with the segment id of its buffer. -/
theorem Rank.Ready.block (h : R.Ready n rank) :
    R.world.block R.args (MdhAddr.codec.encode ⟨R.mdh, R.buffer.clientAddr⟩)
      = MdhAddr.codec.encode
          ⟨R.mdh, listFindSegidByVaddr R.world.client.mt R.buffer.clientAddr⟩ := by
  have htake := List.take_of_length_le (le_of_eq (MdhAddr.codec.length_encode
    ⟨R.mdh, R.buffer.clientAddr⟩))
  have hdrop := List.drop_of_length_le (le_of_eq (MdhAddr.codec.length_encode
    ⟨R.mdh, R.buffer.clientAddr⟩))
  rw [World.block, gatherData, if_pos h.handleSize, htake, hdrop, Codec.decode_encode,
    List.append_nil, h.handleSize]
  exact List.take_of_length_le (le_of_eq (Codec.length_encode _ _))

/-- The server puts its own address in. -/
theorem Rank.Ready.gatherInput (h : R.Ready n rank) :
    gatherInput R.world.server
      (R.world.block R.args (MdhAddr.codec.encode ⟨R.mdh, R.buffer.clientAddr⟩))
      = R.contribution := by
  obtain ⟨hagree, -⟩ := agree_run h.initial h.smooth
  have htr : R.world.translate R.buffer.clientAddr = R.buffer.serverAddr :=
    translate_of_mem hagree h.exported h.apart h.registered
      (start_mem_clientRange h.exported h.registered)
  rw [h.block, StaticLink.gatherInput, if_pos (Codec.length_encode _ _), Codec.decode_encode,
    Rank.contribution, ← htr]
  rfl

end Ready

/-! ### The order cancels out -/

section Exchange

variable {n : Nat} {σ : Equiv.Perm (Fin n)} {ranks : Fin n → Rank}

theorem length_contribution (R : Rank) : R.contribution.length = MdhAddr.codec.size :=
  Codec.length_encode _ _

/-- The two collectives a rank takes part in. -/
theorem Rank.Ready.collectives {R : Rank} {rank : Nat} (h : R.Ready n rank) :
    R.world.collectives R.event
      = [(.ranks, Codec.u32.encode (R.event.serverEnv .pmiGetRank).2, 4),
          (.blocks, R.contribution, MdhAddr.codec.size)] := by
  rw [collectives_allgather h.live h.gather h.request h.firstGather, h.gatherInput, h.block,
    Codec.length_encode]

/-- The rank a server learns for position `i` is `σ i`. -/
theorem ivec_learnt (hready : ∀ r : Fin n, (ranks r).Ready n r) (hpmi : PmiContract σ ranks)
    (r i : Fin n) : ((learnt (ranks r).event.serverEnv).ivec.getD i 0).toNat = σ i := by
  have hranks := hpmi .ranks 4
    (fun q => Codec.u32.encode ((ranks q).event.serverEnv .pmiGetRank).2)
    (fun q => by rw [(hready q).collectives]; exact List.mem_cons_self) r
  have hslice : slice (List.ofFn fun i =>
      Codec.u32.encode ((ranks (σ i)).event.serverEnv .pmiGetRank).2).flatten i 4 = _ :=
    slice_flatten_ofFn (fun i => Codec.length_encode _ _) i
  have hget : (learnt (ranks r).event.serverEnv).ivec.getD i 0
      = ((ranks (σ i)).event.serverEnv .pmiGetRank).2 := by
    rw [learnt, readRanks, hranks, (hready r).size, List.getD_eq_getElem?_getD,
      List.getElem?_map, List.getElem?_range i.isLt]
    show Codec.u32.decode (slice _ i 4) = _
    rw [hslice, Codec.decode_encode]
  rw [hget, (hready (σ i)).number]

/-- A server's reply is its own gathered blocks, scattered through the ranks it
learnt. -/
theorem reply_data (hready : ∀ r : Fin n, (ranks r).Ready n r) (hpmi : PmiContract σ ranks)
    (r : Fin n) : ((ranks r).world.reply (ranks r).event).data
      = scatter (fun i => ((learnt (ranks r).event.serverEnv).ivec.getD i 0).toNat)
          (List.ofFn fun i => (ranks (σ i)).contribution).flatten MdhAddr.codec.size n
          (freshOut (((ranks r).event.serverEnv .mallocOut).getD fun _ => 0)
            (n * MdhAddr.codec.size)) := by
  have hblocks := hpmi .blocks MdhAddr.codec.size (fun q => (ranks q).contribution)
    (fun q => by rw [(hready q).collectives]; exact List.mem_cons_of_mem _ List.mem_cons_self) r
  have hlen : ((ranks r).world.block (ranks r).args
      (MdhAddr.codec.encode ⟨(ranks r).mdh, (ranks r).buffer.clientAddr⟩)).length
      = MdhAddr.codec.size := by
    rw [(hready r).block, Codec.length_encode]
  rw [World.reply, (hready r).request]
  show gathered _ _ _ _ _ = _
  rw [gathered, (hready r).gatherInput, hlen, hblocks, Gather.orLearnt,
    if_neg (by simp [(hready r).firstGather]), (hready r).serverSize]
  show scatter _ _ _ ((ranks r).event.serverEnv .pmiGetSize).2.toNat _ = _
  rw [(hready r).size]

/-- Block `q` of a server's reply is the contribution of rank `q`. -/
theorem slice_reply (hready : ∀ r : Fin n, (ranks r).Ready n r) (hpmi : PmiContract σ ranks)
    (r q : Fin n) :
    slice ((ranks r).world.reply (ranks r).event).data q MdhAddr.codec.size
      = (ranks q).contribution ∧
    ((ranks r).world.reply (ranks r).event).data.length = n * MdhAddr.codec.size := by
  have hidx := ivec_learnt hready hpmi r
  -- the learnt vector permutes the places, because `σ` does
  have hlt : ∀ i < n, ((learnt (ranks r).event.serverEnv).ivec.getD i 0).toNat < n := by
    intro i hi
    rw [hidx ⟨i, hi⟩]
    exact Fin.isLt _
  have hinj : ∀ i < n, ∀ j < n, ((learnt (ranks r).event.serverEnv).ivec.getD i 0).toNat
      = ((learnt (ranks r).event.serverEnv).ivec.getD j 0).toNat → i = j := by
    intro i hi j hj h
    rw [hidx ⟨i, hi⟩, hidx ⟨j, hj⟩] at h
    exact congrArg Fin.val (σ.injective (Fin.ext h))
  have hout := (length_freshOut (((ranks r).event.serverEnv .mallocOut).getD fun _ => 0)
    (n * MdhAddr.codec.size)).ge
  have htmp := length_flatten_ofFn fun i => length_contribution (ranks (σ i))
  rw [reply_data hready hpmi]
  constructor
  · -- the block of rank `q` came back at position `σ⁻¹ q`
    have hs := slice_scatter hlt hinj htmp hout (σ.symm q).isLt
    rw [hidx (σ.symm q), Equiv.apply_symm_apply,
      slice_flatten_ofFn (fun i => length_contribution (ranks (σ i))), Equiv.apply_symm_apply] at hs
    exact hs
  · rw [length_scatter hlt htmp hout le_rfl, length_freshOut]

/-- **Exchange of memory handles.**  The gather returns, and on every rank place
`q` of the output holds the handle of rank `q` with the address at which the
server of rank `q` attached the buffer.  A later post shows the device these
remote fields as they are.  The products of `int`s in the code (`n * 24`) are
taken not to overflow. -/
theorem exchange (hready : ∀ r : Fin n, (ranks r).Ready n r) (hpmi : PmiContract σ ranks)
    (r : Fin n) :
    (∃ inData out, ((ranks r).world.ioctl (ranks r).event).2
        = some (.allgather (ranks r).args inData out, 0) ∧
      ∀ q : Fin n, MdhAddr.codec.decode (slice out q MdhAddr.codec.size)
        = ⟨(ranks q).mdh, (ranks q).buffer.serverAddr⟩) ∧
    ∀ fs f a desc, (∀ e ∈ fs, Smooth e) → Smooth f → f.request = .postRdma a desc →
      ∃ a' desc', ((((ranks r).world.ioctl (ranks r).event).1.run fs).ioctl f).1.deviceLog
          = (((ranks r).world.ioctl (ranks r).event).1.run fs).deviceLog ++ [.postRdma a' desc'] ∧
        desc'.remoteAddr = desc.remoteAddr ∧ desc'.remoteMemHndl = desc.remoteMemHndl := by
  have h := hready r
  have hs := h.gather.served (w := (ranks r).world)
  constructor
  · refine ⟨_, _, ioctl_allgather h.live hs h.request, ?_⟩
    intro q
    -- the copy back takes `comm_size * len` bytes, which is the whole reply
    obtain ⟨hslice, hlen⟩ := slice_reply hready hpmi r q
    have hplace : (q + 1) * MdhAddr.codec.size
        ≤ ((ranks r).world.reply (ranks r).event).data.length := by
      rw [hlen]
      exact Nat.mul_le_mul_right _ q.isLt
    rw [h.commSize, h.handleSize, overlay, List.take_of_length_le (le_of_eq hlen),
      slice_append_left hplace, hslice, Rank.contribution, Codec.decode_encode]
  · intro fs f a desc hfs hf hreq
    -- neither side looks at the remote fields of a descriptor
    have hlive := run_live_of_smooth (ioctl_served h.live hs).live hfs
    exact ⟨_, _, deviceLog_postRdma hlive hf.served hreq, rfl, rfl⟩

end Exchange

/-! ### A job of two ranks, for evaluation -/

/-- The server of rank `rank` of two.  PMI returns rank 1 first. -/
def pairServer (rank : UInt32) (attach : UInt64) : (o : ServerCall) → o.Ans
  | .pmiGetRank => (true, rank)
  | .pmiGetSize => (true, 2)
  | .pmiAllgather .ranks _ _ => (true, Codec.u32.encode 1 ++ Codec.u32.encode 0)
  | .pmiAllgather .blocks _ _ => (true,
      MdhAddr.codec.encode ⟨⟨11, 0⟩, 0x30000⟩ ++ MdhAddr.codec.encode ⟨⟨10, 0⟩, 0x20000⟩)
  | o => calmServer attach 0 o

def pairEvent (rank : UInt32) (attach : UInt64) (r : Request) : Event :=
  ⟨.pmi, r, calmClient 5, pairServer rank attach⟩

theorem callsSucceed_pair (rank : UInt32) (attach : UInt64) (r : Request)
    (h : attach ≠ mapFailed) : CallsSucceed (pairEvent rank attach r) where
  ioctl := fun _ => le_rfl
  pmiGetSize := rfl
  pmiGetRank := rfl
  pmiAllgather := fun site _ _ => by cases site <;> rfl
  clientMalloc := rfl
  clientGet := fun _ _ => Int.one_pos
  clientAttach := fun _ _ _ => show (0x1000 : UInt64) ≠ 0 by decide
  select := show (1 : Int) ≠ -1 by decide
  malloc := fun _ => rfl
  mallocOut := rfl
  xememGet := fun _ => Int.one_pos
  xememAttach := fun _ _ => h

/-- A rank that fetched the size, registered one buffer and gathers its handle. -/
def pairRank (rank : UInt32) (mdh attach : UInt64) : Rank where
  start := { freshWorld with server := { freshWorld.server with jobSize := 2 } }
  history := [pairEvent rank attach (.getsize 0), pairEvent rank attach (.memRegister
    { (default : GniMemRegisterArgs) with
      segmentsCnt := 1, address := 0x1000, length := 0x100, memHndl := ⟨mdh, 0⟩ })]
  event := pairEvent rank attach (.allgather ⟨2, 0x1000, 24, 0x2000⟩
    (MdhAddr.codec.encode ⟨⟨mdh, 0⟩, 0x1000⟩) (List.replicate 48 0))
  args := ⟨2, 0x1000, 24, 0x2000⟩
  mdh := ⟨mdh, 0⟩
  buffer := ⟨5, 0x1000, attach, 0x100, ⟨mdh, 0⟩⟩
  outData := List.replicate 48 0

theorem ready_pairRank {rank : UInt32} {mdh attach : UInt64} {k : Nat} (hk : rank.toNat = k)
    (h : attach ≠ mapFailed) : (pairRank rank mdh attach).Ready 2 k := by
  have hreg : registrations (pairRank rank mdh attach).history
      = [⟨5, 0x1000, attach, 0x100, ⟨mdh, 0⟩⟩] := rfl
  refine ⟨⟨rfl, rfl, rfl, rfl, rfl, rfl⟩, ?_, rfl, ?_, hk, ?_, ?_, ?_, ?_, ?_,
    ⟨trivial, callsSucceed_pair _ _ _ h⟩, rfl, rfl, ?_⟩
  · intro e he
    simp only [pairRank, List.mem_cons, List.not_mem_nil, or_false] at he
    rcases he with rfl | rfl
    · exact ⟨trivial, callsSucceed_pair _ _ _ h⟩
    · exact ⟨rfl, callsSucceed_pair _ _ _ h⟩
  · intro e he
    simp only [pairRank, List.mem_cons, List.not_mem_nil, or_false] at he
    rcases he with rfl | rfl | rfl <;> rfl
  · exact ⟨_, List.mem_cons_self, 0, rfl⟩
  · intro e he a inData outData hreq
    simp only [pairRank, List.mem_cons, List.not_mem_nil, or_false] at he
    rcases he with rfl | rfl <;> cases hreq
  · intro r hr
    rw [hreg] at hr
    rw [List.mem_singleton.mp hr]
    exact ⟨show 0 < (0x100 : UInt64).toNat by decide,
      show (0x1000 : UInt64).toNat + (0x100 : UInt64).toNat < 2 ^ 64 by decide⟩
  · rw [hreg]
    exact ⟨List.pairwise_singleton _ _, List.pairwise_singleton _ _⟩
  · rw [hreg]
    exact List.mem_singleton.mpr rfl
  · exact show 2 * 24 ≤ (List.replicate 48 (0 : UInt8)).length by decide

/-- Ranks 0 and 1. -/
def pair : Fin 2 → Rank := ![pairRank 0 10 0x20000, pairRank 1 11 0x30000]

theorem ready_pair : ∀ r : Fin 2, (pair r).Ready 2 r :=
  Fin.forall_fin_two.mpr ⟨ready_pairRank rfl (by decide), ready_pairRank rfl (by decide)⟩

theorem pmiContract_pair : PmiContract (Equiv.swap 0 1) pair := by
  intro site len data hmem
  have h0 := hmem 0
  have h1 := hmem 1
  rw [(ready_pair 0).collectives] at h0
  rw [(ready_pair 1).collectives] at h1
  have hflat : (List.ofFn fun i => data (Equiv.swap 0 1 i)).flatten = data 1 ++ data 0 := by
    simp [List.ofFn_succ]
  rw [hflat]
  cases site with
  | ranks =>
      simp only [List.mem_cons, Prod.mk.injEq, true_and, reduceCtorEq, false_and, List.not_mem_nil,
        or_false] at h0 h1
      rw [h0.1, h1.1]
      exact Fin.forall_fin_two.mpr ⟨rfl, rfl⟩
  | blocks =>
      simp only [List.mem_cons, Prod.mk.injEq, true_and, reduceCtorEq, false_and, List.not_mem_nil,
        or_false, false_or] at h0 h1
      rw [h0.1, h1.1]
      exact Fin.forall_fin_two.mpr ⟨rfl, rfl⟩

/-- Rank 0 reads the handle of rank 1 at place 1, although PMI returned it
first. -/
theorem exchange_pair : ∃ inData out, ((pair 0).world.ioctl (pair 0).event).2
      = some (.allgather (pair 0).args inData out, 0) ∧
    ∀ q : Fin 2, MdhAddr.codec.decode (slice out q MdhAddr.codec.size)
      = ⟨(pair q).mdh, (pair q).buffer.serverAddr⟩ :=
  (exchange ready_pair pmiContract_pair 0).1

end Nvl.StaticLink

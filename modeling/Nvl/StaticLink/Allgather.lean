/-
Nvl/StaticLink/Allgather.lean

The server's `allgather` in a job of `n` ranks, call after call.

`PMI_Allgather` hands the contributions of all ranks to every rank, in an order
`σ` that belongs to the job (`PmiOrder`).  The first call of a server gathers the
rank numbers, so its index vector is `σ` itself; every call then gathers the
blocks in that same order and scatters them through the vector.  The order
cancels out, and since the vector is kept, it does so in every later call
(`allgather_places`).

What a server knows is a function of the collectives it has taken part in.
`Caches` relates the two, and a call extends both.
-/
import Mathlib.Data.List.Induction
import Nvl.StaticLink.Exchange

namespace Nvl.StaticLink

open SysLib

/-! ### What PMI promises -/

/-- A collective as one rank takes part in it, with what it got back. -/
structure Collective where
  site : GatherSite
  data : Bytes
  len : Nat
  answer : Bytes
  deriving DecidableEq

/-- A call of `PMI_Allgather`. -/
def collectiveIn : (Σ o : ServerCall, o.Ans) → Option Collective
  | ⟨.pmiAllgather site data len, answer⟩ => some ⟨site, data, len, answer.2⟩
  | _ => none

/-- `PMI_Allgather`: the `k`-th collectives of all ranks are one, and every rank
gets all contributions, in the order `σ` of the job. -/
def PmiOrder {n : Nat} (σ : Equiv.Perm (Fin n)) (logs : Fin n → List Collective) : Prop :=
  ∀ (k : Nat) (cs : Fin n → Collective), (∀ r, (logs r)[k]? = some (cs r)) →
    (∀ r s, (cs r).len = (cs s).len) →
    ∀ r, (cs r).answer = (List.ofFn fun i => (cs (σ i)).data).flatten

theorem PmiOrder.of_prefix {n : Nat} {σ : Equiv.Perm (Fin n)} {logs logs' : Fin n → List Collective}
    (h : PmiOrder σ logs') (hpre : ∀ r, logs r <+: logs' r) : PmiOrder σ logs := by
  intro k cs hcs
  refine h k cs fun r => ?_
  obtain ⟨later, hlater⟩ := hpre r
  obtain ⟨hk, -⟩ := List.getElem?_eq_some_iff.mp (hcs r)
  rw [← hlater, List.getElem?_append_left hk]
  exact hcs r

/-! ### The collectives of one call -/

section Call

variable (env : (o : ServerCall) → o.Ans) (g : Gather) (inp : Bytes) (len : Nat)

def ranksCall : Collective :=
  ⟨.ranks, Codec.u32.encode (env .pmiGetRank).2, 4,
    (env (.pmiAllgather .ranks (Codec.u32.encode (env .pmiGetRank).2) 4)).2⟩

def blocksCall : Collective := ⟨.blocks, inp, len, (env (.pmiAllgather .blocks inp len)).2⟩

/-- The collectives a call makes: the ranks only if they are not known. -/
def Gather.calls : List Collective :=
  (if g.alreadyCalled then [] else [ranksCall env]) ++ [blocksCall env inp len]

variable {env g inp len}

theorem collectives_gatherBlocks (h : GatherOk env g inp len) (out : Bytes) :
    ((gatherBlocks g inp out len).exec env).2.filterMap collectiveIn = g.calls env inp len := by
  obtain ⟨hranks, htmp, hblocks⟩ := h
  cases hg : g.alreadyCalled with
  | true =>
      have htrace : ((gatherBlocks g inp out len).exec env).2
          = [⟨.malloc .tmpBuf, env (.malloc .tmpBuf)⟩,
            ⟨.pmiAllgather .blocks inp len, env (.pmiAllgather .blocks inp len)⟩] := by
        simp [gatherBlocks, rankOrder, hg, htmp, hblocks]
      rw [htrace, Gather.calls, hg]
      rfl
  | false =>
      obtain ⟨hsize, hrank, hivec, hall⟩ := hranks hg
      have htrace : ((gatherBlocks g inp out len).exec env).2
          = [⟨.pmiGetSize, env .pmiGetSize⟩, ⟨.pmiGetRank, env .pmiGetRank⟩,
            ⟨.malloc .ivec, env (.malloc .ivec)⟩,
            ⟨.pmiAllgather .ranks (Codec.u32.encode (env .pmiGetRank).2) 4,
              env (.pmiAllgather .ranks (Codec.u32.encode (env .pmiGetRank).2) 4)⟩,
            ⟨.malloc .tmpBuf, env (.malloc .tmpBuf)⟩,
            ⟨.pmiAllgather .blocks inp len, env (.pmiAllgather .blocks inp len)⟩] := by
        simp [gatherBlocks, rankOrder, learnRanks, hg, hsize, hrank, hivec, hall, htmp, hblocks]
      rw [htrace, Gather.calls, hg]
      rfl

end Call

/-- The statics of a server after `k` calls, whose collectives the log keeps. -/
inductive Caches (rank size : UInt32) : Nat → List Collective → Gather → Prop
  | none {g : Gather} (h : g.alreadyCalled = false) : Caches rank size 0 [] g
  | some {k : Nat} {answer : Bytes} {rest : List Collective} (h : rest.length = k + 1) :
      Caches rank size (k + 1) (⟨.ranks, Codec.u32.encode rank, 4, answer⟩ :: rest)
        ⟨true, readRanks size.toNat answer, size⟩

section Caches

variable {env : (o : ServerCall) → o.Ans} {k : Nat} {log : List Collective} {g : Gather}

/-- One more call. -/
theorem Caches.call (h : Caches (env .pmiGetRank).2 (env .pmiGetSize).2 k log g) (inp : Bytes)
    (len : Nat) : Caches (env .pmiGetRank).2 (env .pmiGetSize).2 (k + 1)
      (log ++ g.calls env inp len) (g.orLearnt env) := by
  cases h with
  | none hg =>
      rw [Gather.calls, Gather.orLearnt, hg]
      exact .some rfl
  | some hlen =>
      rw [Gather.calls, Gather.orLearnt, if_pos rfl, if_pos rfl, List.nil_append, List.cons_append]
      exact .some (by rw [List.length_append, hlen, List.length_singleton])

theorem Caches.called {rank size : UInt32} (h : Caches rank size k log g) (hk : 0 < k) :
    g.alreadyCalled = true := by
  cases h with
  | none hg => exact absurd hk (lt_irrefl 0)
  | some hlen => rfl

/-- The blocks of call `k` are collective `k + 1`: one before it was the ranks'. -/
theorem Caches.getElem?_blocks {rank size : UInt32} (h : Caches rank size k log g) (inp : Bytes)
    (len : Nat) : (log ++ g.calls env inp len)[k + 1]? = .some (blocksCall env inp len) := by
  cases h with
  | none hg =>
      rw [Gather.calls, hg]
      rfl
  | @some k answer rest hlen =>
      rw [Gather.calls, if_pos rfl, List.nil_append, List.getElem?_append_right (by simp [hlen])]
      simp [hlen]

end Caches

/-! ### The order cancels out -/

/-- One rank's part in one call: the collectives before it, the statics it finds,
what the outside answers, and its block. -/
structure Turn where
  earlier : List Collective
  gather : Gather
  env : (o : ServerCall) → o.Ans
  inp : Bytes

/-- The collectives of a rank up to and including its turn. -/
def Turn.log (t : Turn) (len : Nat) : List Collective :=
  t.earlier ++ t.gather.calls t.env t.inp len

/-- The statics afterwards. -/
def Turn.after (t : Turn) : Gather := t.gather.orLearnt t.env

/-- Turn number `k` of rank `r` of `n`, with a block of `len` bytes. -/
structure Turn.InJob (t : Turn) (n r k len : Nat) : Prop where
  caches : Caches (t.env .pmiGetRank).2 (t.env .pmiGetSize).2 k t.earlier t.gather
  number : (t.env .pmiGetRank).2.toNat = r
  size : (t.env .pmiGetSize).2.toNat = n
  block : t.inp.length = len

section Turn

variable {n k len : Nat} {σ : Equiv.Perm (Fin n)} {t : Fin n → Turn}

/-- Entry `i` of everybody's index vector is the rank `σ i`. -/
theorem ivec_after (ht : ∀ r, (t r).InJob n r k len) (hpmi : PmiOrder σ fun r => (t r).log len)
    (r i : Fin n) :
    ((t r).after.ivec.getD i 0).toNat = σ i ∧ (t r).after.jobSize.toNat = n := by
  -- after the turn every rank has learnt the order, in its first collective
  have hfirst : ∀ r, ∃ answer, ((t r).log len)[0]? = some ⟨.ranks,
      Codec.u32.encode ((t r).env .pmiGetRank).2, 4, answer⟩ ∧
      (t r).after = ⟨true, readRanks ((t r).env .pmiGetSize).2.toNat answer,
        ((t r).env .pmiGetSize).2⟩ := by
    intro r
    have hcall := (ht r).caches.call (t r).inp len
    generalize hlog : (t r).earlier ++ (t r).gather.calls (t r).env (t r).inp len = log at hcall
    generalize hafter : (t r).gather.orLearnt (t r).env = g at hcall
    rw [Turn.log, Turn.after, hlog, hafter]
    cases hcall with
    | @some k answer rest hlen => exact ⟨answer, rfl, rfl⟩
  choose answer hhead hafter using hfirst
  have hranks := hpmi 0 _ hhead (fun _ _ => rfl) r
  have hslice : slice (List.ofFn fun i =>
      Codec.u32.encode ((t (σ i)).env .pmiGetRank).2).flatten i 4 = _ :=
    slice_flatten_ofFn (fun i => Codec.length_encode _ _) i
  rw [hafter r]
  refine ⟨?_, (ht r).size⟩
  have hget : (readRanks ((t r).env .pmiGetSize).2.toNat (answer r)).getD i 0
      = ((t (σ i)).env .pmiGetRank).2 := by
    rw [readRanks, show answer r = _ from hranks, (ht r).size, List.getD_eq_getElem?_getD,
      List.getElem?_map, List.getElem?_range i.isLt]
    show Codec.u32.decode (slice _ i 4) = _
    rw [hslice, Codec.decode_encode]
  rw [hget, (ht (σ i)).number]

/-- Everybody gets the blocks in the order `σ`. -/
theorem blocks_answer (ht : ∀ r, (t r).InJob n r k len)
    (hpmi : PmiOrder σ fun r => (t r).log len) (r : Fin n) :
    ((t r).env (.pmiAllgather .blocks (t r).inp len)).2
      = (List.ofFn fun i => (t (σ i)).inp).flatten :=
  hpmi (k + 1) (fun r => blocksCall (t r).env (t r).inp len)
    (fun r => (ht r).caches.getElem?_blocks (t r).inp len) (fun _ _ => rfl) r

/-- Every block of the output is at its rank, every byte of the blocks is written
once, and nothing behind them is touched.  A loop is what it leaves and the copies
it makes. -/
structure Placed {n : Nat} (len : Nat) (blocks : Fin n → Bytes) (out : Bytes)
    (loop : Bytes × List (Nat × Bytes)) : Prop where
  blocks : ∀ q : Fin n, slice loop.1 q len = blocks q
  copies : loop.1 = loop.2.foldl (fun out w => writeAt out w.1 w.2) out
  once : (touched loop.2).Perm (List.range (n * len))
  behind : loop.1.drop (n * len) = out.drop (n * len)
  length : loop.1.length = out.length

/-- The loop at the end of a turn. -/
def Turn.loop (t : Turn) (out : Bytes) (len : Nat) : Bytes × List (Nat × Bytes) :=
  scatterLogged (fun i => (t.after.ivec.getD i 0).toNat)
    (t.env (.pmiAllgather .blocks t.inp len)).2 len t.after.jobSize.toNat out

/-- It is the loop of the turn, with a record. -/
theorem gathered_eq_loop (t : Turn) (out : Bytes) (len : Nat) :
    gathered t.env t.gather t.inp out len = (t.loop out len).1 := by
  rw [Turn.loop, scatterLogged_eq]
  rfl

/-- The order cancels out. -/
theorem placed_loop (ht : ∀ r, (t r).InJob n r k len)
    (hpmi : PmiOrder σ fun r => (t r).log len) (r : Fin n) {out : Bytes}
    (hout : n * len ≤ out.length) :
    Placed len (fun q => (t q).inp) out ((t r).loop out len) := by
  have hblocks := blocks_answer ht hpmi r
  have hidx := fun i => (ivec_after ht hpmi r i).1
  have hsize : (t r).after.jobSize.toNat = n := (ivec_after ht hpmi r r).2
  have hin : ∀ i, ((t (σ i)).inp).length = len := fun i => (ht (σ i)).block
  have htmp : (List.ofFn fun i => (t (σ i)).inp).flatten.length = n * len :=
    length_flatten_ofFn hin
  have hlt : ∀ i < n, ((t r).after.ivec.getD i 0).toNat < n := by
    intro i hi
    rw [hidx ⟨i, hi⟩]
    exact (σ ⟨i, hi⟩).isLt
  have hinj : ∀ i < n, ∀ j < n, ((t r).after.ivec.getD i 0).toNat
      = ((t r).after.ivec.getD j 0).toNat → i = j := by
    intro i hi j hj he
    rw [hidx ⟨i, hi⟩, hidx ⟨j, hj⟩] at he
    exact congrArg Fin.val (σ.injective (Fin.ext he))
  have hloop : (t r).loop out len = scatterLogged (fun i => ((t r).after.ivec.getD i 0).toNat)
      (List.ofFn fun i => (t (σ i)).inp).flatten len n out := by
    rw [Turn.loop, hblocks, hsize]
  have hcopies := scatterLogged_foldl (fun i => ((t r).after.ivec.getD i 0).toNat)
    (List.ofFn fun i => (t (σ i)).inp).flatten len n out
  rw [hloop]
  rw [scatterLogged_eq] at hcopies ⊢
  refine ⟨?_, hcopies, touched_scatterWrites hlt hinj htmp, drop_scatter hlt htmp hout le_rfl,
    length_scatter hlt htmp hout le_rfl⟩
  intro q
  -- the block of rank `q` came back at position `σ⁻¹ q`
  have hs := slice_scatter hlt hinj htmp hout (σ.symm q).isLt
  rw [hidx (σ.symm q), Equiv.apply_symm_apply, slice_flatten_ofFn hin,
    Equiv.apply_symm_apply] at hs
  exact hs

end Turn

/-! ### Call after call -/

/-- One `allgather` of a job: its length, and for each rank the block, the output
buffer and what the outside answers.  The products of `int`s in the code do not
overflow. -/
structure GatherRound (n : Nat) where
  len : Nat
  inp : Fin n → Bytes
  out : Fin n → Bytes
  env : Fin n → (o : ServerCall) → o.Ans
  block : ∀ r, (inp r).length = len
  room : ∀ r, n * len ≤ (out r).length
  fits : n * len < 2 ^ 31

namespace GatherRound

variable {n : Nat} (x : GatherRound n)

/-- The call on rank `r`, with what it returns and the calls it makes. -/
def call (r : Fin n) (g : Gather) :
    Option (Gather × Bytes) × Prog.Trace ServerCall ServerCall.Ans :=
  (gatherBlocks g (x.inp r) (x.out r) x.len).exec (x.env r)

/-- The statics of rank `r` and its collectives so far, one call later. -/
def step (r : Fin n) (s : Gather × List Collective) : Gather × List Collective :=
  ((x.call r s.1).1.elim s.1 Prod.fst, s.2 ++ (x.call r s.1).2.filterMap collectiveIn)

/-- Every call on the outside succeeds, and PMI knows the job. -/
structure Succeeds : Prop where
  size : ∀ r, (x.env r .pmiGetSize).1 = true ∧ (x.env r .pmiGetSize).2.toNat = n
  rank : ∀ r, (x.env r .pmiGetRank).1 = true ∧ (x.env r .pmiGetRank).2.toNat = r
  malloc : ∀ r site, x.env r (.malloc site) = true
  gather : ∀ r site data len, (x.env r (.pmiAllgather site data len)).1 = true

/-- The loop at the end of the call, with the statics it has by then. -/
def loop (r : Fin n) (g : Gather) : Bytes × List (Nat × Bytes) :=
  scatterLogged (fun i => (g.ivec.getD i 0).toNat)
    (x.env r (.pmiAllgather .blocks (x.inp r) x.len)).2 x.len g.jobSize.toNat (x.out r)

/-- The part of rank `r`. -/
def turn (r : Fin n) (s : Gather × List Collective) : Turn :=
  ⟨s.2, s.1, x.env r, x.inp r⟩

variable {x}

theorem Succeeds.gatherOk (h : x.Succeeds) (r : Fin n) (g : Gather) :
    GatherOk (x.env r) g (x.inp r) x.len where
  ranks := fun _ => ⟨(h.size r).1, (h.rank r).1, h.malloc r _, h.gather r _ _ _⟩
  tmpBuf := h.malloc r _
  blocks := h.gather r _ _ _

theorem Succeeds.call (h : x.Succeeds) (r : Fin n) (g : Gather) :
    (x.call r g).1 = some (g.orLearnt (x.env r), (x.loop r (g.orLearnt (x.env r))).1) := by
  rw [GatherRound.call, exec_gatherBlocks_some _ _ (h.gatherOk r g)]
  have hloop := gathered_eq_loop ⟨[], g, x.env r, x.inp r⟩ (x.out r) x.len
  exact congrArg (fun out => some (g.orLearnt (x.env r), out)) hloop

theorem Succeeds.step (h : x.Succeeds) (r : Fin n) (s : Gather × List Collective) :
    x.step r s = ((x.turn r s).after, (x.turn r s).log x.len) := by
  rw [GatherRound.step, h.call, GatherRound.call, collectives_gatherBlocks (h.gatherOk r s.1)]
  rfl

end GatherRound

/-- The statics of rank `r` and its collectives after a sequence of calls. -/
def rankRun {n : Nat} (r : Fin n) (g : Gather) (xs : List (GatherRound n)) :
    Gather × List Collective :=
  xs.foldl (fun s x => x.step r s) (g, [])

section Rounds

variable {n : Nat} {σ : Equiv.Perm (Fin n)} {xs : List (GatherRound n)} {r : Fin n} {g : Gather}

theorem rankRun_append (xs ys : List (GatherRound n)) :
    rankRun r g (xs ++ ys) = ys.foldl (fun s x => x.step r s) (rankRun r g xs) :=
  List.foldl_append

/-- What rank `r` has cached after a sequence of calls. -/
theorem caches_rankRun {rank size : UInt32} (hg : g.alreadyCalled = false)
    (hok : ∀ x ∈ xs, x.Succeeds) (hrank : rank.toNat = r) (hsize : size.toNat = n) :
    Caches rank size xs.length (rankRun r g xs).2 (rankRun r g xs).1 := by
  induction xs using List.reverseRec with
  | nil => exact .none hg
  | append_singleton xs x ih =>
      have hx : x.Succeeds := hok x (by simp)
      have hprev := ih fun y hy => hok y (List.mem_append_left _ hy)
      obtain rfl : (x.env r .pmiGetRank).2 = rank :=
        UInt32.toNat_inj.mp ((hx.rank r).2.trans hrank.symm)
      obtain rfl : (x.env r .pmiGetSize).2 = size :=
        UInt32.toNat_inj.mp ((hx.size r).2.trans hsize.symm)
      have hcall := hprev.call (x.inp r) x.len
      rw [rankRun_append, List.foldl_cons, List.foldl_nil, hx.step, List.length_append]
      exact hcall

/-- The collectives of a rank are only appended to. -/
theorem rankRun_prefix (xs ys : List (GatherRound n)) :
    (rankRun r g xs).2 <+: (rankRun r g (xs ++ ys)).2 := by
  rw [rankRun_append]
  generalize rankRun r g xs = s
  induction ys generalizing s with
  | nil => exact List.prefix_rfl
  | cons y ys ih => exact (List.prefix_append _ _).trans (ih (y.step r s))

/-- **Every block is at its rank.**  Over any sequence of calls by all ranks, each
call returns on every rank what its loop leaves: every block in its place, written
once, and nothing else touched; from the second call on it uses the index vector it finds
and gathers nothing but the blocks. -/
theorem allgather_places {start : Fin n → Gather} (hstart : ∀ r, (start r).alreadyCalled = false)
    (hok : ∀ x ∈ xs, x.Succeeds) (hpmi : PmiOrder σ fun r => (rankRun r (start r) xs).2)
    {pre post : List (GatherRound n)} {x : GatherRound n} (hxs : xs = pre ++ x :: post)
    (r : Fin n) :
    ∃ g, (x.call r (rankRun r (start r) pre).1).1 = some (g, (x.loop r g).1) ∧
      Placed x.len x.inp (x.out r) (x.loop r g) ∧
      (pre ≠ [] → g = (rankRun r (start r) pre).1 ∧
        (x.call r (rankRun r (start r) pre).1).2.filterMap collectiveIn
          = [blocksCall (x.env r) (x.inp r) x.len]) := by
  subst hxs
  have hx : x.Succeeds := hok x (by simp)
  have hpre : ∀ y ∈ pre, y.Succeeds := fun y hy => hok y (List.mem_append_left _ hy)
  have hcaches := fun q => caches_rankRun (r := q) (hstart q) hpre (hx.rank q).2 (hx.size q).2
  have hturn : ∀ q, (x.turn q (rankRun q (start q) pre)).InJob n q pre.length x.len := fun q =>
    ⟨hcaches q, (hx.rank q).2, (hx.size q).2, x.block q⟩
  -- up to this call the ranks have seen a prefix of what they see in the whole run
  have hlog : PmiOrder σ fun q => (x.turn q (rankRun q (start q) pre)).log x.len := by
    refine hpmi.of_prefix fun q => ?_
    have hupTo := rankRun_prefix (r := q) (g := start q) (pre ++ [x]) post
    rw [rankRun_append pre [x], List.foldl_cons, List.foldl_nil, hx.step,
      List.append_assoc] at hupTo
    exact hupTo
  refine ⟨_, hx.call r _, placed_loop hturn hlog r (x.room r), ?_⟩
  intro hne
  have hcalled : (rankRun r (start r) pre).1.alreadyCalled = true :=
    (hcaches r).called (List.length_pos_iff.mpr hne)
  constructor
  · rw [Gather.orLearnt, if_pos hcalled]
  · rw [GatherRound.call, collectives_gatherBlocks (hx.gatherOk r _), Gather.calls, if_pos hcalled,
      List.nil_append]

end Rounds

/-! ### A job of two ranks, for evaluation -/

/-- The outside of rank `r` of two.  PMI returns rank 1 first, with block `b`, and
then rank 0, with block `a`. -/
def swapEnv (a b : Bytes) (r : Fin 2) : (o : ServerCall) → o.Ans
  | .pmiGetRank => (true, UInt32.ofNat r)
  | .pmiGetSize => (true, 2)
  | .pmiAllgather .ranks _ _ => (true, Codec.u32.encode 1 ++ Codec.u32.encode 0)
  | .pmiAllgather .blocks _ _ => (true, b ++ a)
  | o => calmServer 0x1000 0 o

def swapRound (a b : Bytes) (h : b.length = a.length) (hfits : 2 * a.length < 2 ^ 31) :
    GatherRound 2 where
  len := a.length
  inp := ![a, b]
  out := fun _ => List.replicate (2 * a.length) 0
  env := swapEnv a b
  block := Fin.forall_fin_two.mpr ⟨rfl, h⟩
  room := fun _ => by simp
  fits := hfits

theorem succeeds_swapRound (a b : Bytes) (h : b.length = a.length)
    (hfits : 2 * a.length < 2 ^ 31) : (swapRound a b h hfits).Succeeds where
  size := fun _ => ⟨rfl, rfl⟩
  rank := Fin.forall_fin_two.mpr ⟨⟨rfl, rfl⟩, ⟨rfl, rfl⟩⟩
  malloc := fun _ _ => rfl
  gather := fun _ site _ _ => by cases site <;> rfl

/-- Two calls, of one byte and of two. -/
def swapRounds : List (GatherRound 2) :=
  [swapRound [10] [11] rfl (by decide), swapRound [1, 2] [3, 4] rfl (by decide)]

theorem succeeds_swapRounds : ∀ x ∈ swapRounds, x.Succeeds := by
  intro x hx
  simp only [swapRounds, List.mem_cons, List.not_mem_nil, or_false] at hx
  rcases hx with rfl | rfl <;> exact succeeds_swapRound _ _ _ _

theorem pmiOrder_swapRounds :
    PmiOrder (Equiv.swap 0 1) fun r => (rankRun r ⟨false, [], 0⟩ swapRounds).2 := by
  have hlog : ∀ r : Fin 2, (rankRun r ⟨false, [], 0⟩ swapRounds).2
      = [⟨.ranks, Codec.u32.encode (UInt32.ofNat r), 4, Codec.u32.encode 1 ++ Codec.u32.encode 0⟩,
        ⟨.blocks, ![[10], [11]] r, 1, [11, 10]⟩,
        ⟨.blocks, ![[1, 2], [3, 4]] r, 2, [3, 4, 1, 2]⟩] := fun _ => rfl
  intro k cs hcs _
  have hflat : (List.ofFn fun i => (cs (Equiv.swap 0 1 i)).data).flatten
      = (cs 1).data ++ (cs 0).data := by
    simp [List.ofFn_succ]
  rw [hflat]
  simp only [hlog] at hcs
  rcases k with - | - | - | k
  · rw [← Option.some.inj (hcs 0), ← Option.some.inj (hcs 1)]
    exact fun r => (congrArg Collective.answer (Option.some.inj (hcs r))).symm
  · rw [← Option.some.inj (hcs 0), ← Option.some.inj (hcs 1)]
    exact fun r => (congrArg Collective.answer (Option.some.inj (hcs r))).symm
  · rw [← Option.some.inj (hcs 0), ← Option.some.inj (hcs 1)]
    exact fun r => (congrArg Collective.answer (Option.some.inj (hcs r))).symm
  · cases hcs 0

/-- The second call finds rank 1's block at place 1, although PMI returned it first. -/
theorem allgather_places_swap : ∃ g out,
    ((swapRound [1, 2] [3, 4] rfl (by decide)).call 0 (rankRun 0 ⟨false, [], 0⟩
      [swapRound [10] [11] rfl (by decide)]).1).1 = some (g, out) ∧ slice out 1 2 = [3, 4] := by
  have hsplit : swapRounds = [swapRound [10] [11] rfl (by decide)] ++
      swapRound [1, 2] [3, 4] rfl (by decide) :: [] := rfl
  obtain ⟨g, hcall, hplaced, -⟩ := allgather_places (fun _ => rfl) succeeds_swapRounds
    pmiOrder_swapRounds hsplit 0
  exact ⟨g, _, hcall, hplaced.blocks 1⟩

end Nvl.StaticLink

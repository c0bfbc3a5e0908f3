/-
Nvl/Jobs/Barrier.lean

The barrier of a job (`kgni_cdm_barr` of `kgni_ops.c`).

A call holds the lock of the resources while it joins and while it leaves, and gives it up to
allocate the barrier and to wait; between these sections the calls interleave as they like,
and a wait may end early.  The barrier is freed by the call that drops the last reference.

What every interleaving keeps (`barrier_safe`): the barrier is there for each call that will
still touch it, its references are the calls that wait or leave, and a round that is complete
has left enough in the semaphore for everybody who waits.

What a success means is another matter.  A call that finds a complete round sets the barrier
up again, "participants in the last barrier won't use them anymore"; but they may not have
taken the semaphore yet, and then the new call can take it in their place and return before
its own round is complete (`barrier_early`).  If this does not happen, a call succeeds only
after as many have joined its round as it asked for (`barrier_sound`).
-/
import Nvl.Lib.Keyed

namespace Nvl.Barrier

open SysLib

/-! ### The barrier and the calls -/

/-- `kgni_barr_res_t`. -/
structure Barr where
  size : Nat
  count : Nat
  sem : Nat
  refCnt : Int

inductive Errno where
  | einval
  | enomem
  | eagain
  deriving DecidableEq

/-- Where a call is that does not hold the lock; a call that leaves knows its result. -/
inductive Pc where
  | allocating
  | waiting
  | leaving (rc : Except Errno Unit)
  deriving DecidableEq

/-- A call under way.  The round that it joined is kept for the proofs. -/
structure Call where
  id : Nat
  size : Nat
  pc : Pc
  round : Nat
  deriving DecidableEq

/-- The barrier of a job and the calls under way.  The last two fields are for the proofs: the
rounds begun, and the round of every join. -/
structure State where
  barr : Option Barr
  calls : List Call
  round : Nat
  joins : List Nat

/-- What a call returns, with the call. -/
abbrev Returned := Call × Except Errno Unit

inductive Fault where
  | null
  | absent
  deriving DecidableEq

namespace State

variable (s : State)

def drop (id : Nat) : State := { s with calls := removeKey Call.id s.calls id }

def write (c : Call) : State := { s with calls := writeKey Call.id s.calls c }

/-- The end of a joining section: a reference is taken and the lock given up. -/
def await (b : Barr) (c : Call) : State :=
  { s with
    barr := some { b with refCnt := b.refCnt + 1 }
    calls := s.calls ++ [{ c with pc := .waiting, round := s.round }]
    joins := s.joins ++ [s.round] }

/-- The call sets the barrier up for itself. -/
def begin (b : Barr) (c : Call) : State :=
  { s with round := s.round + 1 }.await { b with size := c.size, count := 1 } c

/-- A call on a barrier that is there. -/
def join (b : Barr) (c : Call) : State × Option Returned :=
  if b.count = b.size then (s.begin b c, none)
  else if b.size ≠ c.size then (s, some (c, .error .einval))
  else
    let b := { b with count := b.count + 1 }
    if b.count = b.size then
      -- the last one wakes the others up and does not wait
      ({ s with
          barr := some { b with sem := b.sem + (b.size - 1) }
          joins := s.joins ++ [s.round] },
        some ({ c with round := s.round }, .ok ()))
    else (s.await b c, none)

/-- The begin of `kgni_cdm_barr`, up to where the lock is given up. -/
def enter (id size : Nat) : State × Option Returned :=
  let c : Call := ⟨id, size, .allocating, 0⟩
  if size < 1 then (s, some (c, .error .einval))
  else if size = 1 then (s, some (c, .ok ()))
  else
    match s.barr with
    | none => ({ s with calls := s.calls ++ [c] }, none)
    | some b => s.join b c

/-- The allocation, and the section after it.  Somebody may have been faster. -/
def alloc (c : Call) (fails : Bool) : State × Option Returned :=
  let s := s.drop c.id
  if fails then (s, some (c, .error .enomem))
  else
    match s.barr with
    | none => (s.begin ⟨0, 0, 0, 0⟩ c, none)
    | some b => s.join b c

/-- `down_timeout` and `down_interruptible`; `taken` says how they end. -/
def down (c : Call) (taken : Bool) : Except Fault State :=
  match s.barr with
  | none => .error .null
  | some b =>
      if taken then
        .ok ({ s with barr := some { b with sem := b.sem - 1 } }.write
          { c with pc := .leaving (.ok ()) })
      else .ok (s.write { c with pc := .leaving (.error .eagain) })

/-- The last section. -/
def leave (c : Call) : Except Fault State :=
  match s.barr with
  | none => .error .null
  | some b =>
      let b := { b with refCnt := b.refCnt - 1 }
      .ok { s.drop c.id with barr := if b.refCnt = 0 then none else some b }

end State

/-- Which call goes on, and how. -/
inductive Op where
  | enter (id size : Nat)
  | alloc (id : Nat) (fails : Bool)
  | down (id : Nat) (taken : Bool)
  | leave (id : Nat)

def step (s : State) : Op → Except Fault (State × Option Returned)
  | .enter id size => .ok (s.enter id size)
  | .alloc id fails =>
      match findKey Call.id s.calls id with
      | some c => if c.pc = .allocating then .ok (s.alloc c fails) else .error .absent
      | none => .error .absent
  | .down id taken =>
      match findKey Call.id s.calls id with
      | some c =>
          if c.pc = .waiting then (s.down c taken).map fun s => (s, none) else .error .absent
      | none => .error .absent
  | .leave id =>
      match findKey Call.id s.calls id with
      | some c =>
          match c.pc with
          | .leaving rc => (s.leave c).map fun s => (s, some (c, rc))
          | _ => .error .absent
      | none => .error .absent

/-- Steps one after the other, with what the calls return. -/
def run (s : State) : List Op → Except Fault (State × List Returned)
  | [] => .ok (s, [])
  | op :: ops =>
      match step s op with
      | .error f => .error f
      | .ok (s, ret) => (run s ops).map fun r => (r.1, ret.toList ++ r.2)

def State.start : State := ⟨none, [], 0, []⟩

/-- The step can be taken: a new call is not under way yet, another one stands where it goes
on, and the semaphore is taken only when it is up. -/
def Op.Enabled (s : State) : Op → Prop
  | .enter id _ => ∀ c ∈ s.calls, c.id ≠ id
  | .alloc id _ => ∃ c ∈ s.calls, c.id = id ∧ c.pc = .allocating
  | .down id taken => (∃ c ∈ s.calls, c.id = id ∧ c.pc = .waiting) ∧
      ∀ b, s.barr = some b → taken = true → 0 < b.sem
  | .leave id => ∃ c ∈ s.calls, c.id = id ∧ ∃ rc, c.pc = .leaving rc

def RunEnabled (s : State) : List Op → Prop
  | [] => True
  | op :: ops => op.Enabled s ∧ ∀ s' ret, step s op = .ok (s', ret) → RunEnabled s' ops

/-! ### What is kept -/

def Call.waits (c : Call) : Bool := c.pc == .waiting

/-- The call has a reference. -/
def Call.holds (c : Call) : Bool := c.pc != .allocating

def State.waiting (s : State) : Nat := s.calls.countP Call.waits

def State.holders (s : State) : Nat := s.calls.countP Call.holds

/-- The calls of a round that is not complete: the last one will wake them up. -/
def Barr.pending (b : Barr) : Nat := if b.count < b.size then b.count else 0

structure Inv (s : State) : Prop where
  ids : (s.calls.map Call.id).Nodup
  size : ∀ c ∈ s.calls, 2 ≤ c.size
  gone : s.barr = none → s.holders = 0
  held : ∀ b, s.barr = some b → b.refCnt = s.holders ∧ 0 < s.holders
  round : ∀ b, s.barr = some b → 0 < b.count ∧ b.count ≤ b.size ∧ 2 ≤ b.size
  woken : ∀ b, s.barr = some b → s.waiting ≤ b.sem + b.pending
  past : ∀ r ∈ s.joins, r ≤ s.round

variable {s s' : State} {b : Barr} {c : Call} {ret : Option Returned}

theorem Inv.start : Inv .start where
  ids := List.nodup_nil
  size c hc := by cases hc
  gone _ := rfl
  held b hb := by cases hb
  round b hb := by cases hb
  woken b hb := by cases hb
  past r hr := by cases hr

/-- A call that has not joined goes away. -/
theorem Inv.drop (h : Inv s) (hc : c ∈ s.calls) (hpc : c.pc = .allocating) : Inv (s.drop c.id) := by
  have hholders : (s.drop c.id).holders = s.holders := by
    have hcount := countP_removeKey Call.holds h.ids hc
    rwa [Call.holds, hpc] at hcount
  have hwaiting : (s.drop c.id).waiting = s.waiting := by
    have hcount := countP_removeKey Call.waits h.ids hc
    rwa [Call.waits, hpc] at hcount
  refine ⟨nodup_removeKey h.ids, fun t ht => h.size t (mem_removeKey.mp ht).1, ?_, ?_, h.round, ?_,
    h.past⟩
  · rw [hholders]
    exact h.gone
  · rw [hholders]
    exact h.held
  · rw [hwaiting]
    exact h.woken

theorem nodup_append_id {l : List Call} (hids : (l.map Call.id).Nodup)
    (hnew : ∀ t ∈ l, t.id ≠ c.id) : ((l ++ [c]).map Call.id).Nodup := by
  rw [List.map_append, List.nodup_append']
  refine ⟨hids, List.nodup_singleton _, fun id hid hid' => ?_⟩
  obtain ⟨t, ht, rfl⟩ := List.mem_map.mp hid
  exact hnew t ht (List.mem_singleton.mp hid')

theorem past_append (hpast : ∀ r ∈ s.joins, r ≤ s.round) :
    ∀ r ∈ s.joins ++ [s.round], r ≤ s.round := by
  intro r hr
  rcases List.mem_append.mp hr with hr | hr
  · exact hpast r hr
  · exact Nat.le_of_eq (List.mem_singleton.mp hr)

/-- A call joins and waits. -/
theorem Inv.await (hids : (s.calls.map Call.id).Nodup) (hsize : ∀ c ∈ s.calls, 2 ≤ c.size)
    (hnew : ∀ t ∈ s.calls, t.id ≠ c.id) (hc : 2 ≤ c.size) (hrefs : b.refCnt = s.holders)
    (hround : 0 < b.count ∧ b.count ≤ b.size ∧ 2 ≤ b.size)
    (hwoken : s.waiting + 1 ≤ b.sem + b.pending) (hpast : ∀ r ∈ s.joins, r ≤ s.round) :
    Inv (s.await b c) := by
  have hholders : (s.await b c).holders = s.holders + 1 := by
    rw [State.holders, State.await, List.countP_append]
    rfl
  have hwaiting : (s.await b c).waiting = s.waiting + 1 := by
    rw [State.waiting, State.await, List.countP_append]
    rfl
  refine ⟨nodup_append_id hids hnew, fun t ht => ?_, fun hb => (by cases hb), ?_, ?_, ?_,
    past_append hpast⟩
  · rcases List.mem_append.mp ht with ht | ht
    · exact hsize t ht
    · rw [List.mem_singleton.mp ht]
      exact hc
  · rintro _ ⟨⟩
    rw [hholders, hrefs]
    exact ⟨rfl, Nat.succ_pos _⟩
  · rintro _ ⟨⟩
    exact hround
  · rintro _ ⟨⟩
    rw [hwaiting]
    exact hwoken

theorem pending_one {size : Nat} (hsize : 2 ≤ size) (b : Barr) :
    Barr.pending { b with size, count := 1 } = 1 :=
  if_pos hsize

/-- **A call on a barrier that is there.** -/
theorem Inv.join (h : Inv s) (hb : s.barr = some b) (hnew : ∀ t ∈ s.calls, t.id ≠ c.id)
    (hc : 2 ≤ c.size) : Inv (s.join b c).1 := by
  obtain ⟨hrefs, hpos⟩ := h.held b hb
  obtain ⟨hone, hle, htwo⟩ := h.round b hb
  have hwoken := h.woken b hb
  unfold State.join
  by_cases hfull : b.count = b.size
  · rw [if_pos hfull]
    refine Inv.await h.ids h.size hnew hc hrefs ⟨Nat.one_pos, Nat.le_of_lt hc, hc⟩ ?_
      fun r hr => Nat.le_succ_of_le (h.past r hr)
    · -- nobody waits without a share in the semaphore, and the new one begins a round
      rw [pending_one hc]
      rw [Barr.pending, if_neg (by omega)] at hwoken
      exact Nat.succ_le_succ hwoken
  rw [if_neg hfull]
  by_cases hsame : b.size ≠ c.size
  · rw [if_pos hsame]
    exact h
  rw [if_neg hsame]
  rw [Barr.pending, if_pos (by omega)] at hwoken
  dsimp only
  by_cases hlast : b.count + 1 = b.size
  · rw [if_pos hlast]
    refine ⟨h.ids, h.size, fun hnone => (by cases hnone), ?_, ?_, ?_, past_append h.past⟩
    · rintro _ ⟨⟩
      exact ⟨hrefs, hpos⟩
    · rintro _ ⟨⟩
      exact ⟨Nat.succ_pos _, Nat.lt_of_le_of_ne hle hfull, htwo⟩
    · rintro _ ⟨⟩
      show s.waiting ≤ b.sem + (b.size - 1) + _
      omega
  · rw [if_neg hlast]
    refine Inv.await h.ids h.size hnew hc hrefs
      ⟨Nat.succ_pos _, Nat.lt_of_le_of_ne hle hfull, htwo⟩ ?_ h.past
    rw [Barr.pending, if_pos (show b.count + 1 < b.size by omega)]
    show s.waiting + 1 ≤ b.sem + (b.count + 1)
    omega

theorem Inv.enter (h : Inv s) {id size : Nat} (hnew : ∀ c ∈ s.calls, c.id ≠ id) :
    Inv (s.enter id size).1 := by
  unfold State.enter
  dsimp only
  by_cases hzero : size < 1
  · rw [if_pos hzero]
    exact h
  rw [if_neg hzero]
  by_cases hone : size = 1
  · rw [if_pos hone]
    exact h
  rw [if_neg hone]
  have hsize : 2 ≤ size := by omega
  rcases hb : s.barr with - | b
  · refine ⟨nodup_append_id h.ids hnew, fun t ht => ?_, fun _ => ?_, fun b hb => (by cases hb),
      fun b hb => (by cases hb), fun b hb => (by cases hb), h.past⟩
    · rcases List.mem_append.mp ht with ht | ht
      · exact h.size t ht
      · rw [List.mem_singleton.mp ht]
        exact hsize
    · rw [State.holders, List.countP_append]
      exact h.gone hb
  · exact h.join hb hnew hsize

theorem Inv.alloc (h : Inv s) (hc : c ∈ s.calls) (hpc : c.pc = .allocating) (fails : Bool) :
    Inv (s.alloc c fails).1 := by
  have hdrop := h.drop hc hpc
  have hnew : ∀ t ∈ (s.drop c.id).calls, t.id ≠ c.id := fun t ht => (mem_removeKey.mp ht).2
  have hsize := h.size c hc
  unfold State.alloc
  dsimp only
  split
  · exact hdrop
  rcases hb : (s.drop c.id).barr with - | b
  · refine Inv.await hdrop.ids hdrop.size hnew hsize ?_ ⟨Nat.one_pos, Nat.le_of_lt hsize, hsize⟩ ?_
      fun r hr => Nat.le_succ_of_le (h.past r hr)
    · show (0 : Int) = (s.drop c.id).holders
      rw [hdrop.gone hb]
      rfl
    · -- nobody waits, since nobody has a reference
      have hless : (s.drop c.id).waiting ≤ (s.drop c.id).holders := by
        apply List.countP_mono_left
        intro t _ ht
        rw [Call.waits, beq_iff_eq] at ht
        rw [Call.holds, ht]
        rfl
      rw [hdrop.gone hb] at hless
      rw [pending_one hsize]
      show (s.drop c.id).waiting + 1 ≤ 0 + 1
      omega
  · exact hdrop.join hb hnew hsize

theorem Inv.find_eq (h : Inv s) (hc : c ∈ s.calls) : findKey Call.id s.calls c.id = some c :=
  findKey_eq h.ids hc

/-- The barrier is there for a call with a reference. -/
theorem Inv.exists_barr (h : Inv s) (hc : c ∈ s.calls) (hpc : c.holds = true) :
    ∃ b, s.barr = some b := by
  rcases hb : s.barr with - | b
  · have hnone := h.gone hb
    rw [State.holders, List.countP_eq_zero] at hnone
    exact absurd hpc (hnone c hc)
  · exact ⟨b, rfl⟩

/-- A call stops waiting. -/
theorem Inv.write (h : Inv s) (hb : s.barr = some b) (hc : c ∈ s.calls) (hpc : c.pc = .waiting)
    (rc : Except Errno Unit) {sem : Nat} (hsem : s.waiting ≤ sem + 1 + b.pending) :
    Inv ({ s with barr := some { b with sem } }.write { c with pc := .leaving rc }) := by
  have hholders : (s.write { c with pc := .leaving rc }).holders = s.holders := by
    have hcount : _ + _ = _ + _ := countP_writeKey Call.holds h.ids hc
      (show c.id = Call.id { c with pc := .leaving rc } from rfl)
    rw [Call.holds, Call.holds, hpc] at hcount
    exact Nat.add_right_cancel hcount
  have hwaiting : (s.write { c with pc := .leaving rc }).waiting + 1 = s.waiting := by
    have hcount : _ + _ = _ + _ := countP_writeKey Call.waits h.ids hc
      (show c.id = Call.id { c with pc := .leaving rc } from rfl)
    rwa [Call.waits, Call.waits, hpc] at hcount
  refine ⟨?_, fun t ht => ?_, fun hnone => (by cases hnone), ?_, ?_, ?_, h.past⟩
  · show ((writeKey Call.id s.calls _).map Call.id).Nodup
    rw [map_key_writeKey]
    exact h.ids
  · rcases mem_writeKey ht with rfl | ⟨ht, -⟩
    · exact h.size c hc
    · exact h.size t ht
  · rintro _ ⟨⟩
    show b.refCnt = ((s.write { c with pc := .leaving rc }).holders : Int) ∧
      0 < (s.write { c with pc := .leaving rc }).holders
    rw [hholders]
    exact h.held b hb
  · rintro _ ⟨⟩
    exact h.round b hb
  · rintro _ ⟨⟩
    show (s.write { c with pc := .leaving rc }).waiting ≤ sem + b.pending
    omega

theorem Inv.down (h : Inv s) (hc : c ∈ s.calls) (hpc : c.pc = .waiting) {taken : Bool}
    (hsem : ∀ b, s.barr = some b → taken = true → 0 < b.sem) :
    ∃ s', s.down c taken = .ok s' ∧ Inv s' := by
  obtain ⟨b, hb⟩ := h.exists_barr hc (by rw [Call.holds, hpc]; rfl)
  have hwoken := h.woken b hb
  unfold State.down
  rw [hb]
  rcases taken with - | -
  · refine ⟨_, rfl, ?_⟩
    have hup : s.waiting ≤ b.sem + 1 + b.pending := by omega
    have hwrite := h.write hb hc hpc (.error .eagain) hup
    rwa [← hb] at hwrite
  · have hpos := hsem b hb rfl
    exact ⟨_, rfl, h.write hb hc hpc (.ok ()) (by omega)⟩

theorem Inv.leave (h : Inv s) (hc : c ∈ s.calls) {rc : Except Errno Unit}
    (hpc : c.pc = .leaving rc) : ∃ s', s.leave c = .ok s' ∧ Inv s' := by
  obtain ⟨b, hb⟩ := h.exists_barr hc (by rw [Call.holds, hpc]; rfl)
  have hholders : (s.drop c.id).holders + 1 = s.holders := by
    have hcount := countP_removeKey Call.holds h.ids hc
    rwa [Call.holds, hpc] at hcount
  have hwaiting : (s.drop c.id).waiting = s.waiting := by
    have hcount := countP_removeKey Call.waits h.ids hc
    rwa [Call.waits, hpc] at hcount
  obtain ⟨hrefs, -⟩ := h.held b hb
  unfold State.leave
  rw [hb]
  refine ⟨_, rfl, ⟨nodup_removeKey h.ids, fun t ht => h.size t (mem_removeKey.mp ht).1,
    ?_, ?_, ?_, ?_,
    h.past⟩⟩
  · intro hnone
    show (s.drop c.id).holders = 0
    dsimp only at hnone
    split at hnone
    · omega
    · cases hnone
  all_goals
    intro b' hb'
    dsimp only at hb'
    split at hb'
    · cases hb'
    obtain rfl := Option.some.inj hb'
  · show b.refCnt - 1 = ((s.drop c.id).holders : Int) ∧ 0 < (s.drop c.id).holders
    omega
  · exact h.round b hb
  · show (s.drop c.id).waiting ≤ b.sem + b.pending
    rw [hwaiting]
    exact h.woken b hb

theorem Inv.step_alloc (h : Inv s) (hc : c ∈ s.calls) (hpc : c.pc = .allocating) (fails : Bool) :
    Barrier.step s (.alloc c.id fails) = .ok (s.alloc c fails) := by
  rw [Barrier.step, h.find_eq hc]
  exact if_pos hpc

theorem Inv.step_down (h : Inv s) (hc : c ∈ s.calls) (hpc : c.pc = .waiting) {taken : Bool}
    (hdown : s.down c taken = .ok s') : Barrier.step s (.down c.id taken) = .ok (s', none) := by
  rw [Barrier.step, h.find_eq hc]
  dsimp only
  rw [if_pos hpc, hdown]
  rfl

theorem Inv.step_leave (h : Inv s) (hc : c ∈ s.calls) {rc : Except Errno Unit}
    (hpc : c.pc = .leaving rc) (hleave : s.leave c = .ok s') :
    Barrier.step s (.leave c.id) = .ok (s', some (c, rc)) := by
  rw [Barrier.step, h.find_eq hc]
  dsimp only
  rw [hpc]
  dsimp only
  rw [hleave]
  rfl

theorem Inv.step (h : Inv s) {op : Op} (hop : op.Enabled s) :
    ∃ s' ret, step s op = .ok (s', ret) ∧ Inv s' := by
  cases op with
  | enter id size => exact ⟨_, _, rfl, h.enter hop⟩
  | alloc id fails =>
      obtain ⟨c, hc, rfl, hpc⟩ := hop
      exact ⟨_, _, h.step_alloc hc hpc fails, h.alloc hc hpc fails⟩
  | down id taken =>
      obtain ⟨⟨c, hc, rfl, hpc⟩, hsem⟩ := hop
      obtain ⟨s', hdown, hinv⟩ := h.down hc hpc hsem
      exact ⟨s', none, h.step_down hc hpc hdown, hinv⟩
  | leave id =>
      obtain ⟨c, hc, rfl, rc, hpc⟩ := hop
      obtain ⟨s', hleave, hinv⟩ := h.leave hc hpc
      exact ⟨s', some (c, rc), h.step_leave hc hpc hleave, hinv⟩

theorem Inv.run (h : Inv s) {ops : List Op} (hops : RunEnabled s ops) :
    ∃ s' ret, run s ops = .ok (s', ret) ∧ Inv s' := by
  induction ops generalizing s with
  | nil => exact ⟨s, [], rfl, h⟩
  | cons op ops ih =>
      obtain ⟨s₁, ret₁, hstep, h₁⟩ := h.step hops.1
      obtain ⟨s₂, ret₂, hrun, h₂⟩ := ih h₁ (hops.2 s₁ ret₁ hstep)
      refine ⟨s₂, ret₁.toList ++ ret₂, ?_, h₂⟩
      rw [Barrier.run, hstep]
      dsimp only
      rw [hrun]
      rfl

/-- **Every interleaving is safe.**  The barrier is there for each call that will still touch
it, and only for these; and of a complete round everybody who waits can go on. -/
theorem barrier_safe {ops : List Op} (hops : RunEnabled .start ops) :
    ∃ s ret, run .start ops = .ok (s, ret) ∧
      (s.barr = none ↔ ∀ c ∈ s.calls, c.pc = .allocating) ∧
      ∀ b, s.barr = some b → b.refCnt = s.holders ∧ (b.count = b.size → s.waiting ≤ b.sem) := by
  obtain ⟨s, ret, hrun, h⟩ := Inv.start.run hops
  refine ⟨s, ret, hrun, ⟨fun hnone c hc => ?_, fun hall => ?_⟩, fun b hb => ⟨(h.held b hb).1, ?_⟩⟩
  · by_contra hpc
    obtain ⟨b, hb⟩ := h.exists_barr hc (bne_iff_ne.mpr hpc)
    rw [hnone] at hb
    cases hb
  · rcases hb : s.barr with - | b
    · rfl
    · have hpos := (h.held b hb).2
      rw [State.holders, List.countP_pos_iff] at hpos
      obtain ⟨c, hc, hholds⟩ := hpos
      rw [Call.holds, hall c hc] at hholds
      cases hholds
  · intro hfull
    have hwoken := h.woken b hb
    rwa [Barr.pending, if_neg (by omega)] at hwoken

/-- Two calls for two: the second one wakes the first up. -/
def samplePair : List Op := [.enter 1 2, .alloc 1 false, .enter 2 2]

theorem samplePair_enabled : RunEnabled .start (samplePair ++ [.down 1 true, .leave 1]) := by
  refine ⟨by simp [Op.Enabled, State.start], fun s₁ ret₁ h₁ => ?_⟩
  cases h₁
  refine ⟨⟨_, List.mem_singleton_self _, rfl, rfl⟩, fun s₂ ret₂ h₂ => ?_⟩
  cases h₂
  refine ⟨fun c hc => ?_, fun s₃ ret₃ h₃ => ?_⟩
  · rw [List.mem_singleton.mp hc]
    decide
  cases h₃
  refine ⟨⟨⟨_, List.mem_singleton_self _, rfl, rfl⟩, ?_⟩, fun s₄ ret₄ h₄ => ?_⟩
  · rintro _ ⟨⟩ -
    decide
  cases h₄
  exact ⟨⟨_, List.mem_singleton_self _, rfl, _, rfl⟩, fun _ _ _ => trivial⟩

theorem barrier_safe_pair :
    ∃ s ret, run .start (samplePair ++ [.down 1 true, .leave 1]) = .ok (s, ret) ∧
      (s.barr = none ↔ ∀ c ∈ s.calls, c.pc = .allocating) ∧
      ∀ b, s.barr = some b → b.refCnt = s.holders ∧ (b.count = b.size → s.waiting ≤ b.sem) :=
  barrier_safe samplePair_enabled

/-! ### What a success means -/

/-- A complete round is followed by another only when nothing is left in the semaphore. -/
def Op.Quiet (s : State) : Op → Prop
  | .enter _ size => 2 ≤ size → ∀ b, s.barr = some b → b.count = b.size → b.sem = 0
  | .alloc _ fails => fails = false → ∀ b, s.barr = some b → b.count = b.size → b.sem = 0
  | _ => True

def RunQuiet (s : State) : List Op → Prop
  | [] => True
  | op :: ops => op.Quiet s ∧ ∀ s' ret, step s op = .ok (s', ret) → RunQuiet s' ops

/-- As many have joined the round of the call as it asked for. -/
def Met (joins : List Nat) (c : Call) : Prop := c.size ≤ joins.count c.round

theorem Met.append {joins : List Nat} (h : Met joins c) (more : List Nat) :
    Met (joins ++ more) c := by
  rw [Met, List.count_append]
  exact Nat.le_add_right_of_le h

/-- All who wait are of the last round, and the semaphore is up when that is complete. -/
structure Sound (s : State) : Prop where
  same : ∀ c ∈ s.calls, c.pc = .waiting → c.round = s.round ∧ ∀ b, s.barr = some b → c.size = b.size
  counted : ∀ b, s.barr = some b → s.joins.count s.round = b.count
  up : ∀ b, s.barr = some b → 0 < b.sem → b.count = b.size
  met : ∀ c ∈ s.calls, c.pc = .leaving (.ok ()) → Met s.joins c

theorem Sound.start : Sound .start where
  same c hc := by cases hc
  counted b hb := by cases hb
  up b hb := by cases hb
  met c hc := by cases hc

theorem Sound.drop (h : Sound s) (id : Nat) : Sound (s.drop id) where
  same t ht := h.same t (mem_removeKey.mp ht).1
  counted := h.counted
  up := h.up
  met t ht := h.met t (mem_removeKey.mp ht).1

/-- Nobody waits at a complete round with an empty semaphore, and nobody without a barrier. -/
theorem Inv.none_waits (h : Inv s) (hb : ∀ b, s.barr = some b → b.count = b.size ∧ b.sem = 0) :
    ∀ c ∈ s.calls, c.pc ≠ .waiting := by
  intro c hc hpc
  obtain ⟨b, hsome⟩ := h.exists_barr hc (by rw [Call.holds, hpc]; rfl)
  obtain ⟨hfull, hsem⟩ := hb b hsome
  have hwoken := h.woken b hsome
  rw [Barr.pending, if_neg (by omega), hsem] at hwoken
  have hpos : 0 < s.waiting := List.countP_pos_iff.mpr ⟨c, hc, beq_iff_eq.mpr hpc⟩
  omega

theorem count_append_self (joins : List Nat) (r : Nat) :
    (joins ++ [r]).count r = joins.count r + 1 := by
  rw [List.count_append, List.count_singleton_self]

theorem Inv.count_begin (h : Inv s) : (s.joins ++ [s.round + 1]).count (s.round + 1) = 1 := by
  have hfresh : s.joins.count (s.round + 1) = 0 := by
    rw [List.count_eq_zero]
    intro hmem
    have hle := h.past _ hmem
    omega
  rw [count_append_self, hfresh]

/-- A call begins a round. -/
theorem Sound.begin (h : Sound s) (hinv : Inv s) (hnone : ∀ t ∈ s.calls, t.pc ≠ .waiting)
    (hsem : b.sem = 0) :
    Sound (s.begin b c) where
  same t ht hpc := by
    rcases List.mem_append.mp ht with ht | ht
    · exact absurd hpc (hnone t ht)
    · rw [List.mem_singleton.mp ht]
      refine ⟨rfl, ?_⟩
      rintro _ ⟨⟩
      rfl
  counted := by
    rintro _ ⟨⟩
    exact hinv.count_begin
  up := by
    rintro _ ⟨⟩ hpos
    exact absurd hsem (Nat.ne_of_gt hpos)
  met t ht hpc := by
    rcases List.mem_append.mp ht with ht | ht
    · exact (h.met t ht hpc).append _
    · rw [List.mem_singleton.mp ht] at hpc
      cases hpc

theorem Sound.join (h : Sound s) (hinv : Inv s) (hb : s.barr = some b)
    (hquiet : b.count = b.size → b.sem = 0) :
    Sound (s.join b c).1 ∧
      ∀ e, (s.join b c).2 = some e → e.2 = .ok () → Met (s.join b c).1.joins e.1 := by
  obtain ⟨-, hle, -⟩ := hinv.round b hb
  have hcounted := h.counted b hb
  unfold State.join
  by_cases hfull : b.count = b.size
  · rw [if_pos hfull]
    refine ⟨h.begin hinv (hinv.none_waits fun b' hb' => ?_) (hquiet hfull),
      fun e he => (by cases he)⟩
    rw [hb] at hb'
    obtain rfl := Option.some.inj hb'
    exact ⟨hfull, hquiet hfull⟩
  rw [if_neg hfull]
  by_cases hsame : b.size ≠ c.size
  · rw [if_pos hsame]
    refine ⟨h, ?_⟩
    rintro _ ⟨⟩ hok
    cases hok
  rw [if_neg hsame]
  rw [not_not] at hsame
  -- the semaphore is still down, since the round is not complete
  have hdown : b.sem = 0 := by
    by_contra hpos
    exact hfull (h.up b hb (Nat.pos_of_ne_zero hpos))
  dsimp only
  by_cases hlast : b.count + 1 = b.size
  · rw [if_pos hlast]
    refine ⟨⟨fun t ht hpc => ?_, ?_, ?_, fun t ht hpc => (h.met t ht hpc).append _⟩, ?_⟩
    · refine ⟨(h.same t ht hpc).1, ?_⟩
      rintro _ ⟨⟩
      exact (h.same t ht hpc).2 b hb
    · rintro _ ⟨⟩
      rw [count_append_self, hcounted]
    · rintro _ ⟨⟩ -
      exact hlast
    · rintro _ ⟨⟩ -
      rw [Met, count_append_self, hcounted, hlast]
      exact Nat.le_of_eq hsame.symm
  · rw [if_neg hlast]
    refine ⟨⟨fun t ht hpc => ?_, ?_, ?_, fun t ht hpc => ?_⟩, fun e he => (by cases he)⟩
    · rcases List.mem_append.mp ht with ht | ht
      · refine ⟨(h.same t ht hpc).1, ?_⟩
        rintro _ ⟨⟩
        exact (h.same t ht hpc).2 b hb
      · rw [List.mem_singleton.mp ht]
        refine ⟨rfl, ?_⟩
        rintro _ ⟨⟩
        exact hsame.symm
    · rintro _ ⟨⟩
      show (s.joins ++ [s.round]).count s.round = b.count + 1
      rw [count_append_self, hcounted]
    · rintro _ ⟨⟩ hpos
      exact absurd hdown (Nat.ne_of_gt hpos)
    · rcases List.mem_append.mp ht with ht | ht
      · exact (h.met t ht hpc).append _
      · rw [List.mem_singleton.mp ht] at hpc
        cases hpc

/-- Nobody starts to wait and no round begins. -/
theorem Sound.write (h : Sound s) (hb : s.barr = some b) {sem : Nat}
    (hsem : sem ≤ b.sem) {rc : Except Errno Unit} (hmet : rc = .ok () → Met s.joins c) :
    Sound ({ s with barr := some { b with sem } }.write { c with pc := .leaving rc }) where
  same t ht hpc := by
    rcases mem_writeKey ht with rfl | ⟨ht, -⟩
    · cases hpc
    · refine ⟨(h.same t ht hpc).1, ?_⟩
      rintro _ ⟨⟩
      exact (h.same t ht hpc).2 b hb
  counted := by
    rintro _ ⟨⟩
    exact h.counted b hb
  up := by
    rintro _ ⟨⟩ hpos
    exact h.up b hb (Nat.lt_of_lt_of_le hpos hsem)
  met t ht hpc := by
    rcases mem_writeKey ht with rfl | ⟨ht, -⟩
    · exact hmet (Pc.leaving.inj hpc)
    · exact h.met t ht hpc

theorem join_joins (s : State) (b : Barr) (c : Call) : s.joins <+: (s.join b c).1.joins := by
  unfold State.join
  dsimp only
  split
  · exact List.prefix_append _ _
  · split
    · exact List.prefix_refl _
    · split
      · exact List.prefix_append _ _
      · exact List.prefix_append _ _

theorem Sound.enter (h : Sound s) (hinv : Inv s) {id size : Nat}
    (hquiet : 2 ≤ size → ∀ b, s.barr = some b → b.count = b.size → b.sem = 0) :
    Sound (s.enter id size).1 ∧ s.joins <+: (s.enter id size).1.joins ∧
      ∀ e, (s.enter id size).2 = some e → e.2 = .ok () → 2 ≤ e.1.size →
        Met (s.enter id size).1.joins e.1 := by
  unfold State.enter
  dsimp only
  by_cases hzero : size < 1
  · rw [if_pos hzero]
    refine ⟨h, List.prefix_refl _, ?_⟩
    rintro _ ⟨⟩ hok
    cases hok
  rw [if_neg hzero]
  by_cases hone : size = 1
  · rw [if_pos hone]
    refine ⟨h, List.prefix_refl _, ?_⟩
    rintro _ ⟨⟩ - htwo
    change 2 ≤ size at htwo
    omega
  rw [if_neg hone]
  rcases hb : s.barr with - | b
  · refine ⟨⟨fun t ht hpc => ?_, fun b hb => (by cases hb), fun b hb => (by cases hb),
      fun t ht hpc => ?_⟩, List.prefix_refl _, fun e he => (by cases he)⟩
    · rcases List.mem_append.mp ht with ht | ht
      · exact ⟨(h.same t ht hpc).1, fun b hb => (by cases hb)⟩
      · rw [List.mem_singleton.mp ht] at hpc
        cases hpc
    · rcases List.mem_append.mp ht with ht | ht
      · exact h.met t ht hpc
      · rw [List.mem_singleton.mp ht] at hpc
        cases hpc
  · obtain ⟨hsound, hmet⟩ := h.join hinv hb (hquiet (by omega) b hb)
    exact ⟨hsound, join_joins _ _ _, fun e he hok _ => hmet e he hok⟩

theorem Sound.alloc (h : Sound s) (hinv : Inv s) (hc : c ∈ s.calls) (hpc : c.pc = .allocating)
    {fails : Bool}
    (hquiet : fails = false → ∀ b, s.barr = some b → b.count = b.size → b.sem = 0) :
    Sound (s.alloc c fails).1 ∧ s.joins <+: (s.alloc c fails).1.joins ∧
      ∀ e, (s.alloc c fails).2 = some e → e.2 = .ok () → Met (s.alloc c fails).1.joins e.1 := by
  have hdrop := hinv.drop hc hpc
  unfold State.alloc
  dsimp only
  rcases fails with - | -
  · rw [if_neg Bool.false_ne_true]
    rcases hb : (s.drop c.id).barr with - | b
    · refine ⟨(h.drop c.id).begin hdrop (hdrop.none_waits fun b hb' => ?_) rfl,
        List.prefix_append _ _, fun e he => (by cases he)⟩
      rw [hb] at hb'
      cases hb'
    · obtain ⟨hsound, hmet⟩ := (h.drop c.id).join hdrop hb (hquiet rfl b hb)
      exact ⟨hsound, join_joins (s.drop c.id) b c, hmet⟩
  · rw [if_pos rfl]
    refine ⟨h.drop c.id, List.prefix_refl _, ?_⟩
    rintro _ ⟨⟩ hok
    cases hok

theorem down_joins {taken : Bool} (hdown : s.down c taken = .ok s') : s'.joins = s.joins := by
  unfold State.down at hdown
  rcases hb : s.barr with - | b <;> rw [hb] at hdown
  · cases hdown
  · rcases taken with - | - <;> cases hdown <;> rfl

theorem leave_joins (hleave : s.leave c = .ok s') : s'.joins = s.joins := by
  unfold State.leave at hleave
  rcases hb : s.barr with - | b <;> rw [hb] at hleave <;> cases hleave
  rfl

/-- The semaphore is up, so the round is complete, and it is the call's own. -/
theorem Sound.down (h : Sound s) (hc : c ∈ s.calls) (hpc : c.pc = .waiting) {taken : Bool}
    (hsem : ∀ b, s.barr = some b → taken = true → 0 < b.sem) (hdown : s.down c taken = .ok s') :
    Sound s' := by
  obtain ⟨hround, hsize⟩ := h.same c hc hpc
  unfold State.down at hdown
  rcases hb : s.barr with - | b <;> rw [hb] at hdown
  · cases hdown
  rcases taken with - | -
  · cases hdown
    have hagain : (.error .eagain : Except Errno Unit) = .ok () → Met s.joins c :=
      fun hok => (by cases hok)
    have hwrite := h.write hb (Nat.le_refl b.sem) hagain
    rwa [← hb] at hwrite
  · cases hdown
    refine h.write hb (Nat.sub_le _ _) fun _ => ?_
    refine Nat.le_of_eq ?_
    rw [hround, h.counted b hb, hsize b hb]
    exact (h.up b hb (hsem b hb rfl)).symm

theorem Sound.leave (h : Sound s) (hleave : s.leave c = .ok s') : Sound s' := by
  unfold State.leave at hleave
  rcases hb : s.barr with - | b <;> rw [hb] at hleave
  · cases hleave
  cases hleave
  refine ⟨fun t ht hpc => ?_, fun b' hb' => ?_, fun b' hb' => ?_,
    fun t ht => h.met t (mem_removeKey.mp ht).1⟩
  · obtain ⟨hround, hsize⟩ := h.same t (mem_removeKey.mp ht).1 hpc
    refine ⟨hround, fun b' hb' => ?_⟩
    dsimp only at hb'
    split at hb'
    · cases hb'
    · obtain rfl := Option.some.inj hb'
      exact hsize b hb
  all_goals
    dsimp only at hb'
    split at hb'
    · cases hb'
    obtain rfl := Option.some.inj hb'
  · exact h.counted b hb
  · exact h.up b hb

/-- **One step.** -/
theorem Sound.step (h : Sound s) (hinv : Inv s) {op : Op} (hop : op.Enabled s) (hquiet : op.Quiet s)
    (hstep : step s op = .ok (s', ret)) :
    Sound s' ∧ s.joins <+: s'.joins ∧
      ∀ e, ret = some e → e.2 = .ok () → 2 ≤ e.1.size → Met s'.joins e.1 := by
  cases op with
  | enter id size =>
      obtain ⟨rfl, rfl⟩ := Prod.mk.inj (Except.ok.inj hstep)
      exact h.enter hinv hquiet
  | alloc id fails =>
      obtain ⟨c, hc, rfl, hpc⟩ := hop
      rw [hinv.step_alloc hc hpc] at hstep
      obtain ⟨hsound, hjoins, hmet⟩ := h.alloc hinv hc hpc hquiet
      obtain ⟨rfl, rfl⟩ := Prod.mk.inj (Except.ok.inj hstep)
      exact ⟨hsound, hjoins, fun e he hok _ => hmet e he hok⟩
  | down id taken =>
      obtain ⟨⟨c, hc, rfl, hpc⟩, hsem⟩ := hop
      obtain ⟨s₁, hdown, -⟩ := hinv.down hc hpc hsem
      rw [hinv.step_down hc hpc hdown] at hstep
      cases hstep
      exact ⟨h.down hc hpc hsem hdown, down_joins hdown ▸ List.prefix_refl _,
        fun e he => (by cases he)⟩
  | leave id =>
      obtain ⟨c, hc, rfl, rc, hpc⟩ := hop
      obtain ⟨s₁, hleave, -⟩ := hinv.leave hc hpc
      rw [hinv.step_leave hc hpc hleave] at hstep
      cases hstep
      refine ⟨h.leave hleave, leave_joins hleave ▸ List.prefix_refl _, ?_⟩
      rintro _ ⟨⟩ hok _
      rw [leave_joins hleave]
      exact h.met c hc (hpc.trans (congrArg _ hok))

theorem Sound.run (h : Sound s) (hinv : Inv s) {ops : List Op} (hops : RunEnabled s ops)
    (hquiet : RunQuiet s ops) {rets : List Returned} (hrun : run s ops = .ok (s', rets)) :
    s.joins <+: s'.joins ∧ ∀ e ∈ rets, e.2 = .ok () → 2 ≤ e.1.size → Met s'.joins e.1 := by
  induction ops generalizing s rets with
  | nil =>
      cases hrun
      exact ⟨List.prefix_refl _, fun e he => (by cases he)⟩
  | cons op ops ih =>
      obtain ⟨s₁, ret₁, hstep, hinv₁⟩ := hinv.step hops.1
      obtain ⟨h₁, hjoins₁, hmet₁⟩ := h.step hinv hops.1 hquiet.1 hstep
      obtain ⟨s₂, rets₂, hrun₂, -⟩ := hinv₁.run (hops.2 s₁ ret₁ hstep)
      rw [Barrier.run, hstep] at hrun
      dsimp only at hrun
      rw [hrun₂] at hrun
      cases hrun
      obtain ⟨hjoins₂, hmet₂⟩ := ih h₁ hinv₁ (hops.2 s₁ ret₁ hstep) (hquiet.2 s₁ ret₁ hstep) hrun₂
      refine ⟨hjoins₁.trans hjoins₂, fun e he hok htwo => ?_⟩
      rcases List.mem_append.mp he with he | he
      · obtain ⟨more, hmore⟩ := hjoins₂
        rw [← hmore]
        exact (hmet₁ e (Option.mem_toList.mp he) hok htwo).append more
      · exact hmet₂ e he hok htwo

/-- **A success means that the round is complete**, in every interleaving in which a call sets
the barrier up again only when nothing is left in the semaphore; whoever gave up waiting
counts as joined. -/
theorem barrier_sound {ops : List Op} (hops : RunEnabled .start ops)
    (hquiet : RunQuiet .start ops) :
    ∃ s rets, run .start ops = .ok (s, rets) ∧
      ∀ e ∈ rets, e.2 = .ok () → 2 ≤ e.1.size → e.1.size ≤ s.joins.count e.1.round := by
  obtain ⟨s, rets, hrun, -⟩ := Inv.start.run hops
  exact ⟨s, rets, hrun, (Sound.start.run .start hops hquiet hrun).2⟩

theorem barrier_sound_pair :
    ∃ s rets, run .start (samplePair ++ [.down 1 true, .leave 1]) = .ok (s, rets) ∧
      ∀ e ∈ rets, e.2 = .ok () → 2 ≤ e.1.size → e.1.size ≤ s.joins.count e.1.round := by
  refine barrier_sound samplePair_enabled ?_
  refine ⟨fun _ b hb => (by cases hb), fun s₁ ret₁ h₁ => ?_⟩
  cases h₁
  refine ⟨fun _ b hb => (by cases hb), fun s₂ ret₂ h₂ => ?_⟩
  cases h₂
  refine ⟨fun _ b hb hfull => ?_, fun s₃ ret₃ h₃ => ⟨trivial, fun s₄ ret₄ h₄ => ⟨trivial, ?_⟩⟩⟩
  · cases hb
    cases hfull
  · exact fun _ _ _ => trivial

/-- **And only then.**  In a state that a run reaches, while a complete round has something left
in the semaphore, whoever comes next can return with success from a round it is alone in. -/
theorem barrier_early {ops : List Op} (hops : RunEnabled .start ops) {rets : List Returned}
    (hrun : run .start ops = .ok (s, rets)) (hb : s.barr = some b) (hfull : b.count = b.size)
    (hsem : 0 < b.sem) {id size : Nat} (hnew : ∀ c ∈ s.calls, c.id ≠ id) (hsize : 2 ≤ size) :
    RunEnabled s [.enter id size, .down id true, .leave id] ∧
      ∃ s' c, run s [.enter id size, .down id true, .leave id] = .ok (s', [(c, .ok ())]) ∧
        c.size = size ∧ s'.joins.count c.round = 1 := by
  obtain ⟨s₀, _, hrun₀, h⟩ := Inv.start.run hops
  obtain ⟨rfl, rfl⟩ := Prod.mk.inj (Except.ok.inj (hrun.symm.trans hrun₀))
  -- the three steps, each from the state before
  have henter : s.enter id size = (s.begin b ⟨id, size, .allocating, 0⟩, none) := by
    rw [State.enter, if_neg (by omega), if_neg (by omega), hb]
    exact if_pos hfull
  have h₁ : Inv (s.begin b ⟨id, size, .allocating, 0⟩) := by
    have hinv : Inv (s.enter id size).1 := h.enter hnew
    rwa [henter] at hinv
  let c : Call := ⟨id, size, .waiting, s.round + 1⟩
  have hc : c ∈ (s.begin b ⟨id, size, .allocating, 0⟩).calls :=
    List.mem_append_right _ (List.mem_singleton_self _)
  have hup : ∀ b', (s.begin b ⟨id, size, .allocating, 0⟩).barr = some b' → true = true →
      0 < b'.sem := by
    rintro _ ⟨⟩ -
    exact hsem
  obtain ⟨s₂, hdown, h₂⟩ := h₁.down hc rfl hup
  have hc₂ : { c with pc := .leaving (.ok ()) } ∈ s₂.calls := by
    obtain rfl := Except.ok.inj hdown
    exact mem_writeKey_self hc rfl
  obtain ⟨s₃, hleave, -⟩ := h₂.leave hc₂ rfl
  have hstep₁ : step s (.enter id size) = .ok (s.begin b ⟨id, size, .allocating, 0⟩, none) :=
    congrArg _ henter
  have hstep₂ := h₁.step_down hc rfl hdown
  have hstep₃ := h₂.step_leave hc₂ rfl hleave
  refine ⟨⟨hnew, fun s' ret h' => ?_⟩, s₃, { c with pc := .leaving (.ok ()) }, ?_, rfl, ?_⟩
  · rw [hstep₁] at h'
    cases h'
    refine ⟨⟨⟨c, hc, rfl, rfl⟩, hup⟩, fun s' ret h' => ?_⟩
    rw [hstep₂] at h'
    cases h'
    exact ⟨⟨_, hc₂, rfl, _, rfl⟩, fun _ _ _ => trivial⟩
  · rw [run, hstep₁]
    dsimp only
    rw [run, hstep₂]
    dsimp only
    rw [run, hstep₃]
    rfl
  · rw [leave_joins hleave, down_joins hdown]
    exact h.count_begin

theorem RunEnabled.of_append {ops more : List Op} (h : RunEnabled s (ops ++ more)) :
    RunEnabled s ops := by
  induction ops generalizing s with
  | nil => trivial
  | cons op ops ih => exact ⟨h.1, fun s' ret hstep => ih (h.2 s' ret hstep)⟩

/-- A third call takes what was meant for the first one. -/
theorem barrier_early_third :
    ∃ s rets, run .start samplePair = .ok (s, rets) ∧
      RunEnabled s [.enter 3 2, .down 3 true, .leave 3] ∧
      ∃ s' c, run s [.enter 3 2, .down 3 true, .leave 3] = .ok (s', [(c, .ok ())]) ∧
        c.size = 2 ∧ s'.joins.count c.round = 1 := by
  refine ⟨_, _, rfl,
    barrier_early samplePair_enabled.of_append rfl rfl rfl (by decide) ?_ (by decide)⟩
  intro c hc
  rw [List.mem_singleton.mp hc]
  decide

end Nvl.Barrier

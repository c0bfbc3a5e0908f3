/-
Nvl/StaticLink/Replies.lean

Which commands are answered, over whole runs, and what a failed device call
does to the system.

The client forwards three codes that the server's `switch` does not have
(`CQ_WAIT_EVENT`, `CQ_DESTROY`, `PMI_BARRIER`), and every failure exit of the
server leaves its loop without a reply.  Both end in the same way: the client
waits inside `hcq_cmd_issue` for ever.  So a run keeps one reply per command
exactly as long as every request is `Answerable`, and an error of the device
never reaches the caller.
-/
import Nvl.StaticLink.Exchange

namespace Nvl.StaticLink

open SysLib

variable {w : World} {e : Event} {es : List Event}

/-! ### Runs -/

theorem World.Initial.live (h : w.Initial) : w.Live := ⟨h.running, h.notWaiting⟩

/-- A client that waits makes no further calls. -/
theorem ioctl_waiting (h : w.waiting ≠ none) : w.ioctl e = (w, none) :=
  if_pos (Option.isSome_iff_ne_none.mpr h)

theorem run_waiting (h : w.waiting ≠ none) : w.run es = w := by
  induction es with
  | nil => rfl
  | cons e es ih => rw [World.run_cons, ioctl_waiting h, ih]

/-- The server stops only in rounds that leave the client waiting. -/
theorem ioctl_live (hl : w.Live) (h : (w.ioctl e).1.waiting = none) : (w.ioctl e).1.Live := by
  by_cases hs : w.Served e
  · exact (ioctl_served hl hs).live
  · rw [(ioctl_unserved hl hs).2] at h
    cases h

theorem run_live (hl : w.Live) (h : (w.run es).waiting = none) : (w.run es).Live := by
  induction es generalizing w with
  | nil => exact hl
  | cons e es ih =>
      -- a client that waits after the first request waits at the end
      by_cases hw : (w.ioctl e).1.waiting = none
      · exact ih (ioctl_live hl hw) h
      · rw [World.run_cons, run_waiting hw] at h
        exact absurd h hw

/-- An invariant that every request keeps, answered or not, holds after a run. -/
theorem run_invariant_any (P : World → Prop) (hl : w.Live) (hP : P w)
    (hstep : ∀ w e, w.Live → P w → P (w.ioctl e).1) : P (w.run es) := by
  induction es generalizing w with
  | nil => exact hP
  | cons e es ih =>
      have hnext := hstep w e hl hP
      by_cases hw : (w.ioctl e).1.waiting = none
      · exact ih (ioctl_live hl hw) hnext
      · rw [World.run_cons, run_waiting hw]
        exact hnext

/-- An invariant of served requests holds after a run of them. -/
theorem run_invariant (P : World → Prop) (hl : w.Live) (hP : P w)
    (hes : ∀ e ∈ es, ∀ w : World, w.Served e)
    (hstep : ∀ w, ∀ e ∈ es, w.Live → P w → P (w.ioctl e).1) : P (w.run es) := by
  induction es generalizing w with
  | nil => exact hP
  | cons e es ih =>
      have he := hes e List.mem_cons_self w
      refine ih (ioctl_served hl he).live (hstep w e List.mem_cons_self hl hP) ?_ ?_
      · intro e' he'
        exact hes e' (List.mem_cons_of_mem _ he')
      · intro w' e' he'
        exact hstep w' e' (List.mem_cons_of_mem _ he')

/-- A run that the client came through served its first request. -/
theorem served_of_returned (hl : w.Live) (hwait : (w.run (e :: es)).waiting = none) :
    w.Served e := by
  by_contra hs
  have hne : (w.ioctl e).1.waiting ≠ none := by
    rw [(ioctl_unserved hl hs).2]
    exact Option.some_ne_none _
  rw [World.run_cons, run_waiting hne] at hwait
  exact hne hwait

theorem returned_of_append {fs : List Event} (hwait : (w.run (es ++ fs)).waiting = none) :
    (w.run es).waiting = none := by
  by_contra hne
  rw [World.run_append, run_waiting hne] at hwait
  exact hne hwait

/-- An invariant of served requests holds after a run that the client came through. -/
theorem run_invariant_returned (P : World → Prop) (hl : w.Live) (hP : P w)
    (hwait : (w.run es).waiting = none)
    (hstep : ∀ w, ∀ e ∈ es, w.Live → w.Served e → P w → P (w.ioctl e).1) : P (w.run es) := by
  induction es generalizing w with
  | nil => exact hP
  | cons e es ih =>
      have hs := served_of_returned hl hwait
      refine ih (ioctl_served hl hs).live (hstep w e List.mem_cons_self hl hs hP) hwait ?_
      intro w' e' he'
      exact hstep w' e' (List.mem_cons_of_mem _ he')

theorem run_live_of_served (hl : w.Live) (hes : ∀ e ∈ es, ∀ w : World, w.Served e) :
    (w.run es).Live :=
  run_invariant World.Live hl hl hes fun w e he hl _ => (ioctl_served hl (hes e he w)).live

/-! ### One reply per command -/

/-- The command of an `issued` event. -/
def QueueEvent.issuedCmd : QueueEvent → Option Cmd
  | .issued cmd => some cmd
  | _ => none

def QueueEvent.isFetched : QueueEvent → Bool
  | .fetched _ => true
  | _ => false

def QueueEvent.isReturned : QueueEvent → Bool
  | .returned _ => true
  | _ => false

/-- The commands issued so far. -/
def World.issuedCmds (w : World) : List Cmd := w.queueLog.filterMap QueueEvent.issuedCmd

/-- Every command issued was fetched, returned once under its own number, and
only then the next one fetched; and the client is not waiting. -/
structure OneReplyEach (w : World) : Prop where
  answered : w.queueLog = w.issuedCmds.flatMap Cmd.answered
  balanced : w.queueLog.countP QueueEvent.isReturned = w.queueLog.countP QueueEvent.isFetched
  notWaiting : w.waiting = none

theorem issuedCmd_answered (cmds : List Cmd) :
    (cmds.flatMap Cmd.answered).filterMap QueueEvent.issuedCmd = cmds := by
  induction cmds with
  | nil => rfl
  | cons cmd cmds ih =>
      rw [List.flatMap_cons, List.filterMap_append, ih]
      rfl

theorem balanced_answered (cmds : List Cmd) :
    (cmds.flatMap Cmd.answered).countP QueueEvent.isReturned
      = (cmds.flatMap Cmd.answered).countP QueueEvent.isFetched := by
  induction cmds with
  | nil => rfl
  | cons cmd cmds ih =>
      rw [List.flatMap_cons, List.countP_append, List.countP_append, ih]
      rfl

theorem oneReplyEach_of_log (cmds : List Cmd) (h : w.queueLog = cmds.flatMap Cmd.answered)
    (hw : w.waiting = none) : OneReplyEach w where
  answered := by rw [World.issuedCmds, h, issuedCmd_answered]
  balanced := by rw [h, balanced_answered]
  notWaiting := hw

/-- A served request keeps the discipline. -/
theorem OneReplyEach.ioctl (h : OneReplyEach w) (hl : w.Live) (hs : w.Served e) :
    OneReplyEach (w.ioctl e).1 := by
  have hc := ioctl_served hl hs
  refine oneReplyEach_of_log (w.issuedCmds ++ w.commands e) ?_ hc.live.notWaiting
  rw [hc.queue, List.flatMap_append, ← h.answered]

/-- Every device call and every PMI call of the server succeeds. -/
structure DevicesSucceed (e : Event) : Prop where
  ioctl : ∀ c, 0 ≤ (e.serverEnv (.ioctl c)).1
  pmiGetSize : (e.serverEnv .pmiGetSize).1 = true
  pmiGetRank : (e.serverEnv .pmiGetRank).1 = true
  pmiAllgather : ∀ site data len, (e.serverEnv (.pmiAllgather site data len)).1 = true

theorem served_iff_answerable (h : DevicesSucceed e) : w.Served e ↔ w.Answerable e := by
  constructor
  · intro hs
    exact hs.answerable
  · intro ha
    refine ⟨ha, fun c _ => h.ioctl c, ?_⟩
    unfold World.PmiOk
    split
    · exact ⟨fun _ => ⟨h.pmiGetSize, h.pmiGetRank, h.pmiAllgather ..⟩, h.pmiAllgather ..⟩
    · trivial

/-- Every request of a run is answerable in the state it meets. -/
def World.AllAnswerable : World → List Event → Prop
  | _, [] => True
  | w, e :: es => w.Answerable e ∧ World.AllAnswerable (w.ioctl e).1 es

theorem oneReplyEach_run_iff (hl : w.Live) (h : OneReplyEach w)
    (hok : ∀ e ∈ es, DevicesSucceed e) :
    (∀ fs, fs <+: es → OneReplyEach (w.run fs)) ↔ w.AllAnswerable es := by
  induction es generalizing w with
  | nil =>
      refine ⟨fun _ => trivial, fun _ fs hfs => ?_⟩
      rw [List.prefix_nil.mp hfs]
      exact h
  | cons e es ih =>
      have hserved := served_iff_answerable (w := w) (hok e List.mem_cons_self)
      have hrest : ∀ e' ∈ es, DevicesSucceed e' := fun e' he' => hok e' (List.mem_cons_of_mem _ he')
      constructor
      · intro hall
        have hone : OneReplyEach (w.ioctl e).1 := hall [e] (by simp)
        -- were the request not served, the client would be waiting already
        have hs : w.Served e := by
          by_contra hs
          have hwait := (ioctl_unserved hl hs).2
          rw [hone.notWaiting] at hwait
          cases hwait
        refine ⟨hserved.mp hs, (ih (ioctl_served hl hs).live hone hrest).mp ?_⟩
        intro fs hfs
        exact hall (e :: fs) (List.cons_prefix_cons.mpr ⟨rfl, hfs⟩)
      · rintro ⟨ha, hall⟩ fs hfs
        have hs := hserved.mpr ha
        rcases fs with - | ⟨f, fs⟩
        · exact h
        · obtain ⟨rfl, hfs'⟩ := List.cons_prefix_cons.mp hfs
          exact (ih (ioctl_served hl hs).live (h.ioctl hl hs) hrest).mpr hall fs hfs'

/-- **One reply per command.**  With every device and PMI call succeeding, the
states of a run keep the discipline exactly as long as every request is
answerable. -/
theorem oneReplyEach_iff_allAnswerable (hw : w.Initial) (hok : ∀ e ∈ es, DevicesSucceed e) :
    (∀ fs, fs <+: es → OneReplyEach (w.run fs)) ↔ w.AllAnswerable es := by
  refine oneReplyEach_run_iff hw.live ?_ hok
  refine oneReplyEach_of_log [] ?_ hw.notWaiting
  rw [World.queueLog, hw.noLog]
  rfl

/-- A request on a system where every call succeeds. -/
def calmEvent (r : Request) : Event := ⟨.kgni, r, calmClient 5, calmServer 0x20000 0⟩

theorem devicesSucceed_calm (r : Request) : DevicesSucceed (calmEvent r) where
  ioctl := fun _ => le_rfl
  pmiGetSize := rfl
  pmiGetRank := rfl
  pmiAllgather := fun _ _ _ => rfl

theorem oneReplyEach_getsize_getrank :
    freshWorld.Initial ∧
      (∀ e ∈ [calmEvent (.getsize 0), calmEvent (.getrank 0)], DevicesSucceed e) ∧
      ∀ fs, fs <+: [calmEvent (.getsize 0), calmEvent (.getrank 0)] →
        OneReplyEach (freshWorld.run fs) := by
  have hok : ∀ e ∈ [calmEvent (.getsize 0), calmEvent (.getrank 0)], DevicesSucceed e := by
    simp [devicesSucceed_calm]
  refine ⟨freshWorld_initial, hok, ?_⟩
  refine (oneReplyEach_iff_allAnswerable freshWorld_initial hok).mpr ?_
  exact ⟨show (1 : Int) ≠ -1 by decide, show (1 : Int) ≠ -1 by decide, trivial⟩

/-- A barrier is forwarded, and nobody answers it. -/
theorem oneReplyEach_barrier_fails :
    freshWorld.Initial ∧ (∀ e ∈ [calmEvent .barrier], DevicesSucceed e) ∧
      (freshWorld.run [calmEvent .barrier]).waiting = some 0 ∧
      ¬ ∀ fs, fs <+: [calmEvent .barrier] → OneReplyEach (freshWorld.run fs) := by
  have hwait : (freshWorld.run [calmEvent .barrier]).waiting = some 0 := rfl
  refine ⟨freshWorld_initial, by simp [devicesSucceed_calm], hwait, ?_⟩
  intro hall
  have hno := (hall [calmEvent .barrier] List.prefix_rfl).notWaiting
  rw [hwait] at hno
  cases hno

/-! ### Failures of the device -/

/-- The error of a device call reaches the caller of `ioctl` and nothing else
changes: the wrapper returns, its value is negative exactly when the device
call failed, and after a failure the server is in its loop as it was before. -/
structure FailureReported (w : World) (e : Event) : Prop where
  signalled : ∃ r v, (w.ioctl e).2 = some (r, v) ∧ (v < 0 ↔ w.DeviceFailed e)
  listKept : w.DeviceFailed e → (w.ioctl e).1.server.mt = w.server.mt
  goesOn : w.DeviceFailed e → (w.ioctl e).1.running = true ∧ (w.ioctl e).1.server = w.server

/-- **Device errors are not reported.**  In a reachable state in which the
client can make a request, the error contract is met exactly by the requests
that are served, and these make no failing device call. -/
theorem failureReported_iff_served (hw : w.Initial) (hwait : (w.run es).waiting = none) :
    FailureReported (w.run es) e ↔ (w.run es).Served e := by
  have hl := run_live hw.live hwait
  constructor
  · intro h
    by_contra hs
    obtain ⟨r, v, hret, -⟩ := h.signalled
    rw [(ioctl_unserved hl hs).1] at hret
    cases hret
  · intro hs
    have hc := ioctl_served hl hs
    obtain ⟨r, hret⟩ := hc.returns
    -- the value is the constant 0, and no device call failed
    refine ⟨⟨r, 0, hret, ?_⟩, fun hf => absurd hf hc.noFailure, fun hf => absurd hf hc.noFailure⟩
    exact ⟨fun h0 => absurd h0 (lt_irrefl 0), fun hf => absurd hf hc.noFailure⟩

theorem failureReported_fmaConfig :
    freshWorld.Initial ∧ (freshWorld.run [calmEvent (.getsize 0)]).waiting = none ∧
      FailureReported (freshWorld.run [calmEvent (.getsize 0)])
        (calmEvent (.nicFmaConfig default)) := by
  have hwait : (freshWorld.run [calmEvent (.getsize 0)]).waiting = none := rfl
  refine ⟨freshWorld_initial, hwait, ?_⟩
  refine (failureReported_iff_served freshWorld_initial hwait).mpr ⟨?_, ?_, trivial⟩
  · exact show (1 : Int) ≠ -1 by decide
  · rintro c ⟨⟩
    exact le_rfl

/-- The device refuses `NIC_FMA_CONFIG`: the server leaves its loop and the
caller never returns. -/
theorem failureReported_refused_fails :
    freshWorld.Initial ∧
      freshWorld.DeviceFailed
        ⟨.kgni, .nicFmaConfig default, calmClient 5, calmServer 0x20000 (-22)⟩ ∧
      ¬ FailureReported freshWorld
        ⟨.kgni, .nicFmaConfig default, calmClient 5, calmServer 0x20000 (-22)⟩ := by
  refine ⟨freshWorld_initial, ⟨_, List.mem_of_getElem? (i := 3) rfl, ?_⟩, ?_⟩
  · exact show (-22 : Int) < 0 by decide
  · intro h
    obtain ⟨r, v, hret, -⟩ := h.signalled
    cases hret

end Nvl.StaticLink

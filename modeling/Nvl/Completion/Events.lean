/-
Nvl/Completion/Events.lean

Taking events from a completion queue: `gni_cq_remove_event`, `gni_getevent`, and the
two copies of `get_cq_event`, in the RDMA example of `static-link` and in
`cray/examples/ping-pong`.

The comment above `get_cq_event` is the same in both: 0 and the event on success, 1 on
an error, 2 on an overrun, 3 when no event is found.  The copy of `static-link` has lost
most of the function.  It does not store the event, knows no overrun and no `retry`, and
polls an empty queue for ever.  In both the process is aborted by an event whose request is
not found, or is of a type that nobody knows.
-/
import Nvl.Lib.Loop
import Nvl.Completion.Requests

namespace Nvl.Completion

open SysLib

/-! ### The queue -/

/-- What is behind a `gni_cq_handle_t`: the entries from the read index on, the request list
(`none` for NULL), whether there is a handler, and the entries it was called with. -/
structure Cq where
  queue : List UInt64
  mdhAttached : Bool
  reqList : Option Mem
  handler : Bool
  handled : List UInt64

/-- A status with the entry in `*event_data` and the queue; no status where the process has
aborted. -/
structure Got where
  status : Option GniReturn
  eventData : UInt64
  cq : Cq

/-- `gni_cq_remove_event`. -/
def gniCqRemoveEvent (a : CqAccess) (cq : Cq) (eventData : UInt64) : Got :=
  match cq.queue with
  | [] => ⟨some .notDone, eventData, cq⟩
  | entry :: rest =>
    if cqIsEventReady entry = 0 then ⟨some .notDone, eventData, cq⟩
    else
      ⟨some (if a.overrun entry ≠ 0 then .errorResource
        else if a.statusOk entry then .success
        else .transactionError),
        entry, { cq with queue := rest }⟩

/-- The processing of an entry in `gni_getevent`: by its request if the queue has requests,
else a DLA overflow is made `GNI_RC_NO_MATCH`. -/
def processEntry (a : CqAccess) (g : Got) : Got :=
  match g.cq.mdhAttached, g.cq.reqList with
  | false, some m =>
    let p := gniProcesslocalentry a m g.eventData
    ⟨p.status, p.eventData, { g.cq with reqList := some p.mem }⟩
  | _, _ =>
    if g.status = some .transactionError ∧ a.statusDlaOverflow g.eventData ≠ 0 then
      { g with status := some .noMatch }
    else g

/-- The call of the handler. -/
def callHandler (g : Got) : Got :=
  if g.cq.handler = true ∧ (g.status = some .success ∨ g.status = some .transactionError) then
    { g with cq := { g.cq with handled := g.cq.handled ++ [g.eventData] } }
  else g

/-- The body of the loop of `gni_getevent`.  After the `break` the status is not the one that
goes on. -/
def geteventRound (a : CqAccess) (cq : Cq) (eventData : UInt64) : Got :=
  let g := gniCqRemoveEvent a cq eventData
  if g.status = some .notDone ∨ g.status = some .errorResource then g
  else callHandler (processEntry a g)

/-- At most `n` more rounds while the status is `GNI_RC_NO_MATCH`. -/
def geteventLoop (a : CqAccess) : Nat → Cq → UInt64 → Got
  | 0, cq, eventData => geteventRound a cq eventData
  | n + 1, cq, eventData =>
    let g := geteventRound a cq eventData
    if g.status = some .noMatch then geteventLoop a n g.cq g.eventData else g

/-- `gni_getevent`.  Every round that goes on has removed an entry. -/
def gniGetevent (a : CqAccess) (cq : Cq) (eventData : UInt64) : Got :=
  geteventLoop a cq.queue.length cq eventData

/-! ### The two copies -/

/-- What is printed. -/
inductive CqLine
  | event (source : Bool) (type : UInt64) (eventData : UInt64)
  | overrun
  | error (overrun : Bool) (status : GniReturn) (eventData : UInt64)
  | noEvent (status : GniReturn) (waitCount : Nat)
  deriving DecidableEq

/-- How a call of `get_cq_event` returns; `nextEvent` is what is in `*next_event`. -/
structure Answer where
  code : Nat
  nextEvent : UInt64
  cq : Cq
  printed : List CqLine

namespace StaticLink

/-- The loop of `get_cq_event`, which neither writes `*next_event` nor reads `retry`.  It ends
without an answer where the process is aborted. -/
def getCqEventBody (a : CqAccess) (nextEvent : UInt64) (s : Cq × UInt64) :
    (Cq × UInt64) ⊕ Option Answer :=
  let g := gniGetevent a s.1 s.2
  match g.status with
  | none => .inr none
  | some status =>
    if status = .success then .inr (some ⟨0, nextEvent, g.cq, []⟩)
    else if status = .notDone then .inl (g.cq, g.eventData)
    else .inr (some ⟨1, nextEvent, g.cq, []⟩)

/-- `get_cq_event` of `static-link` returns. -/
def GetCqEvent (a : CqAccess) (cq : Cq) (_sourceCq _retry : UInt32) (nextEvent : UInt64)
    (r : Answer) : Prop :=
  Ends (getCqEventBody a nextEvent) (cq, 0) (some r)

end StaticLink

namespace Cray

def maximumCqRetryCount : Nat := 60

/-- The loop of `get_cq_event`, with `wait_count`. -/
def getCqEventBody (a : CqAccess) (sourceCq retry : UInt32) (nextEvent : UInt64)
    (s : Cq × UInt64 × Nat) : (Cq × UInt64 × Nat) ⊕ Option Answer :=
  let g := gniGetevent a s.1 s.2.1
  match g.status with
  | none => .inr none
  | some status =>
    if status = .success then
      -- every type of event has its two messages, for a source and for a destination
      .inr (some ⟨0, g.eventData, g.cq,
        [.event (sourceCq = 1) (a.getType g.eventData) g.eventData]⟩)
    else if status ≠ .notDone then
      if a.overrun g.eventData ≠ 0 then
        .inr (some ⟨2, nextEvent, g.cq, [.overrun, .error true status g.eventData]⟩)
      else .inr (some ⟨1, nextEvent, g.cq, [.error false status g.eventData]⟩)
    else if retry = 0 then .inr (some ⟨3, nextEvent, g.cq, []⟩)
    else
      let waitCount := s.2.2 + 1
      if waitCount ≥ maximumCqRetryCount then
        .inr (some ⟨3, nextEvent, g.cq, [.noEvent status waitCount]⟩)
      else .inl (g.cq, g.eventData, waitCount)

/-- `get_cq_event` of `cray/examples/ping-pong` returns. -/
def GetCqEvent (a : CqAccess) (cq : Cq) (sourceCq retry : UInt32) (nextEvent : UInt64)
    (r : Answer) : Prop :=
  Ends (getCqEventBody a sourceCq retry nextEvent) (cq, 0, 0) (some r)

end Cray

/-! ### The contract -/

/-- The processing of the entry goes through. -/
def localCompletes (a : CqAccess) (m : Mem) (event : UInt64) : Bool :=
  if a.bteEnqStatus event ≠ 0 then a.getFailedEnqueueCnt event = 0
  else if a.getType event = cqEventTypeDmapp then true
  else
    match gniReqfind m.reqList (gniReqid a event) with
    | none => false
    | some i => if (m.reqList.base i).type = .post then a.statusOk event else false

/-- The processing of the entry aborts: its request is not found, or is no post. -/
def localAborts (a : CqAccess) (m : Mem) (event : UInt64) : Bool :=
  if a.bteEnqStatus event ≠ 0 then false
  else if a.getType event = cqEventTypeDmapp then false
  else
    match gniReqfind m.reqList (gniReqid a event) with
    | none => true
    | some i => (m.reqList.base i).type ≠ .post

namespace Cq

/-- The requests by which the events of the queue are processed, if it has some. -/
def requests (cq : Cq) : Option Mem := if cq.mdhAttached then none else cq.reqList

/-- The entry is a DLA overflow that is skipped. -/
def ignores (a : CqAccess) (cq : Cq) (event : UInt64) : Bool :=
  cq.requests.isNone && a.overrun event = 0 && !a.statusOk event && a.statusDlaOverflow event ≠ 0

/-- The entries left when those to be skipped are. -/
def waiting (a : CqAccess) (cq : Cq) : List UInt64 := cq.queue.dropWhile (cq.ignores a)

/-- The event is taken without an error. -/
def completes (a : CqAccess) (cq : Cq) (event : UInt64) : Bool :=
  match cq.requests with
  | some m => localCompletes a m event
  | none => a.statusOk event

/-- The event ends the process. -/
def aborts (a : CqAccess) (cq : Cq) (event : UInt64) : Bool :=
  match cq.requests with
  | some m => localAborts a m event
  | none => false

/-- The event after it was processed. -/
def delivered (a : CqAccess) (cq : Cq) (event : UInt64) : UInt64 :=
  match cq.requests with
  | some m => (gniProcesslocalentry a m event).eventData
  | none => event

end Cq

/-- The documented results of `get_cq_event`.  An event is in error if its status says so or
its processing fails. -/
structure Contract (a : CqAccess) (cq : Cq) (retry : UInt32) (Returns : Answer → Prop) : Prop where
  success : ∀ r, Returns r → r.code = 0 →
    ∃ event, cq.waiting a = event :: r.cq.queue ∧ r.nextEvent = cq.delivered a event
  overrun : ∀ event rest, cq.waiting a = event :: rest → a.overrun event ≠ 0 →
    ∃ r, Returns r ∧ r.code = 2
  error : ∀ event rest, cq.waiting a = event :: rest → a.overrun event = 0 →
    ¬ (a.statusOk event = true ∧ cq.completes a event = true) → ∃ r, Returns r ∧ r.code = 1
  noEvent : cq.waiting a = [] → retry = 0 → ∃ r, Returns r ∧ r.code = 3

/-- The two ends are the same for the caller. -/
def Answer.Same (r r' : Answer) : Prop :=
  r.code = r'.code ∧ r.nextEvent = r'.nextEvent ∧ r.cq = r'.cq

/-- Where one returns the other does, with the same answer. -/
def Agree (Returns Returns' : Answer → Prop) : Prop :=
  (∀ r, Returns r → ∃ r', Returns' r' ∧ r.Same r') ∧ ∀ r', Returns' r' → ∃ r, Returns r ∧ r.Same r'

/-- Both copies keep the contract, and they agree. -/
structure ContractKept (a : CqAccess) (cq : Cq) (sourceCq retry : UInt32) (nextEvent : UInt64) :
    Prop where
  staticLink : Contract a cq retry (StaticLink.GetCqEvent a cq sourceCq retry nextEvent)
  cray : Contract a cq retry (Cray.GetCqEvent a cq sourceCq retry nextEvent)
  agree : Agree (StaticLink.GetCqEvent a cq sourceCq retry nextEvent)
    (Cray.GetCqEvent a cq sourceCq retry nextEvent)

/-! ### Taking an event -/

section Taking

variable {a : CqAccess} {m : Mem} {cq : Cq} {event : UInt64} {rest : List UInt64}

/-- What a caller can know of the outcome of processing an event. -/
structure Outcome (a : CqAccess) (event : UInt64) (status : Option GniReturn)
    (eventData : UInt64) (ok aborts : Bool) : Prop where
  success_iff : status = some .success ↔ ok = true
  none_iff : status = none ↔ aborts = true
  ne_notDone : status ≠ some .notDone
  ne_noMatch : status ≠ some .noMatch
  overrun : a.overrun eventData = a.overrun event

/-- A failure that the caller lives to see. -/
theorem Outcome.exists_failure {status : Option GniReturn} {eventData : UInt64} {ok aborts : Bool}
    (h : Outcome a event status eventData ok aborts) (hok : ok = false) (haborts : aborts = false) :
    ∃ failure, status = some failure ∧ failure ≠ .success ∧ failure ≠ .notDone := by
  cases status with
  | none =>
      rw [h.none_iff.mp rfl] at haborts
      cases haborts
  | some failure =>
      refine ⟨failure, rfl, ?_, fun hdone => h.ne_notDone (congrArg some hdone)⟩
      rintro rfl
      rw [h.success_iff.mp rfl] at hok
      cases hok

theorem Outcome.aborts_of_completes {status : Option GniReturn} {eventData : UInt64}
    {ok aborts : Bool} (h : Outcome a event status eventData ok aborts) (hok : ok = true) :
    aborts = false := by
  refine Bool.eq_false_iff.mpr fun haborts => ?_
  rw [h.none_iff.mpr haborts] at h
  cases h.success_iff.mpr hok

theorem processPost_outcome (ha : a.Setters) (m : Mem) (i : Nat) (event : UInt64) :
    Outcome a event (processPost a m i event).status (processPost a m i event).eventData
      (a.statusOk event) false := by
  have hoverrun (b : Bool) (e v : UInt64) :
      a.overrun (if b then a.setInstId e v else e) = a.overrun e := by
    cases b
    · rfl
    · exact ha.overrun_setInstId e v
  have hdata : a.overrun (processPost a m i event).eventData = a.overrun event := by
    simp only [processPost]
    rw [ha.overrun_setType, hoverrun, hoverrun]
  cases hok : a.statusOk event <;>
    refine ⟨?_, ?_, ?_, ?_, hdata⟩ <;> simp [processPost, hok]

theorem gniProcesslocalentry_outcome (ha : a.Setters) (m : Mem) (event : UInt64) :
    Outcome a event (gniProcesslocalentry a m event).status
      (gniProcesslocalentry a m event).eventData (localCompletes a m event)
      (localAborts a m event) := by
  unfold gniProcesslocalentry localCompletes localAborts
  by_cases hbte : a.bteEnqStatus event ≠ 0
  · rw [if_pos hbte, if_pos hbte, if_pos hbte]
    by_cases hcnt : a.getFailedEnqueueCnt event = 0 <;>
      refine ⟨?_, ?_, ?_, ?_, rfl⟩ <;> simp [hcnt]
  · rw [if_neg hbte, if_neg hbte, if_neg hbte]
    by_cases htype : a.getType event = cqEventTypeDmapp
    · rw [if_pos htype, if_pos htype, if_pos htype]
      exact ⟨iff_of_true rfl rfl, iff_of_false nofun nofun, nofun, nofun, rfl⟩
    · rw [if_neg htype, if_neg htype, if_neg htype]
      cases gniReqfind m.reqList (gniReqid a event) with
      | none => exact ⟨iff_of_false nofun nofun, iff_of_true rfl rfl, nofun, nofun, rfl⟩
      | some i =>
          dsimp only
          split
          case h_1 hpost =>
            rw [if_pos hpost, hpost]
            exact processPost_outcome ha m i event
          case h_2 hother =>
            have hne : (m.reqList.base i).type ≠ .post := hother
            rw [if_neg hne, decide_eq_true hne]
            exact ⟨iff_of_false nofun nofun, iff_of_true rfl rfl, nofun, nofun, rfl⟩

/-- What `gni_getevent` has after it removed the entry, the queue being the rest. -/
def taken (a : CqAccess) (cq : Cq) (entry : UInt64) : Got :=
  if a.overrun entry ≠ 0 then ⟨some .errorResource, entry, cq⟩
  else callHandler (processEntry a
    ⟨some (if a.statusOk entry then .success else .transactionError), entry, cq⟩)

theorem geteventRound_cons (hready : cqIsEventReady event ≠ 0) (eventData : UInt64) :
    geteventRound a { cq with queue := event :: rest } eventData =
      taken a { cq with queue := rest } event := by
  unfold geteventRound gniCqRemoveEvent taken
  dsimp only
  rw [if_neg hready]
  by_cases hover : a.overrun event ≠ 0
  · simp only [if_pos hover, or_true, if_true]
  · simp only [if_neg hover]
    cases hok : a.statusOk event <;> rfl

theorem processEntry_some {status : Option GniReturn} (h : cq.requests = some m) :
    processEntry a ⟨status, event, cq⟩ =
      ⟨(gniProcesslocalentry a m event).status, (gniProcesslocalentry a m event).eventData,
        { cq with reqList := some (gniProcesslocalentry a m event).mem }⟩ := by
  obtain ⟨queue, mdhAttached, reqList, handler, handled⟩ := cq
  cases mdhAttached with
  | true => cases h
  | false =>
      have hlist : reqList = some m := h
      subst hlist
      rfl

theorem processEntry_none {status : Option GniReturn} (h : cq.requests = none) :
    processEntry a ⟨status, event, cq⟩ =
      if status = some .transactionError ∧ a.statusDlaOverflow event ≠ 0 then
        ⟨some .noMatch, event, cq⟩
      else ⟨status, event, cq⟩ := by
  obtain ⟨queue, mdhAttached, reqList, handler, handled⟩ := cq
  cases mdhAttached with
  | true => rfl
  | false =>
      have hlist : reqList = none := h
      subst hlist
      rfl

/-- A skipped entry is only removed. -/
theorem taken_of_ignores (h : cq.ignores a event = true) :
    taken a cq event = ⟨some .noMatch, event, cq⟩ := by
  simp only [Cq.ignores, Bool.and_eq_true, Option.isNone_iff_eq_none, decide_eq_true_eq,
    Bool.not_eq_true'] at h
  obtain ⟨⟨⟨hreq, hover⟩, hstatus⟩, hdla⟩ := h
  unfold taken
  rw [if_neg (not_not.mpr hover), hstatus, processEntry_none hreq]
  simp [hdla, callHandler]

@[simp] theorem callHandler_status (g : Got) : (callHandler g).status = g.status := by
  unfold callHandler
  split <;> rfl

@[simp] theorem callHandler_eventData (g : Got) : (callHandler g).eventData = g.eventData := by
  unfold callHandler
  split <;> rfl

@[simp] theorem callHandler_queue (g : Got) : (callHandler g).cq.queue = g.cq.queue := by
  unfold callHandler
  split <;> rfl

/-- An entry that is not skipped and not an overrun is processed. -/
theorem taken_outcome (ha : a.Setters) (h : cq.ignores a event = false)
    (hover : a.overrun event = 0) :
    Outcome a event (taken a cq event).status (taken a cq event).eventData
        (cq.completes a event) (cq.aborts a event) ∧
      (taken a cq event).eventData = cq.delivered a event ∧
      (taken a cq event).cq.queue = cq.queue := by
  unfold taken Cq.completes Cq.aborts Cq.delivered
  rw [if_neg (not_not.mpr hover), callHandler_status, callHandler_eventData, callHandler_queue]
  cases hreq : cq.requests with
  | some m =>
      rw [processEntry_some hreq]
      exact ⟨gniProcesslocalentry_outcome ha m event, rfl, rfl⟩
  | none =>
      rw [processEntry_none hreq]
      cases hok : a.statusOk event with
      | true =>
          exact ⟨⟨iff_of_true rfl rfl, iff_of_false nofun nofun, nofun, nofun, rfl⟩, rfl, rfl⟩
      | false =>
          have hdla : a.statusDlaOverflow event = 0 := by
            simpa [Cq.ignores, hreq, hover, hok] using h
          rw [if_neg fun hc => hc.2 hdla]
          exact ⟨⟨iff_of_false nofun nofun, iff_of_false nofun nofun, nofun, nofun, rfl⟩, rfl, rfl⟩

theorem taken_of_overrun (hover : a.overrun event ≠ 0) :
    taken a cq event = ⟨some .errorResource, event, cq⟩ := if_pos hover

theorem taken_ne_noMatch (ha : a.Setters) (h : cq.ignores a event = false) :
    (taken a cq event).status ≠ some .noMatch := by
  by_cases hover : a.overrun event = 0
  · exact (taken_outcome ha h hover).1.ne_noMatch
  · rw [taken_of_overrun hover]
    exact nofun

/-- As many rounds as there are entries reach the first entry that is not skipped. -/
theorem geteventLoop_cons (ha : a.Setters) {queue : List UInt64}
    (hready : ∀ w ∈ queue, cqIsEventReady w ≠ 0)
    (hwait : queue.dropWhile (cq.ignores a) = event :: rest) {n : Nat} (hn : queue.length ≤ n)
    (eventData : UInt64) :
    geteventLoop a n { cq with queue := queue } eventData =
      taken a { cq with queue := rest } event := by
  induction queue generalizing n eventData with
  | nil => cases hwait
  | cons w queue ih =>
      obtain ⟨n, rfl⟩ : ∃ k, n = k + 1 := ⟨n - 1, by simp at hn; omega⟩
      unfold geteventLoop
      rw [geteventRound_cons (hready w List.mem_cons_self)]
      dsimp only
      cases hw : cq.ignores a w with
      | true =>
          have hw' : { cq with queue := queue }.ignores a w = true := hw
          rw [taken_of_ignores hw', if_pos rfl]
          rw [List.dropWhile_cons_of_pos hw] at hwait
          exact ih (fun w' hw' => hready w' (List.mem_cons_of_mem _ hw')) hwait
            (by simpa using hn) w
      | false =>
          rw [List.dropWhile_cons_of_neg (by rw [hw]; exact Bool.false_ne_true)] at hwait
          cases hwait
          have hw' : { cq with queue := rest }.ignores a event = false := hw
          exact if_neg (taken_ne_noMatch ha hw')

/-- With nothing but entries to be skipped the queue is emptied. -/
theorem geteventLoop_nil {queue : List UInt64} (hready : ∀ w ∈ queue, cqIsEventReady w ≠ 0)
    (hwait : queue.dropWhile (cq.ignores a) = []) {n : Nat} (hn : queue.length ≤ n)
    (eventData : UInt64) :
    ∃ eventData', geteventLoop a n { cq with queue := queue } eventData =
      ⟨some .notDone, eventData', { cq with queue := [] }⟩ := by
  induction queue generalizing n eventData with
  | nil =>
      refine ⟨eventData, ?_⟩
      cases n <;> rfl
  | cons w queue ih =>
      obtain ⟨n, rfl⟩ : ∃ k, n = k + 1 := ⟨n - 1, by simp at hn; omega⟩
      have hw : cq.ignores a w = true := by
        by_contra hnot
        rw [List.dropWhile_cons_of_neg hnot] at hwait
        cases hwait
      have hw' : { cq with queue := queue }.ignores a w = true := hw
      unfold geteventLoop
      dsimp only
      rw [geteventRound_cons (hready w List.mem_cons_self), taken_of_ignores hw', if_pos rfl]
      rw [List.dropWhile_cons_of_pos hw] at hwait
      exact ih (fun w' hw' => hready w' (List.mem_cons_of_mem _ hw')) hwait
        (by simpa using hn) w

theorem gniGetevent_cons (ha : a.Setters) (hready : ∀ w ∈ cq.queue, cqIsEventReady w ≠ 0)
    (hwait : cq.waiting a = event :: rest) (eventData : UInt64) :
    gniGetevent a cq eventData = taken a { cq with queue := rest } event :=
  geteventLoop_cons ha hready hwait (Nat.le_refl _) eventData

theorem gniGetevent_nil (hready : ∀ w ∈ cq.queue, cqIsEventReady w ≠ 0)
    (hwait : cq.waiting a = []) (eventData : UInt64) :
    ∃ eventData', gniGetevent a cq eventData =
      ⟨some .notDone, eventData', { cq with queue := [] }⟩ :=
  geteventLoop_nil hready hwait (Nat.le_refl _) eventData

theorem Cq.not_ignores_of_waiting (hwait : cq.waiting a = event :: rest) :
    cq.ignores a event = false := by
  have hhead := List.head?_dropWhile_not (cq.ignores a) cq.queue
  unfold Cq.waiting at hwait
  rw [hwait] at hhead
  simpa using hhead

end Taking

/-! ### The contract of each copy -/

section Copies

variable {a : CqAccess} {cq : Cq} {sourceCq retry : UInt32} {nextEvent event : UInt64}
  {rest : List UInt64}

/-- With an event there, the contract is about the one answer that the call has. -/
theorem contract_iff_of_cons {Returns : Answer → Prop} {r₀ : Answer}
    (hret : ∀ r, Returns r ↔ r = r₀) (hwait : cq.waiting a = event :: rest) :
    Contract a cq retry Returns ↔
      (r₀.code = 0 → r₀.cq.queue = rest ∧ r₀.nextEvent = cq.delivered a event) ∧
      (a.overrun event ≠ 0 → r₀.code = 2) ∧
      (a.overrun event = 0 → ¬ (a.statusOk event = true ∧ cq.completes a event = true) →
        r₀.code = 1) := by
  constructor
  · intro hc
    refine ⟨fun hcode => ?_, fun hover => ?_, fun hover herr => ?_⟩
    · obtain ⟨event', hwait', hnext⟩ := hc.success r₀ ((hret r₀).mpr rfl) hcode
      rw [hwait] at hwait'
      cases hwait'
      exact ⟨rfl, hnext⟩
    · obtain ⟨r, hr, hcode⟩ := hc.overrun event rest hwait hover
      rwa [(hret r).mp hr] at hcode
    · obtain ⟨r, hr, hcode⟩ := hc.error event rest hwait hover herr
      rwa [(hret r).mp hr] at hcode
  · rintro ⟨hsuccess, hoverrun, herror⟩
    refine ⟨fun r hr hcode => ?_, fun event' rest' hwait' hover => ?_,
      fun event' rest' hwait' hover herr => ?_, fun hnil => ?_⟩
    · rw [(hret r).mp hr] at hcode ⊢
      obtain ⟨hqueue, hnext⟩ := hsuccess hcode
      exact ⟨event, by rw [hwait, hqueue], hnext⟩
    · rw [hwait] at hwait'
      cases hwait'
      exact ⟨r₀, (hret r₀).mpr rfl, hoverrun hover⟩
    · rw [hwait] at hwait'
      cases hwait'
      exact ⟨r₀, (hret r₀).mpr rfl, herror hover herr⟩
    · rw [hwait] at hnil
      cases hnil

/-- An event that is an error is answered with 1, and not by the end of the process. -/
theorem not_contract_of_aborts {Returns : Answer → Prop} (hno : ∀ r, ¬ Returns r)
    (hwait : cq.waiting a = event :: rest) (hover : a.overrun event = 0)
    (hfail : cq.completes a event = false) : ¬ Contract a cq retry Returns := by
  intro hc
  obtain ⟨r, hr, -⟩ := hc.error event rest hwait hover fun hok => by
    rw [hfail] at hok
    cases hok.2
  exact hno r hr

theorem forall_cons_iff {P : UInt64 → Prop} :
    (∀ event' rest', event :: rest = event' :: rest' → P event') ↔ P event := by
  refine ⟨fun h => h event rest rfl, fun h event' rest' heq => ?_⟩
  cases heq
  exact h

/-- The queue when the event at its head has been taken. -/
def Cq.after (a : CqAccess) (cq : Cq) (event : UInt64) (rest : List UInt64) : Cq :=
  (taken a { cq with queue := rest } event).cq

/-- What `gni_getevent` says of an event that is no overrun. -/
theorem gniGetevent_outcome (ha : a.Setters) (hready : ∀ w ∈ cq.queue, cqIsEventReady w ≠ 0)
    (hwait : cq.waiting a = event :: rest) (hover : a.overrun event = 0) (eventData : UInt64) :
    Outcome a event (gniGetevent a cq eventData).status (gniGetevent a cq eventData).eventData
        (cq.completes a event) (cq.aborts a event) ∧
      (gniGetevent a cq eventData).eventData = cq.delivered a event ∧
      (gniGetevent a cq eventData).cq = cq.after a event rest ∧
      (cq.after a event rest).queue = rest := by
  have hnot := Cq.not_ignores_of_waiting hwait
  change { cq with queue := rest }.ignores a event = false at hnot
  obtain ⟨hout, hdata, hqueue⟩ := taken_outcome ha hnot hover
  rw [gniGetevent_cons ha hready hwait]
  exact ⟨hout, hdata, rfl, hqueue⟩

theorem gniGetevent_overrun (ha : a.Setters) (hready : ∀ w ∈ cq.queue, cqIsEventReady w ≠ 0)
    (hwait : cq.waiting a = event :: rest) (hover : a.overrun event ≠ 0) (eventData : UInt64) :
    gniGetevent a cq eventData = ⟨some .errorResource, event, { cq with queue := rest }⟩ := by
  rw [gniGetevent_cons ha hready hwait, taken_of_overrun hover]

namespace StaticLink

theorem returns_iff_of_completes (ha : a.Setters) (hready : ∀ w ∈ cq.queue, cqIsEventReady w ≠ 0)
    (hwait : cq.waiting a = event :: rest) (hover : a.overrun event = 0)
    (hok : cq.completes a event = true) (r : Answer) :
    GetCqEvent a cq sourceCq retry nextEvent r ↔
      r = ⟨0, nextEvent, cq.after a event rest, []⟩ := by
  obtain ⟨hout, -, hcq, -⟩ := gniGetevent_outcome ha hready hwait hover 0
  have hbody : getCqEventBody a nextEvent (cq, 0) =
      .inr (some ⟨0, nextEvent, cq.after a event rest, []⟩) := by
    unfold getCqEventBody
    dsimp only
    rw [hout.success_iff.mpr hok, hcq]
    exact if_pos rfl
  exact (Ends.iff_of_inr hbody).trans Option.some_inj

theorem returns_iff_of_fails (ha : a.Setters) (hready : ∀ w ∈ cq.queue, cqIsEventReady w ≠ 0)
    (hwait : cq.waiting a = event :: rest) (hover : a.overrun event = 0)
    (hfail : cq.completes a event = false) (haborts : cq.aborts a event = false) (r : Answer) :
    GetCqEvent a cq sourceCq retry nextEvent r ↔
      r = ⟨1, nextEvent, cq.after a event rest, []⟩ := by
  obtain ⟨hout, -, hcq, -⟩ := gniGetevent_outcome ha hready hwait hover 0
  obtain ⟨failure, hstatus, hne, hne'⟩ := hout.exists_failure hfail haborts
  have hbody : getCqEventBody a nextEvent (cq, 0) =
      .inr (some ⟨1, nextEvent, cq.after a event rest, []⟩) := by
    unfold getCqEventBody
    dsimp only
    rw [hstatus, hcq]
    dsimp only
    rw [if_neg hne, if_neg hne']
  exact (Ends.iff_of_inr hbody).trans Option.some_inj

/-- The process is gone. -/
theorem not_returns_of_aborts (ha : a.Setters) (hready : ∀ w ∈ cq.queue, cqIsEventReady w ≠ 0)
    (hwait : cq.waiting a = event :: rest) (hover : a.overrun event = 0)
    (haborts : cq.aborts a event = true) (r : Answer) :
    ¬ GetCqEvent a cq sourceCq retry nextEvent r := by
  obtain ⟨hout, -⟩ := gniGetevent_outcome ha hready hwait hover 0
  have hbody : getCqEventBody a nextEvent (cq, 0) = .inr none := by
    unfold getCqEventBody
    dsimp only
    rw [hout.none_iff.mpr haborts]
  intro hr
  cases (Ends.iff_of_inr hbody).mp hr

theorem returns_iff_of_overrun (ha : a.Setters) (hready : ∀ w ∈ cq.queue, cqIsEventReady w ≠ 0)
    (hwait : cq.waiting a = event :: rest) (hover : a.overrun event ≠ 0) (r : Answer) :
    GetCqEvent a cq sourceCq retry nextEvent r ↔
      r = ⟨1, nextEvent, { cq with queue := rest }, []⟩ := by
  have hbody : getCqEventBody a nextEvent (cq, 0) =
      .inr (some ⟨1, nextEvent, { cq with queue := rest }, []⟩) := by
    unfold getCqEventBody
    dsimp only
    rw [gniGetevent_overrun ha hready hwait hover]
    rfl
  exact (Ends.iff_of_inr hbody).trans Option.some_inj

/-- Without an event the loop goes on for ever. -/
theorem not_returns (hready : ∀ w ∈ cq.queue, cqIsEventReady w ≠ 0) (hwait : cq.waiting a = [])
    (r : Answer) : ¬ GetCqEvent a cq sourceCq retry nextEvent r := by
  apply not_ends_of_invariant
    fun s => (∀ w ∈ s.1.queue, cqIsEventReady w ≠ 0) ∧ s.1.waiting a = []
  · rintro ⟨cq, eventData⟩ ⟨hready, hwait⟩
    obtain ⟨eventData', hget⟩ := gniGetevent_nil hready hwait eventData
    refine ⟨({ cq with queue := [] }, eventData'), ?_, nofun, rfl⟩
    unfold getCqEventBody
    dsimp only
    rw [hget]
    rfl
  · exact ⟨hready, hwait⟩

/-- The copy of `static-link` keeps the contract where it has nothing to report but an error,
and where the caller has the event already. -/
theorem contract_iff (ha : a.Setters) (hready : ∀ w ∈ cq.queue, cqIsEventReady w ≠ 0) :
    Contract a cq retry (GetCqEvent a cq sourceCq retry nextEvent) ↔
      (cq.waiting a = [] → retry ≠ 0) ∧
      ∀ event rest, cq.waiting a = event :: rest → a.overrun event = 0 ∧
        cq.aborts a event = false ∧ (cq.completes a event = true → a.statusOk event = true ∧
          nextEvent = cq.delivered a event) := by
  cases hwait : cq.waiting a with
  | nil =>
      refine ⟨fun hc => ⟨fun _ hretry => ?_, nofun⟩, fun h => ⟨fun r hr => ?_, ?_, ?_, ?_⟩⟩
      · obtain ⟨r, hr, -⟩ := hc.noEvent hwait hretry
        exact not_returns hready hwait r hr
      · exact absurd hr (not_returns hready hwait r)
      · rw [hwait]
        exact nofun
      · rw [hwait]
        exact nofun
      · intro _ hretry
        exact absurd hretry (h.1 rfl)
  | cons event rest =>
      rw [forall_cons_iff, and_iff_right (by exact nofun)]
      by_cases hover : a.overrun event = 0
      · obtain ⟨hout, -, -, hqueue⟩ := gniGetevent_outcome ha hready hwait hover 0
        cases hok : cq.completes a event with
        | true =>
            rw [contract_iff_of_cons (returns_iff_of_completes ha hready hwait hover hok) hwait]
            simp [hover, hok, hqueue, hout.aborts_of_completes hok, and_comm]
        | false =>
            cases haborts : cq.aborts a event with
            -- the process ends where the contract asks for an answer
            | true =>
                refine iff_of_false (fun hc => ?_) fun h => (by cases h.2.1)
                exact not_contract_of_aborts (not_returns_of_aborts ha hready hwait hover haborts)
                  hwait hover hok hc
            | false =>
                rw [contract_iff_of_cons
                  (returns_iff_of_fails ha hready hwait hover hok haborts) hwait]
                simp [hover]
      · rw [contract_iff_of_cons (returns_iff_of_overrun ha hready hwait hover) hwait]
        simp [hover]

end StaticLink

namespace Cray

theorem returns_iff_of_completes (ha : a.Setters) (hready : ∀ w ∈ cq.queue, cqIsEventReady w ≠ 0)
    (hwait : cq.waiting a = event :: rest) (hover : a.overrun event = 0)
    (hok : cq.completes a event = true) (r : Answer) :
    GetCqEvent a cq sourceCq retry nextEvent r ↔
      r = ⟨0, cq.delivered a event, cq.after a event rest,
        [.event (sourceCq = 1) (a.getType (cq.delivered a event)) (cq.delivered a event)]⟩ := by
  obtain ⟨hout, hdata, hcq, -⟩ := gniGetevent_outcome ha hready hwait hover 0
  have hbody : getCqEventBody a sourceCq retry nextEvent (cq, 0, 0) =
      .inr (some ⟨0, cq.delivered a event, cq.after a event rest,
        [.event (sourceCq = 1) (a.getType (cq.delivered a event)) (cq.delivered a event)]⟩) := by
    unfold getCqEventBody
    dsimp only
    rw [hout.success_iff.mpr hok, hdata, hcq]
    exact if_pos rfl
  exact (Ends.iff_of_inr hbody).trans Option.some_inj

theorem returns_iff_of_fails (ha : a.Setters) (hready : ∀ w ∈ cq.queue, cqIsEventReady w ≠ 0)
    (hwait : cq.waiting a = event :: rest) (hover : a.overrun event = 0)
    (hfail : cq.completes a event = false) (haborts : cq.aborts a event = false) :
    ∃ failure, ∀ r, GetCqEvent a cq sourceCq retry nextEvent r ↔
      r = ⟨1, nextEvent, cq.after a event rest,
        [.error false failure (cq.delivered a event)]⟩ := by
  obtain ⟨hout, hdata, hcq, -⟩ := gniGetevent_outcome ha hready hwait hover 0
  obtain ⟨failure, hstatus, hne, hne'⟩ := hout.exists_failure hfail haborts
  -- the overrun bit is read from the processed event
  have hover' : ¬ a.overrun (gniGetevent a cq 0).eventData ≠ 0 := by
    rw [hout.overrun]
    exact not_not.mpr hover
  have hbody : getCqEventBody a sourceCq retry nextEvent (cq, 0, 0) =
      .inr (some ⟨1, nextEvent, cq.after a event rest,
        [.error false failure (cq.delivered a event)]⟩) := by
    unfold getCqEventBody
    dsimp only
    rw [hstatus]
    dsimp only
    rw [if_neg hne, if_pos hne', if_neg hover', hdata, hcq]
  exact ⟨failure, fun r => (Ends.iff_of_inr hbody).trans Option.some_inj⟩

theorem not_returns_of_aborts (ha : a.Setters) (hready : ∀ w ∈ cq.queue, cqIsEventReady w ≠ 0)
    (hwait : cq.waiting a = event :: rest) (hover : a.overrun event = 0)
    (haborts : cq.aborts a event = true) (r : Answer) :
    ¬ GetCqEvent a cq sourceCq retry nextEvent r := by
  obtain ⟨hout, -⟩ := gniGetevent_outcome ha hready hwait hover 0
  have hbody : getCqEventBody a sourceCq retry nextEvent (cq, 0, 0) = .inr none := by
    unfold getCqEventBody
    dsimp only
    rw [hout.none_iff.mpr haborts]
  intro hr
  cases (Ends.iff_of_inr hbody).mp hr

theorem returns_iff_of_overrun (ha : a.Setters) (hready : ∀ w ∈ cq.queue, cqIsEventReady w ≠ 0)
    (hwait : cq.waiting a = event :: rest) (hover : a.overrun event ≠ 0) (r : Answer) :
    GetCqEvent a cq sourceCq retry nextEvent r ↔
      r = ⟨2, nextEvent, { cq with queue := rest },
        [.overrun, .error true .errorResource event]⟩ := by
  have hbody : getCqEventBody a sourceCq retry nextEvent (cq, 0, 0) =
      .inr (some ⟨2, nextEvent, { cq with queue := rest },
        [.overrun, .error true .errorResource event]⟩) := by
    unfold getCqEventBody
    dsimp only
    rw [gniGetevent_overrun ha hready hwait hover]
    exact if_pos hover
  exact (Ends.iff_of_inr hbody).trans Option.some_inj

theorem getCqEventBody_of_nil (hready : ∀ w ∈ cq.queue, cqIsEventReady w ≠ 0)
    (hwait : cq.waiting a = []) (eventData : UInt64) (waitCount : Nat) :
    ∃ eventData', getCqEventBody a sourceCq retry nextEvent (cq, eventData, waitCount) =
      if retry = 0 then .inr (some ⟨3, nextEvent, { cq with queue := [] }, []⟩)
      else if waitCount + 1 ≥ maximumCqRetryCount then
        .inr (some ⟨3, nextEvent, { cq with queue := [] }, [.noEvent .notDone (waitCount + 1)]⟩)
      else .inl ({ cq with queue := [] }, eventData', waitCount + 1) := by
  obtain ⟨eventData', hget⟩ := gniGetevent_nil hready hwait eventData
  refine ⟨eventData', ?_⟩
  unfold getCqEventBody
  dsimp only
  rw [hget]
  dsimp only
  rw [if_neg nofun, if_neg (not_not.mpr rfl)]

/-- Waiting ends after `MAXIMUM_CQ_RETRY_COUNT` rounds. -/
theorem ends_of_retry (hretry : retry ≠ 0) (n : Nat) :
    ∀ (cq : Cq) (eventData : UInt64) (waitCount : Nat),
    (∀ w ∈ cq.queue, cqIsEventReady w ≠ 0) → cq.waiting a = [] →
    waitCount + n + 1 = maximumCqRetryCount →
    ∃ r, Ends (getCqEventBody a sourceCq retry nextEvent) (cq, eventData, waitCount) (some r) ∧
      r.code = 3 := by
  induction n with
  | zero =>
      intro cq eventData waitCount hready hwait hcount
      obtain ⟨eventData', hbody⟩ := getCqEventBody_of_nil hready hwait eventData waitCount
      rw [if_neg hretry, if_pos (by omega)] at hbody
      exact ⟨_, Ends.of_inr hbody, rfl⟩
  | succ n ih =>
      intro cq eventData waitCount hready hwait hcount
      obtain ⟨eventData', hbody⟩ := getCqEventBody_of_nil hready hwait eventData waitCount
      rw [if_neg hretry, if_neg (by omega)] at hbody
      obtain ⟨r, hr, hcode⟩ := ih { cq with queue := [] } eventData' (waitCount + 1) nofun rfl
        (by omega)
      exact ⟨r, Ends.of_inl hbody hr, hcode⟩

/-- Without an event the call returns 3, with `retry` or without. -/
theorem returns_of_nil (hready : ∀ w ∈ cq.queue, cqIsEventReady w ≠ 0)
    (hwait : cq.waiting a = []) :
    ∃ r, GetCqEvent a cq sourceCq retry nextEvent r ∧ r.code = 3 := by
  by_cases hretry : retry = 0
  · obtain ⟨eventData', hbody⟩ := getCqEventBody_of_nil hready hwait 0 0
    rw [if_pos hretry] at hbody
    exact ⟨_, Ends.of_inr hbody, rfl⟩
  · exact ends_of_retry hretry 59 cq 0 0 hready hwait rfl

/-- The copy of `cray/examples` keeps the contract unless an event in error is taken for a
success, or ends the process. -/
theorem contract_iff (ha : a.Setters) (hready : ∀ w ∈ cq.queue, cqIsEventReady w ≠ 0) :
    Contract a cq retry (GetCqEvent a cq sourceCq retry nextEvent) ↔
      ∀ event rest, cq.waiting a = event :: rest → a.overrun event = 0 →
        cq.aborts a event = false ∧ (cq.completes a event = true → a.statusOk event = true) := by
  cases hwait : cq.waiting a with
  | nil =>
      obtain ⟨r₀, hr₀, hcode₀⟩ := returns_of_nil hready hwait
      refine iff_of_true ⟨fun r hr hcode => ?_, ?_, ?_, fun _ _ => ⟨r₀, hr₀, hcode₀⟩⟩ nofun
      · obtain rfl := Option.some.inj (hr.unique hr₀)
        rw [hcode₀] at hcode
        cases hcode
      · rw [hwait]
        exact nofun
      · rw [hwait]
        exact nofun
  | cons event rest =>
      rw [forall_cons_iff]
      by_cases hover : a.overrun event = 0
      · obtain ⟨hout, -, -, hqueue⟩ := gniGetevent_outcome ha hready hwait hover 0
        cases hok : cq.completes a event with
        | true =>
            rw [contract_iff_of_cons (returns_iff_of_completes ha hready hwait hover hok) hwait]
            simp [hover, hok, hqueue, hout.aborts_of_completes hok]
        | false =>
            cases haborts : cq.aborts a event with
            | true =>
                refine iff_of_false (fun hc => ?_) fun h => (by cases (h hover).1)
                exact not_contract_of_aborts (not_returns_of_aborts ha hready hwait hover haborts)
                  hwait hover hok hc
            | false =>
                obtain ⟨failure, hret⟩ := @returns_iff_of_fails a cq sourceCq retry nextEvent
                  event rest ha hready hwait hover hok haborts
                rw [contract_iff_of_cons hret hwait]
                simp [hover]
      · rw [contract_iff_of_cons (returns_iff_of_overrun ha hready hwait hover) hwait]
        simp [hover]

end Cray

/-! ### Both copies -/

theorem agree_of_iff {Returns Returns' : Answer → Prop} {r₀ r₀' : Answer}
    (hret : ∀ r, Returns r ↔ r = r₀) (hret' : ∀ r, Returns' r ↔ r = r₀') (hsame : r₀.Same r₀') :
    Agree Returns Returns' := by
  refine ⟨fun r hr => ⟨r₀', (hret' r₀').mpr rfl, ?_⟩, fun r' hr' => ⟨r₀, (hret r₀).mpr rfl, ?_⟩⟩
  · rw [(hret r).mp hr]
    exact hsame
  · rw [(hret' r').mp hr']
    exact hsame

/-- Where there is no event the copies do not agree. -/
theorem not_agree_of_nil (hready : ∀ w ∈ cq.queue, cqIsEventReady w ≠ 0)
    (hwait : cq.waiting a = []) :
    ¬ Agree (StaticLink.GetCqEvent a cq sourceCq retry nextEvent)
      (Cray.GetCqEvent a cq sourceCq retry nextEvent) := by
  intro hagree
  obtain ⟨r', hr', -⟩ := Cray.returns_of_nil hready hwait
  obtain ⟨r, hr, -⟩ := hagree.2 r' hr'
  exact StaticLink.not_returns hready hwait r hr

theorem agree_of_cons (ha : a.Setters) (hready : ∀ w ∈ cq.queue, cqIsEventReady w ≠ 0)
    (hwait : cq.waiting a = event :: rest) (hover : a.overrun event = 0)
    (haborts : cq.aborts a event = false)
    (hnext : cq.completes a event = true → nextEvent = cq.delivered a event) :
    Agree (StaticLink.GetCqEvent a cq sourceCq retry nextEvent)
      (Cray.GetCqEvent a cq sourceCq retry nextEvent) := by
  cases hok : cq.completes a event with
  | true =>
      exact agree_of_iff (StaticLink.returns_iff_of_completes ha hready hwait hover hok)
        (Cray.returns_iff_of_completes ha hready hwait hover hok) ⟨rfl, hnext hok, rfl⟩
  | false =>
      obtain ⟨failure, hret⟩ := Cray.returns_iff_of_fails ha hready hwait hover hok haborts
      exact agree_of_iff (StaticLink.returns_iff_of_fails ha hready hwait hover hok haborts) hret
        ⟨rfl, rfl, rfl⟩

end Copies

/-- **The two copies of `get_cq_event` keep their contract and agree just where an event is
waiting that is no overrun and does not end the process, and that is an error to both, or a
success that the caller has in `*next_event` already.** -/
theorem contractKept_iff (a : CqAccess) (ha : a.Setters) (cq : Cq)
    (hready : ∀ w ∈ cq.queue, cqIsEventReady w ≠ 0) (sourceCq retry : UInt32)
    (nextEvent : UInt64) :
    ContractKept a cq sourceCq retry nextEvent ↔
      ∃ event rest, cq.waiting a = event :: rest ∧ a.overrun event = 0 ∧
        cq.aborts a event = false ∧ (cq.completes a event = true → a.statusOk event = true ∧
          nextEvent = cq.delivered a event) := by
  constructor
  · intro hkept
    cases hwait : cq.waiting a with
    | nil => exact absurd hkept.agree (not_agree_of_nil hready hwait)
    | cons event rest =>
        have hstatic := ((StaticLink.contract_iff ha hready).mp hkept.staticLink).2
        exact ⟨event, rest, rfl, hstatic event rest hwait⟩
  · rintro ⟨event, rest, hwait, hover, haborts, hsuccess⟩
    refine ⟨?_, ?_, agree_of_cons ha hready hwait hover haborts fun hok => (hsuccess hok).2⟩
    · rw [StaticLink.contract_iff ha hready, hwait, forall_cons_iff]
      exact ⟨nofun, hover, haborts, hsuccess⟩
    · rw [Cray.contract_iff ha hready, hwait, forall_cons_iff]
      exact fun _ => ⟨haborts, fun hok => (hsuccess hok).1⟩

/-- A destination queue that holds one entry. -/
def destination (entry : UInt64) : Cq := ⟨[entry], true, none, false, []⟩

theorem destination_ready {entry : UInt64} (hready : cqIsEventReady entry ≠ 0) :
    ∀ w ∈ (destination entry).queue, cqIsEventReady w ≠ 0 := by
  intro w hw
  rw [List.mem_singleton.mp hw]
  exact hready

theorem contractKept_iff_error :
    ContractKept geminiAccess (destination 0x0d0000000000002a) 0 1 0 :=
  (contractKept_iff geminiAccess geminiAccess_setters (destination 0x0d0000000000002a)
    (destination_ready (by decide)) 0 1 0).mpr
    ⟨0x0d0000000000002a, [], by decide, by decide, by decide, by decide⟩

/-- The event of a remote write: the copy of `static-link` returns 0 and leaves `*next_event`
at 0. -/
theorem contractKept_fails :
    ¬ ContractKept geminiAccess (destination 0x050000000000002a) 0 1 0 := by
  intro hkept
  have hready := destination_ready (show cqIsEventReady 0x050000000000002a ≠ 0 by decide)
  have hiff := (StaticLink.contract_iff geminiAccess_setters hready).mp hkept.staticLink
  obtain ⟨-, -, hsuccess⟩ := hiff.2 0x050000000000002a [] (by decide)
  exact absurd (hsuccess (by decide)).2 (by decide)

end Nvl.Completion

/-
Nvl/Completion/Requests.lean

The requests of a completion queue: the functions of the "CQ event hack" in
`utility_functions.h` that look up, complete and release a request.

A request is found by the number in an event.  `gni_processlocalentry` clears the
pending bit of the event it is given, and `gni_getcompleted`, called later with some
event of the request, gives the request back once no bit is pending.  The accessors of
an event (`gni_cq_get_tid` and the like) belong to libugni and are a parameter.
-/
import Mathlib.Logic.Function.Basic

namespace Nvl.Completion

/-! ### Events -/

/-- The `gni_return_t` values the functions deal with. -/
inductive GniReturn
  | success
  | notDone
  | invalidParam
  | errorResource
  | descriptorError
  | noMatch
  | transactionError
  deriving DecidableEq, Repr

/-- The numbers of the enumeration. -/
def GniReturn.code : GniReturn → UInt32
  | success => 0
  | notDone => 1
  | invalidParam => 2
  | errorResource => 3
  | descriptorError => 6
  | noMatch => 9
  | transactionError => 11

/-- The functions on a `gni_cq_entry_t` that libugni has; a setter returns the entry it
leaves. -/
structure CqAccess where
  getTid : UInt64 → UInt64
  getType : UInt64 → UInt64
  getStatus : UInt64 → UInt64
  overrun : UInt64 → UInt64
  bteEnqStatus : UInt64 → UInt32
  getFailedEnqueueCnt : UInt64 → UInt64
  statusDlaOverflow : UInt64 → UInt32
  setInstId : UInt64 → UInt64 → UInt64
  setType : UInt64 → UInt64 → UInt64

/-- `GHAL_CQ_IS_EVENT_READY`, the source bits of an entry. -/
def cqIsEventReady (event : UInt64) : UInt64 := (event >>> 56) &&& 0x7

/-- `GHAL_CQ_SOURCE_BTE`. -/
def cqSourceBte (event : UInt64) : Bool := cqIsEventReady event = 0x4

/-- `GHAL_CQ_SOURCE_SSID`. -/
def cqSourceSsid (event : UInt64) : Bool := cqIsEventReady event &&& 0x3 ≠ 0

/-- `GNI_CQ_STATUS_OK`. -/
def CqAccess.statusOk (a : CqAccess) (event : UInt64) : Bool := a.getStatus event = 0

/-- What the documentation of the setters promises: they change the field they name, so
neither the source bits nor the overrun bit. -/
structure CqAccess.Setters (a : CqAccess) : Prop where
  source_setInstId (event v : UInt64) :
    cqIsEventReady (a.setInstId event v) = cqIsEventReady event
  overrun_setInstId (event v : UInt64) : a.overrun (a.setInstId event v) = a.overrun event
  overrun_setType (event v : UInt64) : a.overrun (a.setType event v) = a.overrun event

def cqEventTypePost : UInt64 := 0
def cqEventTypeDmapp : UInt64 := 2

/-! ### Requests -/

/-- `GNII_REQ_TYPE_*`. -/
inductive ReqType
  | inactive
  | post
  | smsg
  | backCredit
  | ignore
  | cancel
  | msgq
  | msgqBackCredit
  | ctPost
  deriving DecidableEq, Inhabited

/-- The events a post can ask for on its own side. -/
inductive CqMode
  | localEvent
  | globalEvent
  deriving DecidableEq

/-- `GNI_CQMODE_LOCAL_EVENT` and `GNI_CQMODE_GLOBAL_EVENT`. -/
def CqMode.bit : CqMode → UInt8
  | localEvent => 0x1
  | globalEvent => 0x2

/-- The fields of a `gnii_req_t` that the functions use; `desc` and `userPostId` are those of
a post. -/
structure Req where
  type : ReqType
  cqesPending : UInt8
  desc : Nat
  userPostId : UInt64
  localEvent : UInt32
  epHndl : Nat
  deriving DecidableEq, Inhabited

/-- The event of that kind has not come yet. -/
def Req.Pending (r : Req) (k : CqMode) : Prop := r.cqesPending &&& k.bit ≠ 0

/-- The fields of a `gni_post_descriptor_t` that the functions use. -/
structure Desc where
  postId : UInt64
  status : UInt64
  type : UInt32
  deriving DecidableEq, Inhabited

/-- `GNI_POST_RDMA_PUT` or `GNI_POST_RDMA_GET`. -/
def Desc.isRdma (d : Desc) : Bool := d.type = 1 ∨ d.type = 2

/-- A `gnii_req_list_t`; the free list holds indices of requests for pointers to them. -/
structure ReqList where
  nreqsMax : UInt32
  freehead : UInt32
  base : Nat → Req
  freelist : Nat → Nat

/-- The request list with the descriptors and the endpoints' `outstanding_tx_reqs` that the
requests point to. -/
structure Mem where
  reqList : ReqList
  descs : Nat → Desc
  outstandingTxReqs : Nat → UInt32

/-! ### The functions -/

/-- `gni_reqid`, cut to the 32 bits that its callers keep. -/
def gniReqid (a : CqAccess) (entry : UInt64) : UInt32 := (a.getTid entry).toUInt32

/-- `gni_reqfind`: the index of the request, or `none` for `GNI_RC_INVALID_PARAM`. -/
def gniReqfind (l : ReqList) (reqId : UInt32) : Option Nat :=
  if reqId < 1 ∨ l.nreqsMax + 1 - 1 < reqId then none else some (reqId - 1).toNat

/-- `gni_reqfree`. -/
def gniReqfree (l : ReqList) (request : Nat) : ReqList :=
  { l with
    base := Function.update l.base request { l.base request with type := .inactive }
    freelist := Function.update l.freelist (l.freehead - 1).toNat request
    freehead := l.freehead - 1 }

/-- The outcome of `gni_getcompleted`; `postDescr` is `none` where `*post_descr` is left
alone, and `some none` where it is set to NULL. -/
structure Completed where
  rc : GniReturn
  postDescr : Option (Option Nat)
  mem : Mem

/-- The `rc` that `gni_getcompleted` makes of `desc->status`. -/
def completedRc (status : UInt64) : GniReturn :=
  let rc := status.toUInt32
  if rc = GniReturn.success.code then .success
  else if rc = GniReturn.transactionError.code then .transactionError
  else .descriptorError

/-- `gni_getcompleted`. -/
def gniGetcompleted (a : CqAccess) (m : Mem) (eventData : UInt64) : Completed :=
  if a.getType eventData ≠ cqEventTypePost then ⟨.descriptorError, some none, m⟩
  else
    match gniReqfind m.reqList (gniReqid a eventData) with
    | none => ⟨.invalidParam, none, m⟩
    | some i =>
      let req := m.reqList.base i
      if req.type ≠ .post then ⟨.descriptorError, some none, m⟩
      else
        ⟨completedRc (m.descs req.desc).status, some (some req.desc),
          if req.cqesPending = 0 then { m with reqList := gniReqfree m.reqList i } else m⟩

/-- The outcome of `gni_processlocalentry`, with the entry as it leaves it.  There is no status
where `GNI_ERROR(GNI_ERR_FATAL, ..)` has aborted the process. -/
structure Processed where
  status : Option GniReturn
  eventData : UInt64
  mem : Mem

/-- The `GNII_REQ_TYPE_POST` case of `gni_processlocalentry`. -/
def processPost (a : CqAccess) (m : Mem) (i : Nat) (eventData : UInt64) : Processed :=
  let req := m.reqList.base i
  let desc := m.descs req.desc
  let status := if a.statusOk eventData then GniReturn.success else .transactionError
  -- a BTE event counts as the local one for an RDMA transfer only
  let isLocal := cqSourceBte eventData && desc.isRdma
  let pending := if isLocal then req.cqesPending &&& ~~~ CqMode.localEvent.bit
    else req.cqesPending
  let entry := if isLocal then a.setInstId eventData req.localEvent.toUInt64 else eventData
  -- the entry that is looked at next is the changed one
  let isGlobal := cqSourceSsid entry
  let pending' := if isGlobal then pending &&& ~~~ CqMode.globalEvent.bit else pending
  let entry' := if isGlobal then a.setInstId entry req.localEvent.toUInt64 else entry
  ⟨some status, a.setType entry' cqEventTypePost,
    { reqList := { m.reqList with
        base := Function.update m.reqList.base i { req with cqesPending := pending' } }
      descs := Function.update m.descs req.desc
        { desc with status := status.code.toUInt64, postId := req.userPostId }
      outstandingTxReqs := Function.update m.outstandingTxReqs req.epHndl
        (m.outstandingTxReqs req.epHndl - 1) }⟩

/-- `gni_processlocalentry`. -/
def gniProcesslocalentry (a : CqAccess) (m : Mem) (eventData : UInt64) : Processed :=
  if a.bteEnqStatus eventData ≠ 0 then
    ⟨some (if a.getFailedEnqueueCnt eventData ≠ 0 then .errorResource else .success), eventData, m⟩
  else if a.getType eventData = cqEventTypeDmapp then ⟨some .success, eventData, m⟩
  else
    match gniReqfind m.reqList (gniReqid a eventData) with
    -- the two messages are fatal: no request, and a request of another type
    | none => ⟨none, eventData, m⟩
    | some i =>
      match (m.reqList.base i).type with
      | .post => processPost a m i eventData
      | _ => ⟨none, eventData, m⟩

/-! ### Entries as the Gemini has them -/

/-- From below: the instance, the number of the request, the type, the source, the status
and the overrun bit.  The headers do not say where the number is; it is put between the
instance and the type.  A Gemini has no FLBTE and no DLA. -/
def geminiAccess : CqAccess where
  getTid w := (w >>> 32) &&& 0x3fffff
  getType w := (w >>> 54) &&& 0x3
  getStatus w := (w >>> 59) &&& 0xf
  overrun w := (w >>> 63) &&& 0x1
  bteEnqStatus _ := 0
  getFailedEnqueueCnt _ := 0
  statusDlaOverflow _ := 0
  setInstId w v := (w &&& 0xffffffff00000000) ||| (v &&& 0xffffffff)
  setType w v := (w &&& 0xff3fffffffffffff) ||| ((v <<< (54 : UInt64)) &&& 0xc0000000000000)

/-- Overwriting a field leaves what a mask shows of the bits above it. -/
theorem overwrite_below {w v keep field n mask : UInt64} (hkeep : (keep >>> n) &&& mask = mask)
    (hfield : field >>> n = 0) :
    (((w &&& keep) ||| (v &&& field)) >>> n) &&& mask = (w >>> n) &&& mask := by
  rw [UInt64.shiftRight_or, UInt64.shiftRight_and, UInt64.shiftRight_and, hfield,
    UInt64.and_zero, UInt64.or_zero, UInt64.and_assoc, hkeep]

theorem geminiAccess_setters : geminiAccess.Setters where
  source_setInstId _ _ := overwrite_below rfl rfl
  overrun_setInstId _ _ := overwrite_below rfl rfl
  overrun_setType _ _ := overwrite_below rfl rfl

/-! ### What the functions do -/

variable {a : CqAccess} {m : Mem} {event : UInt64} {i : Nat} {k : CqMode}

theorem gniReqfind_eq_some {l : ReqList} {reqId : UInt32} :
    gniReqfind l reqId = some i ↔ i < l.nreqsMax.toNat ∧ reqId.toNat = i + 1 := by
  unfold gniReqfind
  have hcancel : l.nreqsMax + 1 - 1 = l.nreqsMax := by
    apply UInt32.toNat_inj.mp
    simp only [UInt32.toNat_sub, UInt32.toNat_add]
    have := l.nreqsMax.toNat_lt
    simp
    omega
  rw [hcancel]
  have hone : (1 : UInt32).toNat = 1 := rfl
  split
  case isTrue h =>
    rw [UInt32.lt_iff_toNat_lt, UInt32.lt_iff_toNat_lt, hone] at h
    constructor
    · intro hn
      cases hn
    · rintro ⟨hi, hid⟩
      omega
  case isFalse h =>
    rw [UInt32.lt_iff_toNat_lt, UInt32.lt_iff_toNat_lt, hone] at h
    have hsub : (reqId - 1).toNat = reqId.toNat - 1 :=
      UInt32.toNat_sub_of_le _ _ (UInt32.le_iff_toNat_le.mpr (by omega))
    rw [Option.some_inj, hsub]
    omega

/-- `gni_getcompleted` gives back a post without pending events, or changes nothing. -/
theorem gniGetcompleted_mem (a : CqAccess) (m : Mem) (event : UInt64) :
    (gniGetcompleted a m event).mem = m ∨
      ∃ i < m.reqList.nreqsMax.toNat, (m.reqList.base i).type = .post ∧
        (m.reqList.base i).cqesPending = 0 ∧
        (gniGetcompleted a m event).mem = { m with reqList := gniReqfree m.reqList i } := by
  unfold gniGetcompleted
  split
  · exact .inl rfl
  · cases hfind : gniReqfind m.reqList (gniReqid a event) with
    | none => exact .inl rfl
    | some i =>
        dsimp only
        by_cases htype : (m.reqList.base i).type = .post
        · rw [if_neg (not_not.mpr htype)]
          by_cases hpending : (m.reqList.base i).cqesPending = 0
          · refine .inr ⟨i, (gniReqfind_eq_some.mp hfind).1, htype, hpending, ?_⟩
            dsimp only
            rw [if_pos hpending]
          · left
            dsimp only
            rw [if_neg hpending]
        · left
          rw [if_pos htype]

/-- The event is the one of that kind, by its source. -/
def CqMode.sent (event : UInt64) : CqMode → Bool
  | localEvent => cqSourceBte event
  | globalEvent => cqSourceSsid event

/-- Clearing the bit of one kind leaves the other. -/
theorem CqMode.clear_bit (p : UInt8) {k k' : CqMode} (hne : k ≠ k') :
    (p &&& ~~~ k.bit) &&& k'.bit = p &&& k'.bit := by
  rw [UInt8.and_assoc]
  congr 1
  cases k <;> cases k' <;> first | rfl | exact absurd rfl hne

/-- Processing the event of one kind does not end the wait for the other. -/
theorem processPost_pending (ha : a.Setters) (hp : (m.reqList.base i).Pending k)
    (hk : k.sent event = false) :
    ((processPost a m i event).mem.reqList.base i).Pending k := by
  have hsource (b : Bool) (v : UInt64) :
      cqSourceSsid (if b then a.setInstId event v else event) = cqSourceSsid event := by
    cases b
    · rfl
    · show cqSourceSsid (a.setInstId event v) = cqSourceSsid event
      unfold cqSourceSsid
      rw [ha.source_setInstId]
  unfold Req.Pending at hp ⊢
  simp only [processPost, Function.update_self, hsource]
  cases k with
  | localEvent =>
      have hbte : cqSourceBte event = false := hk
      rw [hbte, Bool.false_and]
      split
      · rwa [CqMode.clear_bit _ (by decide)]
      · exact hp
  | globalEvent =>
      have hssid : cqSourceSsid event = false := hk
      rw [hssid]
      simp only [Bool.false_eq_true, if_false]
      split
      · rwa [CqMode.clear_bit _ (by decide)]
      · exact hp

/-- What `gni_processlocalentry` does to the request list: some bits may be cleared. -/
theorem gniProcesslocalentry_reqList (ha : a.Setters) (m : Mem) (event : UInt64) :
    ∃ base, (gniProcesslocalentry a m event).mem.reqList = { m.reqList with base := base } ∧
      (∀ i, (base i).type = (m.reqList.base i).type) ∧
      ∀ i k, (m.reqList.base i).Pending k → ((base i).Pending k ∨
        (gniReqid a event).toNat = i + 1 ∧ k.sent event = true) := by
  have hsame : ∃ base, m.reqList = { m.reqList with base := base } ∧
      (∀ i, (base i).type = (m.reqList.base i).type) ∧
      ∀ i k, (m.reqList.base i).Pending k → ((base i).Pending k ∨
        (gniReqid a event).toNat = i + 1 ∧ k.sent event = true) :=
    ⟨m.reqList.base, rfl, fun _ => rfl, fun _ _ hp => .inl hp⟩
  unfold gniProcesslocalentry
  split
  · exact hsame
  · split
    · exact hsame
    · cases hfind : gniReqfind m.reqList (gniReqid a event) with
      | none => exact hsame
      | some i =>
          dsimp only
          split
          · refine ⟨(processPost a m i event).mem.reqList.base, rfl, fun j => ?_, fun j k hp => ?_⟩
            · simp only [processPost]
              by_cases hj : j = i
              · rw [hj, Function.update_self]
              · rw [Function.update_of_ne hj]
            · by_cases hj : j = i
              · subst hj
                cases hk : k.sent event with
                | false => exact .inl (processPost_pending ha hp hk)
                | true => exact .inr ⟨(gniReqfind_eq_some.mp hfind).2, rfl⟩
              · left
                simpa only [processPost, Function.update_of_ne hj] using hp
          · exact hsame

end Nvl.Completion

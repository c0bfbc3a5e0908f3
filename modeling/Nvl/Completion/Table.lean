/-
Nvl/Completion/Table.lean

The request table over whole runs of posts, completion events and calls of
`gni_getcompleted`.

A post is made in libugni: it takes the request at the head of the free list and sets
the bits of the events it asked for.  The hardware delivers each of these events once.
The application calls `gni_getcompleted` with whatever word it likes, and writes to its
descriptors when it likes.

The world carries a history that the code does not have: the posts with the events
processed so far, which post holds each request, which posts were released, and
the head of the free list before each release.
-/
import Nvl.Lib.FreeList
import Nvl.Completion.Requests

namespace Nvl.Completion

open SysLib

/-! ### Runs -/

/-- A post: its request, the events it asked for and those processed. -/
structure Posted where
  req : Nat
  asked : CqMode → Bool
  processed : CqMode → Bool

/-- The memory and the history; posts are numbered in their order. -/
structure World where
  mem : Mem
  nposts : Nat
  posts : Nat → Posted
  holder : Nat → Nat
  released : List Nat
  freeheads : List UInt32

/-- What happens to the table from outside. -/
inductive Move
  | post (asked : CqMode → Bool) (desc : Nat) (userPostId : UInt64) (localEvent : UInt32)
      (epHndl : Nat)
  | deliver (serial : Nat) (kind : CqMode) (event : UInt64)
  | getCompleted (event : UInt64)
  | writeDesc (desc : Nat) (val : Desc)

/-- `cqes_pending` for a set of events. -/
def pendingBits (asked : CqMode → Bool) : UInt8 :=
  (if asked .localEvent then CqMode.localEvent.bit else 0) |||
    (if asked .globalEvent then CqMode.globalEvent.bit else 0)

/-- The request at the head of the free list becomes a post's. -/
def ReqList.take (l : ReqList) (req : Req) : ReqList :=
  { l with
    base := Function.update l.base (l.freelist l.freehead.toNat) req
    freehead := l.freehead + 1 }

/-- A post that finds a request and asks for some event; others do not happen. -/
def World.post (w : World) (asked : CqMode → Bool) (desc : Nat) (userPostId : UInt64)
    (localEvent : UInt32) (epHndl : Nat) : World :=
  let l := w.mem.reqList
  if l.freehead < l.nreqsMax ∧ (asked .localEvent || asked .globalEvent) then
    let req := l.freelist l.freehead.toNat
    { w with
      mem := { w.mem with
        reqList := l.take ⟨.post, pendingBits asked, desc, userPostId, localEvent, epHndl⟩ }
      nposts := w.nposts + 1
      posts := Function.update w.posts w.nposts ⟨req, asked, fun _ => false⟩
      holder := Function.update w.holder req w.nposts }
  else w

/-- The word is the event of that kind of the post, which asked for it and did not have it. -/
def World.Due (a : CqAccess) (w : World) (serial : Nat) (kind : CqMode) (event : UInt64) : Prop :=
  serial < w.nposts ∧ (w.posts serial).asked kind = true ∧
    (w.posts serial).processed kind = false ∧
    (gniReqid a event).toNat = (w.posts serial).req + 1 ∧ kind.sent event = true

instance (a : CqAccess) (w : World) (serial : Nat) (kind : CqMode) (event : UInt64) :
    Decidable (w.Due a serial kind event) :=
  inferInstanceAs (Decidable (_ ∧ _ ∧ _ ∧ _ ∧ _))

/-- A due event is processed; others do not come.  It does not abort (`Inv.due_status`). -/
def World.deliver (a : CqAccess) (w : World) (serial : Nat) (kind : CqMode) (event : UInt64) :
    World :=
  if w.Due a serial kind event then
    { w with
      mem := (gniProcesslocalentry a w.mem event).mem
      posts := Function.update w.posts serial { w.posts serial with
        processed := Function.update (w.posts serial).processed kind true } }
  else w

/-- A call of `gni_getcompleted`.  That the head of the free list has moved shows that a
request was released, and it is the one at the new head. -/
def World.getCompleted (a : CqAccess) (w : World) (event : UInt64) : World :=
  let mem := (gniGetcompleted a w.mem event).mem
  let freehead := w.mem.reqList.freehead
  let freehead' := mem.reqList.freehead
  if freehead' = freehead then { w with mem := mem }
  else
    { w with
      mem := mem
      released := w.holder (mem.reqList.freelist freehead'.toNat) :: w.released
      freeheads := freehead :: w.freeheads }

def World.writeDesc (w : World) (desc : Nat) (val : Desc) : World :=
  { w with mem := { w.mem with descs := Function.update w.mem.descs desc val } }

def World.step (a : CqAccess) (w : World) : Move → World
  | .post asked desc userPostId localEvent epHndl =>
    w.post asked desc userPostId localEvent epHndl
  | .deliver serial kind event => w.deliver a serial kind event
  | .getCompleted event => w.getCompleted a event
  | .writeDesc desc val => w.writeDesc desc val

def World.run (a : CqAccess) (w : World) (moves : List Move) : World :=
  moves.foldl (World.step a) w

/-- The table at the beginning: nothing is active and everything is on the free list. -/
structure ReqList.Initial (l : ReqList) : Prop where
  freehead : l.freehead = 0
  inactive : ∀ i < l.nreqsMax.toNat, (l.base i).type = .inactive
  stack : FreeStack l.nreqsMax.toNat 0 l.freelist

/-- A memory before any post. -/
def World.init (m : Mem) : World :=
  ⟨m, 0, fun _ => ⟨0, fun _ => false, fun _ => false⟩, fun _ => 0, [], []⟩

/-! ### The table -/

/-- What holds of the table: the free requests are the inactive ones, the others are posts. -/
structure ReqList.WF (l : ReqList) : Prop where
  stack : FreeStack l.nreqsMax.toNat l.freehead.toNat l.freelist
  inactive_iff : ∀ i < l.nreqsMax.toNat,
    (l.base i).type = .inactive ↔ FreeSlot l.nreqsMax.toNat l.freehead.toNat l.freelist i
  inactive_or_post : ∀ i < l.nreqsMax.toNat, (l.base i).type = .inactive ∨ (l.base i).type = .post

namespace ReqList

variable {l : ReqList} {i : Nat}

theorem Initial.wf (hl : l.Initial) : l.WF where
  stack := by
    rw [hl.freehead]
    exact hl.stack
  inactive_iff i hi := by
    rw [hl.freehead]
    exact iff_of_true (hl.inactive i hi) (hl.stack.freeSlot_of_head_zero hi)
  inactive_or_post i hi := .inl (hl.inactive i hi)

/-- The free list says nothing about what else is in a request. -/
theorem WF.of_types (hl : l.WF) {base : Nat → Req} (hb : ∀ i, (base i).type = (l.base i).type) :
    { l with base := base }.WF where
  stack := hl.stack
  inactive_iff i hi := by
    rw [← hl.inactive_iff i hi, ← hb i]
  inactive_or_post i hi := by
    rw [hb i]
    exact hl.inactive_or_post i hi

theorem WF.not_freeSlot (hl : l.WF) (hi : i < l.nreqsMax.toNat) (hp : (l.base i).type = .post) :
    ¬ FreeSlot l.nreqsMax.toNat l.freehead.toNat l.freelist i := by
  rw [← hl.inactive_iff i hi, hp]
  exact ReqType.noConfusion

theorem toNat_freehead_succ (hlt : l.freehead < l.nreqsMax) :
    (l.freehead + 1).toNat = l.freehead.toNat + 1 := by
  have hn := l.nreqsMax.toNat_lt
  rw [UInt32.lt_iff_toNat_lt] at hlt
  rw [UInt32.toNat_add]
  exact Nat.mod_eq_of_lt (show l.freehead.toNat + 1 < 2 ^ 32 by omega)

theorem WF.freelist_lt (hl : l.WF) (hlt : l.freehead < l.nreqsMax) :
    l.freelist l.freehead.toNat < l.nreqsMax.toNat :=
  hl.stack.lt _ le_rfl (UInt32.lt_iff_toNat_lt.mp hlt)

/-- The request a post takes was inactive. -/
theorem WF.freelist_inactive (hl : l.WF) (hlt : l.freehead < l.nreqsMax) :
    (l.base (l.freelist l.freehead.toNat)).type = .inactive :=
  (hl.inactive_iff _ (hl.freelist_lt hlt)).mpr ⟨_, le_rfl, UInt32.lt_iff_toNat_lt.mp hlt, rfl⟩

theorem WF.take (hl : l.WF) (hlt : l.freehead < l.nreqsMax) {req : Req} (hr : req.type = .post) :
    (l.take req).WF := by
  have hlt' := UInt32.lt_iff_toNat_lt.mp hlt
  have hhead : (l.take req).freehead.toNat = l.freehead.toNat + 1 := toNat_freehead_succ hlt
  refine ⟨?_, fun i hi => ?_, fun i hi => ?_⟩
  · rw [hhead]
    exact hl.stack.pop hlt'
  · rw [hhead]
    show _ ↔ FreeSlot l.nreqsMax.toNat (l.freehead.toNat + 1) l.freelist i
    rw [hl.stack.freeSlot_pop hlt', ← hl.inactive_iff i hi]
    by_cases h : i = l.freelist l.freehead.toNat
    · have htype : ((l.take req).base i).type = .post := by
        rw [h]
        exact (congrArg Req.type (Function.update_self ..)).trans hr
      rw [htype]
      exact iff_of_false ReqType.noConfusion fun hc => hc.2 h
    · show (Function.update l.base _ req i).type = _ ↔ _
      rw [Function.update_of_ne h]
      exact (and_iff_left h).symm
  · show (Function.update l.base _ req i).type = _ ∨ (Function.update l.base _ req i).type = _
    by_cases h : i = l.freelist l.freehead.toNat
    · rw [h, Function.update_self]
      exact .inr hr
    · rw [Function.update_of_ne h]
      exact hl.inactive_or_post i hi

/-- Releasing a post does not underflow. -/
theorem WF.freehead_pos (hl : l.WF) (hi : i < l.nreqsMax.toNat) (hp : (l.base i).type = .post) :
    0 < l.freehead.toNat :=
  hl.stack.head_pos hi (hl.not_freeSlot hi hp)

theorem toNat_freehead_pred (hpos : 0 < l.freehead.toNat) :
    (l.freehead - 1).toNat = l.freehead.toNat - 1 :=
  UInt32.toNat_sub_of_le _ _ (UInt32.le_iff_toNat_le.mpr hpos)

theorem WF.reqfree (hl : l.WF) (hi : i < l.nreqsMax.toNat) (hp : (l.base i).type = .post) :
    (gniReqfree l i).WF := by
  have hpos := hl.freehead_pos hi hp
  have hn := hl.not_freeSlot hi hp
  obtain ⟨head, hhead⟩ : ∃ head, l.freehead.toNat = head + 1 :=
    ⟨l.freehead.toNat - 1, by omega⟩
  have hhead' : (l.freehead - 1).toNat = head := by
    rw [toNat_freehead_pred hpos, hhead]
    rfl
  have hs := hl.stack
  rw [hhead] at hs hn
  have hlt : head < l.nreqsMax.toNat := hs.head_le
  refine ⟨?_, fun j hj => ?_, fun j hj => ?_⟩
  · show FreeStack l.nreqsMax.toNat (l.freehead - 1).toNat
      (Function.update l.freelist (l.freehead - 1).toNat i)
    rw [hhead']
    exact hs.push hi hn
  · show _ ↔ FreeSlot l.nreqsMax.toNat (l.freehead - 1).toNat
      (Function.update l.freelist (l.freehead - 1).toNat i) j
    rw [hhead', freeSlot_push hlt, ← hhead, ← hl.inactive_iff j hj]
    show (Function.update l.base i _ j).type = _ ↔ _
    by_cases h : j = i
    · rw [h, Function.update_self]
      exact iff_of_true rfl (.inl rfl)
    · rw [Function.update_of_ne h]
      exact (or_iff_right h).symm
  · show (Function.update l.base i _ j).type = _ ∨ (Function.update l.base i _ j).type = _
    by_cases h : j = i
    · rw [h, Function.update_self]
      exact .inl rfl
    · rw [Function.update_of_ne h]
      exact hl.inactive_or_post j hj

end ReqList

/-! ### The history -/

/-- An event has one source. -/
theorem CqMode.sent_unique {event : UInt64} {k k' : CqMode} (hk : k.sent event = true)
    (hk' : k'.sent event = true) : k = k' := by
  have hexcl : cqSourceBte event = true → cqSourceSsid event = true → False := by
    intro hbte hssid
    have hsource : cqIsEventReady event = 0x4 := of_decide_eq_true hbte
    unfold cqSourceSsid at hssid
    rw [hsource] at hssid
    exact absurd hssid (by decide)
  cases k <;> cases k'
  · rfl
  · exact absurd hk' (hexcl hk)
  · exact absurd hk (hexcl hk')
  · rfl

/-- The bits a post sets are those of the events it asked for. -/
theorem pending_pendingBits {req : Req} {asked : CqMode → Bool}
    (hr : req.cqesPending = pendingBits asked) {k : CqMode} (hk : asked k = true) :
    req.Pending k := by
  unfold Req.Pending
  rw [hr]
  unfold pendingBits
  cases k with
  | localEvent =>
      rw [hk]
      cases asked .globalEvent <;> decide
  | globalEvent =>
      rw [hk]
      cases asked .localEvent <;> decide

/-- The post that holds a request is its last one, is not released, and has its bit set for
every event it waits for. -/
structure World.Held (w : World) (i : Nat) : Prop where
  lt : w.holder i < w.nposts
  not_released : w.holder i ∉ w.released
  req : (w.posts (w.holder i)).req = i
  pending : ∀ k, (w.posts (w.holder i)).asked k = true →
    (w.posts (w.holder i)).processed k = false → (w.mem.reqList.base i).Pending k

/-- The post has its request. -/
structure World.Holding (w : World) (s : Nat) : Prop where
  lt : (w.posts s).req < w.mem.reqList.nreqsMax.toNat
  active : (w.mem.reqList.base (w.posts s).req).type = .post
  holder : w.holder (w.posts s).req = s

/-- The table and the history agree. -/
structure World.Inv (w : World) : Prop where
  wf : w.mem.reqList.WF
  held : ∀ i < w.mem.reqList.nreqsMax.toNat, (w.mem.reqList.base i).type = .post → w.Held i
  holding : ∀ s < w.nposts, s ∉ w.released → w.Holding s
  nodup : w.released.Nodup
  done : ∀ s ∈ w.released, s < w.nposts ∧
    ∀ k, (w.posts s).asked k = true → (w.posts s).processed k = true
  freeheads : ∀ h ∈ w.freeheads, h ≠ 0

namespace World

variable {a : CqAccess} {w : World} {m : Mem}

theorem inv_init (hm : m.reqList.Initial) : (init m).Inv where
  wf := hm.wf
  held i hi hp := by
    have hn : (m.reqList.base i).type = .post := hp
    rw [hm.inactive i hi] at hn
    cases hn
  holding s hs := absurd hs (Nat.not_lt_zero s)
  nodup := List.nodup_nil
  done s hs := by cases hs
  freeheads h hh := by cases hh

/-- The post takes the request at the head of the free list. -/
def accept (w : World) (asked : CqMode → Bool) (r : Req) : World :=
  { w with
    mem := { w.mem with reqList := w.mem.reqList.take r }
    nposts := w.nposts + 1
    posts := Function.update w.posts w.nposts
      ⟨w.mem.reqList.freelist w.mem.reqList.freehead.toNat, asked, fun _ => false⟩
    holder := Function.update w.holder
      (w.mem.reqList.freelist w.mem.reqList.freehead.toNat) w.nposts }

theorem post_cases (w : World) (asked : CqMode → Bool) (desc : Nat) (userPostId : UInt64)
    (localEvent : UInt32) (epHndl : Nat) :
    w.post asked desc userPostId localEvent epHndl = w ∨
      w.mem.reqList.freehead < w.mem.reqList.nreqsMax ∧
        w.post asked desc userPostId localEvent epHndl =
          w.accept asked ⟨.post, pendingBits asked, desc, userPostId, localEvent, epHndl⟩ := by
  unfold World.post
  dsimp only
  split
  case isTrue hcan => exact .inr ⟨hcan.1, rfl⟩
  case isFalse => exact .inl rfl

section Accept

variable {asked : CqMode → Bool} {r : Req} {i s : Nat}

theorem held_accept (hw : w.Inv) (hr : r.cqesPending = pendingBits asked) :
    (w.accept asked r).Held (w.mem.reqList.freelist w.mem.reqList.freehead.toNat) := by
  refine ⟨?_, ?_, ?_, fun k hk _ => ?_⟩ <;>
    simp only [accept, ReqList.take, Function.update_self] at *
  · exact Nat.lt_succ_self _
  · exact fun hmem => absurd (hw.done _ hmem).1 (Nat.lt_irrefl _)
  · exact pending_pendingBits hr hk

theorem Held.accept (hheld : w.Held i)
    (hne : i ≠ w.mem.reqList.freelist w.mem.reqList.freehead.toNat) :
    (w.accept asked r).Held i := by
  have hlast : w.holder i ≠ w.nposts := Nat.ne_of_lt hheld.lt
  refine ⟨?_, ?_, ?_, fun k hk hpk => ?_⟩ <;>
    simp only [World.accept, ReqList.take, Function.update_of_ne hne,
      Function.update_of_ne hlast] at *
  · exact Nat.lt_succ_of_lt hheld.lt
  · exact hheld.not_released
  · exact hheld.req
  · exact hheld.pending k hk hpk

theorem Holding.accept (hold : w.Holding s) (hs : s < w.nposts)
    (hne : (w.posts s).req ≠ w.mem.reqList.freelist w.mem.reqList.freehead.toNat) :
    (w.accept asked r).Holding s := by
  refine ⟨?_, ?_, ?_⟩ <;>
    simp only [World.accept, ReqList.take, Function.update_of_ne (Nat.ne_of_lt hs),
      Function.update_of_ne hne]
  · exact hold.lt
  · exact hold.active
  · exact hold.holder

theorem Inv.accept (hw : w.Inv) (hlt : w.mem.reqList.freehead < w.mem.reqList.nreqsMax)
    (htype : r.type = .post) (hr : r.cqesPending = pendingBits asked) :
    (w.accept asked r).Inv := by
  -- a request in use is not the one that is taken
  have hother : ∀ i, (w.mem.reqList.base i).type = .post →
      i ≠ w.mem.reqList.freelist w.mem.reqList.freehead.toNat := by
    rintro i hp rfl
    rw [hw.wf.freelist_inactive hlt] at hp
    cases hp
  refine ⟨hw.wf.take hlt htype, fun i hi hp => ?_, fun s hs hrel => ?_, hw.nodup,
    fun s hs => ?_, hw.freeheads⟩
  · by_cases h : i = w.mem.reqList.freelist w.mem.reqList.freehead.toNat
    · rw [h]
      exact held_accept hw hr
    · have hp' : (w.mem.reqList.base i).type = .post := by
        simpa only [World.accept, ReqList.take, Function.update_of_ne h] using hp
      exact (hw.held i hi hp').accept h
  · by_cases h : s = w.nposts
    · refine ⟨?_, ?_, ?_⟩ <;> simp only [h, World.accept, ReqList.take, Function.update_self]
      · exact hw.wf.freelist_lt hlt
      · exact htype
    · have hs' : s < w.nposts := by
        have : s < w.nposts + 1 := hs
        omega
      have hold := hw.holding s hs' hrel
      exact hold.accept hs' (hother _ hold.active)
  · have hs' := hw.done s hs
    simp only [World.accept, Function.update_of_ne (Nat.ne_of_lt hs'.1)]
    exact ⟨Nat.lt_succ_of_lt hs'.1, hs'.2⟩

end Accept

theorem Inv.post (hw : w.Inv) (asked : CqMode → Bool) (desc : Nat) (userPostId : UInt64)
    (localEvent : UInt32) (epHndl : Nat) :
    (w.post asked desc userPostId localEvent epHndl).Inv := by
  rcases post_cases w asked desc userPostId localEvent epHndl with heq | ⟨hlt, heq⟩
  · rw [heq]
    exact hw
  · rw [heq]
    exact hw.accept hlt rfl rfl

/-- The posts when an event of one of them has been processed. -/
abbrev markProcessed (posts : Nat → Posted) (serial : Nat) (kind : CqMode) : Nat → Posted :=
  Function.update posts serial { posts serial with
    processed := Function.update (posts serial).processed kind true }

theorem markProcessed_req (posts : Nat → Posted) (serial : Nat) (kind : CqMode) (s : Nat) :
    (markProcessed posts serial kind s).req = (posts s).req := by
  by_cases h : s = serial
  · rw [h, markProcessed, Function.update_self]
  · rw [markProcessed, Function.update_of_ne h]

/-- An event that is still waited for was waited for, and is not the one processed. -/
theorem waits_of_markProcessed {posts : Nat → Posted} {serial s : Nat} {kind k : CqMode}
    (hk : (markProcessed posts serial kind s).asked k = true)
    (hp : (markProcessed posts serial kind s).processed k = false) :
    (posts s).asked k = true ∧ (posts s).processed k = false ∧ (s = serial → k ≠ kind) := by
  by_cases h : s = serial
  · subst h
    rw [markProcessed, Function.update_self] at hk hp
    dsimp only at hk hp
    have hne : k ≠ kind := by
      rintro rfl
      rw [Function.update_self] at hp
      cases hp
    rw [Function.update_of_ne hne] at hp
    exact ⟨hk, hp, fun _ => hne⟩
  · rw [markProcessed, Function.update_of_ne h] at hk hp
    exact ⟨hk, hp, fun hs => absurd hs h⟩

theorem Inv.deliver (ha : a.Setters) (hw : w.Inv) (serial : Nat) (kind : CqMode)
    (event : UInt64) : (w.deliver a serial kind event).Inv := by
  unfold World.deliver
  split
  case isFalse => exact hw
  case isTrue hdue =>
    obtain ⟨hserial, hasked, hunprocessed, hid, hsent⟩ := hdue
    obtain ⟨base, hlist, htype, hpending⟩ := gniProcesslocalentry_reqList ha w.mem event
    -- a post that is released has had all its events
    have hnot : serial ∉ w.released := by
      intro hmem
      rw [(hw.done serial hmem).2 kind hasked] at hunprocessed
      cases hunprocessed
    have hold := hw.holding serial hserial hnot
    refine ⟨?_, fun i hi hp => ?_, fun s hs hr => ?_, hw.nodup, fun s hs => ?_, hw.freeheads⟩
    · dsimp only
      rw [hlist]
      exact hw.wf.of_types htype
    · dsimp only at hi hp
      rw [hlist] at hi hp
      have hheld := hw.held i hi ((htype i).symm.trans hp)
      refine ⟨hheld.lt, hheld.not_released,
        (markProcessed_req w.posts serial kind _).trans hheld.req, fun k hk hpk => ?_⟩
      obtain ⟨hk, hpk, hne⟩ := waits_of_markProcessed hk hpk
      dsimp only
      rw [hlist]
      rcases hpending i k (hheld.pending k hk hpk) with hstill | ⟨hid', hk'⟩
      · exact hstill
      · -- a bit that was cleared belongs to the event and to the post it was delivered to
        have hi' : (w.posts serial).req = i := by omega
        have hserial' : w.holder i = serial := by rw [← hi', hold.holder]
        exact absurd (CqMode.sent_unique hk' hsent) (hne hserial')
    · have hs' := hw.holding s hs hr
      refine ⟨?_, ?_, ?_⟩ <;> dsimp only <;> rw [markProcessed_req]
      · rw [hlist]
        exact hs'.lt
      · rw [hlist]
        exact (htype _).trans hs'.active
      · exact hs'.holder
    · have hne : s ≠ serial := fun h => hnot (h ▸ hs)
      dsimp only
      rw [Function.update_of_ne hne]
      exact hw.done s hs

/-- The request is released, and its post with it. -/
def release (w : World) (i : Nat) : World :=
  { w with
    mem := { w.mem with reqList := gniReqfree w.mem.reqList i }
    released := w.holder i :: w.released
    freeheads := w.mem.reqList.freehead :: w.freeheads }

theorem getCompleted_eq_release {event : UInt64} {i : Nat}
    (hmem : (gniGetcompleted a w.mem event).mem =
      { w.mem with reqList := gniReqfree w.mem.reqList i }) :
    w.getCompleted a event = w.release i := by
  have hne : w.mem.reqList.freehead - 1 ≠ w.mem.reqList.freehead := by
    intro heq
    have hnat := congrArg UInt32.toNat heq
    rw [UInt32.toNat_sub, show (1 : UInt32).toNat = 1 from rfl] at hnat
    have hlt := w.mem.reqList.freehead.toNat_lt
    omega
  unfold World.getCompleted
  dsimp only
  rw [hmem]
  show ite (w.mem.reqList.freehead - 1 = w.mem.reqList.freehead) _ _ = _
  rw [if_neg hne]
  unfold release
  congr 2
  exact congrArg w.holder (Function.update_self ..)

theorem getCompleted_cases (a : CqAccess) (w : World) (event : UInt64) :
    w.getCompleted a event = w ∨ ∃ i < w.mem.reqList.nreqsMax.toNat,
      (w.mem.reqList.base i).type = .post ∧ (w.mem.reqList.base i).cqesPending = 0 ∧
      w.getCompleted a event = w.release i := by
  rcases gniGetcompleted_mem a w.mem event with hmem | ⟨i, hi, hp, hpending, hmem⟩
  · left
    unfold World.getCompleted
    dsimp only
    rw [hmem, if_pos rfl]
  · exact .inr ⟨i, hi, hp, hpending, getCompleted_eq_release hmem⟩

/-- A post without pending events has all it asked for. -/
theorem Held.processed {i : Nat} (hheld : w.Held i)
    (hpending : (w.mem.reqList.base i).cqesPending = 0) {k : CqMode}
    (hk : (w.posts (w.holder i)).asked k = true) :
    (w.posts (w.holder i)).processed k = true := by
  by_contra hnot
  have hbit := hheld.pending k hk (Bool.eq_false_iff.mpr hnot)
  unfold Req.Pending at hbit
  rw [hpending, UInt8.zero_and] at hbit
  exact hbit rfl

theorem Inv.release {i : Nat} (hw : w.Inv) (hi : i < w.mem.reqList.nreqsMax.toNat)
    (hp : (w.mem.reqList.base i).type = .post)
    (hpending : (w.mem.reqList.base i).cqesPending = 0) : (w.release i).Inv := by
  have hheld := hw.held i hi hp
  have hbase {j : Nat} (h : j ≠ i) :
      (w.release i).mem.reqList.base j = w.mem.reqList.base j := Function.update_of_ne h ..
  refine ⟨hw.wf.reqfree hi hp, fun j hj hpj => ?_, fun s hs hr => ?_, ?_, fun s hs => ?_,
    fun h hh => ?_⟩
  · have hne : j ≠ i := by
      rintro rfl
      change (Function.update w.mem.reqList.base j _ j).type = .post at hpj
      rw [Function.update_self] at hpj
      cases hpj
    rw [hbase hne] at hpj
    have hj' := hw.held j hj hpj
    refine ⟨hj'.lt, fun hmem => ?_, hj'.req, fun k hk hpk => ?_⟩
    · -- two requests have different posts
      rcases List.mem_cons.mp hmem with heq | hmem
      · have hij := hj'.req
        rw [show w.holder j = w.holder i from heq, hheld.req] at hij
        exact hne hij.symm
      · exact hj'.not_released hmem
    · rw [hbase hne]
      exact hj'.pending k hk hpk
  · have hs' := hw.holding s hs fun hmem => hr (List.mem_cons_of_mem _ hmem)
    -- a post that is not released has another request
    have hne : (w.posts s).req ≠ i := by
      intro heq
      apply hr
      rw [← hs'.holder, heq]
      exact List.mem_cons_self
    refine ⟨hs'.lt, ?_, hs'.holder⟩
    show ((w.release i).mem.reqList.base (w.posts s).req).type = .post
    rw [hbase hne]
    exact hs'.active
  · exact List.nodup_cons.mpr ⟨hheld.not_released, hw.nodup⟩
  · rcases List.mem_cons.mp hs with rfl | hs
    · exact ⟨hheld.lt, fun k => hheld.processed hpending⟩
    · exact hw.done s hs
  · rcases List.mem_cons.mp hh with rfl | hh
    · intro hzero
      have hpos := hw.wf.freehead_pos hi hp
      rw [hzero] at hpos
      exact absurd hpos (by decide)
    · exact hw.freeheads h hh

theorem Inv.getCompleted (hw : w.Inv) (event : UInt64) : (w.getCompleted a event).Inv := by
  rcases getCompleted_cases a w event with heq | ⟨i, hi, hp, hpending, heq⟩
  · rw [heq]
    exact hw
  · rw [heq]
    exact hw.release hi hp hpending

/-- An event that is due does not end the process: its request is found, and is a post. -/
theorem Inv.due_status (hw : w.Inv) {serial : Nat} {kind : CqMode} {event : UInt64}
    (hdue : w.Due a serial kind event) : (gniProcesslocalentry a w.mem event).status ≠ none := by
  obtain ⟨hserial, hasked, hunprocessed, hid, -⟩ := hdue
  have hnot : serial ∉ w.released := by
    intro hmem
    rw [(hw.done serial hmem).2 kind hasked] at hunprocessed
    cases hunprocessed
  have hold := hw.holding serial hserial hnot
  have hfind : gniReqfind w.mem.reqList (gniReqid a event) = some (w.posts serial).req :=
    gniReqfind_eq_some.mpr ⟨hold.lt, hid⟩
  unfold gniProcesslocalentry
  split
  · exact Option.some_ne_none _
  · split
    · exact Option.some_ne_none _
    · rw [hfind]
      dsimp only
      rw [hold.active]
      exact Option.some_ne_none _

/-- The table does not depend on what is in a descriptor. -/
theorem Inv.writeDesc (hw : w.Inv) (desc : Nat) (val : Desc) : (w.writeDesc desc val).Inv := by
  refine ⟨hw.wf, fun i hi hp => ?_, fun s hs hr => ?_, hw.nodup, hw.done, hw.freeheads⟩
  · have hheld := hw.held i hi hp
    exact ⟨hheld.lt, hheld.not_released, hheld.req, hheld.pending⟩
  · have hold := hw.holding s hs hr
    exact ⟨hold.lt, hold.active, hold.holder⟩

theorem Inv.step (ha : a.Setters) (hw : w.Inv) (move : Move) : (w.step a move).Inv := by
  cases move with
  | post asked desc userPostId localEvent epHndl =>
      exact hw.post asked desc userPostId localEvent epHndl
  | deliver serial kind event => exact hw.deliver ha serial kind event
  | getCompleted event => exact hw.getCompleted event
  | writeDesc desc val => exact hw.writeDesc desc val

theorem Inv.run (ha : a.Setters) (hw : w.Inv) (moves : List Move) : (w.run a moves).Inv := by
  induction moves generalizing w with
  | nil => exact hw
  | cons move moves ih => exact ih (hw.step ha move)

/-! ### Safety -/

/-- The table is safe: no release underflowed, the upper part of the free list holds
different inactive requests, all others are active, and a post was released at most once and
with all its events processed. -/
structure Safe (w : World) : Prop where
  no_underflow : ∀ h ∈ w.freeheads, h ≠ 0
  freehead_le : w.mem.reqList.freehead ≤ w.mem.reqList.nreqsMax
  distinct : ∀ j k, w.mem.reqList.freehead.toNat ≤ j → j < w.mem.reqList.nreqsMax.toNat →
    w.mem.reqList.freehead.toNat ≤ k → k < w.mem.reqList.nreqsMax.toNat →
    w.mem.reqList.freelist j = w.mem.reqList.freelist k → j = k
  inactive : ∀ j, w.mem.reqList.freehead.toNat ≤ j → j < w.mem.reqList.nreqsMax.toNat →
    w.mem.reqList.freelist j < w.mem.reqList.nreqsMax.toNat ∧
      (w.mem.reqList.base (w.mem.reqList.freelist j)).type = .inactive
  active : ∀ i < w.mem.reqList.nreqsMax.toNat,
    (∀ j, w.mem.reqList.freehead.toNat ≤ j → j < w.mem.reqList.nreqsMax.toNat →
      w.mem.reqList.freelist j ≠ i) → (w.mem.reqList.base i).type ≠ .inactive
  released_once : w.released.Nodup
  released_done : ∀ s ∈ w.released, s < w.nposts ∧
    ∀ k, (w.posts s).asked k = true → (w.posts s).processed k = true

theorem Inv.safe (hw : w.Inv) : w.Safe where
  no_underflow := hw.freeheads
  freehead_le := UInt32.le_iff_toNat_le.mpr hw.wf.stack.head_le
  distinct := hw.wf.stack.inj
  inactive j hj hjN := by
    have hlt := hw.wf.stack.lt j hj hjN
    exact ⟨hlt, (hw.wf.inactive_iff _ hlt).mpr ⟨j, hj, hjN, rfl⟩⟩
  active i hi hnot hinactive := by
    obtain ⟨j, hj, hjN, heq⟩ := (hw.wf.inactive_iff i hi).mp hinactive
    exact hnot j hj hjN heq
  released_once := hw.nodup
  released_done := hw.done

end World

/-- **The request table is safe over every run.** -/
theorem table_safe (a : CqAccess) (ha : a.Setters) (m : Mem) (hm : m.reqList.Initial)
    (moves : List Move) : ((World.init m).run a moves).Safe :=
  ((World.inv_init hm).run ha moves).safe

/-- A table of two requests. -/
def twoRequests : Mem where
  reqList := ⟨2, 0, fun _ => default, id⟩
  descs _ := ⟨0, 0, 1⟩
  outstandingTxReqs _ := 0

theorem twoRequests_initial : twoRequests.reqList.Initial where
  freehead := rfl
  inactive _ _ := rfl
  stack := ⟨Nat.zero_le _, fun _ _ hj => hj, fun _ _ _ _ _ _ heq => heq⟩

/-- A post that asks for both events and one that takes the same request again, with calls of
`gni_getcompleted` that come too early, once more and with a stale word. -/
def recycled : List Move :=
  let bte := 0x0400000100000000
  let ssid := 0x0100000100000000
  [.post (fun _ => true) 0 7 42 0, .getCompleted bte, .deliver 0 .globalEvent ssid,
    .getCompleted ssid, .deliver 0 .localEvent bte, .getCompleted bte, .getCompleted bte,
    .post (fun k => k = .localEvent) 1 8 43 0, .getCompleted ssid, .deliver 1 .localEvent bte,
    .getCompleted bte]

theorem table_safe_recycled :
    ((World.init twoRequests).run geminiAccess recycled).released = [1, 0] ∧
      ((World.init twoRequests).run geminiAccess recycled).Safe :=
  ⟨by decide +kernel,
    table_safe geminiAccess geminiAccess_setters twoRequests twoRequests_initial recycled⟩

end Nvl.Completion

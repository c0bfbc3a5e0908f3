/-
Nvl/StaticLink/Isolation.lean

Several clients on one command queue.

A command has a record, the reply is returned into it, and `hcq_get_ret_data` hands
out a pointer to it.  `hcq_cmd_complete` gives the record back, and the next
command, of whichever client, may be put there.  So a reply is the client's own
only as long as its command is not completed.

Every client runs its own `__wrap_ioctl`, one external call at a time, and the
calls of all clients and the rounds of the server interleave in any order
(`Crowd.run`).  `ReadsHeld` is the discipline a client program should follow.  Of
the requests that get a reply and read it only `ALLGATHER` does; the other six
complete their command first and copy the reply then.
-/
import Nvl.Lib.Records
import Nvl.StaticLink.Exchange

namespace Nvl.StaticLink

open SysLib

/-! ### The parties -/

/-- What an ioctl of a client comes to. -/
abbrev CallM : Type := ClientM (Client × Request × Int)

/-- Where a client is: outside of the library, at some point of a call, or blocked in
`hcq_cmd_issue`.  Of a call, `last` is the command it has issued and `held` whether
that command is returned and not completed. -/
inductive Status
  | idle (c : Client)
  | calling (p : CallM) (last : Option Nat) (held : Bool)
  | waiting (cmd : Nat) (k : Nat → CallM)

/-- One read through a pointer that `hcq_get_ret_data` returned: the command of the
call it is made in, the bytes, and the command whose record they were in.  The bytes
are the whole reply; a gather copies `comm_size * len` of them, which are no more
than there are while `comm_size` is 0 or the size of the job (`commSize_run`). -/
structure Read where
  last : Option Nat
  bytes : Bytes
  owner : Option Nat
  deriving DecidableEq

/-- Clients `ι`, the queue between them and the server, and the reads so far.
`pending` are the commands the server has yet to fetch. -/
structure Crowd (ι : Type) where
  client : ι → Status
  queue : Records Bytes
  pending : List Cmd
  server : Server
  running : Bool
  reads : List Read

/-- What can happen next: an application calls `ioctl`, a client makes the next call
of its program or returns from it, the server serves a command.  A new command
finds `slot` free and leaves `junk` in it. -/
inductive Move (ι : Type)
  | ioctl (i : ι) (device : Device) (r : Request)
  | client (i : ι) (env : (o : ClientCall) → o.Ans) (slot : Nat) (junk : Bytes)
  | server (env : (o : ServerCall) → o.Ans)

section Moves

variable {ι : Type} [DecidableEq ι]

/-- Client `i` goes on. -/
def Crowd.set (s : Crowd ι) (i : ι) (x : Status) : Crowd ι :=
  { s with client := Function.update s.client i x }

/-- The next external call of client `i`. -/
def Crowd.call (s : Crowd ι) (i : ι) (env : (o : ClientCall) → o.Ans) (slot : Nat)
    (junk : Bytes) (last : Option Nat) (held : Bool) :
    (o : ClientCall) → (o.Ans → CallM) → Crowd ι
  | .hcqCmdIssue code data, k =>
      if s.queue.owner slot = none then
        { s.set i (.waiting s.queue.next k) with
          queue := s.queue.take slot junk
          pending := s.pending ++ [⟨s.queue.next, code, data⟩] }
      else s
  | .hcqGetRetData cmd, k => s.set i (.calling (k (s.queue.record cmd)) last held)
  | .retData ptr, k =>
      { s.set i (.calling (k (s.queue.contents ptr)) last held) with
        reads := s.reads ++ [⟨last, s.queue.contents ptr, s.queue.owner ptr⟩] }
  | .hcqCmdComplete cmd, k =>
      { s.set i (.calling (k ()) last false) with queue := s.queue.free cmd }
  | o, k => s.set i (.calling (k (env o)) last held)

/-- Client `i` makes its next step; one that waits goes on when its command is
returned. -/
def Crowd.clientStep (s : Crowd ι) (i : ι) (env : (o : ClientCall) → o.Ans) (slot : Nat)
    (junk : Bytes) : Crowd ι :=
  match s.client i with
  | .idle _ => s
  | .waiting cmd k =>
      if (s.queue.reply cmd).isSome then s.set i (.calling (k cmd) (some cmd) true) else s
  | .calling (.ret x) _ _ => s.set i (.idle x.1)
  | .calling (.step o k) last held => s.call i env slot junk last held o k

/-- One round of the server, on the oldest command. -/
def Crowd.serverStep (s : Crowd ι) (env : (o : ServerCall) → o.Ans) : Crowd ι :=
  match s.pending with
  | [] => s
  | cmd :: rest =>
      if s.running then
        let round := (serve s.server).exec (fetching cmd env)
        let served := { s with
          pending := rest, server := round.1.server, running := round.1.goesOn }
        match round.2.findSome? (replyTo cmd.id) with
        | some data => { served with queue := s.queue.put cmd.id data }
        | none => served
      else s

/-- One move.  A party that cannot move stays where it is. -/
def Crowd.step (s : Crowd ι) : Move ι → Crowd ι
  | .ioctl i device r =>
      match s.client i with
      | .idle c => s.set i (.calling (wrapIoctl c (device.fd c) r) none false)
      | _ => s
  | .client i env slot junk => s.clientStep i env slot junk
  | .server env => s.serverStep env

/-- An interleaving. -/
def Crowd.run (s : Crowd ι) (ms : List (Move ι)) : Crowd ι := ms.foldl Crowd.step s

end Moves

/-- Nobody is in a call, and nothing is to be served. -/
structure Crowd.Quiescent {ι : Type} (s : Crowd ι) : Prop where
  clients : ∀ i, ∃ c, s.client i = .idle c
  pending : s.pending = []
  reads : s.reads = []

/-- A read got the reply to the command of its own call, before the command was
completed. -/
def Read.Own (x : Read) (q : Records Bytes) : Prop :=
  ∃ cmd, x.last = some cmd ∧ x.owner = some cmd ∧ q.reply cmd = some x.bytes

/-- No client has read anything else. -/
def Crowd.Isolated {ι : Type} (s : Crowd ι) : Prop := ∀ x ∈ s.reads, x.Own s.queue

/-! ### The discipline -/

/-- Calls that have nothing to do with the queue. -/
def AwayFromQueue : ClientCall → Prop
  | .hcqCmdIssue _ _ => False
  | .hcqGetRetData _ => False
  | .retData _ => False
  | .hcqCmdComplete _ => False
  | _ => True

/-- The server has no case for the code. -/
def Unserved (code : UInt64) : Prop :=
  ∀ s id data ret, dispatch s ⟨id, code, data⟩ ret = pure (.next s)

theorem silent_unserved {cmd : Cmd} (hcode : Unserved cmd.code) (s : Server)
    (env : (o : ServerCall) → o.Ans) :
    ((serve s).exec (fetching cmd env)).2.findSome? (replyTo cmd.id) = none := by
  apply serve_silent
  intro _
  rw [hcode s cmd.id cmd.data (env .select)]
  exact silent_ret _

/-- The program issues one command at a time, asks for the reply to that command only,
and reads it before it completes the command.  The first argument is the command
at hand, with the pointer to its reply if that is known.  From a command that is
not served nobody comes back. -/
inductive ReadsHeld {α : Type} : Option (Nat × Option Nat) → ClientM α → Prop
  | ret (h : Option (Nat × Option Nat)) (a : α) : ReadsHeld h (.ret a)
  | issue {code : UInt64} {data : Bytes} {k : Nat → ClientM α}
      (hk : ∀ cmd, ReadsHeld (some (cmd, none)) (k cmd)) :
      ReadsHeld none (.step (.hcqCmdIssue code data) k)
  | unserved {code : UInt64} {data : Bytes} {k : Nat → ClientM α} (hcode : Unserved code) :
      ReadsHeld none (.step (.hcqCmdIssue code data) k)
  | getRetData {cmd : Nat} {ptr : Option Nat} {k : Nat → ClientM α}
      (hk : ∀ p, ReadsHeld (some (cmd, some p)) (k p)) :
      ReadsHeld (some (cmd, ptr)) (.step (.hcqGetRetData cmd) k)
  | read {cmd ptr : Nat} {k : Bytes → ClientM α}
      (hk : ∀ b, ReadsHeld (some (cmd, some ptr)) (k b)) :
      ReadsHeld (some (cmd, some ptr)) (.step (.retData ptr) k)
  | complete {cmd : Nat} {ptr : Option Nat} {k : Unit → ClientM α}
      (hk : ReadsHeld none (k ())) :
      ReadsHeld (some (cmd, ptr)) (.step (.hcqCmdComplete cmd) k)
  | outside {h : Option (Nat × Option Nat)} {o : ClientCall} {k : o.Ans → ClientM α}
      (ho : AwayFromQueue o) (hk : ∀ a, ReadsHeld h (k a)) : ReadsHeld h (.step o k)

/-- What a call does with its result does not matter. -/
theorem ReadsHeld.map {α β : Type} {h : Option (Nat × Option Nat)} {p : ClientM α}
    (hp : ReadsHeld h p) (f : α → β) : ReadsHeld h (p >>= fun a => pure (f a)) := by
  induction hp with
  | ret h a => exact .ret h (f a)
  | issue _ ih => exact .issue ih
  | unserved hcode => exact .unserved hcode
  | getRetData _ ih => exact .getRetData ih
  | read _ ih => exact .read ih
  | complete _ ih => exact .complete ih
  | outside ho _ ih => exact .outside ho ih

/-- The requests that never read a reply whose command is completed: those that complete
it last, read none, or never get one. -/
def NoLateRead : Request → Prop
  | .allgather _ _ _ => True
  | .postRdma _ _ => True
  | .cqWaitEvent _ => True
  | .cqDestroy _ => True
  | .finalize => True
  | .barrier => True
  | .printed _ => True
  | _ => False

theorem readsHeld_packArgs (c : Client) {r : Request} (h : NoLateRead r) :
    ReadsHeld none (packArgs c r) := by
  cases r with
  | allgather a inData outData =>
      exact .issue fun cmd => .getRetData fun p => .read fun b => .complete <| .ret _ _
  | postRdma a desc => exact .issue fun cmd => .getRetData fun p => .complete <| .ret _ _
  | cqWaitEvent a => exact .unserved fun _ _ _ _ => rfl
  | cqDestroy a => exact .unserved fun _ _ _ _ => rfl
  | finalize => exact .issue fun cmd => .complete <| .ret _ _
  | barrier => exact .issue fun cmd => .complete <| .ret _ _
  | printed code => exact .ret _ _
  | _ => exact h.elim

theorem readsHeld_wrapIoctl (c : Client) (fd : Int) {r : Request} (h : NoLateRead r) :
    ReadsHeld none (wrapIoctl c fd r) := by
  have hhandle : ReadsHeld none (handleIoctl c r) := (readsHeld_packArgs c h).map _
  rw [wrapIoctl]
  split
  · exact hhandle.map _
  split
  · exact hhandle.map _
  · exact .outside trivial fun v => .ret _ _

/-! ### The invariant -/

/-- The command whose record a client may still use. -/
def Status.holds : Status → Option Nat
  | .calling _ last true => last
  | .waiting cmd _ => some cmd
  | _ => none

/-- The command is not answered, and will not be. -/
def Stuck (q : Records Bytes) (pending : List Cmd) (cmd : Nat) : Prop :=
  q.reply cmd = none ∧ ∀ c ∈ pending, c.id = cmd → Unserved c.code

/-- What the client goes on with follows the discipline, and the record it goes by is
its own.  Before its command is returned the record holds anything. -/
def StatusOk (q : Records Bytes) (pending : List Cmd) : Status → Prop
  | .idle _ => True
  | .calling p last true => ∃ cmd ptr, last = some cmd ∧ q.Answered cmd ∧
      (∀ a ∈ ptr, a = q.record cmd) ∧ ReadsHeld (some (cmd, ptr)) p
  | .calling p _ false => ReadsHeld none p
  | .waiting cmd k => q.Owned cmd ∧ (Stuck q pending cmd ∨
      (q.reply cmd = none ∨ q.Answered cmd) ∧ ReadsHeld (some (cmd, none)) (k cmd))

/-- A read was the client's own, of a command that will not come again. -/
def Read.Kept (x : Read) (q : Records Bytes) : Prop :=
  ∃ cmd, x.last = some cmd ∧ x.owner = some cmd ∧ q.reply cmd = some x.bytes ∧ cmd < q.next

theorem Read.Kept.own {x : Read} {q : Records Bytes} (h : x.Kept q) : x.Own q := by
  obtain ⟨cmd, hlast, howner, hreply, -⟩ := h
  exact ⟨cmd, hlast, howner, hreply⟩

section Frame

variable {q : Records Bytes} {ps : List Cmd} {x : Status} {d slot : Nat} {b : Bytes}

theorem StatusOk.take (h : StatusOk q ps x) (hslot : q.owner slot = none) (code : UInt64)
    (data : Bytes) : StatusOk (q.take slot b) (ps ++ [⟨q.next, code, data⟩]) x := by
  match x, h with
  | .idle _, _ => trivial
  | .calling _ _ true, ⟨cmd, ptr, hlast, hans, hptr, hp⟩ =>
      refine ⟨cmd, ptr, hlast, hans.take hslot, ?_, hp⟩
      rw [Records.record_take hans.old]
      exact hptr
  | .calling _ _ false, h => exact h
  | .waiting cmd k, ⟨hown, hwait⟩ =>
      have hreply : (q.take slot b).reply cmd = q.reply cmd := Records.reply_take hown.old
      refine ⟨hown.take hslot, ?_⟩
      rcases hwait with ⟨hnone, hstuck⟩ | ⟨hnone | hans, hk⟩
      · refine .inl ⟨hreply.trans hnone, fun c hc hid => ?_⟩
        rcases List.mem_append.mp hc with hc | hc
        · exact hstuck c hc hid
        · -- the new command has a number of its own
          rw [List.mem_singleton.mp hc] at hid
          exact absurd hown.old (hid ▸ Nat.lt_irrefl _)
      · exact .inr ⟨.inl (hreply.trans hnone), hk⟩
      · exact .inr ⟨.inr (hans.take hslot), hk⟩

/-- The server may answer the next command, if it serves it. -/
theorem StatusOk.put {cmd : Cmd} (h : StatusOk q (cmd :: ps) x) (hown : q.Owned cmd.id)
    (hnone : q.reply cmd.id = none) (hserved : ¬ Unserved cmd.code) :
    StatusOk (q.put cmd.id b) ps x := by
  match x, h with
  | .idle _, _ => trivial
  | .calling _ _ true, ⟨c, ptr, hlast, hans, hptr, hp⟩ =>
      exact ⟨c, ptr, hlast, hans.put hown (hans.ne hnone), hptr, hp⟩
  | .calling _ _ false, h => exact h
  | .waiting c k, ⟨hc, hwait⟩ =>
      refine ⟨hc.put, ?_⟩
      rcases hwait with ⟨hreply, hstuck⟩ | ⟨hreply, hk⟩
      · have hne : c ≠ cmd.id := fun heq => hserved (hstuck cmd List.mem_cons_self heq.symm)
        exact .inl ⟨(Records.reply_put hne).trans hreply,
          fun e he => hstuck e (List.mem_cons_of_mem _ he)⟩
      · refine .inr ⟨?_, hk⟩
        by_cases hcmd : c = cmd.id
        · subst hcmd
          exact .inr (Records.answered_put hc)
        · exact hreply.imp (Records.reply_put hcmd).trans fun hans => hans.put hown hcmd

/-- Or leave it. -/
theorem StatusOk.drop {cmd : Cmd} (h : StatusOk q (cmd :: ps) x) : StatusOk q ps x := by
  match x, h with
  | .idle _, _ => trivial
  | .calling _ _ true, h => exact h
  | .calling _ _ false, h => exact h
  | .waiting c k, ⟨hown, hwait⟩ =>
      refine ⟨hown, hwait.imp ?_ id⟩
      rintro ⟨hreply, hstuck⟩
      exact ⟨hreply, fun e he => hstuck e (List.mem_cons_of_mem _ he)⟩

/-- Completing a command that the client does not hold. -/
theorem StatusOk.free (h : StatusOk q ps x) (hd : q.Owned d) (hx : x.holds ≠ some d) :
    StatusOk (q.free d) ps x := by
  match x, h with
  | .idle _, _ => trivial
  | .calling _ _ true, ⟨cmd, ptr, hlast, hans, hptr, hp⟩ =>
      subst hlast
      have hne : cmd ≠ d := fun heq => hx (congrArg some heq)
      exact ⟨cmd, ptr, rfl, hans.free hd hne, hptr, hp⟩
  | .calling _ _ false, h => exact h
  | .waiting cmd k, ⟨hown, hwait⟩ =>
      have hne : cmd ≠ d := fun heq => hx (congrArg some heq)
      refine ⟨hown.free hd hne, hwait.imp id ?_⟩
      rintro ⟨hreply, hk⟩
      exact ⟨hreply.imp id fun hans => hans.free hd hne, hk⟩

theorem StatusOk.owned (h : StatusOk q ps x) (hx : x.holds = some d) : q.Owned d := by
  match x, h with
  | .calling _ _ true, ⟨cmd, ptr, hlast, hans, _⟩ =>
      have hcmd : cmd = d := Option.some.inj (hlast.symm.trans hx)
      exact hcmd ▸ hans.toOwned
  | .waiting cmd k, ⟨hown, _⟩ => exact Option.some.inj hx ▸ hown

variable {y : Read}

theorem Read.Kept.take (h : y.Kept q) : y.Kept (q.take slot b) := by
  obtain ⟨cmd, hlast, howner, hreply, hlt⟩ := h
  refine ⟨cmd, hlast, howner, ?_, Nat.lt_succ_of_lt hlt⟩
  rw [Records.reply_take hlt]
  exact hreply

theorem Read.Kept.put (h : y.Kept q) (hnone : q.reply d = none) : y.Kept (q.put d b) := by
  obtain ⟨cmd, hlast, howner, hreply, hlt⟩ := h
  have hne : cmd ≠ d := by
    rintro rfl
    rw [hreply] at hnone
    cases hnone
  refine ⟨cmd, hlast, howner, ?_, hlt⟩
  rw [Records.reply_put hne]
  exact hreply

end Frame

/-- Every client is where the discipline leads, no two of them hold one command, the
commands to be served are unanswered, and the reads so far are in order. -/
structure Crowd.Inv {ι : Type} (s : Crowd ι) : Prop where
  clients : ∀ i, StatusOk s.queue s.pending (s.client i)
  apart : ∀ i j c, (s.client i).holds = some c → (s.client j).holds = some c → i = j
  pending : ∀ c ∈ s.pending, s.queue.Owned c.id ∧ s.queue.reply c.id = none
  nodup : (s.pending.map Cmd.id).Nodup
  reads : ∀ x ∈ s.reads, x.Kept s.queue

theorem Crowd.Quiescent.inv {ι : Type} {s : Crowd ι} (h : s.Quiescent) : s.Inv := by
  constructor
  · intro i
    obtain ⟨c, hc⟩ := h.clients i
    rw [hc]
    trivial
  · intro i j c hi hj
    obtain ⟨d, hd⟩ := h.clients i
    rw [hd] at hi
    cases hi
  · rw [h.pending]
    exact fun c hc => nomatch hc
  · rw [h.pending]
    exact List.nodup_nil
  · rw [h.reads]
    exact fun x hx => nomatch hx

theorem Crowd.Inv.isolated {ι : Type} {s : Crowd ι} (h : s.Inv) : s.Isolated :=
  fun x hx => (h.reads x hx).own

/-! ### Steps -/

namespace Crowd.Inv

variable {ι : Type} [DecidableEq ι] {s : Crowd ι} {i : ι} {x : Status}

/-- Client `i` may take up a command that nobody else holds. -/
theorem apart_update (h : s.Inv)
    (hx : ∀ c, x.holds = some c → ∀ j, (s.client j).holds = some c → i = j) (j k : ι) (c : Nat)
    (hj : (Function.update s.client i x j).holds = some c)
    (hk : (Function.update s.client i x k).holds = some c) : j = k := by
  by_cases hji : j = i
  · subst hji
    by_cases hkj : k = j
    · exact hkj.symm
    · rw [Function.update_self] at hj
      rw [Function.update_of_ne hkj] at hk
      exact hx c hj k hk
  · rw [Function.update_of_ne hji] at hj
    by_cases hki : k = i
    · subst hki
      rw [Function.update_self] at hk
      exact (hx c hk j hj).symm
    · rw [Function.update_of_ne hki] at hk
      exact h.apart j k c hj hk

theorem clients_update {q : Records Bytes} {ps : List Cmd} (hx : StatusOk q ps x)
    (h : ∀ j, j ≠ i → StatusOk q ps (s.client j)) (j : ι) :
    StatusOk q ps (Function.update s.client i x j) :=
  (Function.forall_update_iff s.client fun _ y => StatusOk q ps y).mpr ⟨hx, h⟩ j

/-- A step that leaves the queue alone. -/
theorem set (h : s.Inv) (hx : StatusOk s.queue s.pending x)
    (hholds : ∀ c, x.holds = some c → (s.client i).holds = some c) : (s.set i x).Inv where
  clients := clients_update hx fun j _ => h.clients j
  apart := h.apart_update fun c hc j hj => h.apart i j c (hholds c hc) hj
  pending := h.pending
  nodup := h.nodup
  reads := h.reads

/-- `hcq_cmd_issue`. -/
theorem issue (h : s.Inv) {slot : Nat} (hslot : s.queue.owner slot = none) {k : Nat → CallM}
    (code : UInt64) (data junk : Bytes)
    (hk : Unserved code ∨ ∀ cmd, ReadsHeld (some (cmd, none)) (k cmd)) :
    Inv { s.set i (.waiting s.queue.next k) with
      queue := s.queue.take slot junk
      pending := s.pending ++ [⟨s.queue.next, code, data⟩] } := by
  have hnew : (s.queue.take slot junk).reply s.queue.next = none := Function.update_self _ _ _
  constructor
  · refine clients_update ⟨Records.owned_take slot junk, ?_⟩ fun j _ =>
      (h.clients j).take hslot code data
    rcases hk with hcode | hk
    · refine .inl ⟨hnew, fun c hc hid => ?_⟩
      rcases List.mem_append.mp hc with hc | hc
      · exact absurd hid (Nat.ne_of_lt (h.pending c hc).1.old)
      · rw [List.mem_singleton.mp hc]
        exact hcode
    · exact .inr ⟨.inl hnew, hk _⟩
  · apply h.apart_update
    intro c hc j hj
    -- the number of the new command is larger than any that is held
    have hlt := ((h.clients j).owned hj).old
    cases hc
    exact absurd hlt (Nat.lt_irrefl _)
  · intro c hc
    rcases List.mem_append.mp hc with hc | hc
    · obtain ⟨hown, hnone⟩ := h.pending c hc
      refine ⟨hown.take hslot, ?_⟩
      exact (Records.reply_take hown.old).trans hnone
    · rw [List.mem_singleton.mp hc]
      exact ⟨Records.owned_take slot junk, hnew⟩
  · rw [List.map_append]
    refine List.nodup_append.mpr ⟨h.nodup, List.nodup_singleton _, ?_⟩
    intro a ha b hb
    obtain ⟨c, hc, rfl⟩ := List.mem_map.mp ha
    rw [List.mem_singleton.mp hb]
    exact Nat.ne_of_lt (h.pending c hc).1.old
  · exact fun y hy => (h.reads y hy).take

/-- `hcq_cmd_complete`, by the client that holds the command. -/
theorem complete (h : s.Inv) {cmd : Nat} (hcmd : (s.client i).holds = some cmd)
    (hans : s.queue.Answered cmd) {p : CallM} (hp : ReadsHeld none p) (last : Option Nat) :
    Inv { s.set i (.calling p last false) with queue := s.queue.free cmd } := by
  constructor
  · refine clients_update hp fun j hj => ?_
    apply (h.clients j).free hans.toOwned
    intro hheld
    exact hj (h.apart i j cmd hcmd hheld).symm
  · exact h.apart_update fun c hc => nomatch hc
  · intro c hc
    obtain ⟨hown, hnone⟩ := h.pending c hc
    exact ⟨hown.free hans.toOwned (hans.ne hnone).symm, hnone⟩
  · exact h.nodup
  · exact h.reads

/-- A read of the reply to a command that is still held. -/
theorem read (h : s.Inv) {cmd : Nat} (hcmd : (s.client i).holds = some cmd)
    (hans : s.queue.Answered cmd) {p : CallM}
    (hp : ReadsHeld (some (cmd, some (s.queue.record cmd))) p) :
    Inv { s.set i (.calling p (some cmd) true) with
      reads := s.reads ++ [⟨some cmd, s.queue.contents (s.queue.record cmd),
        s.queue.owner (s.queue.record cmd)⟩] } := by
  have hok : StatusOk s.queue s.pending (.calling p (some cmd) true) :=
    ⟨cmd, some (s.queue.record cmd), rfl, hans, fun a ha => (Option.some.inj ha).symm, hp⟩
  have hset := h.set hok fun c hc => hcmd.trans hc
  refine ⟨hset.clients, hset.apart, hset.pending, hset.nodup, ?_⟩
  intro y hy
  rcases List.mem_append.mp hy with hy | hy
  · exact h.reads y hy
  · rw [List.mem_singleton.mp hy]
    exact ⟨cmd, rfl, hans.owner, hans.reply, hans.old⟩

theorem call_outside (env : (o : ClientCall) → o.Ans) (slot : Nat) (junk : Bytes)
    (last : Option Nat) (held : Bool) {o : ClientCall} (ho : AwayFromQueue o)
    (k : o.Ans → CallM) :
    s.call i env slot junk last held o k = s.set i (.calling (k (env o)) last held) := by
  cases o with
  | hcqCmdIssue _ _ => exact ho.elim
  | hcqGetRetData _ => exact ho.elim
  | retData _ => exact ho.elim
  | hcqCmdComplete _ => exact ho.elim
  | _ => rfl

/-- A client that holds nothing issues a command, or does nothing to the queue. -/
theorem call_free (h : s.Inv) (env : (o : ClientCall) → o.Ans) (slot : Nat) (junk : Bytes)
    (last : Option Nat) {o : ClientCall} {k : o.Ans → CallM} (hp : ReadsHeld none (.step o k)) :
    (s.call i env slot junk last false o k).Inv := by
  have hissue : ∀ code data (k : Nat → CallM),
      (Unserved code ∨ ∀ cmd, ReadsHeld (some (cmd, none)) (k cmd)) →
        (s.call i env slot junk last false (.hcqCmdIssue code data) k).Inv := by
    intro code data k hk
    show Inv (if s.queue.owner slot = none then _ else s)
    split
    case isTrue hslot => exact h.issue hslot code data junk hk
    case isFalse => exact h
  cases hp with
  | issue hk => exact hissue _ _ _ (.inr hk)
  | unserved hcode => exact hissue _ _ _ (.inl hcode)
  | outside ho hk =>
      rw [call_outside env slot junk last false ho]
      exact h.set (hk _) fun c hc => nomatch hc

/-- A client that holds its command reads its own reply. -/
theorem call_held (h : s.Inv) (env : (o : ClientCall) → o.Ans) (slot : Nat) (junk : Bytes)
    {cmd : Nat} {ptr : Option Nat} {o : ClientCall} {k : o.Ans → CallM}
    (hcmd : (s.client i).holds = some cmd) (hans : s.queue.Answered cmd)
    (hptr : ∀ a ∈ ptr, a = s.queue.record cmd)
    (hp : ReadsHeld (some (cmd, ptr)) (.step o k)) :
    (s.call i env slot junk (some cmd) true o k).Inv := by
  cases hp with
  | getRetData hk =>
      refine h.set ⟨cmd, some (s.queue.record cmd), rfl, hans, ?_, hk _⟩ fun c hc => hcmd.trans hc
      exact fun a ha => (Option.some.inj ha).symm
  | @read _ ptr _ hk =>
      obtain rfl : ptr = s.queue.record cmd := hptr ptr rfl
      exact h.read hcmd hans (hk _)
  | complete hk => exact h.complete hcmd hans hk (some cmd)
  | outside ho hk =>
      rw [call_outside env slot junk (some cmd) true ho]
      exact h.set ⟨cmd, ptr, rfl, hans, hptr, hk _⟩ fun c hc => hcmd.trans hc

theorem clientStep (h : s.Inv) (i : ι) (env : (o : ClientCall) → o.Ans) (slot : Nat)
    (junk : Bytes) : (s.clientStep i env slot junk).Inv := by
  have hok := h.clients i
  match hs : s.client i with
  | .idle c =>
      simp only [Crowd.clientStep, hs]
      exact h
  | .waiting cmd k =>
      rw [hs] at hok
      obtain ⟨-, hwait⟩ := hok
      simp only [Crowd.clientStep, hs]
      split
      case isTrue hsome =>
        rcases hwait with ⟨hnone, -⟩ | ⟨hnone | hans, hk⟩
        · rw [hnone] at hsome
          cases hsome
        · rw [hnone] at hsome
          cases hsome
        · refine h.set ⟨cmd, none, rfl, hans, fun a ha => (nomatch ha), hk⟩ fun c hc => ?_
          rw [hs]
          exact hc
      case isFalse => exact h
  | .calling (.ret y) last held =>
      simp only [Crowd.clientStep, hs]
      exact h.set trivial fun c hc => nomatch hc
  | .calling (.step o k) last true =>
      rw [hs] at hok
      obtain ⟨cmd, ptr, rfl, hans, hptr, hp⟩ := hok
      simp only [Crowd.clientStep, hs]
      exact h.call_held env slot junk (congrArg Status.holds hs) hans hptr hp
  | .calling (.step o k) last false =>
      rw [hs] at hok
      simp only [Crowd.clientStep, hs]
      exact h.call_free env slot junk last hok

omit [DecidableEq ι] in
/-- The server answers one command, or none. -/
theorem serverStep (h : s.Inv) (env : (o : ServerCall) → o.Ans) : (s.serverStep env).Inv := by
  match hp : s.pending with
  | [] =>
      simp only [Crowd.serverStep, hp]
      exact h
  | cmd :: rest =>
      have hclients := h.clients
      have hpending := h.pending
      have hnodup := h.nodup
      rw [hp] at hclients hpending hnodup
      obtain ⟨hown, hnone⟩ := hpending cmd List.mem_cons_self
      obtain ⟨hcmd, hrest⟩ := List.nodup_cons.mp hnodup
      have hlater : ∀ c ∈ rest, s.queue.Owned c.id ∧ s.queue.reply c.id = none :=
        fun c hc => hpending c (List.mem_cons_of_mem _ hc)
      simp only [Crowd.serverStep, hp]
      split
      case isFalse => exact h
      split
      case h_1 data hdata =>
        have hserved : ¬ Unserved cmd.code := by
          intro hcode
          rw [silent_unserved hcode] at hdata
          cases hdata
        refine ⟨fun j => (hclients j).put hown hnone hserved, h.apart, ?_, hrest, ?_⟩
        · intro c hc
          have hne : c.id ≠ cmd.id := fun heq => hcmd (heq ▸ List.mem_map_of_mem hc)
          exact ⟨(hlater c hc).1.put, (Records.reply_put hne).trans (hlater c hc).2⟩
        · exact fun y hy => (h.reads y hy).put hnone
      case h_2 => exact ⟨fun j => (hclients j).drop, h.apart, hlater, hrest, h.reads⟩

/-- One move, if a call that begins follows the discipline. -/
theorem step (h : s.Inv) {m : Move ι} (hm : ∀ i d r, m = .ioctl i d r → NoLateRead r) :
    (s.step m).Inv := by
  match m with
  | .ioctl i d r =>
      match hs : s.client i with
      | .idle c =>
          simp only [Crowd.step, hs]
          exact h.set (readsHeld_wrapIoctl c (d.fd c) (hm i d r rfl)) fun c hc => nomatch hc
      | .calling _ _ _ =>
          simp only [Crowd.step, hs]
          exact h
      | .waiting _ _ =>
          simp only [Crowd.step, hs]
          exact h
  | .client i env slot junk => exact h.clientStep i env slot junk
  | .server env => exact h.serverStep env

theorem run {ms : List (Move ι)} (h : s.Inv)
    (hms : ∀ i d r, .ioctl i d r ∈ ms → NoLateRead r) : (s.run ms).Inv := by
  induction ms generalizing s with
  | nil => exact h
  | cons m ms ih =>
      apply ih
      · exact h.step fun i d r hm => hms i d r (hm ▸ List.mem_cons_self)
      · exact fun i d r hm => hms i d r (List.mem_cons_of_mem _ hm)

end Crowd.Inv

/-! ### Isolation -/

/-- **Replies reach the client they are for.**  However the calls of any number of
clients and the rounds of the server interleave, a client reads nothing but the
reply to its own command, and reads it before the command is completed, as long
as nobody makes a request that completes its command and copies the reply then. -/
theorem isolated_run {ι : Type} [DecidableEq ι] {s : Crowd ι} (hs : s.Quiescent)
    {ms : List (Move ι)} (hms : ∀ i d r, .ioctl i d r ∈ ms → NoLateRead r) :
    (s.run ms).Isolated :=
  (hs.inv.run hms).isolated

/-- Two processes that have just started, on one queue. -/
def freshCrowd : Crowd (Fin 2) where
  client := fun _ => .idle freshWorld.client
  queue := ⟨0, fun _ => none, fun _ => [], fun _ => 0, fun _ => none⟩
  pending := []
  server := freshWorld.server
  running := true
  reads := []

theorem quiescent_freshCrowd : freshCrowd.Quiescent := ⟨fun _ => ⟨_, rfl⟩, rfl, rfl⟩

/-- The next call of client `i`; a command it issues gets record `slot`. -/
def goesOn (i : Fin 2) (slot : Nat) : Move (Fin 2) := .client i (calmClient 5) slot []

def serves : Move (Fin 2) := .server (calmServer 0x20000 0)

/-- Client `i` gathers one byte. -/
def gathers (i : Fin 2) (b : UInt8) : Move (Fin 2) :=
  .ioctl i .pmi (.allgather ⟨0, 0, 1, 0⟩ [b] [0])

/-- Both issue before either is served, and client 1 is the first to read. -/
def gatherMoves : List (Move (Fin 2)) :=
  [gathers 0 10, gathers 1 11, goesOn 0 0, goesOn 1 1, serves, serves, goesOn 1 0, goesOn 0 0,
    goesOn 0 0, goesOn 1 0, goesOn 1 0, goesOn 0 0, goesOn 1 0, goesOn 0 0]

theorem isolated_gatherMoves : (freshCrowd.run gatherMoves).Isolated ∧
    (freshCrowd.run gatherMoves).reads = [⟨some 1, [11], some 1⟩, ⟨some 0, [10], some 0⟩] := by
  refine ⟨isolated_run quiescent_freshCrowd ?_, by decide⟩
  intro i d r hm
  simp only [gatherMoves, gathers, goesOn, serves, List.mem_cons, Move.ioctl.injEq, reduceCtorEq,
    List.not_mem_nil, or_false] at hm
  rcases hm with ⟨-, -, rfl⟩ | ⟨-, -, rfl⟩ <;> trivial

/-- Client 0 asks for the size and completes its command; client 1 asks for its rank
before client 0 copies the reply. -/
def raceMoves : List (Move (Fin 2)) :=
  [.ioctl 0 .pmi (.getsize 0), goesOn 0 0, goesOn 0 0, serves, goesOn 0 0, goesOn 0 0, goesOn 0 0,
    .ioctl 1 .pmi (.getrank 0), goesOn 1 0, goesOn 1 0, serves, goesOn 0 0]

/-- The server answered client 0 that the size is 1.  Client 0 reads a 0, the rank that
the server returned to client 1. -/
theorem isolated_fails : freshCrowd.Quiescent ∧
    (freshCrowd.run raceMoves).queue.reply 0 = some [1, 0, 0, 0] ∧
      (freshCrowd.run raceMoves).reads = [⟨some 0, [0, 0, 0, 0], some 1⟩] ∧
        ¬ (freshCrowd.run raceMoves).Isolated := by
  have hreads : (freshCrowd.run raceMoves).reads = [⟨some 0, [0, 0, 0, 0], some 1⟩] := by decide
  refine ⟨quiescent_freshCrowd, by decide, hreads, ?_⟩
  intro h
  obtain ⟨cmd, hlast, howner, -⟩ := h _ (hreads ▸ List.mem_singleton_self _)
  cases hlast
  cases howner

end Nvl.StaticLink

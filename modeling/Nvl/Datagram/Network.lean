/-
Nvl/Datagram/Network.lean

Nodes that exchange datagrams over a network.

The network keeps every packet that was ever handed to a channel, and may deliver it to the
node it is for at any later time, any number of times, or never; whatever the channel reports
to the sender.  Posts and deliveries are logged.

What a node holds of a peer is then what the peer posted, under the generation it holds with
it, for this endpoint or for anyone (`test_authentic`).  And when a packet finishes a session
by saying that the peer has finished, the data of that very session were delivered to the
peer (`completed_delivered`); a packet of an older session, however late, does not pass for
it.
-/
import Nvl.Datagram.Runs

namespace Nvl.Datagram

open SysLib

/-! ### The network -/

/-- A post, with the session that holds its data. -/
structure Posted where
  localId : SmId
  cookie : UInt32
  gen : Nat
  data : List UInt8
  remote : SmId

def Posted.of (pe : UInt32) (g : Nat) (p : Post) : Posted :=
  ⟨⟨pe, p.cdm.instId⟩, p.cdm.cookie, g, p.data, p.remote⟩

/-- The node of each PE, the packets handed to channels, the packets delivered, the posts. -/
structure Net where
  nodes : UInt32 → Node
  sent : List SmPkt
  delivered : List SmPkt
  posts : List Posted

def Net.boot (ntt : Ntt) : Net := ⟨fun pe => .boot pe ntt, [], [], []⟩

/-- A call on the node of a PE. -/
def Net.step (c : Config) (w : Net) (pe : UInt32) (op : Op) : Except Fault Net :=
  (Datagram.step c (w.nodes pe) op).map fun r =>
    { nodes := Function.update w.nodes pe r.1
      sent := w.sent ++ r.2.sent
      delivered := w.delivered ++ op.packet.toList
      posts := w.posts ++ r.2.posted.toList.map fun e => .of pe e.1 e.2.2 }

def Net.run (c : Config) (w : Net) : List (UInt32 × Op) → Except Fault Net
  | [] => .ok w
  | (pe, op) :: l =>
      match w.step c pe op with
      | .error f => .error f
      | .ok w => w.run c l

/-- A call that can be made: a packet is received where it was sent to, if it was. -/
def Net.Fair (c : Config) (w : Net) (pe : UInt32) : Op → Prop
  | .receive i p _ => ((w.nodes pe).nics i).cdm.isSome = true ∧ p ∈ w.sent ∧ p.remoteId.pe = pe
  | op => op.Fair c (w.nodes pe)

def Net.RunFair (c : Config) (w : Net) : List (UInt32 × Op) → Prop
  | [] => True
  | (pe, op) :: l => pe ≠ any ∧ w.Fair c pe op ∧ ∀ w', w.step c pe op = .ok w' → w'.RunFair c l

instance (c : Config) (w : Net) (pe : UInt32) (op : Op) : Decidable (w.Fair c pe op) :=
  match op with
  | .receive i _ _ => inferInstanceAs (Decidable (((w.nodes pe).nics i).cdm.isSome = true ∧ _ ∧ _))
  | .post i a => inferInstanceAs (Decidable (Op.Fair c (w.nodes pe) (.post i a)))
  | .terminate i a => inferInstanceAs (Decidable (Op.Fair c (w.nodes pe) (.terminate i a)))
  | .test i a => inferInstanceAs (Decidable (Op.Fair c (w.nodes pe) (.test i a)))
  | .task ts => inferInstanceAs (Decidable (Op.Fair c (w.nodes pe) (.task ts)))
  | .event e => inferInstanceAs (Decidable (Op.Fair c (w.nodes pe) (.event e)))
  | .attach i cdm cnt k =>
      inferInstanceAs (Decidable (Op.Fair c (w.nodes pe) (.attach i cdm cnt k)))
  | .configure _ _ => isTrue trivial
  | .close _ => isTrue trivial
  | .detach i => inferInstanceAs (Decidable (Op.Fair c (w.nodes pe) (.detach i)))

instance decidableNetRunFair (c : Config) : (l : List (UInt32 × Op)) → (w : Net) →
    Decidable (w.RunFair c l)
  | [], _ => isTrue trivial
  | (pe, op) :: l, w =>
      have := decidableNetRunFair c l
      inferInstanceAs (Decidable (_ ∧ w.Fair c pe op ∧ ∀ w', w.step c pe op = .ok w' → _))

/-! ### What is kept -/

/-- The session or packet carries the data of the post. -/
def Posted.Of (q : Posted) (k : SmPkt) : Prop :=
  q.localId = k.localId ∧ q.gen = k.localGen ∧ q.cookie = k.cookie ∧
    k.localUdata = some q.data ∧ (q.remote.pe ≠ any → q.remote = k.remoteId)

/-- The states in which a packet or a session has data of its own. -/
def SmState.Posted (st : SmState) : Prop := st = .locinfoReady ∨ st = .completed

/-- The session or packet knows the session that sent `p`. -/
def SmPkt.Knows (k p : SmPkt) : Prop :=
  p.localId = k.remoteId ∧ p.localGen = k.remoteGen ∧ p.remoteId = k.localId ∧
    p.cookie = k.cookie ∧ p.state.Posted

/-- What a session says is true: its data were posted, the data of the peer were delivered,
and a session that the peer began is not posted to. -/
structure Vouched (posts : List Posted) (delivered : List SmPkt) (pe : UInt32) (s : SmInfo) :
    Prop where
  own : s.pkt.state.Posted → ∃ q ∈ posts, q.Of s.pkt
  peer : s.pkt.state = .reminfoReady ∨ s.pkt.state = .completed →
    ∃ p ∈ delivered, s.pkt.Knows p ∧ p.localUdata = some s.remUdata
  unposted : s.pkt.state = .reminfoReady → ∀ q ∈ posts, q.localId.pe = pe → q.gen ≠ s.gen

structure NodeTruth (posts : List Posted) (delivered : List SmPkt) (n : Node) : Prop where
  session : ∀ s ∈ n.sessions, Vouched posts delivered n.pe s
  fresh : ∀ q ∈ posts, q.localId.pe = n.pe → q.gen < n.smGeneration

/-- What a packet says is true. -/
structure PktTruth (posts : List Posted) (delivered : List SmPkt) (p : SmPkt) : Prop where
  own : p.state.Posted → ∃ q ∈ posts, q.Of p
  answer : p.state = .completed → ∃ p' ∈ delivered, p.Knows p'

variable {c : Config} {n n' : Node} {s s' : SmInfo} {posts new : List Posted}
  {delivered delivered' : List SmPkt} {pe : UInt32}

/-- Vouching looks at the packet of a session and the data of its peer; the number does not
matter. -/
theorem Vouched.congr (h : Vouched posts delivered pe s)
    (hpkt : ∃ seqNum, s'.pkt = { s.pkt with seqNum }) (hdata : s'.remUdata = s.remUdata) :
    Vouched posts delivered pe s' := by
  obtain ⟨seqNum, hpkt⟩ := hpkt
  refine ⟨?_, ?_, ?_⟩
  · rw [hpkt]
    exact h.own
  · rw [hpkt, hdata]
    exact h.peer
  · rw [SmInfo.gen, hpkt]
    exact h.unposted

/-- A session that is given up says nothing any more. -/
theorem vouched_of_ended (hend : s.pkt.state = .terminateInit ∨ s.pkt.state = .terminated ∨
    s.pkt.state = .timeout) : Vouched posts delivered pe s := by
  refine ⟨fun hst => ?_, fun hst => ?_, fun hst => ?_⟩
  · rcases hst with hst | hst <;> rw [hst] at hend <;> simp at hend
  · rcases hst with hst | hst <;> rw [hst] at hend <;> simp at hend
  · rw [hst] at hend
    simp at hend

/-- The log of posts grows by others. -/
theorem Vouched.mono (h : Vouched posts delivered pe s)
    (hnew : ∀ q ∈ new, q.localId.pe = pe → q.gen ≠ s.gen) (hdel : delivered ⊆ delivered') :
    Vouched (posts ++ new) delivered' pe s where
  own hst := by
    obtain ⟨q, hq, hof⟩ := h.own hst
    exact ⟨q, List.mem_append_left _ hq, hof⟩
  peer hst := by
    obtain ⟨p, hp, hknows⟩ := h.peer hst
    exact ⟨p, hdel hp, hknows⟩
  unposted hst q hq hpe := by
    rcases List.mem_append.mp hq with hq | hq
    · exact h.unposted hst q hq hpe
    · exact hnew q hq hpe

theorem PktTruth.mono {p : SmPkt} (h : PktTruth posts delivered p) (hdel : delivered ⊆ delivered') :
    PktTruth (posts ++ new) delivered' p where
  own hst := by
    obtain ⟨q, hq, hof⟩ := h.own hst
    exact ⟨q, List.mem_append_left _ hq, hof⟩
  answer hst := by
    obtain ⟨p', hp', hknows⟩ := h.answer hst
    exact ⟨p', hdel hp', hknows⟩

/-- A node goes on with sessions it had, and with others that are vouched for. -/
theorem NodeTruth.next (h : NodeTruth posts delivered n) (hpe : n'.pe = n.pe)
    (hgen : n.smGeneration ≤ n'.smGeneration)
    (hpost : ∀ q ∈ new, q.localId.pe = n.pe → q.gen < n'.smGeneration)
    (hnew : ∀ s ∈ n'.sessions, (s ∈ n.sessions ∧ ∀ q ∈ new, q.gen ≠ s.gen) ∨
      Vouched (posts ++ new) delivered n.pe s) : NodeTruth (posts ++ new) delivered n' where
  session s hs := by
    rw [hpe]
    rcases hnew s hs with ⟨hold, hother⟩ | hnew
    · exact (h.session s hold).mono (fun q hq _ => hother q hq) fun _ hp => hp
    · exact hnew
  fresh q hq hqpe := by
    rw [hpe] at hqpe
    rcases List.mem_append.mp hq with hq | hq
    · exact Nat.lt_of_lt_of_le (h.fresh q hq hqpe) hgen
    · exact hpost q hq hqpe

/-- The same without a post. -/
theorem NodeTruth.quiet (h : NodeTruth posts delivered n) (hpe : n'.pe = n.pe)
    (hgen : n.smGeneration ≤ n'.smGeneration)
    (hnew : ∀ s ∈ n'.sessions, s ∈ n.sessions ∨ Vouched posts delivered n.pe s) :
    NodeTruth posts delivered n' := by
  have hnext : NodeTruth (posts ++ []) delivered n' := by
    refine h.next hpe hgen (by simp) fun s hs => ?_
    rw [List.append_nil]
    exact (hnew s hs).imp (fun hold => ⟨hold, by simp⟩) id
  rwa [List.append_nil] at hnext

/-! ### The moves keep it -/

theorem mem_notify {t : SmInfo} (h : t ∈ (n.notify s).sessions) :
    t = s ∨ t = s.notified ∨ t ∈ n.sessions := by
  unfold Node.notify at h
  split at h
  · rcases mem_writeKey h with heq | ⟨ht, -⟩
    · exact .inr (.inl heq)
    · exact .inr (.inr ht)
  · rcases mem_writeKey h with heq | ⟨ht, -⟩
    · exact .inl heq
    · exact .inr (.inr ht)

theorem pe_notify (n : Node) (s : SmInfo) :
    (n.notify s).pe = n.pe ∧ (n.notify s).smGeneration = n.smGeneration := by
  unfold Node.notify
  split
  · exact ⟨rfl, rfl⟩
  · exact ⟨rfl, rfl⟩

namespace NodeTruth

/-- One session is written back. -/
theorem write (h : NodeTruth posts delivered n) (hpe : n'.pe = n.pe)
    (hgen : n'.smGeneration = n.smGeneration)
    (hsess : n'.sessions = writeKey SmInfo.gen n.sessions s')
    (hs' : Vouched posts delivered n.pe s') : NodeTruth posts delivered n' := by
  refine h.quiet hpe (Nat.le_of_eq hgen.symm) fun t ht => ?_
  rw [hsess] at ht
  rcases mem_writeKey ht with rfl | ⟨ht, -⟩
  · exact .inr hs'
  · exact .inl ht

theorem notify (h : NodeTruth posts delivered n) (hs' : Vouched posts delivered n.pe s') :
    NodeTruth posts delivered (n.notify s') := by
  obtain ⟨hpe, hgen⟩ := pe_notify n s'
  refine h.quiet hpe (Nat.le_of_eq hgen.symm) fun t ht => ?_
  rcases mem_notify ht with rfl | rfl | ht
  · exact .inr hs'
  · exact .inr (hs'.congr ⟨s'.pkt.seqNum, rfl⟩ rfl)
  · exact .inl ht

/-- Sessions go, and nothing else matters. -/
theorem less (h : NodeTruth posts delivered n) (hpe : n'.pe = n.pe)
    (hgen : n'.smGeneration = n.smGeneration) (hsess : n'.sessions ⊆ n.sessions) :
    NodeTruth posts delivered n' :=
  h.quiet hpe (Nat.le_of_eq hgen.symm) fun _ ht => .inl (hsess ht)

theorem unlogged (h : NodeTruth posts delivered n) : NodeTruth (posts ++ []) delivered n := by
  rwa [List.append_nil]

/-- A session begun by a post. -/
theorem begun (h : NodeTruth posts delivered n) (hinv : Inv c n) {i : Nat} {a : PostArgs} {p : Post}
    (hpe : n'.pe = n.pe) (hgen : n'.smGeneration = n.smGeneration + 1)
    (hsess : n'.sessions = n.sessions ++ [begun n i a p]) :
    NodeTruth (posts ++ [.of n.pe n.smGeneration p]) delivered n' := by
  refine h.next hpe (by omega) (fun q hq _ => ?_) fun t ht => ?_
  · rw [List.mem_singleton.mp hq]
    show n.smGeneration < n'.smGeneration
    omega
  · rw [hsess] at ht
    rcases List.mem_append.mp ht with ht | ht
    · refine .inl ⟨ht, fun q hq => ?_⟩
      rw [List.mem_singleton.mp hq]
      exact (Nat.ne_of_lt (hinv.fresh t ht).2).symm
    · right
      rw [List.mem_singleton.mp ht]
      refine ⟨fun _ => ?_, ?_, ?_⟩
      · exact ⟨.of n.pe n.smGeneration p, by simp, rfl, rfl, rfl, rfl, fun _ => rfl⟩
      · rintro (hst | hst) <;> cases hst
      · intro hst
        cases hst

/-- A post that answers a session the peer began: the session takes its data. -/
theorem answered (h : NodeTruth posts delivered n) (hinv : Inv c n) (hs : s ∈ n.sessions)
    (hstate : s.pkt.state = .reminfoReady) {a : PostArgs} {p : Post}
    (hp : checkPost (n.nics s.nic) a = .ok p)
    (hto : p.remote.pe ≠ any → p.remote = s.pkt.remoteId) :
    NodeTruth (posts ++ [.of n.pe s.gen p]) delivered
      ((n.write (answered a p s)).enlist s.gen) := by
  -- the post came through the session's own NIC, so identity and cookie agree
  obtain ⟨cdm, hcdm, hcookie, hlocal⟩ := (hinv.session s hs).home
  rw [(checkPost_ok hp).1] at hcdm
  obtain rfl := Option.some.inj hcdm
  refine h.next rfl (Nat.le_refl _) (fun q hq _ => ?_) fun t ht => ?_
  · rw [List.mem_singleton.mp hq]
    exact (hinv.fresh s hs).2
  · rcases mem_writeKey ht with rfl | ⟨ht, hne⟩
    · right
      refine ⟨fun _ => ⟨.of n.pe s.gen p, by simp, hlocal.symm, rfl, hcookie.symm, rfl, hto⟩,
        fun _ => ?_, ?_⟩
      · exact (h.session s hs).peer (.inl hstate)
      · intro hst
        cases hst
    · refine .inl ⟨ht, fun q hq => ?_⟩
      rw [List.mem_singleton.mp hq]
      exact Ne.symm hne

/-- A session that a delivered packet began: no post of this node has its generation yet. -/
theorem offered (h : NodeTruth posts delivered n) {i : Nat} {cdm : Cdm} {p : SmPkt}
    {d : List UInt8} (hdel : p ∈ delivered) (hpe : p.remoteId.pe = n.pe)
    (hcookie : p.cookie = cdm.cookie) (hto : p.remoteId.instId = cdm.instId)
    (hp : p.state = .locinfoReady) (hd : udata p = .ok d) :
    NodeTruth posts delivered (n.add (offered n i cdm p d)) := by
  refine h.quiet rfl (Nat.le_succ _) fun t ht => ?_
  rcases List.mem_append.mp ht with ht | ht
  · exact .inl ht
  · right
    rw [List.mem_singleton.mp ht]
    refine ⟨?_, fun _ => ?_, fun _ q hq hpe => ?_⟩
    · rintro (hst | hst) <;> cases hst
    · refine ⟨p, hdel, ⟨rfl, rfl, ?_, hcookie, .inl hp⟩, (udata_ok hd).1⟩
      show p.remoteId = ⟨n.pe, cdm.instId⟩
      rw [← hto, ← hpe]
    · exact Nat.ne_of_lt (h.fresh q hq hpe)

end NodeTruth

/-- What was learned from a packet. -/
theorem Vouched.learns (h : Vouched posts delivered pe s) {p : SmPkt} {d : List UInt8}
    (hp : p ∈ delivered) (hloc : s.pkt.state = .locinfoReady)
    (hstate : p.state.Posted) (hfor : s.concerns p = true) (hcookie : p.cookie = s.pkt.cookie)
    (hd : udata p = .ok d) : Vouched posts delivered pe (s.learns p .completed d) := by
  rw [SmInfo.concerns, Bool.and_eq_true, beq_iff_eq, beq_iff_eq] at hfor
  refine ⟨fun _ => ?_, fun _ => ?_, fun hst => by cases hst⟩
  · obtain ⟨q, hq, hof⟩ := h.own (.inl hloc)
    exact ⟨q, hq, hof⟩
  · exact ⟨p, hp, ⟨hfor.1.symm, rfl, hfor.2.symm, hcookie, hstate⟩, (udata_ok hd).1⟩

/-- A session that waited for anyone is bound to the sender of a packet. -/
theorem Vouched.bind (h : Vouched posts delivered pe s) (hsane : s.Sane n) {p : SmPkt}
    {d : List UInt8} (hdel : p ∈ delivered) (hopen : s.open p = true)
    (hp : p.state = .locinfoReady) (hcookie : p.cookie = s.pkt.cookie) (hd : udata p = .ok d) :
    Vouched posts delivered pe (s.bind p d) := by
  rw [SmInfo.open, Bool.and_eq_true, Bool.not_eq_true', beq_iff_eq] at hopen
  have hany : s.pkt.remoteId.pe = any := by
    by_contra hne
    rw [SmId.bound_iff.mpr ⟨hne, hsane.whole hne⟩] at hopen
    cases hopen.1
  refine ⟨fun _ => ?_, fun _ => ?_, ?_⟩
  · -- the post was for anyone
    obtain ⟨q, hq, hlocal, hgen, hcookie, hdata, hremote⟩ := h.own (.inl (hsane.opened hany).2)
    refine ⟨q, hq, hlocal, hgen, hcookie, hdata, fun hne => ?_⟩
    rw [hremote hne] at hne
    exact absurd hany hne
  · exact ⟨p, hdel, ⟨rfl, rfl, hopen.2.symm, hcookie, .inl hp⟩, (udata_ok hd).1⟩
  · intro hst
    cases hst

theorem Vouched.settle (h : Vouched posts delivered pe s) :
    Vouched posts delivered pe s.settle := by
  unfold SmInfo.settle
  split
  · exact vouched_of_ended (.inr (.inl rfl))
  · exact h

/-- The posts among the labels, as they are logged. -/
def entriesOf (pe : UInt32) (ls : List Label) : List Posted :=
  (postedOf ls).map fun e => .of pe e.1 e.2.2

/-- **A move keeps what sessions say true.** -/
theorem Move.truth {l : Label} (hmove : Move c n l n') (hinv : Inv c n)
    (h : NodeTruth posts delivered n)
    (hrcv : ∀ p, l = .received p → p ∈ delivered ∧ p.remoteId.pe = n.pe) :
    NodeTruth (posts ++ entriesOf n.pe [l]) delivered n' := by
  cases hmove with
  | @answered s a p hs hstate hlist hp hto =>
      exact h.answered hinv hs hstate hp hto
  | begun hp hnew hpe hid => exact h.begun hinv rfl rfl rfl
  | opened hp hpe => exact h.begun hinv rfl rfl rfl
  | dropped hs hpe => exact NodeTruth.unlogged (h.less rfl rfl fun _ ht => (mem_removeKey.mp ht).1)
  | @ending s hs hpe =>
      obtain ⟨hpe, hgen, hsess⟩ := (n.write s.ending).enlistNew_rest s.gen
      exact NodeTruth.unlogged (h.write hpe hgen hsess (vouched_of_ended (.inl rfl)))
  | @booked s s' hs hbook =>
      obtain ⟨_, _, _, _, _, seqNum, rfl⟩ := hbook
      exact NodeTruth.unlogged (h.write rfl rfl rfl ((h.session s hs).congr ⟨seqNum, rfl⟩ rfl))
  | picked hs hfinal hlist =>
      exact NodeTruth.unlogged (h.less rfl rfl fun _ ht => (mem_removeKey.mp ht).1)
  | missed hs hfinal hlist hvirt => exact NodeTruth.unlogged (h.less rfl rfl fun _ ht => ht)
  | @expired s hs hlist hout =>
      have hdel : NodeTruth posts delivered (n.delist s.gen) := h.less rfl rfl fun _ ht => ht
      exact NodeTruth.unlogged (hdel.notify (vouched_of_ended (.inr (.inr rfl))))
  | @sent s s' pkts k hs hlist hout hstate hbook hpkts hk hfree =>
      obtain ⟨_, _, _, _, _, seqNum, rfl⟩ := hbook
      exact NodeTruth.unlogged (h.write rfl rfl rfl ((h.session s hs).congr ⟨seqNum, rfl⟩ rfl))
  | @settled s hs hlist hout hchnl =>
      have hdel : NodeTruth posts delivered (n.delist s.gen) := h.less rfl rfl fun _ ht => ht
      exact NodeTruth.unlogged (hdel.notify (h.session s hs).settle)
  | @shut s hs hlist hout hchnl =>
      exact NodeTruth.unlogged (h.write rfl rfl rfl (h.session s hs).settle)
  | found hs hnic hpkts hslot => exact NodeTruth.unlogged (h.less rfl rfl fun _ ht => ht)
  | @marked s r hs hr hgen =>
      refine NodeTruth.unlogged (h.write rfl rfl rfl ?_)
      unfold Handler.report
      split
      · exact (h.session s hs).settle.congr ⟨s.settle.pkt.seqNum, rfl⟩ rfl
      · exact (h.session s hs).congr ⟨s.pkt.seqNum, rfl⟩ rfl
  | @landed s r hs hr hgen =>
      exact NodeTruth.unlogged
        (h.write rfl rfl rfl ((h.session s hs).congr ⟨s.pkt.seqNum, rfl⟩ rfl))
  | withdrawn hs hstate hlist =>
      exact NodeTruth.unlogged (h.less rfl rfl fun _ ht => (mem_removeKey.mp ht).1)
  | @cut s p hs hstate hpe =>
      exact NodeTruth.unlogged (h.notify (vouched_of_ended (.inr (.inl rfl))))
  | @crossed s p d hs hstate hp hfor hfresh hcookie hpe hd =>
      have hlearns := (h.session s hs).learns (hrcv p rfl).1 hstate (.inl hp) hfor hcookie hd
      obtain ⟨hpe, hgen, hsess⟩ := (n.write (s.cross p d)).enlistNew_rest s.gen
      exact NodeTruth.unlogged (h.write hpe hgen hsess (hlearns.congr ⟨s.pkt.seqNum, rfl⟩ rfl))
  | @completed s p d hs hstate hp hfor hfresh hcookie hpe hd =>
      exact NodeTruth.unlogged (h.notify
        ((h.session s hs).learns (hrcv p rfl).1 hstate (.inr hp) hfor hcookie hd))
  | @bound s p d hs hopen hlist hp hgen hcookie hfrom hd =>
      have hbind := (h.session s hs).bind (hinv.session s hs) (hrcv p rfl).1 hopen hp hcookie hd
      exact NodeTruth.unlogged (h.write rfl rfl rfl hbind)
  | @offered i cdm p d hcdm hcookie hto hp hgen hnew hfrom hd =>
      obtain ⟨hdel, hpe⟩ := hrcv p rfl
      exact NodeTruth.unlogged (h.offered hdel hpe hcookie hto hp hd)
  | @attached i cdm cnt kernel hcdm hid hcnt =>
      rw [attach, hcdm]
      exact NodeTruth.unlogged (h.less rfl rfl fun _ ht => ht)
  | configured => exact NodeTruth.unlogged (h.less rfl rfl fun _ ht => ht)
  | closing => exact NodeTruth.unlogged (h.less rfl rfl fun _ ht => ht)
  | detached hquiet =>
      exact NodeTruth.unlogged (h.less rfl rfl fun _ ht => List.mem_of_mem_filter ht)

/-- What is sent is true. -/
theorem Move.pktTruth {p : SmPkt} (hmove : Move c n (.sent p) n')
    (h : NodeTruth posts delivered n) : PktTruth posts delivered p := by
  cases hmove with
  | @sent s s' pkts k hs hlist hout hstate hbook hpkts hk hfree =>
      obtain ⟨_, _, _, _, _, seqNum, rfl⟩ := hbook
      refine ⟨(h.session s hs).own, fun hst => ?_⟩
      obtain ⟨p', hp', hknows, -⟩ := (h.session s hs).peer (.inr hst)
      exact ⟨p', hp', hknows⟩

theorem Move.pe_eq {l : Label} (hmove : Move c n l n') : n'.pe = n.pe := by
  cases hmove with
  | expired => exact (pe_notify _ _).1
  | settled => exact (pe_notify _ _).1
  | cut => exact (pe_notify _ _).1
  | completed => exact (pe_notify _ _).1
  | ending => exact (Node.enlistNew_rest _ _).1
  | crossed => exact (Node.enlistNew_rest _ _).1
  | attached hcdm =>
      rw [attach, hcdm]
      rfl
  | _ => rfl

/-- No session holds the data of two posts. -/
def Unique (posts : List Posted) : Prop :=
  ∀ q ∈ posts, ∀ q' ∈ posts, q.localId.pe = q'.localId.pe → q.gen = q'.gen → q = q'

theorem Unique.append (h : Unique posts) {q : Posted}
    (hq : ∀ q' ∈ posts, q'.localId.pe = q.localId.pe → q'.gen ≠ q.gen) : Unique (posts ++ [q]) := by
  intro q₁ hq₁ q₂ hq₂ hpe hgen
  rcases List.mem_append.mp hq₁ with h₁ | h₁ <;> rcases List.mem_append.mp hq₂ with h₂ | h₂
  · exact h q₁ h₁ q₂ h₂ hpe hgen
  · rw [List.mem_singleton.mp h₂] at hpe hgen
    exact absurd hgen (hq q₁ h₁ hpe)
  · rw [List.mem_singleton.mp h₁] at hpe hgen
    exact absurd hgen.symm (hq q₂ h₂ hpe.symm)
  · rw [List.mem_singleton.mp h₁, List.mem_singleton.mp h₂]

/-- A session that takes the data of a post had none. -/
theorem Move.unique {l : Label} (hmove : Move c n l n') (h : NodeTruth posts delivered n)
    (hu : Unique posts) : Unique (posts ++ entriesOf n.pe [l]) := by
  have hsilent : Unique (posts ++ []) := by
    rw [List.append_nil]
    exact hu
  cases hmove with
  | @answered s a p hs hstate hlist hp hto => exact hu.append ((h.session s hs).unposted hstate)
  | begun => exact hu.append fun q hq hpe => Nat.ne_of_lt (h.fresh q hq hpe)
  | opened => exact hu.append fun q hq hpe => Nat.ne_of_lt (h.fresh q hq hpe)
  | _ => exact hsilent

theorem entriesOf_cons (pe : UInt32) (l : Label) (ls : List Label) :
    entriesOf pe (l :: ls) = entriesOf pe [l] ++ entriesOf pe ls := by
  rw [entriesOf, entriesOf, entriesOf, ← List.map_append, postedOf, postedOf, postedOf,
    ← List.filterMap_append]
  rfl

theorem sentOf_cons (l : Label) (ls : List Label) : sentOf (l :: ls) = sentOf [l] ++ sentOf ls := by
  rw [sentOf, sentOf, sentOf, ← List.filterMap_append]
  rfl

theorem Moves.truth {ls : List Label} (hmoves : Moves c n ls n') (hinv : Inv c n)
    (h : NodeTruth posts delivered n) (hu : Unique posts)
    (hrcv : ∀ p, .received p ∈ ls → p ∈ delivered ∧ p.remoteId.pe = n.pe) :
    NodeTruth (posts ++ entriesOf n.pe ls) delivered n' ∧ n'.pe = n.pe ∧
      Unique (posts ++ entriesOf n.pe ls) ∧
      ∀ p ∈ sentOf ls, PktTruth (posts ++ entriesOf n.pe ls) delivered p := by
  induction hmoves generalizing posts with
  | refl =>
      rw [show entriesOf _ [] = [] from rfl, List.append_nil]
      exact ⟨h, rfl, hu, by simp [sentOf]⟩
  | @head n n₁ n₂ l ls hm _ ih =>
      have h₁ := hm.truth hinv h fun p hp => hrcv p (hp ▸ List.mem_cons_self)
      obtain ⟨htruth, hpe, hunique, hpkts⟩ := ih (hm.inv hinv) h₁ (hm.unique h hu) fun p hp => by
        rw [hm.pe_eq]
        exact hrcv p (.tail l hp)
      rw [hm.pe_eq] at htruth hpe hunique hpkts
      rw [entriesOf_cons, ← List.append_assoc]
      refine ⟨htruth, hpe, hunique, fun p hp => ?_⟩
      rw [sentOf_cons] at hp
      rcases List.mem_append.mp hp with hp | hp
      · cases l with
        | sent q =>
            rw [List.mem_singleton.mp hp, List.append_assoc]
            exact (hm.pktTruth h).mono fun _ hp => hp
        | _ => cases hp
      · exact hpkts p hp

/-! ### The network keeps it -/

structure Net.Truth (c : Config) (w : Net) : Prop where
  node : ∀ pe, pe ≠ any → Inv c (w.nodes pe) ∧ (w.nodes pe).pe = pe ∧
    NodeTruth w.posts w.delivered (w.nodes pe)
  pkt : ∀ p ∈ w.sent, p.Sound ∧ PktTruth w.posts w.delivered p
  delivered : w.delivered ⊆ w.sent
  unique : Unique w.posts

theorem NodeTruth.mono (h : NodeTruth posts delivered n)
    (hnew : ∀ q ∈ new, q.localId.pe ≠ n.pe) (hdel : delivered ⊆ delivered') :
    NodeTruth (posts ++ new) delivered' n where
  session s hs := (h.session s hs).mono (fun q hq hpe => absurd hpe (hnew q hq)) hdel
  fresh q hq hpe := by
    rcases List.mem_append.mp hq with hq | hq
    · exact h.fresh q hq hpe
    · exact absurd hpe (hnew q hq)

namespace Net

variable {w : Net} {op : Op}

/-- In a network a packet is as the functions make it. -/
theorem Truth.fair (h : w.Truth c) (hfair : w.Fair c pe op) : op.Fair c (w.nodes pe) := by
  cases op with
  | receive i p f => exact ⟨hfair.1, (h.pkt p hfair.2.1).1⟩
  | _ => exact hfair

theorem Truth.step (h : w.Truth c) (hpe : pe ≠ any) (hfair : w.Fair c pe op) :
    ∃ w', w.step c pe op = .ok w' ∧ w'.Truth c := by
  obtain ⟨hinv, hself, htruth⟩ := h.node pe hpe
  obtain ⟨n', out, ls, hstep, hmoves, hseen⟩ := step_moves hinv (h.fair hfair)
  have hout : sentOf ls = out.sent ∧ postedOf ls = out.posted.toList ∧
      ∀ p, .received p ∈ ls → op.packet = some p := by
    rcases hseen with hseen | ⟨rfl, rfl, -⟩
    · exact ⟨hseen.sent, hseen.posted, hseen.received⟩
    · exact ⟨rfl, rfl, by simp⟩
  obtain ⟨hsent, hposted, hrcvd⟩ := hout
  have hpacket {p : SmPkt} (hp : op.packet = some p) : p ∈ w.sent ∧ p.remoteId.pe = pe := by
    cases op with
    | receive i q f =>
        rw [← Option.some.inj hp]
        exact hfair.2
    | _ => cases hp
  have hdel : w.delivered ⊆ w.delivered ++ op.packet.toList := List.subset_append_left _ _
  have hmono : NodeTruth w.posts (w.delivered ++ op.packet.toList) (w.nodes pe) := by
    rw [← List.append_nil w.posts]
    exact htruth.mono (by simp) hdel
  obtain ⟨htruth', hpe', hunique, hpkts⟩ := hmoves.truth hinv hmono h.unique fun p hp => by
    refine ⟨List.mem_append_right _ ?_, hself.symm ▸ (hpacket (hrcvd p hp)).2⟩
    rw [hrcvd p hp]
    exact List.mem_singleton_self p
  have hentries : entriesOf (w.nodes pe).pe ls =
      out.posted.toList.map fun e => .of pe e.1 e.2.2 := by
    rw [entriesOf, hposted, hself]
  rw [hentries] at htruth' hunique hpkts
  refine ⟨_, by rw [Net.step, hstep]; rfl, ⟨fun pe₁ hpe₁ => ?_, fun p hp => ?_, ?_, hunique⟩⟩
  · rcases eq_or_ne pe₁ pe with rfl | hne
    · show Inv c (Function.update w.nodes pe₁ n' pe₁) ∧
        (Function.update w.nodes pe₁ n' pe₁).pe = _ ∧
        NodeTruth _ _ (Function.update w.nodes pe₁ n' pe₁)
      rw [Function.update_self]
      exact ⟨hmoves.inv hinv, hpe'.trans hself, htruth'⟩
    · obtain ⟨hinv₁, hself₁, htruth₁⟩ := h.node pe₁ hpe₁
      show Inv c (Function.update w.nodes pe n' pe₁) ∧ (Function.update w.nodes pe n' pe₁).pe = _ ∧
        NodeTruth _ _ (Function.update w.nodes pe n' pe₁)
      rw [Function.update_of_ne hne]
      refine ⟨hinv₁, hself₁, htruth₁.mono (fun q hq => ?_) hdel⟩
      obtain ⟨e, -, rfl⟩ := List.mem_map.mp hq
      rw [hself₁]
      exact Ne.symm hne
  · rcases List.mem_append.mp hp with hp | hp
    · exact ⟨(h.pkt p hp).1, (h.pkt p hp).2.mono hdel⟩
    · have hp : p ∈ sentOf ls := hsent.symm ▸ hp
      exact ⟨hmoves.sound hinv p hp, hpkts p hp⟩
  · intro p hp
    apply List.mem_append_left
    rcases List.mem_append.mp hp with hp | hp
    · exact h.delivered hp
    · exact (hpacket (Option.mem_toList.mp hp)).1

theorem truth_boot (ntt : Ntt) : (Net.boot ntt).Truth c where
  node pe hpe :=
    ⟨inv_boot hpe ntt, rfl, ⟨fun s hs => (List.not_mem_nil hs).elim,
      fun q hq => (List.not_mem_nil hq).elim⟩⟩
  pkt p hp := by cases hp
  delivered p hp := by cases hp
  unique q hq := by cases hq

theorem Truth.run (h : w.Truth c) {l : List (UInt32 × Op)} (hfair : w.RunFair c l) :
    ∃ w', w.run c l = .ok w' ∧ w'.Truth c := by
  induction l generalizing w with
  | nil => exact ⟨w, rfl, h⟩
  | cons e l ih =>
      obtain ⟨pe, op⟩ := e
      obtain ⟨hpe, hop, hrest⟩ := hfair
      obtain ⟨w₁, hstep, h₁⟩ := h.step hpe hop
      obtain ⟨w₂, hrun, h₂⟩ := ih h₁ (hrest w₁ hstep)
      refine ⟨w₂, ?_, h₂⟩
      rw [Net.run, hstep]
      exact hrun

end Net

/-! ### What a test returns -/

section Test

variable {i : Nat} {acc : TestAcc}

/-- The loop has found nothing, or only sessions that are not done. -/
structure Waiting (n : Node) (a : TestArgs) (acc : TestAcc) : Prop where
  node : acc.node = n
  data : acc.data = []
  free : acc.freeSm = false
  open_ : acc.retval = .error .esrch ∨ acc.attr.state = .pending
  args : acc.attr.outBuff = a.outBuff

/-- The session is done and goes, with what it holds. -/
structure Taken (n : Node) (a : TestArgs) (s : SmInfo) (acc : TestAcc) : Prop where
  state : s.pkt.state = .completed
  listed : s.gen ∉ n.smList
  remoteId : acc.attr.remoteId = s.pkt.remoteId.instId
  postId : acc.attr.postId = s.postId
  data : acc.data = if a.outBuff then s.remUdata else []
  gone : ∀ t ∈ acc.node.sessions, t.gen ≠ s.gen

/-- How the loop can end: data are there for a success only, and a result for a session of the
list. -/
structure Ended (n : Node) (a : TestArgs) (l : List SmInfo) (acc : TestAcc) (within : Bool) :
    Prop where
  failed : within = true → acc.retval ≠ .ok ()
  copied : within = false → acc.data ≠ [] → acc.retval = .ok ()
  taken : acc.retval = .ok () → acc.attr.state = .completed → ∃ s ∈ l, Taken n a s acc

/-- What a report writes, and in which of its three cases. -/
theorem report_cases {acc' : TestAcc} (h : report i s acc = .ok acc') :
    acc'.attr.remoteId = s.pkt.remoteId.instId ∧ acc'.attr.postId = s.postId ∧
      acc'.retval = (if acc.attr.outBuff = true ∧ ¬ s.remUdata.length ≤ acc.attr.buffSize then
        .error .e2big else acc.retval) ∧
      acc'.data = (if acc.attr.outBuff = true ∧ s.remUdata.length ≤ acc.attr.buffSize then
        s.remUdata else acc.data) ∧
      (s.pkt.state = .reminfoReady ∧ acc'.attr.state = acc.attr.state ∨
        acc'.attr.state = .pending ∨
        s.gen ∉ acc.node.smList ∧ acc'.node = acc.node.count i (-1) ∧ acc'.freeSm = true ∧
          acc'.attr.state = acc.attr.state) := by
  unfold report at h
  dsimp only at h
  by_cases hoffer : s.pkt.state = .reminfoReady
  · rw [if_pos hoffer] at h
    cases h
    exact ⟨rfl, rfl, rfl, rfl, .inl ⟨hoffer, rfl⟩⟩
  rw [if_neg hoffer] at h
  by_cases hlist : s.gen ∈ acc.node.smList
  · rw [if_pos hlist] at h
    cases h
    exact ⟨rfl, rfl, rfl, rfl, .inr (.inl rfl)⟩
  rw [if_neg hlist] at h
  split at h
  · cases h
  · cases h
    exact ⟨rfl, rfl, rfl, rfl, .inr (.inr ⟨hlist, rfl, rfl, rfl⟩)⟩

theorem post_eq_completed {st : SmState} (h : st.post = .completed) : st = .completed := by
  cases st <;> first | rfl | cases h

theorem visit_result (hinv : Inv c n) (hs : s ∈ n.sessions) {a : TestArgs} (hw : Waiting n a acc)
    {r : TestAcc ⊕ (TestAcc × Bool)} (hvisit : visit i s acc = .ok r) :
    (∃ acc', r = .inl acc' ∧ Waiting n a acc') ∨
      ∃ acc' b, r = .inr (acc', b) ∧ Ended n a [s] acc' b := by
  unfold visit at hvisit
  dsimp only at hvisit
  by_cases hready : (s.pkt.state.final || s.pkt.state == .reminfoReady) = true
  · rw [if_pos hready] at hvisit
    split at hvisit
    · cases hvisit
    next acc₁ hrep =>
      obtain ⟨hid, hpost, hret, hdata, hcase⟩ := report_cases hrep
      dsimp only at hret hdata hcase
      -- a finished session, or an offer; without an address for the peer the test is an error
      split at hvisit
      · cases hvisit
        exact .inr ⟨_, _, rfl, ⟨fun _ hok => (by cases hok), fun hin => (by cases hin),
          fun hok => (by cases hok)⟩⟩
      next pe hvirt =>
        have hstate : s.pkt.state ≠ .locinfoReady := by
          intro hloc
          rw [hloc] at hready
          cases hready
        rw [if_pos (virtualPe_ne_any (hinv.session s hs) hstate hvirt)] at hvisit
        cases hvisit
        rw [hw.args] at hret hdata
        rw [hw.data] at hdata
        refine .inr ⟨_, _, rfl, ⟨fun hin => (by cases hin), fun _ hsome => ?_, fun hok hdone => ?_⟩⟩
        · change acc₁.retval = .ok ()
          change acc₁.data ≠ [] at hsome
          rw [hdata] at hsome
          rw [hret, if_neg]
          rintro ⟨-, hbig⟩
          exact hsome (if_neg fun hfit => hbig hfit.2)
        change acc₁.retval = .ok () at hok
        change acc₁.attr.state = .completed at hdone
        -- only a session that is taken away can be reported as completed
        rcases hcase with ⟨hoffer, hst⟩ | hst | ⟨hlist, hnode, hfree, hst⟩
        · rw [hst, hoffer] at hdone
          cases hdone
        · rw [hst] at hdone
          cases hdone
        · rw [hst] at hdone
          refine ⟨s, List.mem_singleton_self s,
            ⟨post_eq_completed hdone, hw.node ▸ hlist, hid, hpost, ?_, fun t ht => ?_⟩⟩
          · -- a buffer that is too small would have been reported
            show acc₁.data = _
            rw [hdata]
            rcases hbuf : a.outBuff with - | -
            · simp
            · have hfits : s.remUdata.length ≤ acc.attr.buffSize := by
                by_contra hbig
                rw [hret, if_pos ⟨hbuf, hbig⟩] at hok
                cases hok
              rw [if_pos ⟨rfl, hfits⟩, if_pos rfl]
          · change t ∈ (if acc₁.freeSm = true then Node.free _ s.gen else _).sessions at ht
            rw [if_pos hfree] at ht
            exact (mem_removeKey.mp ht).2
  -- the session still waits, and so does a test that was for it
  · rw [if_neg hready] at hvisit
    have hpend : s.pkt.state.post = .pending := by
      rcases hst : s.pkt.state with - | - | - | - | - | - <;> rw [hst] at hready <;>
        first | rfl | exact absurd rfl hready
    split at hvisit
    · cases hvisit
      refine .inr ⟨_, _, rfl, ⟨fun hin => (by cases hin), fun _ _ => rfl, fun _ hdone => ?_⟩⟩
      change s.pkt.state.post = .completed at hdone
      rw [hpend] at hdone
      cases hdone
    · cases hvisit
      exact .inl ⟨_, rfl, ⟨hw.node, hw.data, hw.free, .inr hpend, hw.args⟩⟩

theorem testLoop_result (hinv : Inv c n) {l : List SmInfo} (hl : ∀ s ∈ l, s ∈ n.sessions)
    {a : TestArgs} (hw : Waiting n a acc) {acc' : TestAcc} {b : Bool}
    (hloop : testLoop i l acc = .ok (acc', b)) : Ended n a l acc' b := by
  induction l generalizing acc with
  | nil =>
      obtain ⟨rfl, rfl⟩ := Prod.mk.inj (Except.ok.inj hloop)
      refine ⟨fun hin => (by cases hin), fun _ hsome => absurd hw.data hsome, fun hok hdone => ?_⟩
      rcases hw.open_ with hret | hst
      · rw [hret] at hok
        cases hok
      · rw [hst] at hdone
        cases hdone
  | cons s l ih =>
      -- what the rest of the list ends in holds of the whole list
      have hrest {acc : TestAcc} (hw : Waiting n a acc) (hloop : testLoop i l acc = .ok (acc', b)) :
          Ended n a (s :: l) acc' b := by
        have hended := ih (fun t ht => hl t (.tail s ht)) hw hloop
        refine ⟨hended.failed, hended.copied, fun hok hdone => ?_⟩
        obtain ⟨s', hs', htaken⟩ := hended.taken hok hdone
        exact ⟨s', .tail s hs', htaken⟩
      rw [testLoop] at hloop
      split at hloop
      · split at hloop
        · cases hloop
        · next r hvisit =>
            obtain rfl := Except.ok.inj hloop
            rcases visit_result hinv (hl s List.mem_cons_self) hw hvisit with
              ⟨acc₁, hr, -⟩ | ⟨acc₁, b₁, hr, hended⟩
            · cases hr
            · cases hr
              refine ⟨hended.failed, hended.copied, fun hok hdone => ?_⟩
              obtain ⟨s', hs', htaken⟩ := hended.taken hok hdone
              rw [List.mem_singleton.mp hs'] at htaken
              exact ⟨s, List.mem_cons_self, htaken⟩
        · next acc₁ hvisit =>
            rcases visit_result hinv (hl s List.mem_cons_self) hw hvisit with
              ⟨acc₂, hr, hw₂⟩ | ⟨acc₂, b₂, hr, -⟩
            · cases hr
              exact hrest hw₂ hloop
            · cases hr
      · exact hrest hw hloop

/-- The end of the function keeps the state and the ids, and copies the data if there are
any. -/
theorem testResult_ok {a attr : TestArgs} {l : List SmInfo} {kernel b : Bool} {virt : UInt32}
    (hended : Ended n a l acc b) (hres : testResult kernel virt (acc, b) = (n', attr, .ok ())) :
    acc.node = n' ∧ acc.retval = .ok () ∧ acc.attr.state = attr.state ∧
      acc.attr.remoteId = attr.remoteId ∧ acc.attr.postId = attr.postId ∧
      (acc.data ≠ [] → attr.outData = acc.data) := by
  unfold testResult at hres
  dsimp only at hres
  have hattr : ∀ attr', attr' = (if (!b && virt != any) = true then
      { acc.attr with remotePe := virt } else acc.attr) → acc.attr.state = attr'.state ∧
        acc.attr.remoteId = attr'.remoteId ∧ acc.attr.postId = attr'.postId := by
    intro attr' h
    split at h <;> rw [h] <;> exact ⟨rfl, rfl, rfl⟩
  generalize (if (!b && virt != any) = true then { acc.attr with remotePe := virt }
    else acc.attr) = attr₀ at hres hattr
  obtain ⟨hst, hid, hpost⟩ := hattr attr₀ rfl
  have hparts {attr' : TestArgs} {retval : Except Errno Unit}
      (h : (acc.node, attr', retval) = (n', attr, .ok ())) :
      acc.node = n' ∧ attr' = attr ∧ retval = .ok () := by
    simpa only [Prod.mk.injEq] using h
  split at hres
  next hnone =>
    obtain ⟨hnode, rfl, hret⟩ := hparts hres
    exact ⟨hnode, hret, hst, hid, hpost, fun hsome => absurd (List.isEmpty_iff.mp hnone) hsome⟩
  next hsome =>
    have hsome : acc.data ≠ [] := fun hnone => hsome (List.isEmpty_iff.mpr hnone)
    split at hres
    · obtain ⟨hnode, rfl, hret⟩ := hparts hres
      exact ⟨hnode, hret, hst, hid, hpost, fun _ => rfl⟩
    · split at hres
      next hin => exact absurd (hparts hres).2.2 (hended.failed hin)
      next hin =>
        split at hres
        · cases (hparts hres).2.2
        · obtain ⟨hnode, rfl, -⟩ := hparts hres
          exact ⟨hnode, hended.copied (Bool.eq_false_iff.mpr hin) hsome, hst, hid, hpost,
            fun _ => rfl⟩

/-- A test that says it is done took a finished session away, and returns what it held. -/
theorem getState_result (hinv : Inv c n) {a attr : TestArgs} (hprobe : a.probe = false)
    (htest : getState n i a = .ok (n', attr, .ok ())) (hdone : attr.state = .completed) :
    ∃ s ∈ n.sessions, s.nic = i ∧ s.pkt.state = .completed ∧ s.gen ∉ n.smList ∧
      attr.remoteId = s.pkt.remoteId.instId ∧ attr.postId = s.postId ∧
      (a.outBuff = true → s.remUdata ≠ [] → attr.outData = s.remUdata) ∧
      ∀ t ∈ n'.sessions, t.gen ≠ s.gen := by
  unfold getState at htest
  split at htest
  · cases htest
  rw [hprobe, if_neg Bool.false_ne_true] at htest
  split at htest
  · cases htest
  next pe virt hphys =>
    split at htest
    · cases htest
    dsimp only at htest
    split at htest
    · cases htest
    next r hloop =>
      obtain ⟨acc', b⟩ := r
      have hw : Waiting n a
          ⟨n, { a with remotePe := pe, probe := false }, .error .esrch, [], false⟩ :=
        ⟨rfl, rfl, rfl, .inl rfl, rfl⟩
      have hended := testLoop_result hinv (fun s hs => (mem_sessionsOf.mp hs).1) hw hloop
      obtain ⟨hnode, hok, hst, hid, hpost, hdata⟩ := testResult_ok hended (Except.ok.inj htest)
      obtain ⟨s, hs, htaken⟩ := hended.taken hok (hst.trans hdone)
      obtain ⟨hmem, hsi⟩ := mem_sessionsOf.mp hs
      refine ⟨s, hmem, hsi, htaken.state, htaken.listed, hid.symm.trans htaken.remoteId,
        hpost.symm.trans htaken.postId, fun hbuf hne => ?_, hnode ▸ htaken.gone⟩
      have hsame : acc'.data = s.remUdata := by rw [htaken.data, if_pos hbuf]
      rw [← hsame] at hne ⊢
      exact hdata hne

end Test

/-! ### Pairs of posts -/

section Pairs

variable {w : Net} {ntt : Ntt} {l : List (UInt32 × Op)}

/-- The post of either side was for the other, or for anyone. -/
def Posted.Met (mine theirs : Posted) : Prop :=
  mine.cookie = theirs.cookie ∧ (mine.remote.pe ≠ any → mine.remote = theirs.localId) ∧
    (theirs.remote.pe ≠ any → theirs.remote = mine.localId)

/-- A finished session stands for a pair of posts. -/
theorem Net.Truth.met (h : w.Truth c) (hpe : pe ≠ any) (hs : s ∈ (w.nodes pe).sessions)
    (hstate : s.pkt.state = .completed) :
    ∃ mine ∈ w.posts, ∃ theirs ∈ w.posts, mine.Met theirs ∧ mine.localId = s.pkt.localId ∧
      mine.gen = s.gen ∧ mine.cookie = s.pkt.cookie ∧ theirs.localId = s.pkt.remoteId ∧
      theirs.data = s.remUdata := by
  obtain ⟨-, -, htruth⟩ := h.node pe hpe
  have hvouched := htruth.session s hs
  obtain ⟨mine, hmine, hlocal, hgen, hcookie, -, hto⟩ := hvouched.own (.inr hstate)
  obtain ⟨p, hp, ⟨hfrom, -, hfor, hpcookie, hposted⟩, hdata⟩ := hvouched.peer (.inr hstate)
  obtain ⟨theirs, htheirs, hlocal', -, hcookie', hdata', hto'⟩ :=
    (h.pkt p (h.delivered hp)).2.own hposted
  refine ⟨mine, hmine, theirs, htheirs, ⟨?_, fun hne => ?_, fun hne => ?_⟩, hlocal, hgen, hcookie,
    hlocal'.trans hfrom, ?_⟩
  · rw [hcookie, hcookie', hpcookie]
  · rw [hto hne, hlocal', hfrom]
  · rw [hto' hne, hfor, hlocal]
  · rw [hdata] at hdata'
    exact (Option.some.inj hdata').symm

/-- What a packet of a finished peer does to a node. -/
theorem chnlRcv_completed {i : Nat} {p : SmPkt} {allocFails b : Bool} (hp : p.state = .completed)
    (hrcv : chnlRcv n i p allocFails = .ok (n', b)) :
    n' = n ∨ ∃ s ∈ n.sessions, s.pkt.state = .locinfoReady ∧ s.concerns p = true ∧
      s.stale p = false ∧ ∃ d, n' = n.notify (s.learns p .completed d) := by
  unfold chnlRcv at hrcv
  split at hrcv
  · cases hrcv
  split at hrcv
  · cases hrcv
    exact .inl rfl
  have hspec := (@rcvLoop_spec p (n.sessionsOf i) none).1
  rcases hloop : rcvLoop p (n.sessionsOf i) none with ⟨- | s, first⟩
  · rw [hloop] at hrcv
    dsimp only at hrcv
    rw [if_pos (.inl hp)] at hrcv
    cases hrcv
    exact .inl rfl
  · rw [hloop] at hspec hrcv
    obtain ⟨hmem, hcon, -⟩ := hspec s rfl
    dsimp only at hrcv
    unfold take at hrcv
    split at hrcv
    · cases hrcv
      exact .inl rfl
    next hstale =>
      rw [if_neg (by rw [hp]; decide)] at hrcv
      split at hrcv
      next hloc =>
        rw [hp] at hrcv
        dsimp only at hrcv
        split at hrcv
        · cases hrcv
        next d _ =>
          cases hrcv
          exact .inr ⟨s, (mem_sessionsOf.mp hmem).1, hloc, hcon, by simpa using hstale, d, rfl⟩
      next =>
        cases hrcv
        exact .inl rfl

/-- The packets of instance 3 on PE 1 and of instance 4 on PE 2. -/
def sampleFirst : SmPkt := ⟨8, 0x5A, .locinfoReady, ⟨1, 3⟩, ⟨2, 4⟩, 1, 0, 1, some [1, 2, 3]⟩

def sampleAnswer : SmPkt := ⟨8, 0x5A, .completed, ⟨2, 4⟩, ⟨1, 3⟩, 1, 1, 1, some [4, 5]⟩

/-- Both post, the packet of the first goes out and is answered. -/
def sampleRun : List (UInt32 × Op) :=
  [(1, .attach 0 sampleCdm (some 0) false), (2, .attach 0 ⟨8, 0x5A, 4⟩ (some 0) false),
    (1, .post 0 samplePost), (1, .task [⟨[], 0, 0, 0, .ok⟩]),
    (1, .task [⟨[.find ⟨0, 0, .success⟩, .mark 1, .finish 1], 0, 0, 0, .ok⟩]),
    (2, .post 0 ⟨1, 3, some [4, 5], 2, 9, true, false, false⟩),
    (2, .receive 0 sampleFirst false), (2, .task [⟨[], 0, 0, 0, .ok⟩])]

/-- A test for instance 4 on PE 2. -/
def sampleTest : TestArgs := ⟨2, 4, 0, false, false, true, 8, .pending, [], false⟩

end Pairs

end Nvl.Datagram

/-
Nvl/Datagram/Runs.lean

Runs of a node: no assertion of session management fails, and no freed session is followed
(`run_safe`).

A call that can really be made ends without a fault, and what it does is moves (`step_moves`).
What is asked of the environment is in `Op.Fair`.  The channel reports on packets it was given,
fails only for a while, takes no more packets than it was created for, and is destroyed when
none of its event handlers is at work.  The application does not test or terminate while its
NIC is being detached, and its instance is not -1.  And an endpoint is addressed by PE and
instance, or by neither, which the driver does not check: a session that is addressed by one
of them alone is taken for an open one at one place and for a bound one at another, and is
freed while it is on the list of the task (the example at the end).
-/
import Nvl.Datagram.Moves

namespace Nvl.Datagram

open SysLib

/-! ### Calls -/

/-- What can be done to a node. -/
inductive Op where
  | post (i : Nat) (a : PostArgs)
  | terminate (i : Nat) (a : TermArgs)
  | test (i : Nat) (a : TestArgs)
  | task (ts : List Turn)
  | event (e : EventStep)
  | receive (i : Nat) (p : SmPkt) (allocFails : Bool)
  | attach (i : Nat) (cdm : Cdm) (datagramCnt : Option Int) (kernel : Bool)
  | configure (i : Nat) (ntt : Ntt)
  | close (i : Nat)
  | detach (i : Nat)

/-- What comes out of it: packets, and a post with the session that holds its data. -/
structure Out where
  sent : List SmPkt
  posted : Option (Nat × PostArgs × Post)

def Out.nothing : Out := ⟨[], none⟩

/-- The record of a post that a session holds the data of. -/
def postOut (nic : Nic) (a : PostArgs) : Except Errno Nat → Out
  | .error _ => .nothing
  | .ok g =>
      match checkPost nic a with
      | .error _ => .nothing
      | .ok p => ⟨[], some (g, a, p)⟩

def step (c : Config) (n : Node) : Op → Except Fault (Node × Out)
  | .post i a => (addSession n i a).map fun r => (r.1, postOut (n.nics i) a r.2)
  | .terminate i a => (terminate n i a).map fun r => (r.1, .nothing)
  | .test i a => (getState n i a).map fun r => (r.1, .nothing)
  | .task ts => (smTask c n ts).map fun r => (r.1, ⟨r.2, none⟩)
  | .event e => (chnlEvent c n e).map fun n => (n, .nothing)
  | .receive i p f => (chnlRcv n i p f).map fun r => (r.1, .nothing)
  | .attach i cdm cnt kernel => .ok (attach n i cdm cnt kernel, .nothing)
  | .configure i ntt => .ok (jobConfig n i ntt, .nothing)
  | .close i => .ok (detachChnl n i, .nothing)
  | .detach i => .ok (detach n i, .nothing)

/-! ### Calls that can be made -/

/-- An endpoint is addressed by PE and instance, or by neither; a PE has an address. -/
def Addressed (nic : Nic) (pe id : UInt32) : Prop :=
  pe ≠ any → id ≠ any ∧ (nic.ntt.grpSize ≠ 0 → nic.ntt.toPe pe ≠ any)

/-- The application does not call while its NIC is being detached. -/
def Nic.Usable (nic : Nic) : Prop := nic.cdm.isSome = true → nic.chnl = true

/-- The channel reports on a NIC that is attached, and on a number it was given. -/
def Event.Fair (c : Config) (n : Node) (e : Event) : Prop :=
  (n.nics e.nic).cdm.isSome = true ∧ e.pktId ≤ c.maxTxPkts

/-- A handler that has begun goes on at any time. -/
def EventStep.Fair (c : Config) (n : Node) : EventStep → Prop
  | .find e => e.Fair c n
  | .mark _ => True
  | .finish _ => True

/-- The packets that the channel has. -/
def Nic.outstanding (c : Config) (nic : Nic) : Nat :=
  (List.range (c.maxTxPkts + 1)).countP fun k => (nic.smPkts.bind fun pkts => pkts k).isSome

/-- The channel fails only for a while, and takes no more packets than it was created for. -/
def Turn.Fair (c : Config) (nic : Nic) (t : Turn) : Prop :=
  t.sent ≠ .error ∧ (t.sent = .ok → nic.outstanding c < c.maxTxPkts)

/-- All through a walk of the task. -/
def TaskFair (c : Config) (n : Node) : List Nat → List Turn → Prop
  | g :: l, t :: ts =>
      (∀ e ∈ t.events, e.Fair c n) ∧ ∀ n', chnlEvents c n t.events = .ok n' →
        ∀ s, n'.find g = some s → t.Fair c (n'.nics s.nic) ∧
          ∀ n'' sent, turn c n' t s = .ok (n'', sent, false) → TaskFair c n'' l ts
  | _, _ => True

/-- A packet as the functions make them. -/
def SmPkt.Sound (p : SmPkt) : Prop :=
  p.localId.bound = true ∧ (p.state = .terminateInit ∨
    (p.state = .locinfoReady ∨ p.state = .completed) ∧
      ∃ d, p.localUdata = some d ∧ d.length ≤ datagramMaxsize)

/-- The call can be made.  A NIC is cleaned up after its channel is destroyed, which waits for
the event handlers. -/
def Op.Fair (c : Config) (n : Node) : Op → Prop
  | .post i a => Addressed (n.nics i) a.remotePe a.remoteId
  | .terminate i a => Addressed (n.nics i) a.remotePe a.remoteId ∧ (n.nics i).Usable
  | .test i _ => (n.nics i).Usable
  | .task ts => TaskFair c n n.smList ts
  | .event e => e.Fair c n
  | .receive i p _ => (n.nics i).cdm.isSome = true ∧ p.Sound
  | .attach _ cdm cnt _ => cdm.instId ≠ any ∧ ∀ k, cnt = some k → 0 ≤ k
  | .configure _ _ => True
  | .close _ => True
  | .detach i => ∀ r ∈ n.handlers, r.nic ≠ i

/-! ### They can be decided -/

section Decide

variable {α ε : Type} {P : α → Prop} [∀ a, Decidable (P a)]

instance decidableForallOk : (x : Except ε α) → Decidable (∀ a, x = .ok a → P a)
  | .error _ => isTrue fun _ h => nomatch h
  | .ok a => decidable_of_iff (P a) ⟨fun h _ ha => Except.ok.inj ha ▸ h, fun h => h a rfl⟩

instance decidableForallSome : (x : Option α) → Decidable (∀ a, x = some a → P a)
  | none => isTrue fun _ h => nomatch h
  | some a => decidable_of_iff (P a) ⟨fun h _ ha => Option.some.inj ha ▸ h, fun h => h a rfl⟩

instance decidableExistsSome : (x : Option α) → Decidable (∃ a, x = some a ∧ P a)
  | none => isFalse fun ⟨_, h, _⟩ => nomatch h
  | some a => decidable_of_iff (P a)
      ⟨fun h => ⟨a, rfl, h⟩, fun ⟨_, ha, h⟩ => Option.some.inj ha ▸ h⟩

end Decide

section Decide

variable (c : Config) (n : Node)

instance (nic : Nic) (pe id : UInt32) : Decidable (Addressed nic pe id) :=
  inferInstanceAs (Decidable (_ → _ ∧ (_ → _)))

instance (nic : Nic) : Decidable nic.Usable := inferInstanceAs (Decidable (_ → _))

instance (e : Event) : Decidable (e.Fair c n) := inferInstanceAs (Decidable (_ ∧ _))

instance : (e : EventStep) → Decidable (e.Fair c n)
  | .find e => inferInstanceAs (Decidable (e.Fair c n))
  | .mark _ => isTrue trivial
  | .finish _ => isTrue trivial

instance (nic : Nic) (t : Turn) : Decidable (t.Fair c nic) :=
  inferInstanceAs (Decidable (_ ∧ (_ → _)))

instance decidableTaskFair : (l : List Nat) → (ts : List Turn) → (n : Node) →
    Decidable (TaskFair c n l ts)
  | [], _, _ => isTrue (by rw [TaskFair.eq_def]; trivial)
  | _ :: _, [], _ => isTrue trivial
  | g :: l, t :: ts, n =>
      have := decidableTaskFair l ts
      have (n' : Node) (s : SmInfo) : Decidable (∀ n'' sent,
          turn c n' t s = .ok (n'', sent, false) → TaskFair c n'' l ts) :=
        decidable_of_iff (∀ r, turn c n' t s = .ok r → r.2.2 = false → TaskFair c r.1 l ts)
          ⟨fun h _ _ hturn => h _ hturn rfl,
            fun h r hturn hgo => h r.1 r.2.1 (hturn.trans (by rw [← hgo]))⟩
      inferInstanceAs (Decidable (_ ∧ ∀ n', chnlEvents c n t.events = .ok n' → ∀ s,
        n'.find g = some s → _ ∧ ∀ n'' sent, turn c n' t s = .ok (n'', sent, false) → _))

instance (p : SmPkt) : Decidable p.Sound :=
  inferInstanceAs (Decidable (_ ∧ (_ ∨ _ ∧ ∃ d, p.localUdata = some d ∧ _)))

instance : (op : Op) → Decidable (op.Fair c n)
  | .post _ _ => inferInstanceAs (Decidable (Addressed _ _ _))
  | .terminate i _ => inferInstanceAs (Decidable (Addressed _ _ _ ∧ (n.nics i).Usable))
  | .test i _ => inferInstanceAs (Decidable (n.nics i).Usable)
  | .task _ => inferInstanceAs (Decidable (TaskFair _ _ _ _))
  | .event e => inferInstanceAs (Decidable (e.Fair c n))
  | .receive _ p _ => inferInstanceAs (Decidable (_ ∧ p.Sound))
  | .attach _ _ cnt _ => inferInstanceAs (Decidable (_ ∧ ∀ k, cnt = some k → _))
  | .configure _ _ => isTrue trivial
  | .close _ => isTrue trivial
  | .detach i => inferInstanceAs (Decidable (∀ r ∈ n.handlers, r.nic ≠ i))

end Decide

/-! ### Sequences of moves -/

/-- Moves one after the other. -/
inductive Moves (c : Config) : Node → List Label → Node → Prop
  | refl {n : Node} : Moves c n [] n
  | head {n n' n'' : Node} {l : Label} {ls : List Label} (h : Move c n l n')
      (hs : Moves c n' ls n'') : Moves c n (l :: ls) n''

namespace Moves

variable {c : Config} {n n' n'' : Node} {l : Label} {ls ls' : List Label}

theorem single (h : Move c n l n') : Moves c n [l] n' := .head h .refl

theorem append (h : Moves c n ls n') (h' : Moves c n' ls' n'') : Moves c n (ls ++ ls') n'' := by
  induction h with
  | refl => exact h'
  | head hm _ ih => exact .head hm (ih h')

theorem inv (h : Moves c n ls n') (hn : Inv c n) : Inv c n' := by
  induction h with
  | refl => exact hn
  | head hm _ ih => exact ih (hm.inv hn)

end Moves

/-- The packets among the labels, and the posts. -/
def sentOf (ls : List Label) : List SmPkt :=
  ls.filterMap fun
    | .sent p => some p
    | _ => none

def postedOf (ls : List Label) : List (Nat × PostArgs × Post) :=
  ls.filterMap fun
    | .posted g a p => some (g, a, p)
    | _ => none

/-- What is seen of moves from outside. -/
structure Seen (ls : List Label) (sent : List SmPkt) (posted : List (Nat × PostArgs × Post))
    (rcvd : Option SmPkt) : Prop where
  sent : sentOf ls = sent
  posted : postedOf ls = posted
  received : ∀ q, .received q ∈ ls → rcvd = some q
  unmissed : .missed ∉ ls

theorem seen_nil (rcvd : Option SmPkt) : Seen [] [] [] rcvd := ⟨rfl, rfl, by simp, by simp⟩

theorem seen_silent : Seen [.silent] [] [] none := ⟨rfl, rfl, by simp, by simp⟩

theorem seen_posted (g : Nat) (a : PostArgs) (p : Post) :
    Seen [.posted g a p] [] [(g, a, p)] none :=
  ⟨rfl, rfl, by simp, by simp⟩

theorem seen_sent (p : SmPkt) : Seen [.sent p] [p] [] none := ⟨rfl, rfl, by simp, by simp⟩

theorem seen_received (p : SmPkt) : Seen [.received p] [] [] (some p) :=
  ⟨rfl, rfl, by simp, by simp⟩

theorem Seen.append {ls ls' : List Label} {sent sent' : List SmPkt}
    {posted posted' : List (Nat × PostArgs × Post)} {rcvd : Option SmPkt}
    (h : Seen ls sent posted rcvd) (h' : Seen ls' sent' posted' rcvd) :
    Seen (ls ++ ls') (sent ++ sent') (posted ++ posted') rcvd where
  sent := by rw [sentOf, List.filterMap_append, ← sentOf, ← sentOf, h.sent, h'.sent]
  posted := by rw [postedOf, List.filterMap_append, ← postedOf, ← postedOf, h.posted, h'.posted]
  received q hq := (List.mem_append.mp hq).elim (h.received q) (h'.received q)
  unmissed hm := (List.mem_append.mp hm).elim h.unmissed h'.unmissed

/-! ### Posting and terminating -/

theorem Ntt.physical_ok {t : Ntt} {asked : Bool} {pe pe' virt : UInt32}
    (h : t.physical asked pe = .ok (pe', virt)) :
    t.grpSize ≠ 0 ∧ asked = true ∧ pe' = t.toPe pe ∨
      ¬ (t.grpSize ≠ 0 ∧ asked = true) ∧ pe' = pe := by
  unfold Ntt.physical at h
  split at h
  · next hasked =>
      split at h
      · cases h
      · cases h
        exact .inl ⟨hasked.1, hasked.2, rfl⟩
  · next hasked =>
      cases h
      exact .inr ⟨hasked, rfl⟩

/-- The address after the lookup is open if the one before it was. -/
theorem Addressed.open_iff {nic : Nic} {pe id pe' virt : UInt32} (h : Addressed nic pe id)
    (hphys : nic.ntt.physical (pe != any) pe = .ok (pe', virt)) :
    (pe' = any ↔ pe = any) ∧ (SmId.bound ⟨pe, id⟩ = true ↔ pe ≠ any) := by
  constructor
  · rcases Ntt.physical_ok hphys with ⟨hgrp, hasked, rfl⟩ | ⟨-, rfl⟩
    · have hpe : pe ≠ any := by simpa using hasked
      exact ⟨fun hany => absurd hany ((h hpe).2 hgrp), fun hany => absurd hany hpe⟩
    · exact Iff.rfl
  · rw [SmId.bound_iff]
    exact ⟨And.left, fun hpe => ⟨hpe, (h hpe).1⟩⟩

section Ops

variable {c : Config} {n : Node} {i : Nat} (h : Inv c n)

theorem mem_sessionsOf {s : SmInfo} : s ∈ n.sessionsOf i ↔ s ∈ n.sessions ∧ s.nic = i := by
  rw [Node.sessionsOf, List.mem_filter, decide_eq_true_iff]

include h

theorem addSession_moves {a : PostArgs} (hfair : Addressed (n.nics i) a.remotePe a.remoteId) :
    ∃ n' r ls, addSession n i a = .ok (n', r) ∧ Moves c n ls n' ∧
      Seen ls [] (postOut (n.nics i) a r).posted.toList none := by
  unfold addSession
  rcases hp : checkPost (n.nics i) a with e | p
  · exact ⟨n, .error e, [], rfl, .refl, seen_nil none⟩
  obtain ⟨hcdm, -, -, virt, hphys, hinst⟩ := checkPost_ok hp
  obtain ⟨hopen, hbound⟩ := hfair.open_iff hphys
  have hsome (g : Nat) : postOut (n.nics i) a (.ok g) = ⟨[], some (g, a, p)⟩ := by
    rw [postOut, hp]
  have hremote : p.remote.pe ≠ any → a.bound = true := fun hpe => hbound.mpr (mt hopen.mpr hpe)
  dsimp only
  -- a session that the post answers or repeats comes before a new one
  rcases hfind : (n.sessionsOf i).find? fun s => a.answers p s || a.repeats p s with - | s
  · dsimp only
    split
    · exact ⟨n, .error .enomem, [], rfl, .refl, seen_nil none⟩
    · by_cases hpe : p.remote.pe ≠ any
      · rw [if_pos hpe]
        refine ⟨_, _, _, rfl, .single (.begun hp (fun s hs hsi heq => ?_) hpe ?_), ?_⟩
        -- a session with that peer would have been found as a repetition
        · have hno := List.find?_eq_none.mp hfind s (mem_sessionsOf.mpr ⟨hs, hsi⟩)
          apply hno
          rw [Bool.or_eq_true]
          right
          rw [PostArgs.repeats, hremote hpe, heq, Bool.true_and, beq_self_eq_true]
        · rw [hinst]
          exact (hfair (mt hopen.mpr hpe)).1
        · rw [hsome]
          exact seen_posted _ a p
      · rw [if_neg hpe]
        refine ⟨_, _, _, rfl, .single (.opened hp (not_not.mp hpe)), ?_⟩
        rw [hsome]
        exact seen_posted _ a p
  · obtain ⟨hs, hsi⟩ := mem_sessionsOf.mp (List.mem_of_find?_eq_some hfind)
    dsimp only
    split
    · next hans =>
        rw [PostArgs.answers, Bool.and_eq_true, beq_iff_eq, Bool.or_eq_true, Bool.not_eq_true',
          beq_iff_eq] at hans
        have hlist := (h.session s hs).offer hans.1
        rw [if_neg hlist]
        refine ⟨_, _, _, rfl, .single (.answered hs hans.1 hlist (hsi ▸ hp) fun hpe => ?_), ?_⟩
        · rcases hans.2 with hunbound | hsame
          · rw [hremote hpe] at hunbound
            cases hunbound
          · exact hsame
        · rw [hsome]
          exact seen_posted _ a p
    · exact ⟨n, .error .eexist, [], rfl, .refl, seen_nil none⟩

omit h in
theorem terminate_moves {a : TermArgs} (hfair : Addressed (n.nics i) a.remotePe a.remoteId)
    (huse : (n.nics i).Usable) :
    ∃ n' r ls, terminate n i a = .ok (n', r) ∧ Moves c n ls n' ∧ Seen ls [] [] none := by
  unfold terminate
  rcases hcheck : checkTerm (n.nics i) a with e | remote
  · exact ⟨n, .error e, [], rfl, .refl, seen_nil none⟩
  have hattached : (n.nics i).cdm.isSome = true ∧ ∃ virt,
      (n.nics i).ntt.physical (a.remotePe != any) a.remotePe = .ok (remote.pe, virt) := by
    unfold checkTerm at hcheck
    split at hcheck
    · cases hcheck
    · next hsome =>
        split at hcheck
        · cases hcheck
        split at hcheck
        · cases hcheck
        · next pe virt hphys =>
            cases hcheck
            exact ⟨by simpa [Option.isSome_iff_ne_none] using hsome, virt, hphys⟩
  obtain ⟨hcdm, virt, hphys⟩ := hattached
  obtain ⟨hopen, hbound⟩ := hfair.open_iff hphys
  rcases hfind : (n.sessionsOf i).find? fun s => s.matched (!a.bound) a.postId remote with - | s
  · refine ⟨n, .error .esrch, [], ?_, .refl, seen_nil none⟩
    simp only [hfind]
  obtain ⟨hs, hsi⟩ := mem_sessionsOf.mp (List.mem_of_find?_eq_some hfind)
  have hmatch := List.find?_some hfind
  simp only [hfind]
  split
  · next hdrop =>
      rw [Bool.and_eq_true, Bool.not_eq_true', beq_iff_eq] at hdrop
      -- the caller gave no PE, so the session has none
      have hany : s.pkt.remoteId.pe = any := by
        rw [hdrop.2, hopen]
        by_contra hpe
        have hb : a.bound = true := hbound.mpr hpe
        rw [hdrop.1] at hb
        cases hb
      rw [huse hcdm]
      refine ⟨_, _, [.silent], rfl, ?_, seen_silent⟩
      rw [← hsi]
      exact .single (.dropped hs hany)
  · next hkeep =>
      refine ⟨_, _, [.silent], rfl, .single (.ending hs fun hany => ?_), seen_silent⟩
      rw [Bool.and_eq_true, Bool.not_eq_true', beq_iff_eq, not_and] at hkeep
      rcases hb : a.bound with - | -
      · have hpe : a.remotePe = any := by
          by_contra hpe
          have hb' : a.bound = true := hbound.mpr hpe
          rw [hb] at hb'
          cases hb'
        exact hkeep hb (hany.trans (hopen.mpr hpe).symm)
      · rw [hb] at hmatch
        have hremote : s.pkt.remoteId = remote := by simpa [SmInfo.matched] using hmatch
        rw [hremote, hopen] at hany
        exact hbound.mp hb hany

/-! ### Testing -/

omit h in
theorem Node.free_write (s : SmInfo) : (n.write s).free s.gen = n.free s.gen := by
  rw [Node.free, Node.write, Node.free, removeKey_writeKey]

omit h in
theorem virtualPe_ne_any {t : Ntt} {s : SmInfo} (hs : s.Sane n)
    (hstate : s.pkt.state ≠ .locinfoReady) {pe : UInt32} (hpe : virtualPe t s = some pe) :
    pe ≠ any := by
  unfold virtualPe at hpe
  by_cases hgrp : t.grpSize ≠ 0
  · rw [if_pos hgrp] at hpe
    generalize (if s.virtRemotePe = any then t.toLogical s.pkt.remoteId.pe else s.virtRemotePe)
      = virt at hpe
    dsimp only at hpe
    split at hpe
    · cases hpe
    · next hne =>
        cases hpe
        exact hne
  · rw [if_neg hgrp] at hpe
    cases hpe
    exact fun hany => hstate (hs.opened hany).2

omit h in
/-- What is counted is finished and not on the list. -/
theorem report_ok {s : SmInfo} {acc : TestAcc} (hchnl : (acc.node.nics i).chnl = true) :
    ∃ acc', report i s acc = .ok acc' ∧
      (acc'.node = acc.node ∧ acc'.freeSm = acc.freeSm ∨
        acc'.node = acc.node.count i (-1) ∧ acc'.freeSm = true ∧ s.pkt.state ≠ .reminfoReady ∧
          s.gen ∉ acc.node.smList) := by
  unfold report
  dsimp only
  by_cases hoffer : s.pkt.state = .reminfoReady
  · rw [if_pos hoffer]
    exact ⟨_, rfl, .inl ⟨rfl, rfl⟩⟩
  rw [if_neg hoffer]
  by_cases hlist : s.gen ∈ acc.node.smList
  · rw [if_pos hlist]
    exact ⟨_, rfl, .inl ⟨rfl, rfl⟩⟩
  · rw [if_neg hlist, hchnl]
    exact ⟨_, rfl, .inr ⟨rfl, rfl, hoffer, hlist⟩⟩

/-- A finished session whose peer has no virtual address. -/
def Lost (n : Node) (i : Nat) : Prop :=
  ∃ s ∈ n.sessions, s.nic = i ∧ s.pkt.state.final = true ∧ s.gen ∉ n.smList ∧
    virtualPe (n.nics i).ntt s = none

/-- A visit that does not end the loop leaves no trace. -/
theorem visit_moves {s : SmInfo} (hs : s ∈ n.sessions) (hsi : s.nic = i)
    (hchnl : (n.nics i).chnl = true) {acc : TestAcc} (hnode : acc.node = n)
    (hfree : acc.freeSm = false) :
    (∃ acc', visit i s acc = .ok (.inl acc') ∧ acc'.node = n ∧ acc'.freeSm = false) ∨
      ∃ acc' b ls, visit i s acc = .ok (.inr (acc', b)) ∧ Moves c n ls acc'.node ∧
        (Seen ls [] [] none ∨ ls = [.missed] ∧ Lost n i) := by
  subst hnode
  have hsane := h.session s hs
  unfold visit
  by_cases hready : (s.pkt.state.final || s.pkt.state == .reminfoReady) = true
  · rw [if_pos hready]
    have hstate : s.pkt.state ≠ .locinfoReady := by
      intro hloc
      rw [hloc] at hready
      cases hready
    right
    let acc₀ : TestAcc :=
      { acc with attr := { acc.attr with state := s.pkt.state.post }, retval := .ok () }
    obtain ⟨acc', hrep, hcase⟩ := @report_ok i s acc₀ hchnl
    dsimp only at hrep hcase ⊢
    rw [hrep]
    have hkeep (pe : UInt32) : s.Booked { s with virtRemotePe := pe } :=
      ⟨s.flrcnt, s.nrxCnt, s.rxDelay, pe, s.sndStatus, s.pkt.seqNum, rfl⟩
    -- the peer may have no virtual address; the counter is down by then
    rcases hvirt : virtualPe (acc.node.nics i).ntt s with - | pe
    · rcases hcase with ⟨hnode, -⟩ | ⟨hnode, -, hoffer, hlist⟩
      · refine ⟨_, _, [], rfl, ?_, .inl (seen_nil none)⟩
        show Moves c acc.node [] acc'.node
        rw [hnode]
        exact .refl
      · have hfinal : s.pkt.state.final = true := by simpa [hoffer] using hready
        refine ⟨_, _, [.missed], rfl, ?_, .inr ⟨rfl, s, hs, hsi, hfinal, hlist, hvirt⟩⟩
        show Moves c acc.node [.missed] acc'.node
        rw [hnode, ← hsi]
        exact .single (.missed hs hfinal hlist (hsi ▸ hvirt))
    · have hne := virtualPe_ne_any hsane hstate hvirt
      dsimp only
      rw [if_pos hne]
      rcases hcase with ⟨hnode, hnot⟩ | ⟨hnode, hgone, hoffer, hlist⟩
      · rw [hnot, hfree]
        by_cases hgrp : (acc.node.nics i).ntt.grpSize ≠ 0
        · refine ⟨_, _, [.silent], rfl, ?_, .inl seen_silent⟩
          show Moves c acc.node [.silent] (if _ then acc'.node.write _ else acc'.node)
          rw [if_pos hgrp, hnode]
          exact .single (.booked hs (hkeep pe))
        · refine ⟨_, _, [], rfl, ?_, .inl (seen_nil none)⟩
          show Moves c acc.node [] (if _ then acc'.node.write _ else acc'.node)
          rw [if_neg hgrp, hnode]
          exact .refl
      · rw [hgone]
        refine ⟨_, _, [.silent], rfl, ?_, .inl seen_silent⟩
        have hfinal : s.pkt.state.final = true := by simpa [hoffer] using hready
        -- the address is written to a session that is freed next
        have hgoes : (if (acc.node.nics i).ntt.grpSize ≠ 0 then
            acc'.node.write { s with virtRemotePe := pe } else acc'.node).free s.gen =
            (acc.node.count s.nic (-1)).free s.gen := by
          rw [hnode, ← hsi]
          split
          · exact Node.free_write { s with virtRemotePe := pe }
          · rfl
        show Moves c acc.node [.silent] ((if _ then acc'.node.write _ else acc'.node).free s.gen)
        rw [hgoes]
        exact .single (.picked hs hfinal hlist)
  · rw [if_neg hready]
    dsimp only
    rw [hfree]
    split
    · exact .inr ⟨_, _, [], rfl, .refl, .inl (seen_nil none)⟩
    · exact .inl ⟨_, rfl, rfl, rfl⟩

theorem testLoop_moves (hchnl : (n.nics i).chnl = true) {l : List SmInfo}
    (hl : ∀ s ∈ l, s ∈ n.sessions ∧ s.nic = i) {acc : TestAcc} (hnode : acc.node = n)
    (hfree : acc.freeSm = false) :
    ∃ acc' b ls, testLoop i l acc = .ok (acc', b) ∧ Moves c n ls acc'.node ∧
      (Seen ls [] [] none ∨ ls = [.missed] ∧ Lost n i) := by
  induction l generalizing acc with
  | nil =>
      refine ⟨acc, false, [], rfl, ?_, .inl (seen_nil none)⟩
      rw [hnode]
      exact .refl
  | cons s l ih =>
      have hrest {acc : TestAcc} := @ih (fun t ht => hl t (.tail s ht)) acc
      rw [testLoop]
      split
      · obtain ⟨hs, hsi⟩ := hl s List.mem_cons_self
        rcases visit_moves h hs hsi hchnl hnode hfree with
          ⟨acc', hvisit, hnode', hfree'⟩ | ⟨acc', b, ls, hvisit, hmoves⟩
        · rw [hvisit]
          exact hrest hnode' hfree'
        · rw [hvisit]
          exact ⟨acc', b, ls, rfl, hmoves⟩
      · exact hrest hnode hfree

omit h in
theorem testResult_node (kernel : Bool) (virt : UInt32) (acc : TestAcc) (b : Bool) :
    (testResult kernel virt (acc, b)).1 = acc.node := by
  simp only [testResult]
  split_ifs <;> rfl

theorem getState_moves {a : TestArgs} (huse : (n.nics i).Usable) :
    ∃ n' r ls, getState n i a = .ok (n', r) ∧ Moves c n ls n' ∧
      (Seen ls [] [] none ∨ ls = [.missed] ∧ Lost n i) := by
  unfold getState
  by_cases hcdm : (n.nics i).cdm.isNone = true
  · rw [if_pos hcdm]
    exact ⟨n, _, [], rfl, .refl, .inl (seen_nil none)⟩
  have hchnl : (n.nics i).chnl = true := by
    apply huse
    rw [Option.isSome_iff_ne_none]
    exact fun hnone => hcdm (by rw [hnone]; rfl)
  rw [if_neg hcdm]
  by_cases hprobe : a.probe = true
  · rw [if_pos hprobe]
    exact ⟨n, _, [], rfl, .refl, .inl (seen_nil none)⟩
  rw [if_neg hprobe]
  split
  · exact ⟨n, _, [], rfl, .refl, .inl (seen_nil none)⟩
  · next pe virt hphys =>
      by_cases hargs : (!a.bound && !a.usePostId) = true
      · rw [if_pos hargs]
        exact ⟨n, _, [], rfl, .refl, .inl (seen_nil none)⟩
      rw [if_neg hargs]
      let acc : TestAcc := ⟨n, { a with remotePe := pe }, .error .esrch, [], false⟩
      obtain ⟨acc', b, ls, hloop, hmoves, hrest⟩ := testLoop_moves h hchnl
        (fun s hs => mem_sessionsOf.mp hs) (show acc.node = n from rfl) rfl
      dsimp only
      rw [hloop]
      refine ⟨acc'.node, (testResult (n.nics i).kernel virt (acc', b)).2, ls, ?_, hmoves, hrest⟩
      rw [← testResult_node (n.nics i).kernel virt acc' b]

/-! ### The task -/

section NextPktId

omit h

variable {pkts : Nat → Option Nat} {max id : Nat}

theorem nextPktId_le {fuel k : Nat} (hid : k ≠ id) (hk : k ≤ max) :
    nextPktId pkts max id (fuel + 1) k =
      if pkts k = none then some k else nextPktId pkts max id fuel (k + 1) := by
  rw [nextPktId, if_neg hid, if_neg (Nat.not_lt.mpr hk)]

theorem nextPktId_gt {fuel k : Nat} (hid : k ≠ id) (hk : max < k) :
    nextPktId pkts max id (fuel + 1) k =
      if pkts 0 = none then some 0 else nextPktId pkts max id fuel 1 := by
  rw [nextPktId, if_neg hid, if_pos hk]

/-- Straight on to a free number. -/
theorem nextPktId_scan {d k fuel : Nat} (hk : k + d ≤ max) (hfree : pkts (k + d) = none)
    (hid : ∀ e ≤ d, k + e ≠ id) (hfuel : d < fuel) :
    ∃ j ≤ max, nextPktId pkts max id fuel k = some j ∧ pkts j = none := by
  have hk0 : k ≠ id := hid 0 (Nat.zero_le _)
  induction d generalizing k fuel with
  | zero =>
      rcases fuel with - | f
      · omega
      rw [Nat.add_zero] at hk hfree
      rw [nextPktId_le hk0 hk, if_pos hfree]
      exact ⟨k, hk, rfl, hfree⟩
  | succ d ih =>
      rcases fuel with - | f
      · omega
      rw [nextPktId_le hk0 (by omega)]
      split
      · next hnone => exact ⟨k, by omega, rfl, hnone⟩
      · have hsum : k + 1 + d = k + (d + 1) := by omega
        refine ih (by omega) (by rwa [hsum]) (fun e he => ?_) (by omega) (hid 1 (by omega))
        have hstep := hid (e + 1) (by omega)
        omega

/-- Round the end of the table. -/
theorem nextPktId_wrap {d j k fuel : Nat} (hj : j + d = max + 1) (hid : id < j) (hk : k < id)
    (hfree : pkts k = none) (hfuel : d + k < fuel) :
    ∃ j' ≤ max, nextPktId pkts max id fuel j = some j' ∧ pkts j' = none := by
  induction d generalizing j fuel with
  | zero =>
      rcases fuel with - | f
      · omega
      rw [nextPktId_gt (by omega) (by omega)]
      split
      · next hnone => exact ⟨0, by omega, rfl, hnone⟩
      · next hsome =>
          have hpos : k ≠ 0 := by
            rintro rfl
            exact hsome hfree
          have hsum : 1 + (k - 1) = k := by omega
          refine nextPktId_scan (d := k - 1) (by omega) (by rwa [hsum]) (fun e he => ?_) (by omega)
          omega
  | succ d ih =>
      rcases fuel with - | f
      · omega
      rw [nextPktId_le (by omega) (by omega)]
      split
      · next hnone => exact ⟨j, by omega, rfl, hnone⟩
      · exact ih (by omega) (by omega) (by omega)

/-- If a number is free, the search ends with a free one. -/
theorem nextPktId_free (hid : id ≤ max) {k : Nat} (hk : k ≤ max) (hne : k ≠ id)
    (hfree : pkts k = none) :
    ∃ j ≤ max, nextPktId pkts max id (max + 2) (id + 1) = some j ∧ pkts j = none := by
  rcases Nat.lt_or_gt_of_ne hne with hlt | hgt
  · exact nextPktId_wrap (d := max - id) (by omega) (Nat.lt_succ_self id) hlt hfree (by omega)
  · have hsum : id + 1 + (k - (id + 1)) = k := by omega
    refine nextPktId_scan (d := k - (id + 1)) (by omega) (by rwa [hsum]) (fun e _ => ?_) (by omega)
    omega

/-- With room in the channel there is a number left over after one is taken. -/
theorem exists_free {nic : Nic} (hpkts : nic.smPkts = some pkts) (hid : id ≤ c.maxTxPkts)
    (hroom : nic.outstanding c < c.maxTxPkts) : ∃ k ≤ c.maxTxPkts, k ≠ id ∧ pkts k = none := by
  by_contra hall
  have htaken (k : Nat) (hk : k ≤ c.maxTxPkts) (hne : k ≠ id) : (pkts k).isSome = true := by
    rw [Option.isSome_iff_ne_none]
    exact fun hnone => hall ⟨k, hk, hne, hnone⟩
  have hothers : (List.range (c.maxTxPkts + 1)).countP (fun k => k != id) = c.maxTxPkts := by
    rw [List.countP_eq_length_filter, ← List.nodup_range.erase_eq_filter,
      List.length_erase_of_mem (List.mem_range.mpr (by omega)), List.length_range]
    rfl
  have hmono := List.countP_mono_left (l := List.range (c.maxTxPkts + 1))
    (p := fun k => k != id) (q := fun k => (nic.smPkts.bind fun pkts => pkts k).isSome) ?_
  · rw [hothers] at hmono
    exact Nat.lt_irrefl _ (Nat.lt_of_le_of_lt hmono hroom)
  · intro k hk hne
    rw [hpkts]
    exact htaken k (Nat.le_of_lt_succ (List.mem_range.mp hk)) (by simpa using hne)

end NextPktId

omit h in
theorem failed_booked (c : Config) (now : Nat) (s : SmInfo) :
    ∃ flrcnt nrxCnt rxDelay, failed c now s = { s with flrcnt, nrxCnt, rxDelay } := by
  unfold failed
  split
  · split
    · exact ⟨_, _, _, rfl⟩
    · unfold rxSetDelay
      split
      · exact ⟨_, _, _, rfl⟩
      · exact ⟨_, _, _, rfl⟩
  · exact ⟨_, _, _, rfl⟩

/-- What a turn leaves on the list: all the others. -/
def Rest (s : SmInfo) (n n' : Node) : Prop := ∀ g ∈ n.smList, g ≠ s.gen → g ∈ n'.smList

theorem sendPkt_moves {t : Turn} {s : SmInfo} (hs : s ∈ n.sessions) (hlist : s.gen ∈ n.smList)
    (hout : s.pktsOut = 0) (hstate : s.pkt.state ≠ .terminated) (hfair : t.Fair c (n.nics s.nic)) :
    ∃ n' sent b ls, sendPkt c n t s (failed c t.setAt s) = .ok (n', sent, b) ∧ Moves c n ls n' ∧
      Seen ls sent.toList [] none ∧ Rest s n n' := by
  obtain ⟨flrcnt, nrxCnt, rxDelay, hfailed⟩ := failed_booked c t.setAt s
  obtain ⟨cdm, hcdm, -⟩ := (h.session s hs).home
  obtain ⟨hsome, hid, hempty⟩ := h.table s.nic
  obtain ⟨pkts, hpkts⟩ := Option.isSome_iff_exists.mp (hsome (hcdm ▸ rfl))
  rw [Node.slot, hpkts] at hempty
  have hempty : pkts (n.nics s.nic).smPktId = none := hempty
  rw [hfailed, sendPkt]
  dsimp only
  rw [hpkts]
  rcases hsent : t.sent with - | - | -
  · obtain ⟨k, hk, hne, hnone⟩ := exists_free hpkts hid (hfair.2 hsent)
    have htaken : Function.update pkts (n.nics s.nic).smPktId (some s.gen) k = none :=
      (Function.update_of_ne hne ..).trans hnone
    obtain ⟨j, hj, hnext, hjnone⟩ := nextPktId_free hid hk hne htaken
    dsimp only
    have hgen : SmInfo.gen { s with flrcnt, nrxCnt, rxDelay } = s.gen := rfl
    rw [hgen, hnext]
    refine ⟨_, _, _, [.sent _], rfl,
      .single (.sent hs hlist hout hstate ?_ hpkts hj hjnone), seen_sent _,
      fun g hg _ => hg⟩
    exact ⟨flrcnt, nrxCnt, rxDelay, s.virtRemotePe, s.sndStatus, s.sndSeqNum, rfl⟩
  · -- the number was free, and is free again
    have hback : Function.update pkts (n.nics s.nic).smPktId none = pkts := by
      rw [← hempty, Function.update_eq_self]
    have hsame : n.setNic s.nic { n.nics s.nic with smPkts := some pkts } = n := by
      rw [← hpkts, Node.setNic, Function.update_eq_self]
    dsimp only
    rw [hback, hsame]
    refine ⟨_, _, _, [.silent], rfl, .single (.booked hs ?_), seen_silent, fun g hg _ => hg⟩
    exact ⟨s.flrcnt, nrxCnt, rxDelay, s.virtRemotePe, .notDone, s.sndSeqNum, rfl⟩
  · exact absurd hsent hfair.1

omit h in
theorem notify_smList (s : SmInfo) : (n.notify s).smList = n.smList := by
  unfold Node.notify
  split <;> rfl

theorem turn_moves {t : Turn} {s : SmInfo} (hs : s ∈ n.sessions) (hlist : s.gen ∈ n.smList)
    (hfair : t.Fair c (n.nics s.nic)) :
    ∃ n' sent b ls, turn c n t s = .ok (n', sent, b) ∧ Moves c n ls n' ∧
      Seen ls sent.toList [] none ∧ Rest s n n' := by
  have hrest {n' : Node} (hn' : n'.smList = (n.delist s.gen).smList) : Rest s n n' := by
    intro g hg hne
    rw [hn']
    exact List.mem_filter.mpr ⟨hg, decide_eq_true hne⟩
  unfold turn
  dsimp only
  by_cases hsend : ((n.nics s.nic).chnl && s.pktsOut == 0 &&
      (s.flags.stateChanged || s.flags.sendFailed) && s.pkt.state != .terminated) = true
  · rw [if_pos hsend]
    simp only [Bool.and_eq_true, beq_iff_eq, bne_iff_ne] at hsend
    obtain ⟨⟨⟨hchnl, hout⟩, -⟩, hstate⟩ := hsend
    split
    · exact ⟨_, _, _, [.silent], rfl, .single (.expired hs hlist hout), seen_silent,
        hrest (notify_smList _)⟩
    · split
      · obtain ⟨flrcnt, nrxCnt, rxDelay, hfailed⟩ := failed_booked c t.setAt s
        refine ⟨_, _, _, [.silent], rfl, .single (.booked hs ?_), seen_silent,
          fun g hg _ => hg⟩
        rw [hfailed]
        exact ⟨flrcnt, nrxCnt, rxDelay, s.virtRemotePe, s.sndStatus, s.pkt.seqNum, rfl⟩
      · exact sendPkt_moves h hs hlist hout hstate hfair
  · rw [if_neg hsend]
    by_cases hout : (s.pktsOut == 0) = true
    · rw [if_pos hout]
      rw [beq_iff_eq] at hout
      rcases hchnl : (n.nics s.nic).chnl with - | -
      · exact ⟨_, _, _, [.silent], rfl, .single (.shut hs hlist hout hchnl), seen_silent,
          hrest rfl⟩
      · exact ⟨_, _, _, [.silent], rfl, .single (.settled hs hlist hout hchnl), seen_silent,
          hrest (notify_smList _)⟩
    · rw [if_neg hout]
      exact ⟨_, _, _, [], rfl, .refl, seen_nil none, fun g hg _ => hg⟩

/-- The first part of the handler; a report on a number that is not in use is dropped. -/
theorem findEvent_moves {e : Event} (hfair : e.Fair c n) :
    ∃ n' ls, findEvent c n e = .ok n' ∧ Moves c n ls n' ∧ Seen ls [] [] none ∧
      n'.smList = n.smList ∧ ∀ j, (n'.nics j).cdm = (n.nics j).cdm := by
  obtain ⟨hcdm, hid⟩ := hfair
  obtain ⟨pkts, hpkts⟩ := Option.isSome_iff_exists.mp ((h.table e.nic).1 hcdm)
  have hno : ((n.nics e.nic).cdm.isNone || decide (e.pktId > c.maxTxPkts)) = false := by
    rw [Bool.or_eq_false_iff, decide_eq_false_iff_not]
    refine ⟨?_, Nat.not_lt.mpr hid⟩
    rw [← Option.not_isSome, hcdm]
    rfl
  unfold findEvent
  dsimp only
  rw [hno, if_neg Bool.false_ne_true, hpkts]
  rcases hslot : pkts e.pktId with - | g
  · dsimp only
    rw [hslot]
    exact ⟨n, [], rfl, .refl, seen_nil none, rfl, fun _ => rfl⟩
  · have hslot' : n.slot e.nic e.pktId = some g := by
      rw [Node.slot, hpkts]
      exact hslot
    obtain ⟨s, hs, rfl, hnic, -⟩ := h.slots _ _ _ hslot'
    dsimp only
    rw [hslot]
    refine ⟨_, [.silent], rfl, .single (.found hs hnic hpkts hslot), seen_silent, rfl, fun j => ?_⟩
    show ((n.setNic e.nic _).nics j).cdm = _
    rcases eq_or_ne j e.nic with rfl | hne
    · rw [Node.nics_setNic_self]
    · rw [Node.nics_setNic_of_ne hne]

/-- The session of a handler is still there. -/
theorem handler_find {g : Nat} {r : Handler} (hr : n.handler g = some r) :
    r ∈ n.handlers ∧ r.gen = g ∧ ∃ s ∈ n.sessions, s.gen = r.gen ∧ s.pktsOut = 1 ∧
      n.find g = some s := by
  obtain ⟨hmem, rfl⟩ := findKey_some hr
  obtain ⟨s, hs, hgen, -, hone⟩ := h.handled r hmem
  refine ⟨hmem, rfl, s, hs, hgen, hone, ?_⟩
  rw [← hgen]
  exact h.find_eq hs

theorem markEvent_moves (g : Nat) :
    ∃ n' ls, markEvent n g = .ok n' ∧ Moves c n ls n' ∧ Seen ls [] [] none ∧
      n'.smList = n.smList ∧ n'.nics = n.nics := by
  unfold markEvent
  rcases hr : n.handler g with - | r
  · exact ⟨n, [], rfl, .refl, seen_nil none, rfl, rfl⟩
  obtain ⟨hmem, -, s, hs, hgen, -, hfind⟩ := handler_find h hr
  dsimp only
  split
  · exact ⟨n, [], rfl, .refl, seen_nil none, rfl, rfl⟩
  · rw [hfind]
    exact ⟨_, [.silent], rfl, .single (.marked hs hmem hgen), seen_silent, rfl, rfl⟩

theorem finishEvent_moves (g : Nat) :
    ∃ n' ls, finishEvent n g = .ok n' ∧ Moves c n ls n' ∧ Seen ls [] [] none ∧
      n'.smList = n.smList ∧ n'.nics = n.nics := by
  unfold finishEvent
  rcases hr : n.handler g with - | r
  · exact ⟨n, [], rfl, .refl, seen_nil none, rfl, rfl⟩
  obtain ⟨hmem, rfl, s, hs, hgen, hone, hfind⟩ := handler_find h hr
  dsimp only
  split
  · exact ⟨n, [], rfl, .refl, seen_nil none, rfl, rfl⟩
  · rw [hfind]
    dsimp only
    rw [hone, if_neg (by decide)]
    exact ⟨_, [.silent], rfl, .single (.landed hs hmem hgen), seen_silent, rfl, rfl⟩

theorem chnlEvent_moves {e : EventStep} (hfair : e.Fair c n) :
    ∃ n' ls, chnlEvent c n e = .ok n' ∧ Moves c n ls n' ∧ Seen ls [] [] none ∧
      n'.smList = n.smList ∧ ∀ j, (n'.nics j).cdm = (n.nics j).cdm := by
  cases e with
  | find e => exact findEvent_moves h hfair
  | mark g =>
      obtain ⟨n', ls, hmark, hmoves, hseen, hlist, hnics⟩ := markEvent_moves h (c := c) g
      exact ⟨n', ls, hmark, hmoves, hseen, hlist, fun j => by rw [hnics]⟩
  | finish g =>
      obtain ⟨n', ls, hfinish, hmoves, hseen, hlist, hnics⟩ := finishEvent_moves h (c := c) g
      exact ⟨n', ls, hfinish, hmoves, hseen, hlist, fun j => by rw [hnics]⟩

omit h in
theorem EventStep.Fair.congr {n' : Node} (hcdm : ∀ j, (n'.nics j).cdm = (n.nics j).cdm)
    {e : EventStep} (hfair : e.Fair c n) : e.Fair c n' := by
  cases e with
  | find e => exact ⟨(congrArg Option.isSome (hcdm e.nic)).trans hfair.1, hfair.2⟩
  | mark g => trivial
  | finish g => trivial

theorem chnlEvents_moves {es : List EventStep} (hfair : ∀ e ∈ es, e.Fair c n) :
    ∃ n' ls, chnlEvents c n es = .ok n' ∧ Moves c n ls n' ∧ Seen ls [] [] none ∧
      n'.smList = n.smList := by
  induction es generalizing n with
  | nil => exact ⟨n, [], rfl, .refl, seen_nil none, rfl⟩
  | cons e es ih =>
      obtain ⟨n₁, ls, hevent, hmoves, hseen, hlist, hcdm⟩ :=
        chnlEvent_moves h (hfair e List.mem_cons_self)
      obtain ⟨n₂, ls', hevents, hmoves', hseen', hlist'⟩ := ih (hmoves.inv h) fun e' he' =>
        (hfair e' (.tail e he')).congr hcdm
      refine ⟨n₂, ls ++ ls', ?_, hmoves.append hmoves', hseen.append hseen', hlist'.trans hlist⟩
      rw [chnlEvents, hevent]
      exact hevents

/-- The entries still to come stay on the list. -/
theorem taskLoop_moves {l : List Nat} (hnodup : l.Nodup) (hl : ∀ g ∈ l, g ∈ n.smList)
    {ts : List Turn} (hfair : TaskFair c n l ts) :
    ∃ n' sent ls, taskLoop c n l ts = .ok (n', sent) ∧ Moves c n ls n' ∧ Seen ls sent [] none := by
  induction l generalizing n ts with
  | nil => exact ⟨n, [], [], by rw [taskLoop.eq_def], .refl, seen_nil none⟩
  | cons g l ih =>
      rcases ts with - | ⟨t, ts⟩
      · exact ⟨n, [], [], by rw [taskLoop.eq_def], .refl, seen_nil none⟩
      rw [List.nodup_cons] at hnodup
      obtain ⟨hevents, hturn⟩ := hfair
      obtain ⟨n₁, ls₁, hev, hmoves₁, hseen₁, hlist₁⟩ := chnlEvents_moves h hevents
      have h₁ := hmoves₁.inv h
      rw [taskLoop, hev]
      dsimp only
      split
      · exact ⟨n₁, [], ls₁, rfl, hmoves₁, hseen₁⟩
      have hg : g ∈ n₁.smList := hlist₁ ▸ hl g List.mem_cons_self
      obtain ⟨s, hs, rfl⟩ := h₁.listed g hg
      rw [h₁.find_eq hs]
      obtain ⟨hfair₁, hnext⟩ := hturn n₁ hev s (h₁.find_eq hs)
      obtain ⟨n₂, sent, b, ls₂, ht, hmoves₂, hseen₂, hrest⟩ := turn_moves h₁ hs hg hfair₁
      dsimp only
      rw [ht]
      have hmoves := hmoves₁.append hmoves₂
      have hseen := hseen₁.append hseen₂
      rcases b with - | -
      · have hstay : ∀ g' ∈ l, g' ∈ n₂.smList := by
          intro g' hg'
          refine hrest g' (hlist₁ ▸ hl g' (.tail _ hg')) ?_
          rintro rfl
          exact hnodup.1 hg'
        obtain ⟨n₃, sent', ls₃, htask, hmoves₃, hseen₃⟩ :=
          ih (hmoves₂.inv h₁) hnodup.2 hstay (hnext n₂ sent ht)
        dsimp only
        rw [htask]
        exact ⟨n₃, _, (ls₁ ++ ls₂) ++ ls₃, rfl, hmoves.append hmoves₃, hseen.append hseen₃⟩
      · exact ⟨n₂, _, ls₁ ++ ls₂, rfl, hmoves, hseen⟩

/-! ### Receiving -/

omit h in
theorem rcvLoop_spec {p : SmPkt} {l : List SmInfo} {first : Option SmInfo} :
    (∀ s, (rcvLoop p l first).1 = some s →
      s ∈ l ∧ s.concerns p = true ∧ s.passes p = false) ∧
    ((rcvLoop p l first).1 = none → ∀ s ∈ l, s.concerns p = true → s.passes p = true) ∧
    ∀ s, (rcvLoop p l first).2 = some s → first = some s ∨ s ∈ l ∧ s.open p = true := by
  induction l generalizing first with
  | nil => exact ⟨by simp [rcvLoop], by simp, fun s hs => .inl hs⟩
  | cons t l ih =>
      -- the loop goes on, with the first open session seen so far
      have hmore {first' : Option SmInfo} (hfirst : ∀ s, first' = some s →
          first = some s ∨ s ∈ t :: l ∧ s.open p = true)
          (hpass : t.concerns p = true → t.passes p = true) :
          (∀ s, (rcvLoop p l first').1 = some s →
            s ∈ t :: l ∧ s.concerns p = true ∧ s.passes p = false) ∧
          ((rcvLoop p l first').1 = none → ∀ s ∈ t :: l, s.concerns p = true → s.passes p = true) ∧
          ∀ s, (rcvLoop p l first').2 = some s → first = some s ∨ s ∈ t :: l ∧ s.open p = true := by
        obtain ⟨hsome, hnone, hopen⟩ := @ih first'
        refine ⟨fun s hs => ⟨.tail t (hsome s hs).1, (hsome s hs).2⟩, fun hno s hs => ?_,
          fun s hs => ?_⟩
        · rcases List.mem_cons.mp hs with rfl | hs
          · exact hpass
          · exact hnone hno s hs
        · rcases hopen s hs with hs | ⟨hs, hopen⟩
          · exact hfirst s hs
          · exact .inr ⟨.tail t hs, hopen⟩
      rw [rcvLoop]
      split
      · next hcon =>
          split
          · next hpass => exact hmore (fun s hs => .inl hs) fun _ => hpass
          · next hpass =>
              refine ⟨fun s hs => ?_, by simp, fun s hs => .inl hs⟩
              obtain rfl := Option.some.inj hs
              exact ⟨List.mem_cons_self, hcon, by simpa using hpass⟩
      · next hcon =>
          split
          · next hopen =>
              rw [Bool.and_eq_true] at hopen
              refine hmore (fun s hs => .inr ?_) fun hc => absurd hc hcon
              obtain rfl := Option.some.inj hs
              exact ⟨List.mem_cons_self, hopen.2⟩
          · exact hmore (fun s hs => .inl hs) fun hc => absurd hc hcon

omit h in
theorem SmPkt.Sound.udata_eq {p : SmPkt} (hp : p.Sound) (hstate : p.state ≠ .terminateInit) :
    ∃ d, udata p = .ok d := by
  obtain ⟨-, d, hd, hlen⟩ := hp.2.resolve_left hstate
  refine ⟨d, ?_⟩
  rw [udata, hd]
  exact if_neg (Nat.not_lt.mpr hlen)

theorem take_moves {s : SmInfo} {p : SmPkt} (hs : s ∈ n.sessions) (hp : p.Sound)
    (hfor : s.concerns p = true) (hcookie : p.cookie = s.pkt.cookie) :
    ∃ n' ls, take n s p = .ok n' ∧ Moves c n ls n' ∧ Seen ls [] [] (some p) := by
  have hsane := h.session s hs
  have hpe : s.pkt.remoteId.pe ≠ any := by
    rw [SmInfo.concerns, Bool.and_eq_true, beq_iff_eq] at hfor
    rw [hfor.1]
    exact (SmId.bound_iff.mp hp.1).1
  unfold take
  by_cases hstale : s.stale p = true
  · rw [if_pos hstale]
    exact ⟨n, [], rfl, .refl, seen_nil _⟩
  rw [if_neg hstale]
  rw [Bool.not_eq_true] at hstale
  -- a termination withdraws an offer, and cuts any other session
  by_cases hterm : p.state = .terminateInit
  · rw [if_pos hterm]
    by_cases hoffer : s.pkt.state = .reminfoReady
    · have hlist := hsane.offer hoffer
      rw [if_pos hoffer, if_neg hlist]
      exact ⟨_, [.received p], rfl, .single (.withdrawn hs hoffer hlist), seen_received p⟩
    · rw [if_neg hoffer]
      exact ⟨_, [.received p], rfl, .single (.cut hs hoffer hpe), seen_received p⟩
  rw [if_neg hterm]
  obtain ⟨d, hd⟩ := hp.udata_eq hterm
  by_cases hloc : s.pkt.state = .locinfoReady
  · rw [if_pos hloc]
    split
    · next hstate =>
        rw [hd]
        exact ⟨_, [.received p], rfl, .single (.crossed hs hloc hstate hfor hstale hcookie hpe hd),
          seen_received p⟩
    · next hstate =>
        rw [hd]
        exact ⟨_, [.received p], rfl,
          .single (.completed hs hloc hstate hfor hstale hcookie hpe hd), seen_received p⟩
    · exact ⟨n, [], rfl, .refl, seen_nil _⟩
  · rw [if_neg hloc]
    exact ⟨n, [], rfl, .refl, seen_nil _⟩

theorem chnlRcv_moves {p : SmPkt} (hp : p.Sound) {cdm : Cdm} (hcdm : (n.nics i).cdm = some cdm)
    (allocFails : Bool) :
    ∃ n' b ls, chnlRcv n i p allocFails = .ok (n', b) ∧ Moves c n ls n' ∧
      Seen ls [] [] (some p) := by
  unfold chnlRcv
  rw [hcdm]
  dsimp only
  split
  · exact ⟨n, _, [], rfl, .refl, seen_nil _⟩
  next hmine =>
    obtain ⟨hcookie, hto⟩ : p.cookie = cdm.cookie ∧ p.remoteId.instId = cdm.instId := by
      simpa using hmine
    have hhome {s : SmInfo} (hs : s ∈ n.sessions) (hsi : s.nic = i) :
        p.cookie = s.pkt.cookie := by
      obtain ⟨cdm', hcdm', hsame, -⟩ := (h.session s hs).home
      rw [hsi, hcdm] at hcdm'
      rw [hsame, ← Option.some.inj hcdm']
      exact hcookie
    obtain ⟨htaken, hnone, hopen⟩ := @rcvLoop_spec p (n.sessionsOf i) none
    rcases hloop : rcvLoop p (n.sessionsOf i) none with ⟨- | s, first⟩
    · rw [hloop] at hnone hopen
      dsimp only
      split
      · exact ⟨n, _, [], rfl, .refl, seen_nil _⟩
      next hnew =>
        rw [not_or, not_or, not_not] at hnew
        obtain ⟨hcomp, hterm, hgen⟩ := hnew
        have hstate : p.state = .locinfoReady := (hp.2.resolve_left hterm).1.resolve_right hcomp
        obtain ⟨d, hd⟩ := hp.udata_eq hterm
        rcases first with - | s
        · rw [place]
          split
          · exact ⟨n, _, [], rfl, .refl, seen_nil _⟩
          rw [hd]
          refine ⟨_, _, [.received p], rfl,
            .single (.offered hcdm hcookie hto hstate hgen ?_ hp.1 hd), seen_received p⟩
          intro s hs hsi hcon
          have hpass := hnone rfl s (mem_sessionsOf.mpr ⟨hs, hsi⟩) hcon
          simp only [SmInfo.passes, Bool.and_eq_true, beq_iff_eq] at hpass
          exact hpass.1.2
        · obtain ⟨hmem, hopen⟩ := (hopen s rfl).resolve_left (by simp)
          obtain ⟨hs, hsi⟩ := mem_sessionsOf.mp hmem
          have hsane := h.session s hs
          -- a session without a peer has no PE, so it is not on the list
          have hlist : s.gen ∉ n.smList := by
            by_cases hany : s.pkt.remoteId.pe = any
            · exact (hsane.opened hany).1
            · have hbound := SmId.bound_iff.mpr ⟨hany, hsane.whole hany⟩
              rw [SmInfo.open, hbound] at hopen
              cases hopen
          rw [place, hd]
          dsimp only
          rw [if_neg hlist]
          exact ⟨_, _, [.received p], rfl,
            .single (.bound hs hopen hlist hstate hgen (hhome hs hsi) hp.1 hd), seen_received p⟩
    · rw [hloop] at htaken
      obtain ⟨hmem, hcon, -⟩ := htaken s rfl
      obtain ⟨hs, hsi⟩ := mem_sessionsOf.mp hmem
      obtain ⟨n', ls, htake, hmoves⟩ := take_moves h hs hp hcon (hhome hs hsi)
      dsimp only
      rw [htake]
      exact ⟨n', true, ls, rfl, hmoves⟩

end Ops

/-! ### Runs -/

/-- The packet that a call brings. -/
def Op.packet : Op → Option SmPkt
  | .receive _ p _ => some p
  | _ => none

/-- **A call that can be made ends without a fault, and what it does is moves.** -/
theorem step_moves {c : Config} {n : Node} (h : Inv c n) {op : Op} (hfair : op.Fair c n) :
    ∃ n' out ls, step c n op = .ok (n', out) ∧ Moves c n ls n' ∧
      (Seen ls out.sent out.posted.toList op.packet ∨
        ls = [.missed] ∧ out = .nothing ∧ ∃ i a, op = .test i a ∧ Lost n i) := by
  cases op with
  | post i a =>
      obtain ⟨n', r, ls, hcall, hmoves, hseen⟩ := addSession_moves h hfair
      refine ⟨n', postOut (n.nics i) a r, ls, by rw [step, hcall]; rfl, hmoves, .inl ?_⟩
      have hsent : (postOut (n.nics i) a r).sent = [] := by
        unfold postOut
        split
        · rfl
        · split <;> rfl
      rw [hsent]
      exact hseen
  | terminate i a =>
      obtain ⟨n', r, ls, hcall, hmoves, hseen⟩ := terminate_moves (c := c) hfair.1 hfair.2
      exact ⟨n', .nothing, ls, by rw [step, hcall]; rfl, hmoves, .inl hseen⟩
  | test i a =>
      obtain ⟨n', r, ls, hcall, hmoves, hseen⟩ := getState_moves h (a := a) hfair
      refine ⟨n', .nothing, ls, by rw [step, hcall]; rfl, hmoves, ?_⟩
      rcases hseen with hseen | ⟨hls, hlost⟩
      · exact .inl hseen
      · exact .inr ⟨hls, rfl, i, a, rfl, hlost⟩
  | task ts =>
      obtain ⟨n', sent, ls, hcall, hmoves, hseen⟩ :=
        taskLoop_moves h h.nodup (fun _ hg => hg) hfair
      exact ⟨n', ⟨sent, none⟩, ls, by rw [step, smTask, hcall]; rfl, hmoves, .inl hseen⟩
  | event e =>
      obtain ⟨n', ls, hcall, hmoves, hseen, -⟩ := chnlEvent_moves h hfair
      exact ⟨n', .nothing, ls, by rw [step, hcall]; rfl, hmoves, .inl hseen⟩
  | receive i p f =>
      obtain ⟨cdm, hcdm⟩ := Option.isSome_iff_exists.mp hfair.1
      obtain ⟨n', b, ls, hcall, hmoves, hseen⟩ := chnlRcv_moves h hfair.2 hcdm f
      exact ⟨n', .nothing, ls, by rw [step, hcall]; rfl, hmoves, .inl hseen⟩
  | attach i cdm cnt kernel =>
      rcases hcdm : (n.nics i).cdm with - | cdm'
      · exact ⟨_, .nothing, [.silent], rfl, .single (.attached hcdm hfair.1 hfair.2),
          .inl seen_silent⟩
      · refine ⟨n, .nothing, [], ?_, .refl, .inl (seen_nil none)⟩
        rw [step, attach, hcdm]
        rfl
  | configure i ntt => exact ⟨_, .nothing, [.silent], rfl, .single .configured, .inl seen_silent⟩
  | close i => exact ⟨_, .nothing, [.silent], rfl, .single .closing, .inl seen_silent⟩
  | detach i => exact ⟨_, .nothing, [.silent], rfl, .single (.detached hfair), .inl seen_silent⟩

/-- The packets of a call are those of its moves. -/
theorem step_sent {c : Config} {n : Node} (h : Inv c n) {op : Op} (hfair : op.Fair c n) :
    ∃ n' out ls, step c n op = .ok (n', out) ∧ Moves c n ls n' ∧ sentOf ls = out.sent := by
  obtain ⟨n', out, ls, hstep, hmoves, hseen⟩ := step_moves h hfair
  refine ⟨n', out, ls, hstep, hmoves, ?_⟩
  rcases hseen with hseen | ⟨rfl, rfl, -⟩
  · exact hseen.sent
  · rfl

/-- Calls one after the other, with the packets they send. -/
def run (c : Config) (n : Node) : List Op → Except Fault (Node × List SmPkt)
  | [] => .ok (n, [])
  | op :: ops =>
      match step c n op with
      | .error f => .error f
      | .ok (n, out) => (run c n ops).map fun r => (r.1, out.sent ++ r.2)

/-- Every call can be made when its turn comes. -/
def RunFair (c : Config) (n : Node) : List Op → Prop
  | [] => True
  | op :: ops => op.Fair c n ∧ ∀ n' out, step c n op = .ok (n', out) → RunFair c n' ops

instance decidableRunFair (c : Config) : (ops : List Op) → (n : Node) → Decidable (RunFair c n ops)
  | [], _ => isTrue trivial
  | op :: ops, n =>
      have := decidableRunFair c ops
      decidable_of_iff (op.Fair c n ∧ ∀ r, step c n op = .ok r → RunFair c r.1 ops)
        ⟨fun h => ⟨h.1, fun _ _ hstep => h.2 _ hstep⟩, fun h => ⟨h.1, fun _ hstep => h.2 _ _ hstep⟩⟩

/-- A node before anything is attached. -/
def Node.boot (pe : UInt32) (ntt : Ntt) : Node where
  pe
  nics _ := ⟨none, false, none, none, 0, ntt, false⟩
  sessions := []
  smList := []
  smGeneration := 1
  handlers := []

theorem inv_boot {c : Config} {pe : UInt32} (hpe : pe ≠ any) (ntt : Ntt) :
    Inv c (Node.boot pe ntt) where
  pe := hpe
  pos := Nat.one_pos
  gens := List.nodup_nil
  fresh s hs := by cases hs
  listed g hg := by cases hg
  nodup := List.nodup_nil
  table i := ⟨fun hsome => absurd hsome Bool.false_ne_true, Nat.zero_le _, rfl⟩
  inst i cdm hcdm := by cases hcdm
  slots i k g hg := by cases hg
  slot_inj i k l g hk := by cases hk
  single := List.nodup_nil
  handled r hr := by cases hr
  apart r hr := by cases hr
  session s hs := by cases hs

/-- What a node sends is as the functions make it. -/
theorem Move.sound {c : Config} {n n' : Node} {p : SmPkt} (h : Inv c n)
    (hmove : Move c n (.sent p) n') : p.Sound := by
  cases hmove with
  | @sent s s' pkts k hs hlist hout hstate hbook hpkts hk hfree =>
      have hsane := h.session s hs
      obtain ⟨_, _, _, _, _, _, rfl⟩ := hbook
      obtain ⟨cdm, hcdm, -, hlocal⟩ := hsane.home
      refine ⟨?_, ?_⟩
      · show s.pkt.localId.bound = true
        rw [hlocal, SmId.bound_iff]
        exact ⟨h.pe, h.inst _ _ hcdm⟩
      · have hoffer := mt hsane.offer (not_not.mpr hlist)
        have htime := mt hsane.expired (not_not.mpr hlist)
        rcases hst : s.pkt.state with - | - | - | - | - | -
        · exact .inr ⟨.inl rfl, hsane.data (.inl hst)⟩
        · exact absurd hst hoffer
        · exact .inr ⟨.inr rfl, hsane.data (.inr hst)⟩
        · exact .inl rfl
        · exact absurd hst hstate
        · exact absurd hst htime

theorem Moves.sound {c : Config} {n n' : Node} {ls : List Label} (h : Inv c n)
    (hmoves : Moves c n ls n') : ∀ p ∈ sentOf ls, p.Sound := by
  induction hmoves with
  | refl => simp [sentOf]
  | @head n n₁ n₂ l ls hm _ ih =>
      intro p hp
      rw [sentOf, List.filterMap_cons] at hp
      cases l with
      | silent => exact ih (hm.inv h) p hp
      | missed => exact ih (hm.inv h) p hp
      | posted g a q => exact ih (hm.inv h) p hp
      | sent q =>
          rcases List.mem_cons.mp hp with rfl | hp
          · exact hm.sound h
          · exact ih (hm.inv h) p hp
      | received q => exact ih (hm.inv h) p hp

theorem run_inv {c : Config} {n : Node} (h : Inv c n) {ops : List Op} (hfair : RunFair c n ops) :
    ∃ n' sent, run c n ops = .ok (n', sent) ∧ Inv c n' ∧ ∀ p ∈ sent, p.Sound := by
  induction ops generalizing n with
  | nil => exact ⟨n, [], rfl, h, by simp⟩
  | cons op ops ih =>
      obtain ⟨n₁, out, ls, hstep, hmoves, hsent⟩ := step_sent h hfair.1
      obtain ⟨n₂, sent, hrun, hinv, hsound⟩ := ih (hmoves.inv h) (hfair.2 n₁ out hstep)
      refine ⟨n₂, out.sent ++ sent, ?_, hinv, fun p hp => ?_⟩
      · rw [run, hstep]
        dsimp only
        rw [hrun]
        rfl
      · rcases List.mem_append.mp hp with hp | hp
        · exact hmoves.sound h p (hsent ▸ hp)
        · exact hsound p hp

/-- The channel of the examples, and a job without translation. -/
def sampleConfig : Config := ⟨4, 10, id⟩

def noNtt : Ntt := ⟨0, id, id⟩

def sampleCdm : Cdm := ⟨8, 0x5A, 3⟩

/-- A post to instance 4 on PE 2. -/
def samplePost : PostArgs := ⟨2, 4, some [1, 2, 3], 3, 7, true, false, false⟩

/-- Terminating by PE and post id, without an instance, frees a session that the task still
follows. -/
example :
    run sampleConfig (.boot 1 noNtt)
      [.attach 0 sampleCdm (some 0) false, .post 0 samplePost,
        .terminate 0 ⟨2, any, 7, true⟩, .task [⟨[], 0, 0, 0, .ok⟩]] = .error .freed := by
  rfl

end Nvl.Datagram

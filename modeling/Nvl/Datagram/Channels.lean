/-
Nvl/Datagram/Channels.lean

What session management does to the channels of its NICs: an attach opens one, a detach closes
it, and nothing else changes any.
-/
import Nvl.Datagram.Runs

namespace Nvl.Datagram

open SysLib

/-- Whether the NIC has a channel, if it has what an attach sets up. -/
def channel (n : Node) (i : Nat) : Option Bool := (n.nics i).cdm.map fun _ => (n.nics i).chnl

/-- The calls that come between an attach and a detach. -/
def Op.Keeps : Op → Prop
  | .attach _ _ _ _ | .close _ | .detach _ => False
  | _ => True

section Channels

variable {n n' : Node} {i : Nat}

theorem channel_setNic (nic : Nic) :
    channel (n.setNic i nic) = Function.update (channel n) i (nic.cdm.map fun _ => nic.chnl) := by
  funext j
  by_cases hj : j = i
  · subst hj
    have hnic : (n.setNic j nic).nics j = nic := Function.update_self ..
    rw [Function.update_self, channel, hnic]
  · have hnic : (n.setNic i nic).nics j = n.nics j := Function.update_of_ne hj ..
    rw [Function.update_of_ne hj, channel, hnic]
    rfl

theorem channel_setNic_same {nic : Nic} (hcdm : nic.cdm = (n.nics i).cdm)
    (hchnl : nic.chnl = (n.nics i).chnl) : channel (n.setNic i nic) = channel n := by
  rw [channel_setNic, hcdm, hchnl]
  exact Function.update_eq_self i (channel n)

theorem channel_count (d : Int) : channel (n.count i d) = channel n := channel_setNic_same rfl rfl

theorem channel_enlistNew (g : Nat) : channel (n.enlistNew g) = channel n := by
  unfold Node.enlistNew
  split <;> rfl

theorem channel_notify (t : SmInfo) : channel (n.notify t) = channel n := by
  unfold Node.notify
  split
  · exact channel_count 1
  · rfl

theorem addSession_channel {a : PostArgs} {r : Except Errno Nat}
    (h : addSession n i a = .ok (n', r)) : channel n' = channel n := by
  unfold addSession at h
  split at h
  · cases h
    rfl
  · split at h
    · split at h
      · split at h <;> cases h
        rfl
      · cases h
        rfl
    · split at h
      · cases h
        rfl
      · dsimp only at h
        split at h <;> cases h <;> rfl

theorem terminate_channel {a : TermArgs} {r : Except Errno Unit}
    (h : terminate n i a = .ok (n', r)) : channel n' = channel n := by
  unfold terminate at h
  split at h
  · cases h
    rfl
  · split at h
    · cases h
      rfl
    · split at h
      · split at h
        · cases h
        · cases h
          exact channel_count 1
      · cases h
        exact channel_enlistNew _

theorem report_channel {t : SmInfo} {acc acc' : TestAcc}
    (h : report i t acc = .ok acc') : channel acc'.node = channel acc.node := by
  unfold report at h
  dsimp only at h
  split at h
  · cases h
    rfl
  · split at h
    · cases h
      rfl
    · split at h
      · cases h
      · cases h
        exact channel_count (-1)

theorem visit_channel {t : SmInfo} {acc : TestAcc}
    {r : TestAcc ⊕ (TestAcc × Bool)} (h : visit i t acc = .ok r) :
    channel (r.elim (·.node) (·.1.node)) = channel acc.node := by
  unfold visit at h
  dsimp only at h
  split at h
  · split at h
    · cases h
    · next hreport =>
        have hsame := report_channel hreport
        split at h
        · cases h
          exact hsame
        · cases h
          split
          · dsimp only [Sum.elim_inr]
            split <;> split <;> exact hsame
          · dsimp only [Sum.elim_inl]
            split <;> exact hsame
  · cases h
    split
    · dsimp only [Sum.elim_inr]
      split <;> rfl
    · rfl

theorem testLoop_channel : ∀ (l : List SmInfo) {acc : TestAcc}
    {r : TestAcc × Bool}, testLoop i l acc = .ok r →
      channel r.1.node = channel acc.node
  | [], _, _, h => by
      cases h
      rfl
  | t :: l, _, _, h => by
      unfold testLoop at h
      split at h
      · split at h
        · cases h
        · next hvisit =>
            cases h
            exact visit_channel hvisit
        · next hvisit => exact (testLoop_channel l h).trans (visit_channel hvisit)
      · exact testLoop_channel l h

theorem getState_channel {a : TestArgs}
    {r : TestArgs × Except Errno Unit}
    (h : getState n i a = .ok (n', r)) : channel n' = channel n := by
  unfold getState at h
  split at h
  · cases h
    rfl
  · split at h
    · cases h
      rfl
    · split at h
      · cases h
        rfl
      · next virt _ =>
        split at h
        · cases h
          rfl
        · dsimp only at h
          split at h
          · cases h
          · next r' hloop =>
              have hsame := testLoop_channel _ hloop
              have hnode := testResult_node (n.nics i).kernel virt r'.1 r'.2
              have hn' : (testResult (n.nics i).kernel virt r').1 = n' :=
                congrArg Prod.fst (Except.ok.inj h)
              rw [← hn', hnode]
              exact hsame

theorem chnlEvent_channel {c : Config} {e : EventStep}
    (h : chnlEvent c n e = .ok n') : channel n' = channel n := by
  cases e with
  | find e =>
      unfold chnlEvent findEvent at h
      dsimp only at h
      split at h
      · cases h
      · split at h
        · cases h
        · split at h
          · cases h
            rfl
          · cases h
            exact channel_setNic_same rfl rfl
  | mark g =>
      unfold chnlEvent markEvent at h
      dsimp only at h
      split at h
      · cases h
        rfl
      · split at h
        · cases h
          rfl
        · split at h <;> cases h
          rfl
  | finish g =>
      unfold chnlEvent finishEvent at h
      dsimp only at h
      split at h
      · cases h
        rfl
      · split at h
        · cases h
          rfl
        · split at h
          · cases h
          · split at h <;> cases h
            rfl

theorem chnlEvents_channel {c : Config} : ∀ (l : List EventStep)
    {n n' : Node}, chnlEvents c n l = .ok n' → channel n' = channel n
  | [], _, _, h => by
      cases h
      rfl
  | e :: l, _, _, h => by
      unfold chnlEvents at h
      split at h
      · cases h
      · next hevent => exact (chnlEvents_channel l h).trans (chnlEvent_channel hevent)

theorem turn_channel {c : Config} {t : Turn} {u : SmInfo}
    {r : Option SmPkt × Bool} (h : turn c n t u = .ok (n', r)) :
    channel n' = channel n := by
  unfold turn at h
  dsimp only at h
  split at h
  · split at h
    · cases h
      exact channel_notify _
    · split at h
      · cases h
        rfl
      · unfold sendPkt at h
        dsimp only at h
        split at h
        · cases h
        · split at h
          · cases h
          · cases h
            exact channel_setNic_same rfl rfl
          · split at h
            · cases h
            · cases h
              exact channel_setNic_same rfl rfl
  · split at h
    · cases h
      split
      · exact channel_notify _
      · rfl
    · cases h
      rfl

theorem taskLoop_channel {c : Config} : ∀ (l : List Nat) (ts : List Turn)
    {n n' : Node} {sent : List SmPkt},
      taskLoop c n l ts = .ok (n', sent) → channel n' = channel n
  | g :: l, t :: ts, n, n', _, h => by
      unfold taskLoop at h
      split at h
      · cases h
      · next hevents =>
          have hsame := chnlEvents_channel _ hevents
          split at h
          · cases h
            exact hsame
          · split at h
            · cases h
            · split at h
              · cases h
              · next hturn =>
                  cases h
                  exact (turn_channel hturn).trans hsame
              · next hturn =>
                  split at h
                  · cases h
                  · next hloop =>
                      cases h
                      exact (taskLoop_channel l ts hloop).trans
                        ((turn_channel hturn).trans hsame)
  | [], _, _, _, _, h => by
      rw [taskLoop.eq_def] at h
      cases h
      rfl
  | _ :: _, [], _, _, _, h => by
      cases h
      rfl

theorem chnlRcv_channel {p : SmPkt} {allocFails : Bool} {r : Bool}
    (h : chnlRcv n i p allocFails = .ok (n', r)) : channel n' = channel n := by
  unfold chnlRcv at h
  split at h
  · cases h
  · split at h
    · cases h
      rfl
    · dsimp only at h
      split at h
      · obtain ⟨m, hm, heq⟩ := map_ok h
        cases heq
        unfold take at hm
        split at hm
        · cases hm
          rfl
        · split at hm
          · split at hm
            · split at hm <;> cases hm
              rfl
            · cases hm
              exact channel_notify _
          · split at hm
            · split at hm
              · split at hm <;> cases hm
                exact channel_enlistNew _
              · split at hm <;> cases hm
                exact channel_notify _
              · cases hm
                rfl
            · cases hm
              rfl
      · split at h
        · cases h
          rfl
        · obtain ⟨m, hm, heq⟩ := map_ok h
          cases heq
          unfold place at hm
          split at hm
          · split at hm
            · cases hm
            · split at hm <;> cases hm
              rfl
          · split at hm
            · cases hm
              rfl
            · split at hm <;> cases hm
              rfl

theorem attach_channel (hclosed : channel n i = none) (cdm : Cdm)
    (datagramCnt : Option Int) (kernel : Bool) :
    channel (attach n i cdm datagramCnt kernel) =
      Function.update (channel n) i (some true) := by
  have hcdm : (n.nics i).cdm = none := Option.map_eq_none_iff.mp hclosed
  unfold attach
  dsimp only
  rw [hcdm]
  exact channel_setNic _

theorem detachChnl_channel {b : Bool} (hopen : channel n i = some b) :
    channel (detachChnl n i) = Function.update (channel n) i (some false) := by
  obtain ⟨cdm, hcdm, -⟩ := Option.map_eq_some_iff.mp hopen
  rw [detachChnl, channel_setNic, hcdm]
  rfl

theorem detach_channel : channel (detach n i) = Function.update (channel n) i none := by
  rw [detach, channel_setNic]
  rfl

/-- Between an attach and a detach every channel stays as it is. -/
theorem step_channel {c : Config} {op : Op} {out : Out} (hop : op.Keeps)
    (h : step c n op = .ok (n', out)) : channel n' = channel n := by
  cases op with
  | post i a =>
      obtain ⟨r, hr, heq⟩ := map_ok h
      cases heq
      exact addSession_channel hr
  | terminate i a =>
      obtain ⟨r, hr, heq⟩ := map_ok h
      cases heq
      exact terminate_channel hr
  | test i a =>
      obtain ⟨r, hr, heq⟩ := map_ok h
      cases heq
      exact getState_channel hr
  | task ts =>
      obtain ⟨r, hr, heq⟩ := map_ok h
      cases heq
      exact taskLoop_channel _ _ hr
  | event e =>
      obtain ⟨r, hr, heq⟩ := map_ok h
      cases heq
      exact chnlEvent_channel hr
  | receive i p allocFails =>
      obtain ⟨r, hr, heq⟩ := map_ok h
      cases heq
      exact chnlRcv_channel hr
  | configure i ntt =>
      cases h
      exact channel_setNic_same rfl rfl
  | attach | close | detach => cases hop

end Channels

end Nvl.Datagram

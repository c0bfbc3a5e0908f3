/-
Nvl/Datagram/Counter.lean

The counter of datagrams that the driver shares with the application.

The library asks the driver for a datagram only while the counter is not 0.  So the counter
must not fall behind the sessions that are finished and off the list of the task.  It does
not, over any run (`counter_covers`): every such session was counted, since whatever finishes
a session or takes it off the list notifies the application.  It may run ahead, as a session
that is notified and then given up is counted twice.

The exception is a test that finds a finished session whose peer has no virtual address: it
counts the session down and leaves it where it is.
-/
import Nvl.Datagram.Runs

namespace Nvl.Datagram

open SysLib

/-! ### What is kept -/

/-- The session is one of the NIC, and was counted. -/
def counted (i : Nat) (s : SmInfo) : Bool := decide (s.nic = i) && s.flags.usrNotified

def tally (n : Node) (i : Nat) : Nat := n.sessions.countP (counted i)

/-- The NIC tells its application. -/
def Nic.Tells (nic : Nic) : Prop := nic.chnl = true ∧ nic.datagramCnt.isSome = true

/-- Every finished session but one was counted, and the counter says no less. -/
structure HeardBut (g : Nat) (n : Node) : Prop where
  enough : ∀ i k, (n.nics i).chnl = true → (n.nics i).datagramCnt = some k → (tally n i : Int) ≤ k
  told : ∀ s ∈ n.sessions, s.gen ≠ g → (n.nics s.nic).Tells → s.pkt.state.final = true →
    s.gen ∉ n.smList → s.flags.usrNotified = true

/-- Every finished session was counted, and the counter says no less. -/
structure Heard (n : Node) : Prop where
  enough : ∀ i k, (n.nics i).chnl = true → (n.nics i).datagramCnt = some k → (tally n i : Int) ≤ k
  told : ∀ s ∈ n.sessions, (n.nics s.nic).Tells → s.pkt.state.final = true →
    s.gen ∉ n.smList → s.flags.usrNotified = true

variable {c : Config} {n : Node} {s s' : SmInfo} {g : Nat}

theorem Heard.but (h : Heard n) (g : Nat) : HeardBut g n :=
  ⟨h.enough, fun s hs _ => h.told s hs⟩

/-- A session that leaves the list has to be seen to. -/
theorem Heard.delist (h : Heard n) (g : Nat) : HeardBut g (n.delist g) where
  enough := h.enough
  told s hs hne htells hfinal hlist := by
    refine h.told s hs htells hfinal fun hmem => hlist ?_
    exact List.mem_filter.mpr ⟨hmem, decide_eq_true hne⟩

theorem Heard.enlist (h : Heard n) (g : Nat) : Heard (n.enlist g) where
  enough := h.enough
  told s hs htells hfinal hlist := h.told s hs htells hfinal fun hmem => hlist (.tail g hmem)

theorem Heard.enlistNew (h : Heard n) (g : Nat) : Heard (n.enlistNew g) := by
  unfold Node.enlistNew
  split
  · exact h
  · exact h.enlist g

theorem Node.enlistNew_write (n : Node) (s : SmInfo) (g : Nat) :
    (n.write s).enlistNew g = (n.enlistNew g).write s := by
  unfold Node.enlistNew
  by_cases hg : g ∈ n.smList
  · rw [if_pos hg, if_pos (show g ∈ (n.write s).smList from hg)]
  · rw [if_neg hg, if_neg (show g ∉ (n.write s).smList from hg)]
    rfl

theorem mem_enlistNew (n : Node) (g : Nat) : g ∈ (n.enlistNew g).smList := by
  unfold Node.enlistNew
  split
  · next hg => exact hg
  · exact List.mem_cons_self

/-- Only the channel and the counter of a NIC matter. -/
theorem Heard.setNic (h : Heard n) {i : Nat} {nic : Nic} (hchnl : nic.chnl = (n.nics i).chnl)
    (hcnt : nic.datagramCnt = (n.nics i).datagramCnt) : Heard (n.setNic i nic) := by
  have hnic (j : Nat) : ((n.setNic i nic).nics j).chnl = (n.nics j).chnl ∧
      ((n.setNic i nic).nics j).datagramCnt = (n.nics j).datagramCnt := by
    rcases eq_or_ne j i with rfl | hne
    · rw [Node.nics_setNic_self]
      exact ⟨hchnl, hcnt⟩
    · rw [Node.nics_setNic_of_ne hne]
      exact ⟨rfl, rfl⟩
  refine ⟨fun j k hj hk => ?_, fun t ht htells => ?_⟩
  · rw [(hnic j).1] at hj
    rw [(hnic j).2] at hk
    exact h.enough j k hj hk
  · rw [Nic.Tells, (hnic _).1, (hnic _).2] at htells
    exact h.told t ht htells

theorem tally_write (hgens : (n.sessions.map SmInfo.gen).Nodup) (hs : s ∈ n.sessions)
    (hgen : s'.gen = s.gen) (i : Nat) :
    tally (n.write s') i + (if counted i s then 1 else 0) =
      tally n i + (if counted i s' then 1 else 0) :=
  countP_writeKey (counted i) hgens hs hgen.symm

theorem tally_free (hgens : (n.sessions.map SmInfo.gen).Nodup) (hs : s ∈ n.sessions) (i : Nat) :
    tally (n.free s.gen) i + (if counted i s then 1 else 0) = tally n i :=
  countP_removeKey (counted i) hgens hs

/-- A session is written back that is not counted anew, and need not be. -/
theorem HeardBut.write (h : HeardBut s.gen n) (hgens : (n.sessions.map SmInfo.gen).Nodup)
    (hs : s ∈ n.sessions) (hgen : s'.gen = s.gen) (hnic : s'.nic = s.nic)
    (hflag : s'.flags.usrNotified = true → s.flags.usrNotified = true)
    (htold : (n.nics s.nic).Tells → s'.pkt.state.final = true → s.gen ∉ n.smList →
      s'.flags.usrNotified = true) : Heard (n.write s') where
  enough i k hchnl hk := by
    have hold : (tally n i : Int) ≤ k := h.enough i k hchnl hk
    have htally := tally_write hgens hs hgen i
    have hless : (if counted i s' then 1 else 0) ≤ (if counted i s then 1 else 0) := by
      by_cases hs' : counted i s' = true
      · have hs : counted i s = true := by
          rw [counted, Bool.and_eq_true, decide_eq_true_iff] at hs' ⊢
          exact ⟨hnic ▸ hs'.1, hflag hs'.2⟩
        exact Nat.le_of_eq ((if_pos hs').trans (if_pos hs).symm)
      · rw [if_neg hs']
        exact Nat.zero_le _
    omega
  told t ht htells hfinal hlist := by
    rcases mem_writeKey ht with rfl | ⟨ht, hne⟩
    · rw [hnic] at htells
      rw [hgen] at hlist
      exact htold htells hfinal hlist
    · exact h.told t ht (hgen ▸ hne) htells hfinal hlist

/-- A notification counts the session, if it was not. -/
theorem HeardBut.notify (h : HeardBut s.gen n) (hgens : (n.sessions.map SmInfo.gen).Nodup)
    (hs : s ∈ n.sessions) (hgen : s'.gen = s.gen) (hnic : s'.nic = s.nic)
    (hflag : s'.flags.usrNotified = s.flags.usrNotified) : Heard (n.notify s') := by
  unfold Node.notify
  by_cases hcnt : ((n.nics s'.nic).datagramCnt.isSome && !s'.flags.usrNotified) = true
  · rw [if_pos hcnt]
    rw [Bool.and_eq_true, Bool.not_eq_true'] at hcnt
    obtain ⟨k₀, hk₀⟩ := Option.isSome_iff_exists.mp hcnt.1
    refine ⟨fun i k hchnl hk => ?_, fun t ht htells hfinal hlist => ?_⟩
    -- one session more is counted on this NIC, and the counter goes up by one
    · have hngen : s'.notified.gen = s.gen := hgen
      have htally := tally_write hgens hs hngen i
      have hbefore : counted i s = false := by
        rw [counted, ← hflag, hcnt.2, Bool.and_false]
      rw [hbefore, if_neg Bool.false_ne_true, Nat.add_zero] at htally
      change ((n.count s'.nic 1).nics i).chnl = true at hchnl
      change ((n.count s'.nic 1).nics i).datagramCnt = some k at hk
      show (tally (n.write s'.notified) i : Int) ≤ k
      rw [htally]
      rcases eq_or_ne i s'.nic with rfl | hne
      · rw [Node.count, Node.nics_setNic_self] at hchnl hk
        have hold := h.enough _ k₀ hchnl hk₀
        have hk' : k₀ + 1 = k := by simpa [hk₀] using hk
        split
        · omega
        · omega
      · rw [Node.count, Node.nics_setNic_of_ne hne] at hchnl hk
        have hold := h.enough i k hchnl hk
        have hother : counted i s'.notified = false := by
          rw [counted, decide_eq_false fun h => hne h.symm, Bool.false_and]
        rw [hother, if_neg Bool.false_ne_true]
        exact hold
    · rcases mem_writeKey ht with rfl | ⟨ht, hne⟩
      · rfl
      · refine h.told t ht (hgen ▸ hne) ?_ hfinal hlist
        rcases eq_or_ne t.nic s'.nic with heq | hne'
        · rw [Nic.Tells] at htells ⊢
          change ((n.count s'.nic 1).nics t.nic).chnl = true ∧ _ at htells
          rw [heq] at htells ⊢
          rw [Node.count, Node.nics_setNic_self] at htells
          exact ⟨htells.1, hcnt.1⟩
        · change ((n.count s'.nic 1).nics t.nic).Tells at htells
          rwa [Node.count, Node.nics_setNic_of_ne hne'] at htells
  · rw [if_neg hcnt]
    refine h.write hgens hs hgen hnic (fun hs' => hflag ▸ hs') fun htells _ _ => ?_
    rw [Bool.and_eq_true, Bool.not_eq_true', not_and, Bool.not_eq_false] at hcnt
    exact hcnt (hnic ▸ htells.2)

/-! ### The moves keep it -/

theorem Heard.add (h : Heard n) (hflag : s.flags.usrNotified = false)
    (hfinal : s.pkt.state.final = false) : Heard (n.add s) where
  enough i k hchnl hk := by
    have hnew : counted i s = false := by rw [counted, hflag, Bool.and_false]
    have hsame : tally (n.add s) i = tally n i := by
      show (n.sessions ++ [s]).countP (counted i) = _
      rw [List.countP_append, List.countP_singleton, hnew]
      rfl
    rw [hsame]
    exact h.enough i k hchnl hk
  told t ht htells hfin hlist := by
    rcases List.mem_append.mp ht with ht | ht
    · exact h.told t ht htells hfin hlist
    · obtain rfl := List.mem_singleton.mp ht
      rw [hfinal] at hfin
      cases hfin

/-- A session is freed, and the counter changes by no more than it was worth. -/
theorem Heard.free (h : Heard n) (hgens : (n.sessions.map SmInfo.gen).Nodup) (hs : s ∈ n.sessions)
    {d : Int} (hd : 0 ≤ d ∨ d = -1 ∧ ((n.nics s.nic).Tells → s.flags.usrNotified = true)) :
    Heard ((n.count s.nic d).free s.gen) := by
  refine ⟨fun i k hchnl hk => ?_, fun t ht htells hfinal hlist => ?_⟩
  · have htally : tally ((n.count s.nic d).free s.gen) i + _ = tally n i := tally_free hgens hs i
    change ((n.count s.nic d).nics i).chnl = true at hchnl
    change ((n.count s.nic d).nics i).datagramCnt = some k at hk
    rcases eq_or_ne i s.nic with rfl | hne
    · rw [Node.count, Node.nics_setNic_self] at hchnl hk
      obtain ⟨k₀, hk₀, rfl⟩ := Option.map_eq_some_iff.mp hk
      have hold := h.enough _ k₀ hchnl hk₀
      rcases hd with hd | ⟨rfl, hflag⟩
      · omega
      · have hone : counted s.nic s = true := by
          rw [counted, decide_eq_true rfl, Bool.true_and]
          exact hflag ⟨hchnl, hk₀ ▸ rfl⟩
        rw [if_pos hone] at htally
        omega
    · rw [Node.count, Node.nics_setNic_of_ne hne] at hchnl hk
      have hold := h.enough i k hchnl hk
      omega
  · obtain ⟨ht, hne⟩ := mem_removeKey.mp ht
    refine h.told t ht ?_ hfinal hlist
    change ((n.count s.nic d).nics t.nic).Tells at htells
    rcases eq_or_ne t.nic s.nic with heq | hne'
    · rw [Nic.Tells, heq, Node.count, Node.nics_setNic_self, Option.isSome_map] at htells
      rw [Nic.Tells, heq]
      exact htells
    · rwa [Node.count, Node.nics_setNic_of_ne hne'] at htells

/-- A session that is written back on the list need not be counted. -/
theorem Heard.write_listed (h : Heard n) (hgens : (n.sessions.map SmInfo.gen).Nodup)
    (hs : s ∈ n.sessions) (hgen : s'.gen = s.gen) (hnic : s'.nic = s.nic)
    (hflag : s'.flags.usrNotified = true → s.flags.usrNotified = true)
    (hlist : s.gen ∈ n.smList) : Heard (n.write s') :=
  (h.but s.gen).write hgens hs hgen hnic hflag fun _ _ hno => absurd hlist hno

theorem settle_flags (s : SmInfo) : s.settle.flags = s.flags := by
  unfold SmInfo.settle
  split <;> rfl

theorem begun_flag (n : Node) (i : Nat) (a : PostArgs) (p : Post) :
    (begun n i a p).flags.usrNotified = false := by
  show (if p.remote.pe ≠ any then SmFlags.changed else ⟨false, false, false⟩).usrNotified = false
  split <;> rfl

namespace Heard

theorem setHandlers (h : Heard n) (rs : List Handler) : Heard { n with handlers := rs } :=
  ⟨h.enough, h.told⟩

theorem answered (h : Heard n) (hinv : Inv c n) (hs : s ∈ n.sessions) (a : PostArgs) (p : Post) :
    Heard ((n.write (answered a p s)).enlist s.gen) := by
  show Heard ((n.enlist s.gen).write (Datagram.answered a p s))
  refine (h.enlist s.gen).write_listed hinv.gens hs rfl rfl ?_ List.mem_cons_self
  intro hflag
  cases hflag

theorem begun (h : Heard n) (i : Nat) (a : PostArgs) (p : Post) : Heard (n.add (begun n i a p)) :=
  h.add (s := Datagram.begun n i a p) (begun_flag n i a p) rfl

/-- A session is written and put on the list, if it was not there. -/
theorem write_enlistNew (h : Heard n) (hinv : Inv c n) (hs : s ∈ n.sessions)
    (hgen : s'.gen = s.gen) (hnic : s'.nic = s.nic)
    (hflag : s'.flags.usrNotified = true → s.flags.usrNotified = true) :
    Heard ((n.write s').enlistNew s.gen) := by
  rw [Node.enlistNew_write]
  refine (h.enlistNew s.gen).write_listed (s := s) ?_ ?_ hgen hnic hflag (mem_enlistNew n s.gen)
  · rw [(n.enlistNew_rest s.gen).2.2]
    exact hinv.gens
  · rw [(n.enlistNew_rest s.gen).2.2]
    exact hs

theorem ending (h : Heard n) (hinv : Inv c n) (hs : s ∈ n.sessions) :
    Heard ((n.write s.ending).enlistNew s.gen) := by
  refine h.write_enlistNew hinv hs rfl rfl ?_
  intro hflag
  cases hflag

theorem booked (h : Heard n) (hinv : Inv c n) (hs : s ∈ n.sessions) (hbook : s.Booked s') :
    Heard (n.write s') := by
  obtain ⟨_, _, _, _, _, _, rfl⟩ := hbook
  exact (h.but s.gen).write hinv.gens hs rfl rfl id fun htells hfinal hlist =>
    h.told s hs htells hfinal hlist

theorem sent (h : Heard n) (hinv : Inv c n) (hs : s ∈ n.sessions) (hlist : s.gen ∈ n.smList)
    (hbook : s.Booked s') (pkts : Nat → Option Nat) (k : Nat) :
    Heard ((n.setNic s.nic { n.nics s.nic with smPkts := some pkts, smPktId := k }).write
      s'.launch) := by
  obtain ⟨_, _, _, _, _, _, rfl⟩ := hbook
  have hnic : Heard (n.setNic s.nic { n.nics s.nic with smPkts := some pkts, smPktId := k }) :=
    h.setNic rfl rfl
  exact hnic.write_listed hinv.gens hs rfl rfl id hlist

theorem shut (h : Heard n) (hinv : Inv c n) (hs : s ∈ n.sessions)
    (hchnl : (n.nics s.nic).chnl = false) : Heard ((n.delist s.gen).write s.settle) := by
  refine (h.delist s.gen).write hinv.gens hs s.settle_like.gen s.settle_like.nic
    (by rw [settle_flags]; exact id) fun htells => ?_
  have htells : (n.nics s.nic).Tells := htells
  rw [Nic.Tells, hchnl] at htells
  cases htells.1

/-- The session of a handler is on the list. -/
theorem listed_of_handler (hinv : Inv c n) (hs : s ∈ n.sessions) {r : Handler}
    (hr : r ∈ n.handlers) (hgen : s.gen = r.gen) : s.gen ∈ n.smList := by
  by_contra hno
  exact hinv.no_handler hs ((hinv.session s hs).quiet hno) hr hgen.symm

theorem marked (h : Heard n) (hinv : Inv c n) (hs : s ∈ n.sessions) {r : Handler}
    (hr : r ∈ n.handlers) (hgen : s.gen = r.gen) (rs : List Handler) :
    Heard { n.write (r.report s) with handlers := rs } := by
  have hlike := s.report_like r
  have hflag : (r.report s).flags.usrNotified = s.flags.usrNotified := by
    unfold Handler.report
    split <;> rfl
  refine (h.write_listed hinv.gens hs hlike.gen hlike.nic ?_
    (listed_of_handler hinv hs hr hgen)).setHandlers rs
  rw [hflag]
  exact id

theorem landed (h : Heard n) (hinv : Inv c n) (hs : s ∈ n.sessions) {r : Handler}
    (hr : r ∈ n.handlers) (hgen : s.gen = r.gen) (rs : List Handler) :
    Heard { n.write s.land with handlers := rs } := by
  have hwrite : Heard (n.write s.land) :=
    h.write_listed hinv.gens hs rfl rfl id (listed_of_handler hinv hs hr hgen)
  exact hwrite.setHandlers rs

theorem withdrawn (h : Heard n) (hinv : Inv c n) (hs : s ∈ n.sessions) :
    Heard (n.free s.gen) := by
  have hcount : n.count s.nic 0 = n := by
    have hnic : { n.nics s.nic with datagramCnt := (n.nics s.nic).datagramCnt.map (· + 0) }
        = n.nics s.nic := by
      have hid : (fun k : Int => k + 0) = id := funext Int.add_zero
      rw [hid, Option.map_id_apply]
    rw [Node.count, hnic, Node.setNic, Function.update_eq_self]
  have hfree := h.free hinv.gens hs (d := 0) (.inl (Int.le_refl 0))
  rwa [hcount] at hfree

theorem bound (h : Heard n) (hinv : Inv c n) (hs : s ∈ n.sessions) (p : SmPkt) (d : List UInt8) :
    Heard ((n.write (s.bind p d)).enlist s.gen) := by
  show Heard ((n.enlist s.gen).write (s.bind p d))
  refine (h.enlist s.gen).write_listed hinv.gens hs rfl rfl ?_ List.mem_cons_self
  intro hflag
  cases hflag

/-- A NIC that is attached has no sessions yet, and its counter starts at no less than 0. -/
theorem attached (h : Heard n) (hinv : Inv c n) {i : Nat} (hnone : (n.nics i).cdm = none)
    (cdm : Cdm) {cnt : Option Int} (hcnt : ∀ k, cnt = some k → 0 ≤ k) (kernel : Bool) :
    Heard (attach n i cdm cnt kernel) := by
  have hother {t : SmInfo} (ht : t ∈ n.sessions) : t.nic ≠ i := by
    rintro rfl
    obtain ⟨cdm', hcdm', -⟩ := (hinv.session t ht).home
    rw [hnone] at hcdm'
    cases hcdm'
  rw [attach, hnone]
  refine ⟨fun j k hchnl hk => ?_, fun t ht htells => ?_⟩
  · change ((n.setNic i _).nics j).chnl = true at hchnl
    change ((n.setNic i _).nics j).datagramCnt = some k at hk
    show (tally n j : Int) ≤ k
    rcases eq_or_ne j i with rfl | hne
    · rw [Node.nics_setNic_self] at hk
      have hzero : tally n j = 0 := by
        rw [tally, List.countP_eq_zero]
        intro t ht
        rw [counted, decide_eq_false (hother ht), Bool.false_and]
        exact Bool.false_ne_true
      rw [hzero]
      exact hcnt k hk
    · rw [Node.nics_setNic_of_ne hne] at hchnl hk
      exact h.enough j k hchnl hk
  · change ((n.setNic i _).nics t.nic).Tells at htells
    rw [Node.nics_setNic_of_ne (hother ht)] at htells
    exact h.told t ht htells

/-- A NIC without its channel does not tell its application. -/
theorem closing (h : Heard n) (i : Nat) : Heard (detachChnl n i) := by
  refine ⟨fun j k hchnl hk => ?_, fun t ht htells => ?_⟩
  · change ((n.setNic i _).nics j).chnl = true at hchnl
    change ((n.setNic i _).nics j).datagramCnt = some k at hk
    rcases eq_or_ne j i with rfl | hne
    · rw [Node.nics_setNic_self] at hchnl
      cases hchnl
    · rw [Node.nics_setNic_of_ne hne] at hchnl hk
      exact h.enough j k hchnl hk
  · change ((n.setNic i _).nics t.nic).Tells at htells
    rcases eq_or_ne t.nic i with heq | hne
    · rw [heq, Node.nics_setNic_self] at htells
      cases htells.1
    · rw [Node.nics_setNic_of_ne hne] at htells
      exact h.told t ht htells

theorem detached (h : Heard n) (hinv : Inv c n) (i : Nat) : Heard (detach n i) := by
  have hnic {j : Nat} : ((detach n i).nics j).chnl = (n.nics j).chnl ∧
      ((detach n i).nics j).datagramCnt = (n.nics j).datagramCnt := by
    show (Function.update n.nics i _ j).chnl = _ ∧
      (Function.update n.nics i _ j).datagramCnt = _
    rcases eq_or_ne j i with rfl | hne
    · rw [Function.update_self]
      exact ⟨rfl, rfl⟩
    · rw [Function.update_of_ne hne]
      exact ⟨rfl, rfl⟩
  refine ⟨fun j k hchnl hk => ?_, fun t ht htells hfinal hlist => ?_⟩
  · rw [hnic.1] at hchnl
    rw [hnic.2] at hk
    have hless : tally (detach n i) j ≤ tally n j := List.filter_sublist.countP_le
    have hold := h.enough j k hchnl hk
    omega
  · rw [Nic.Tells, hnic.1, hnic.2] at htells
    obtain ⟨ht, hti⟩ := List.mem_filter.mp ht
    refine h.told t ht htells hfinal fun hmem => hlist ?_
    refine List.mem_filter.mpr ⟨hmem, decide_eq_true ?_⟩
    intro hgone
    obtain ⟨u, hu, hgen⟩ := List.mem_map.mp hgone
    obtain ⟨hu, hui⟩ := mem_sessionsOf.mp hu
    rw [hinv.eq_of_gen hu ht hgen] at hui
    exact of_decide_eq_true hti hui

end Heard

/-- **A move keeps up with the counter**, unless it is the test that leaves a session. -/
theorem Move.heard {n' : Node} {l : Label} (hmove : Move c n l n') (hinv : Inv c n) (h : Heard n)
    (hl : l ≠ .missed) : Heard n' := by
  have hgens := hinv.gens
  cases hmove with
  | answered hs hstate hlist hp hto => exact h.answered hinv hs _ _
  | begun hp hnew hpe hid => exact (h.begun _ _ _).enlist _
  | opened hp hpe => exact h.begun _ _ _
  | dropped hs hpe => exact h.free hgens hs (d := 1) (.inl (by decide))
  | ending hs hpe => exact h.ending hinv hs
  | booked hs hbook => exact h.booked hinv hs hbook
  | picked hs hfinal hlist =>
      exact h.free hgens hs (.inr ⟨rfl, fun htells => h.told _ hs htells hfinal hlist⟩)
  | missed hs hfinal hlist hvirt => exact absurd rfl hl
  | expired hs hlist hout => exact (h.delist _).notify hgens hs rfl rfl rfl
  | sent hs hlist hout hstate hbook hpkts hk hfree => exact h.sent hinv hs hlist hbook _ _
  | @settled s hs hlist hout hchnl =>
      exact (h.delist s.gen).notify hgens hs s.settle_like.gen s.settle_like.nic
        (by rw [settle_flags])
  | shut hs hlist hout hchnl => exact h.shut hinv hs hchnl
  | @found s e pkts hs hnic hpkts hslot =>
      have hpart : Heard (n.setNic e.nic { n.nics e.nic with
          smPkts := Function.update pkts e.pktId none }) := h.setNic rfl rfl
      exact hpart.setHandlers _
  | marked hs hr hgen => exact h.marked hinv hs hr hgen _
  | landed hs hr hgen => exact h.landed hinv hs hr hgen _
  | withdrawn hs hstate hlist => exact h.withdrawn hinv hs
  | @cut s p hs hstate hpe => exact (h.but s.gen).notify hgens hs rfl rfl rfl
  | crossed hs hstate hp hfor hfresh hcookie hpe hd => exact h.write_enlistNew hinv hs rfl rfl id
  | @completed s p d hs hstate hp hfor hfresh hcookie hpe hd =>
      exact (h.but s.gen).notify hgens hs rfl rfl rfl
  | bound hs hopen hlist hp hgen hcookie hfrom hd => exact h.bound hinv hs _ _
  | @offered i cdm p d hcdm hcookie hto hp hgen hnew hfrom hd =>
      exact h.add (s := Datagram.offered n i cdm p d) rfl rfl
  | attached hcdm hid hcnt => exact h.attached hinv hcdm _ hcnt _
  | configured => exact h.setNic rfl rfl
  | closing => exact h.closing _
  | detached hquiet => exact h.detached hinv _

theorem Moves.heard {n' : Node} {ls : List Label} (hmoves : Moves c n ls n') (hinv : Inv c n)
    (h : Heard n) (hls : .missed ∉ ls) : Heard n' := by
  induction hmoves with
  | refl => exact h
  | head hm _ ih =>
      rw [List.mem_cons, not_or] at hls
      exact ih (hm.inv hinv) (hm.heard hinv h (Ne.symm hls.1)) hls.2

/-! ### Runs -/

/-- No test meets a finished session whose peer has no virtual address. -/
def RunKnown (c : Config) (n : Node) : List Op → Prop
  | [] => True
  | op :: ops => (∀ i a, op = .test i a → ¬ Lost n i) ∧
      ∀ n' out, step c n op = .ok (n', out) → RunKnown c n' ops

theorem run_heard (hinv : Inv c n) (h : Heard n) {ops : List Op} (hfair : RunFair c n ops)
    (hknown : RunKnown c n ops) :
    ∃ n' sent, run c n ops = .ok (n', sent) ∧ Heard n' := by
  induction ops generalizing n with
  | nil => exact ⟨n, [], rfl, h⟩
  | cons op ops ih =>
      obtain ⟨n₁, out, ls, hstep, hmoves, hseen⟩ := step_moves hinv hfair.1
      have hls : .missed ∉ ls := by
        rcases hseen with hseen | ⟨-, -, i, a, hop, hlost⟩
        · exact hseen.unmissed
        · exact absurd hlost (hknown.1 i a hop)
      obtain ⟨n₂, sent, hrun, hheard⟩ := ih (hmoves.inv hinv) (hmoves.heard hinv h hls)
        (hfair.2 n₁ out hstep) (hknown.2 n₁ out hstep)
      refine ⟨n₂, out.sent ++ sent, ?_, hheard⟩
      rw [run, hstep]
      dsimp only
      rw [hrun]
      rfl

/-- The session can be taken away. -/
def finished (n : Node) (s : SmInfo) : Bool := decide (s.gen ∉ n.smList) && s.pkt.state.final

/-- The counter is no less than the number of sessions that can be taken away. -/
theorem Heard.covers (h : Heard n) {i : Nat} {k : Int} (hchnl : (n.nics i).chnl = true)
    (hk : (n.nics i).datagramCnt = some k) : ((n.sessionsOf i).countP (finished n) : Int) ≤ k := by
  have hless : (n.sessionsOf i).countP (finished n) ≤ tally n i := by
    rw [Node.sessionsOf, List.countP_filter, tally]
    apply List.countP_mono_left
    intro s hs hfin
    rw [Bool.and_eq_true, decide_eq_true_iff, finished, Bool.and_eq_true, decide_eq_true_iff]
      at hfin
    obtain ⟨⟨hlist, hfinal⟩, rfl⟩ := hfin
    rw [counted, decide_eq_true rfl, Bool.true_and]
    exact h.told s hs ⟨hchnl, hk ▸ rfl⟩ hfinal hlist
  exact Int.le_trans (Int.ofNat_le.mpr hless) (h.enough i k hchnl hk)

end Nvl.Datagram

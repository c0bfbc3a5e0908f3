/-
Nvl/Datagram/Moves.lean

What can happen on a node, move by move, and what every move keeps.

Whatever the functions of session management do is one or several of the moves listed in
`Move`.  They keep what the functions rely on (`Move.inv`): the list of the task holds
sessions that exist, a session has at most one packet under way and is on the list as long as
it has, such a packet has a place in the table or an event handler that is at work on it, and
what the peer began or nobody has matched is not on the list.
-/
import Nvl.Datagram.Session
import Mathlib.Algebra.Group.Nat.Defs
import Mathlib.Data.List.Count

namespace Nvl.Datagram

open SysLib

/-! ### What is kept -/

/-- The session whose packet has the number. -/
def Node.slot (n : Node) (i k : Nat) : Option Nat := (n.nics i).smPkts.bind fun pkts => pkts k

theorem Node.nics_setNic_self (n : Node) (i : Nat) (nic : Nic) : (n.setNic i nic).nics i = nic :=
  Function.update_self ..

theorem Node.nics_setNic_of_ne {n : Node} {i j : Nat} (hne : j ≠ i) (nic : Nic) :
    (n.setNic i nic).nics j = n.nics j :=
  Function.update_of_ne hne ..

theorem Node.enlistNew_rest (n : Node) (g : Nat) : (n.enlistNew g).pe = n.pe ∧
    (n.enlistNew g).smGeneration = n.smGeneration ∧ (n.enlistNew g).sessions = n.sessions := by
  unfold enlistNew
  split
  · exact ⟨rfl, rfl, rfl⟩
  · exact ⟨rfl, rfl, rfl⟩

/-- The packet of the session is in the table, or an event handler is at work on it. -/
def SmInfo.Pending (n : Node) (s : SmInfo) : Prop :=
  (∃ k, n.slot s.nic k = some s.gen) ∨ ∃ r ∈ n.handlers, r.gen = s.gen

/-- Of a session. -/
structure SmInfo.Sane (n : Node) (s : SmInfo) : Prop where
  home : ∃ cdm, (n.nics s.nic).cdm = some cdm ∧ s.pkt.cookie = cdm.cookie ∧
    s.pkt.localId = ⟨n.pe, cdm.instId⟩
  out : s.pktsOut = 0 ∨ s.pktsOut = 1 ∧ s.Pending n
  quiet : s.gen ∉ n.smList → s.pktsOut = 0
  offer : s.pkt.state = .reminfoReady → s.gen ∉ n.smList
  opened : s.pkt.remoteId.pe = any → s.gen ∉ n.smList ∧ s.pkt.state = .locinfoReady
  whole : s.pkt.remoteId.pe ≠ any → s.pkt.remoteId.instId ≠ any
  expired : s.pkt.state = .timeout → s.gen ∉ n.smList
  data : s.pkt.state = .locinfoReady ∨ s.pkt.state = .completed →
    ∃ d, s.pkt.localUdata = some d ∧ d.length ≤ datagramMaxsize

/-- Of a node. -/
structure Inv (c : Config) (n : Node) : Prop where
  pe : n.pe ≠ any
  pos : 0 < n.smGeneration
  gens : (n.sessions.map SmInfo.gen).Nodup
  fresh : ∀ s ∈ n.sessions, 0 < s.gen ∧ s.gen < n.smGeneration
  listed : ∀ g ∈ n.smList, ∃ s ∈ n.sessions, s.gen = g
  nodup : n.smList.Nodup
  table : ∀ i, ((n.nics i).cdm.isSome → (n.nics i).smPkts.isSome) ∧
    (n.nics i).smPktId ≤ c.maxTxPkts ∧ n.slot i (n.nics i).smPktId = none
  inst : ∀ i cdm, (n.nics i).cdm = some cdm → cdm.instId ≠ any
  slots : ∀ i k g, n.slot i k = some g → ∃ s ∈ n.sessions, s.gen = g ∧ s.nic = i ∧ s.pktsOut = 1
  slot_inj : ∀ i k l g, n.slot i k = some g → n.slot i l = some g → k = l
  single : (n.handlers.map Handler.gen).Nodup
  handled : ∀ r ∈ n.handlers, ∃ s ∈ n.sessions, s.gen = r.gen ∧ s.nic = r.nic ∧ s.pktsOut = 1
  apart : ∀ r ∈ n.handlers, ∀ i k, n.slot i k ≠ some r.gen
  session : ∀ s ∈ n.sessions, s.Sane n

namespace Inv

variable {c : Config} {n : Node} {s s' : SmInfo}

theorem eq_of_gen (h : Inv c n) (hs : s ∈ n.sessions) (hs' : s' ∈ n.sessions)
    (hgen : s.gen = s'.gen) : s = s' :=
  List.inj_on_of_nodup_map h.gens hs hs' hgen

theorem find_eq (h : Inv c n) (hs : s ∈ n.sessions) : n.find s.gen = some s :=
  findKey_eq h.gens hs

/-- A session that is not on the list has no packet under way. -/
theorem no_slot (h : Inv c n) (hs : s ∈ n.sessions) (hout : s.pktsOut = 0) (i k : Nat) :
    n.slot i k ≠ some s.gen := by
  intro hslot
  obtain ⟨t, ht, hgen, -, hone⟩ := h.slots i k s.gen hslot
  rw [h.eq_of_gen ht hs hgen, hout] at hone
  exact absurd hone (by decide)

theorem no_handler (h : Inv c n) (hs : s ∈ n.sessions) (hout : s.pktsOut = 0) {r : Handler}
    (hr : r ∈ n.handlers) : r.gen ≠ s.gen := by
  intro hgen
  obtain ⟨t, ht, htgen, -, hone⟩ := h.handled r hr
  rw [h.eq_of_gen ht hs (htgen.trans hgen), hout] at hone
  exact absurd hone (by decide)

theorem handler_eq (h : Inv c n) {r : Handler} (hr : r ∈ n.handlers) :
    n.handler r.gen = some r :=
  findKey_eq h.single hr

/-- A session is written back. -/
theorem write (h : Inv c n) (hs : s ∈ n.sessions) (hgen : s'.gen = s.gen) (hnic : s'.nic = s.nic)
    (hout : s'.pktsOut = s.pktsOut) (hsane : s'.Sane n) : Inv c (n.write s') where
  pe := h.pe
  pos := h.pos
  gens := by
    show ((writeKey SmInfo.gen n.sessions s').map SmInfo.gen).Nodup
    rw [map_key_writeKey]
    exact h.gens
  fresh t ht := by
    rcases mem_writeKey ht with rfl | ⟨ht, -⟩
    · rw [hgen]
      exact h.fresh s hs
    · exact h.fresh t ht
  listed g hg := by
    obtain ⟨t, ht, rfl⟩ := h.listed g hg
    by_cases hkey : t.gen = s'.gen
    · exact ⟨s', mem_writeKey_self ht hkey, hkey.symm⟩
    · exact ⟨t, mem_writeKey_of_ne ht hkey, rfl⟩
  nodup := h.nodup
  table := h.table
  inst := h.inst
  slots i k g hslot := by
    obtain ⟨t, ht, rfl, hti, hone⟩ := h.slots i k g hslot
    by_cases hkey : t.gen = s'.gen
    · obtain rfl := h.eq_of_gen ht hs (hkey.trans hgen)
      exact ⟨s', mem_writeKey_self ht hkey, hkey.symm, hnic.trans hti, hout.trans hone⟩
    · exact ⟨t, mem_writeKey_of_ne ht hkey, rfl, hti, hone⟩
  slot_inj := h.slot_inj
  single := h.single
  handled r hr := by
    obtain ⟨t, ht, htgen, hti, hone⟩ := h.handled r hr
    by_cases hkey : t.gen = s'.gen
    · obtain rfl := h.eq_of_gen ht hs (hkey.trans hgen)
      exact ⟨s', mem_writeKey_self ht hkey, hkey.symm.trans htgen, hnic.trans hti,
        hout.trans hone⟩
    · exact ⟨t, mem_writeKey_of_ne ht hkey, htgen, hti, hone⟩
  apart := h.apart
  session t ht := by
    rcases mem_writeKey ht with rfl | ⟨ht, -⟩
    · exact ⟨hsane.home, hsane.out, hsane.quiet, hsane.offer, hsane.opened, hsane.whole,
        hsane.expired, hsane.data⟩
    · have ht := h.session t ht
      exact ⟨ht.home, ht.out, ht.quiet, ht.offer, ht.opened, ht.whole, ht.expired, ht.data⟩

/-- A session goes on the list. -/
theorem enlist (h : Inv c n) (hs : s ∈ n.sessions) (hlist : s.gen ∉ n.smList)
    (hoffer : s.pkt.state ≠ .reminfoReady) (htime : s.pkt.state ≠ .timeout)
    (hpe : s.pkt.remoteId.pe ≠ any) : Inv c (n.enlist s.gen) where
  pe := h.pe
  pos := h.pos
  gens := h.gens
  fresh := h.fresh
  listed g hg := by
    rcases List.mem_cons.mp hg with rfl | hg
    · exact ⟨s, hs, rfl⟩
    · exact h.listed g hg
  nodup := List.nodup_cons.mpr ⟨hlist, h.nodup⟩
  table := h.table
  inst := h.inst
  slots := h.slots
  slot_inj := h.slot_inj
  single := h.single
  handled := h.handled
  apart := h.apart
  session t ht := by
    have hsane := h.session t ht
    have hnew (hno : t.gen ∉ n.smList) (hne : t ≠ s) : t.gen ∉ s.gen :: n.smList := by
      intro hmem
      rcases List.mem_cons.mp hmem with hgen | hmem
      · exact hne (h.eq_of_gen ht hs hgen)
      · exact hno hmem
    refine ⟨hsane.home, hsane.out, fun hno => hsane.quiet fun hmem => hno (.tail _ hmem),
      fun hstate => hnew (hsane.offer hstate) ?_, fun hany => ?_, hsane.whole,
      fun hstate => hnew (hsane.expired hstate) ?_, hsane.data⟩
    · rintro rfl
      exact hoffer hstate
    · have hold := hsane.opened hany
      refine ⟨hnew hold.1 ?_, hold.2⟩
      rintro rfl
      exact hpe hany
    · rintro rfl
      exact htime hstate

theorem enlistNew (h : Inv c n) (hs : s ∈ n.sessions) (hoffer : s.pkt.state ≠ .reminfoReady)
    (htime : s.pkt.state ≠ .timeout) (hpe : s.pkt.remoteId.pe ≠ any) :
    Inv c (n.enlistNew s.gen) := by
  unfold Node.enlistNew
  split
  · exact h
  · next hlist => exact h.enlist hs hlist hoffer htime hpe

/-- A session without a packet under way leaves the list. -/
theorem delist (h : Inv c n) (hs : s ∈ n.sessions) (hout : s.pktsOut = 0) :
    Inv c (n.delist s.gen) where
  pe := h.pe
  pos := h.pos
  gens := h.gens
  fresh := h.fresh
  listed g hg := h.listed g (List.mem_of_mem_filter hg)
  nodup := h.nodup.filter _
  table := h.table
  inst := h.inst
  slots := h.slots
  slot_inj := h.slot_inj
  single := h.single
  handled := h.handled
  apart := h.apart
  session t ht := by
    have hsane := h.session t ht
    have hless (hno : t.gen ∉ n.smList) : t.gen ∉ (n.delist s.gen).smList :=
      fun hmem => hno (List.mem_of_mem_filter hmem)
    refine ⟨hsane.home, hsane.out, fun hno => ?_, fun hstate => hless (hsane.offer hstate),
      fun hany => ⟨hless (hsane.opened hany).1, (hsane.opened hany).2⟩, hsane.whole,
      fun hstate => hless (hsane.expired hstate), hsane.data⟩
    by_cases hgen : t.gen = s.gen
    · rw [h.eq_of_gen ht hs hgen]
      exact hout
    · refine hsane.quiet fun hmem => hno ?_
      exact List.mem_filter.mpr ⟨hmem, decide_eq_true hgen⟩

/-- A session that is not on the list is freed. -/
theorem free (h : Inv c n) (hs : s ∈ n.sessions) (hlist : s.gen ∉ n.smList) :
    Inv c (n.free s.gen) where
  pe := h.pe
  pos := h.pos
  gens := nodup_removeKey h.gens
  fresh t ht := h.fresh t (mem_removeKey.mp ht).1
  listed g hg := by
    obtain ⟨t, ht, rfl⟩ := h.listed g hg
    refine ⟨t, mem_removeKey.mpr ⟨ht, ?_⟩, rfl⟩
    intro hgen
    exact hlist (hgen ▸ hg)
  nodup := h.nodup
  table := h.table
  inst := h.inst
  slots i k g hslot := by
    obtain ⟨t, ht, rfl, hti, hone⟩ := h.slots i k g hslot
    refine ⟨t, mem_removeKey.mpr ⟨ht, ?_⟩, rfl, hti, hone⟩
    intro hgen
    rw [hgen] at hslot
    exact h.no_slot hs ((h.session s hs).quiet hlist) i k hslot
  slot_inj := h.slot_inj
  single := h.single
  handled r hr := by
    obtain ⟨t, ht, hgen, hti, hone⟩ := h.handled r hr
    refine ⟨t, mem_removeKey.mpr ⟨ht, ?_⟩, hgen, hti, hone⟩
    rw [hgen]
    exact h.no_handler hs ((h.session s hs).quiet hlist) hr
  apart := h.apart
  session t ht := by
    have ht := h.session t (mem_removeKey.mp ht).1
    exact ⟨ht.home, ht.out, ht.quiet, ht.offer, ht.opened, ht.whole, ht.expired, ht.data⟩

/-- A NIC changes, but not its CDM nor its packets. -/
theorem setNic (h : Inv c n) {i : Nat} {nic : Nic} (hcdm : nic.cdm = (n.nics i).cdm)
    (hpkts : nic.smPkts = (n.nics i).smPkts) (hid : nic.smPktId = (n.nics i).smPktId) :
    Inv c (n.setNic i nic) := by
  have hnic (j : Nat) : ((n.setNic i nic).nics j).cdm = (n.nics j).cdm ∧
      ((n.setNic i nic).nics j).smPkts = (n.nics j).smPkts ∧
      ((n.setNic i nic).nics j).smPktId = (n.nics j).smPktId := by
    rcases eq_or_ne j i with rfl | hne
    · rw [Node.nics_setNic_self]
      exact ⟨hcdm, hpkts, hid⟩
    · rw [Node.nics_setNic_of_ne hne]
      exact ⟨rfl, rfl, rfl⟩
  have hslot (j k : Nat) : (n.setNic i nic).slot j k = n.slot j k := by
    rw [Node.slot, Node.slot, (hnic j).2.1]
  refine ⟨h.pe, h.pos, h.gens, h.fresh, h.listed, h.nodup, fun j => ?_, fun j cdm hcdm => ?_,
    fun j k g hg => ?_, fun j k l g hk hl => ?_, h.single, h.handled, fun r hr j k => ?_,
    fun t ht => ?_⟩
  · rw [hslot, (hnic j).1, (hnic j).2.1, (hnic j).2.2]
    exact h.table j
  · rw [(hnic j).1] at hcdm
    exact h.inst j cdm hcdm
  · rw [hslot] at hg
    exact h.slots j k g hg
  · rw [hslot] at hk hl
    exact h.slot_inj j k l g hk hl
  · rw [hslot]
    exact h.apart r hr j k
  · have ht := h.session t ht
    refine ⟨?_, ?_, ht.quiet, ht.offer, ht.opened, ht.whole, ht.expired, ht.data⟩
    · rw [(hnic _).1]
      exact ht.home
    · simp only [SmInfo.Pending, hslot]
      exact ht.out

theorem count (h : Inv c n) (i : Nat) (d : Int) : Inv c (n.count i d) := h.setNic rfl rfl rfl

/-- A new session. -/
theorem add (h : Inv c n) (hgen : s.gen = n.smGeneration) (hout : s.pktsOut = 0)
    (hhome : ∃ cdm, (n.nics s.nic).cdm = some cdm ∧ s.pkt.cookie = cdm.cookie ∧
      s.pkt.localId = ⟨n.pe, cdm.instId⟩)
    (hopen : s.pkt.remoteId.pe = any → s.pkt.state = .locinfoReady)
    (hwhole : s.pkt.remoteId.pe ≠ any → s.pkt.remoteId.instId ≠ any)
    (hdata : s.pkt.state = .locinfoReady ∨ s.pkt.state = .completed →
      ∃ d, s.pkt.localUdata = some d ∧ d.length ≤ datagramMaxsize) : Inv c (n.add s) := by
  have hnew : s.gen ∉ n.smList := by
    intro hmem
    obtain ⟨t, ht, htgen⟩ := h.listed _ hmem
    have := (h.fresh t ht).2
    omega
  have hmem {t : SmInfo} (ht : t ∈ n.sessions) : t ∈ (n.add s).sessions :=
    List.mem_append_left _ ht
  refine ⟨h.pe, Nat.succ_pos _, ?_, fun t ht => ?_, fun g hg => ?_, h.nodup, h.table, h.inst,
    fun i k g hslot => ?_, h.slot_inj, h.single, fun r hr => ?_, h.apart, fun t ht => ?_⟩
  · show ((n.sessions ++ [s]).map SmInfo.gen).Nodup
    rw [List.map_append, List.map_singleton, List.nodup_append]
    refine ⟨h.gens, List.nodup_singleton _, ?_⟩
    intro g hg g' hg' heq
    obtain ⟨t, ht, rfl⟩ := List.mem_map.mp hg
    have := (h.fresh t ht).2
    rw [List.mem_singleton] at hg'
    omega
  · show 0 < t.gen ∧ t.gen < n.smGeneration + 1
    rcases List.mem_append.mp ht with ht | ht
    · have := h.fresh t ht
      omega
    · have := h.pos
      obtain rfl := List.mem_singleton.mp ht
      omega
  · obtain ⟨t, ht, rfl⟩ := h.listed g hg
    exact ⟨t, hmem ht, rfl⟩
  · obtain ⟨t, ht, rfl, hti, hone⟩ := h.slots i k g hslot
    exact ⟨t, hmem ht, rfl, hti, hone⟩
  · obtain ⟨t, ht, hgen, hti, hone⟩ := h.handled r hr
    exact ⟨t, hmem ht, hgen, hti, hone⟩
  · rcases List.mem_append.mp ht with ht | ht
    · have ht := h.session t ht
      exact ⟨ht.home, ht.out, ht.quiet, ht.offer, ht.opened, ht.whole, ht.expired, ht.data⟩
    · obtain rfl := List.mem_singleton.mp ht
      exact ⟨hhome, .inl hout, fun _ => hout, fun _ => hnew, fun hany => ⟨hnew, hopen hany⟩, hwhole,
        fun _ => hnew, hdata⟩

end Inv

/-! ### Packets under way -/

/-- The sessions agree on what `Sane` looks at, apart from the packets under way. -/
structure SmInfo.Like (s s' : SmInfo) : Prop where
  gen : s'.gen = s.gen
  nic : s'.nic = s.nic
  cookie : s'.pkt.cookie = s.pkt.cookie
  localId : s'.pkt.localId = s.pkt.localId
  remoteId : s'.pkt.remoteId = s.pkt.remoteId
  localUdata : s'.pkt.localUdata = s.pkt.localUdata

namespace Inv

variable {c : Config} {n : Node} {s s' : SmInfo}

/-- The packet of a session gets a place in the table of its NIC. -/
theorem transfer (h : Inv c n) (hs : s ∈ n.sessions) (hout : s.pktsOut = 0) (hlike : s.Like s')
    {nic : Nic}
    (hcdm : nic.cdm = (n.nics s.nic).cdm) {pkts : Nat → Option Nat}
    (hpkts : nic.smPkts = some pkts) (hid : nic.smPktId ≤ c.maxTxPkts)
    (hfree : pkts nic.smPktId = none)
    (hslots : ∀ k g, pkts k = some g → g ≠ s.gen → n.slot s.nic k = some g)
    (hkeep : ∀ k g, n.slot s.nic k = some g → g ≠ s.gen → pkts k = some g)
    (hown : ∀ k l, pkts k = some s.gen → pkts l = some s.gen → k = l)
    (hone : s'.pktsOut = 1 ∧ ∃ k, pkts k = some s.gen)
    (hsane : (s.gen ∉ n.smList → s'.pktsOut = 0) ∧
      (s'.pkt.state = .reminfoReady → s.gen ∉ n.smList) ∧
      (s.pkt.remoteId.pe = any → s.gen ∉ n.smList ∧ s'.pkt.state = .locinfoReady) ∧
      (s'.pkt.state = .timeout → s.gen ∉ n.smList) ∧
      (s'.pkt.state = .locinfoReady ∨ s'.pkt.state = .completed →
        ∃ d, s'.pkt.localUdata = some d ∧ d.length ≤ datagramMaxsize)) :
    Inv c ((n.setNic s.nic nic).write s') := by
  have hslot (j k : Nat) : ((n.setNic s.nic nic).write s').slot j k =
      if j = s.nic then pkts k else n.slot j k := by
    show ((n.setNic s.nic nic).nics j).smPkts.bind _ = _
    split
    · next hj => rw [hj, Node.nics_setNic_self, hpkts]; rfl
    · next hj => rw [Node.nics_setNic_of_ne hj]; rfl
  have hcdm' (j : Nat) : ((n.setNic s.nic nic).nics j).cdm = (n.nics j).cdm := by
    rcases eq_or_ne j s.nic with rfl | hne
    · rw [Node.nics_setNic_self, hcdm]
    · rw [Node.nics_setNic_of_ne hne]
  have hmem {t : SmInfo} (ht : t ∈ n.sessions) (hne : t.gen ≠ s.gen) :
      t ∈ ((n.setNic s.nic nic).write s').sessions :=
    mem_writeKey_of_ne ht (hlike.gen ▸ hne)
  have hself : s' ∈ ((n.setNic s.nic nic).write s').sessions :=
    mem_writeKey_self hs hlike.gen.symm
  -- a slot after the change belongs to the session or is an old one
  have hcase (j k g : Nat) (hg : ((n.setNic s.nic nic).write s').slot j k = some g) :
      g = s.gen ∧ j = s.nic ∧ pkts k = some s.gen ∨ g ≠ s.gen ∧ n.slot j k = some g := by
    rw [hslot] at hg
    split at hg
    · next hj =>
        rcases eq_or_ne g s.gen with rfl | hne
        · exact .inl ⟨rfl, hj, hg⟩
        · exact .inr ⟨hne, hj ▸ hslots k g hg hne⟩
    · next hj =>
        refine .inr ⟨?_, hg⟩
        rintro rfl
        obtain ⟨t, ht, hgen, hti, -⟩ := h.slots j k _ hg
        rw [h.eq_of_gen ht hs hgen] at hti
        exact hj hti.symm
  refine ⟨h.pe, h.pos, ?_, fun t ht => ?_, fun g hg => ?_, h.nodup, fun j => ?_,
    fun j cdm hj => ?_, fun j k g hg => ?_, fun j k l g hk hl => ?_, h.single, fun r hr => ?_,
    fun r hr j k hg => ?_, fun t ht => ?_⟩
  · show ((writeKey SmInfo.gen n.sessions s').map SmInfo.gen).Nodup
    rw [map_key_writeKey]
    exact h.gens
  · rcases mem_writeKey ht with rfl | ⟨ht, -⟩
    · rw [hlike.gen]
      exact h.fresh s hs
    · exact h.fresh t ht
  · obtain ⟨t, ht, rfl⟩ := h.listed g hg
    by_cases hkey : t.gen = s.gen
    · exact ⟨s', hself, hlike.gen.trans hkey.symm⟩
    · exact ⟨t, hmem ht hkey, rfl⟩
  · rw [hslot]
    show (((n.setNic s.nic nic).nics j).cdm.isSome → ((n.setNic s.nic nic).nics j).smPkts.isSome) ∧
      ((n.setNic s.nic nic).nics j).smPktId ≤ _ ∧ _
    rcases eq_or_ne j s.nic with rfl | hne
    · have hnic : ((n.setNic s.nic nic).write s').nics s.nic = nic := Node.nics_setNic_self ..
      rw [if_pos rfl, Node.nics_setNic_self, hpkts, hnic]
      exact ⟨fun _ => rfl, hid, hfree⟩
    · have hnic : ((n.setNic s.nic nic).write s').nics j = n.nics j := Node.nics_setNic_of_ne hne ..
      rw [if_neg hne, Node.nics_setNic_of_ne hne, hnic]
      exact h.table j
  · exact h.inst j cdm ((hcdm' j).symm.trans hj)
  · rcases hcase j k g hg with ⟨rfl, rfl, hown'⟩ | ⟨hne, hold⟩
    · exact ⟨s', hself, hlike.gen, hlike.nic, hone.1⟩
    · obtain ⟨t, ht, rfl, hti, hone⟩ := h.slots j k g hold
      exact ⟨t, hmem ht hne, rfl, hti, hone⟩
  · rcases hcase j k g hk with ⟨rfl, -, hk'⟩ | ⟨hne, hk'⟩
    · rcases hcase j l _ hl with ⟨-, -, hl'⟩ | ⟨hne, -⟩
      · exact hown k l hk' hl'
      · exact absurd rfl hne
    · rcases hcase j l g hl with ⟨heq, -, -⟩ | ⟨-, hl'⟩
      · exact absurd heq hne
      · exact h.slot_inj j k l g hk' hl'
  · obtain ⟨t, ht, hgen, hti, hone⟩ := h.handled r hr
    -- the session had no packet under way, so the handler has another
    exact ⟨t, hmem ht (hgen ▸ h.no_handler hs hout hr), hgen, hti, hone⟩
  · rcases hcase j k r.gen hg with ⟨hgen, -, -⟩ | ⟨-, hold⟩
    · exact h.no_handler hs hout hr hgen
    · exact h.apart r hr j k hold
  · rcases mem_writeKey ht with rfl | ⟨ht, hne⟩
    -- the session itself: its packet is in the table now
    · have hold := h.session s hs
      obtain ⟨hquiet, hoffer, hopen, htime, hdata⟩ := hsane
      refine ⟨?_, ?_, ?_, ?_, ?_, ?_, ?_, hdata⟩
      · obtain ⟨cdm, hcdm, hcookie, hlocal⟩ := hold.home
        refine ⟨cdm, ?_, hlike.cookie.trans hcookie, hlike.localId.trans hlocal⟩
        show ((n.setNic s.nic nic).nics t.nic).cdm = _
        rw [hlike.nic, hcdm']
        exact hcdm
      · obtain ⟨hone, k, hk⟩ := hone
        refine .inr ⟨hone, .inl ⟨k, ?_⟩⟩
        rw [hslot, if_pos hlike.nic, hlike.gen]
        exact hk
      · rw [hlike.gen]
        exact hquiet
      · rw [hlike.gen]
        exact hoffer
      · rw [hlike.gen, hlike.remoteId]
        exact hopen
      · rw [hlike.remoteId]
        exact hold.whole
      · rw [hlike.gen]
        exact htime
    · have hold := h.session t ht
      refine ⟨?_, ?_, hold.quiet, hold.offer, hold.opened, hold.whole, hold.expired, hold.data⟩
      · show ∃ cdm, ((n.setNic s.nic nic).nics t.nic).cdm = _ ∧ _
        rw [hcdm']
        exact hold.home
      · rcases hold.out with hzero | ⟨hone', ⟨k, hk⟩ | hhandler⟩
        · exact .inl hzero
        · refine .inr ⟨hone', .inl ⟨k, ?_⟩⟩
          rw [hslot]
          split
          · next hj => exact hkeep k _ (hj ▸ hk) (hlike.gen ▸ hne)
          · exact hk
        · exact .inr ⟨hone', .inr hhandler⟩

end Inv

/-! ### Moves -/

/-- What a move does to the outside: a post whose data a session now holds, a packet handed to
the channel, a packet taken from it.  A test that counts a session down and leaves it is
marked too. -/
inductive Label where
  | silent
  | missed
  | posted (g : Nat) (a : PostArgs) (p : Post)
  | sent (p : SmPkt)
  | received (p : SmPkt)

/-- The counters of a session, the number of its packet and the virtual address of its peer
change, and nothing else. -/
def SmInfo.Booked (s s' : SmInfo) : Prop :=
  ∃ flrcnt nrxCnt rxDelay virtRemotePe sndStatus seqNum,
    s' = { s with flrcnt, nrxCnt, rxDelay, virtRemotePe, sndStatus, pkt := { s.pkt with seqNum } }

/-- What can happen on a node. -/
inductive Move (c : Config) : Node → Label → Node → Prop
  | answered {n : Node} {s : SmInfo} {a : PostArgs} {p : Post} (hs : s ∈ n.sessions)
      (hstate : s.pkt.state = .reminfoReady) (hlist : s.gen ∉ n.smList)
      (hp : checkPost (n.nics s.nic) a = .ok p)
      (hto : p.remote.pe ≠ any → p.remote = s.pkt.remoteId) :
      Move c n (.posted s.gen a p) ((n.write (answered a p s)).enlist s.gen)
  | begun {n : Node} {i : Nat} {a : PostArgs} {p : Post} (hp : checkPost (n.nics i) a = .ok p)
      (hnew : ∀ s ∈ n.sessions, s.nic = i → s.pkt.remoteId ≠ p.remote) (hpe : p.remote.pe ≠ any)
      (hid : p.remote.instId ≠ any) :
      Move c n (.posted n.smGeneration a p) ((n.add (begun n i a p)).enlist n.smGeneration)
  | opened {n : Node} {i : Nat} {a : PostArgs} {p : Post} (hp : checkPost (n.nics i) a = .ok p)
      (hpe : p.remote.pe = any) :
      Move c n (.posted n.smGeneration a p) (n.add (begun n i a p))
  | dropped {n : Node} {s : SmInfo} (hs : s ∈ n.sessions) (hpe : s.pkt.remoteId.pe = any) :
      Move c n .silent ((n.free s.gen).count s.nic 1)
  | ending {n : Node} {s : SmInfo} (hs : s ∈ n.sessions) (hpe : s.pkt.remoteId.pe ≠ any) :
      Move c n .silent ((n.write s.ending).enlistNew s.gen)
  | booked {n : Node} {s s' : SmInfo} (hs : s ∈ n.sessions) (hbook : s.Booked s') :
      Move c n .silent (n.write s')
  | picked {n : Node} {s : SmInfo} (hs : s ∈ n.sessions) (hfinal : s.pkt.state.final = true)
      (hlist : s.gen ∉ n.smList) :
      Move c n .silent ((n.count s.nic (-1)).free s.gen)
  | missed {n : Node} {s : SmInfo} (hs : s ∈ n.sessions) (hfinal : s.pkt.state.final = true)
      (hlist : s.gen ∉ n.smList) (hvirt : virtualPe (n.nics s.nic).ntt s = none) :
      Move c n .missed (n.count s.nic (-1))
  | expired {n : Node} {s : SmInfo} (hs : s ∈ n.sessions) (hlist : s.gen ∈ n.smList)
      (hout : s.pktsOut = 0) :
      Move c n .silent ((n.delist s.gen).notify s.expire)
  | sent {n : Node} {s s' : SmInfo} {pkts : Nat → Option Nat} {k : Nat} (hs : s ∈ n.sessions)
      (hlist : s.gen ∈ n.smList) (hout : s.pktsOut = 0) (hstate : s.pkt.state ≠ .terminated)
      (hbook : s.Booked s') (hpkts : (n.nics s.nic).smPkts = some pkts) (hk : k ≤ c.maxTxPkts)
      (hfree : Function.update pkts (n.nics s.nic).smPktId (some s.gen) k = none) :
      Move c n (.sent s'.pkt)
        ((n.setNic s.nic { n.nics s.nic with
          smPkts := Function.update pkts (n.nics s.nic).smPktId (some s.gen), smPktId := k }).write
          s'.launch)
  | settled {n : Node} {s : SmInfo} (hs : s ∈ n.sessions) (hlist : s.gen ∈ n.smList)
      (hout : s.pktsOut = 0) (hchnl : (n.nics s.nic).chnl = true) :
      Move c n .silent ((n.delist s.gen).notify s.settle)
  | shut {n : Node} {s : SmInfo} (hs : s ∈ n.sessions) (hlist : s.gen ∈ n.smList)
      (hout : s.pktsOut = 0) (hchnl : (n.nics s.nic).chnl = false) :
      Move c n .silent ((n.delist s.gen).write s.settle)
  | found {n : Node} {s : SmInfo} {e : Event} {pkts : Nat → Option Nat} (hs : s ∈ n.sessions)
      (hnic : s.nic = e.nic) (hpkts : (n.nics e.nic).smPkts = some pkts)
      (hslot : pkts e.pktId = some s.gen) :
      Move c n .silent
        { n.setNic e.nic { n.nics e.nic with smPkts := Function.update pkts e.pktId none } with
          handlers := ⟨e.nic, s.gen, e.status, false⟩ :: n.handlers }
  | marked {n : Node} {s : SmInfo} {r : Handler} (hs : s ∈ n.sessions) (hr : r ∈ n.handlers)
      (hgen : s.gen = r.gen) :
      Move c n .silent
        { n.write (r.report s) with
          handlers := writeKey Handler.gen n.handlers { r with marked := true } }
  | landed {n : Node} {s : SmInfo} {r : Handler} (hs : s ∈ n.sessions) (hr : r ∈ n.handlers)
      (hgen : s.gen = r.gen) :
      Move c n .silent
        { n.write s.land with handlers := removeKey Handler.gen n.handlers r.gen }
  | withdrawn {n : Node} {s : SmInfo} {p : SmPkt} (hs : s ∈ n.sessions)
      (hstate : s.pkt.state = .reminfoReady) (hlist : s.gen ∉ n.smList) :
      Move c n (.received p) (n.free s.gen)
  | cut {n : Node} {s : SmInfo} {p : SmPkt} (hs : s ∈ n.sessions)
      (hstate : s.pkt.state ≠ .reminfoReady) (hpe : s.pkt.remoteId.pe ≠ any) :
      Move c n (.received p) (n.notify (s.cut p))
  | crossed {n : Node} {s : SmInfo} {p : SmPkt} {d : List UInt8} (hs : s ∈ n.sessions)
      (hstate : s.pkt.state = .locinfoReady) (hp : p.state = .locinfoReady)
      (hfor : s.concerns p = true) (hfresh : s.stale p = false)
      (hcookie : p.cookie = s.pkt.cookie) (hpe : s.pkt.remoteId.pe ≠ any) (hd : udata p = .ok d) :
      Move c n (.received p) ((n.write (s.cross p d)).enlistNew s.gen)
  | completed {n : Node} {s : SmInfo} {p : SmPkt} {d : List UInt8} (hs : s ∈ n.sessions)
      (hstate : s.pkt.state = .locinfoReady) (hp : p.state = .completed)
      (hfor : s.concerns p = true) (hfresh : s.stale p = false)
      (hcookie : p.cookie = s.pkt.cookie) (hpe : s.pkt.remoteId.pe ≠ any) (hd : udata p = .ok d) :
      Move c n (.received p) (n.notify (s.learns p .completed d))
  | bound {n : Node} {s : SmInfo} {p : SmPkt} {d : List UInt8} (hs : s ∈ n.sessions)
      (hopen : s.open p = true) (hlist : s.gen ∉ n.smList) (hp : p.state = .locinfoReady)
      (hgen : p.remoteGen = 0) (hcookie : p.cookie = s.pkt.cookie)
      (hfrom : p.localId.bound = true) (hd : udata p = .ok d) :
      Move c n (.received p) ((n.write (s.bind p d)).enlist s.gen)
  | offered {n : Node} {i : Nat} {cdm : Cdm} {p : SmPkt} {d : List UInt8}
      (hcdm : (n.nics i).cdm = some cdm) (hcookie : p.cookie = cdm.cookie)
      (hto : p.remoteId.instId = cdm.instId) (hp : p.state = .locinfoReady) (hgen : p.remoteGen = 0)
      (hnew : ∀ s ∈ n.sessions, s.nic = i → s.concerns p = true → s.pkt.state = .completed)
      (hfrom : p.localId.bound = true) (hd : udata p = .ok d) :
      Move c n (.received p) (n.add (offered n i cdm p d))
  | attached {n : Node} {i : Nat} {cdm : Cdm} {datagramCnt : Option Int} {kernel : Bool}
      (hcdm : (n.nics i).cdm = none) (hid : cdm.instId ≠ any)
      (hcnt : ∀ k, datagramCnt = some k → 0 ≤ k) :
      Move c n .silent (attach n i cdm datagramCnt kernel)
  | configured {n : Node} {i : Nat} {ntt : Ntt} : Move c n .silent (jobConfig n i ntt)
  | closing {n : Node} {i : Nat} : Move c n .silent (detachChnl n i)
  | detached {n : Node} {i : Nat} (hquiet : ∀ r ∈ n.handlers, r.nic ≠ i) :
      Move c n .silent (detach n i)

/-! ### The moves keep it -/

theorem checkPost_ok {nic : Nic} {a : PostArgs} {p : Post} (h : checkPost nic a = .ok p) :
    nic.cdm = some p.cdm ∧ p.data.length ≤ datagramMaxsize ∧
      p.data = (a.inData.map (·.take a.inDataLen)).getD [] ∧
      ∃ virt, nic.ntt.physical (a.remotePe != any) a.remotePe = .ok (p.remote.pe, virt) ∧
        p.remote.instId = a.remoteId := by
  unfold checkPost at h
  split at h
  · cases h
  · next cdm hcdm =>
      by_cases hlen : a.inDataLen > datagramMaxsize
      · rw [if_pos hlen] at h
        cases h
      rw [if_neg hlen] at h
      split at h
      · cases h
      split at h
      · cases h
      · next pe virt hphys =>
          split at h
          · cases h
          cases h
          refine ⟨hcdm, ?_, rfl, virt, hphys, rfl⟩
          rcases a.inData with - | d
          · exact Nat.zero_le _
          · exact Nat.le_trans (List.length_take_le _ d) (Nat.le_of_not_lt hlen)

namespace SmInfo

variable {n : Node} {s s' : SmInfo}

theorem Booked.like (h : s.Booked s') : s.Like s' := by
  obtain ⟨_, _, _, _, _, _, rfl⟩ := h
  exact ⟨rfl, rfl, rfl, rfl, rfl, rfl⟩

/-- A session that only changes its state, and only to one that is allowed where it is. -/
theorem Sane.like (h : s.Sane n) (hlike : s.Like s') (hout : s'.pktsOut = s.pktsOut)
    (hoffer : s'.pkt.state = .reminfoReady → s.gen ∉ n.smList)
    (hopen : s.pkt.remoteId.pe = any → s'.pkt.state = .locinfoReady)
    (htime : s'.pkt.state = .timeout → s.gen ∉ n.smList)
    (hdata : s'.pkt.state = .locinfoReady ∨ s'.pkt.state = .completed →
      s.pkt.state = .locinfoReady ∨ s.pkt.state = .completed) : s'.Sane n where
  home := by
    rw [hlike.nic, hlike.cookie, hlike.localId]
    exact h.home
  out := by
    rw [SmInfo.Pending, hlike.nic, hlike.gen, hout]
    exact h.out
  quiet := by
    rw [hlike.gen, hout]
    exact h.quiet
  offer := by
    rw [hlike.gen]
    exact hoffer
  opened hany := by
    rw [hlike.remoteId] at hany
    rw [hlike.gen]
    exact ⟨(h.opened hany).1, hopen hany⟩
  whole := by
    rw [hlike.remoteId]
    exact h.whole
  expired := by
    rw [hlike.gen]
    exact htime
  data hstate := by
    rw [hlike.localUdata]
    exact h.data (hdata hstate)

theorem Sane.same (h : s.Sane n) (hlike : s.Like s') (hout : s'.pktsOut = s.pktsOut)
    (hstate : s'.pkt.state = s.pkt.state) : s'.Sane n := by
  apply h.like hlike hout
  · rw [hstate]
    exact h.offer
  · rw [hstate]
    exact fun hany => (h.opened hany).2
  · rw [hstate]
    exact h.expired
  · rw [hstate]
    exact id

theorem settle_like (s : SmInfo) : s.Like s.settle := by
  unfold settle
  split <;> exact ⟨rfl, rfl, rfl, rfl, rfl, rfl⟩

theorem settle_pktsOut (s : SmInfo) : s.settle.pktsOut = s.pktsOut := by
  unfold settle
  split <;> rfl

/-- The state that is left behind, and the one that takes its place. -/
theorem settle_state (s : SmInfo) : s.settle.pkt.state = s.pkt.state ∨
    s.pkt.state = .terminateInit ∧ s.settle.pkt.state = .terminated := by
  unfold settle
  split
  · next h => exact .inr ⟨h, rfl⟩
  · exact .inl rfl

theorem Sane.settle (h : s.Sane n) : s.settle.Sane n := by
  rcases s.settle_state with hstate | ⟨hold, hstate⟩
  · exact h.same s.settle_like s.settle_pktsOut hstate
  · apply h.like s.settle_like s.settle_pktsOut
    · simp [hstate]
    · intro hany
      have := (h.opened hany).2
      rw [hold] at this
      cases this
    · simp [hstate]
    · simp [hstate]

theorem report_like (r : Handler) (s : SmInfo) : s.Like (r.report s) := by
  have hset := s.settle_like
  unfold Handler.report
  split
  · exact ⟨hset.gen, hset.nic, hset.cookie, hset.localId, hset.remoteId, hset.localUdata⟩
  · exact ⟨rfl, rfl, rfl, rfl, rfl, rfl⟩

theorem report_pktsOut (r : Handler) (s : SmInfo) : (r.report s).pktsOut = s.pktsOut := by
  unfold Handler.report
  split
  · exact s.settle_pktsOut
  · rfl

theorem report_state (r : Handler) (s : SmInfo) : (r.report s).pkt.state = s.pkt.state ∨
    (r.report s).pkt.state = s.settle.pkt.state := by
  unfold Handler.report
  split
  · exact .inr rfl
  · exact .inl rfl

theorem Sane.report (h : s.Sane n) (r : Handler) : (r.report s).Sane n := by
  rcases s.report_state r with hstate | hstate
  · exact h.same (s.report_like r) (s.report_pktsOut r) hstate
  · have hlike := s.report_like r
    have hset := s.settle_like
    refine h.settle.same ⟨?_, ?_, ?_, ?_, ?_, ?_⟩ ?_ hstate
    · rw [hlike.gen, hset.gen]
    · rw [hlike.nic, hset.nic]
    · rw [hlike.cookie, hset.cookie]
    · rw [hlike.localId, hset.localId]
    · rw [hlike.remoteId, hset.remoteId]
    · rw [hlike.localUdata, hset.localUdata]
    · rw [s.report_pktsOut, s.settle_pktsOut]

end SmInfo

namespace Inv

variable {c : Config} {n : Node} {s s' : SmInfo}

theorem notify (h : Inv c n) (hs : s ∈ n.sessions) (hgen : s'.gen = s.gen) (hnic : s'.nic = s.nic)
    (hout : s'.pktsOut = s.pktsOut) (hsane : s'.Sane n) : Inv c (n.notify s') := by
  unfold Node.notify
  split
  · refine Inv.write (h.count s'.nic 1) hs hgen hnic hout ?_
    have hsame := (((h.write hs hgen hnic hout hsane).count s'.nic 1).session s'
      (mem_writeKey_self hs hgen.symm))
    exact ⟨hsame.home, hsame.out, hsame.quiet, hsame.offer, hsame.opened, hsame.whole,
      hsame.expired, hsame.data⟩
  · exact h.write hs hgen hnic hout hsane

/-- A session that is not on the list is written and put there. -/
theorem write_enlist (h : Inv c n) (hs : s ∈ n.sessions) (hgen : s'.gen = s.gen)
    (hnic : s'.nic = s.nic) (hout : s'.pktsOut = s.pktsOut) (hsane : s'.Sane n)
    (hlist : s.gen ∉ n.smList) (hoffer : s'.pkt.state ≠ .reminfoReady)
    (htime : s'.pkt.state ≠ .timeout) (hpe : s'.pkt.remoteId.pe ≠ any) :
    Inv c ((n.write s').enlist s.gen) := by
  rw [← hgen]
  refine (h.write hs hgen hnic hout hsane).enlist (mem_writeKey_self hs hgen.symm) ?_ hoffer htime
    hpe
  rw [hgen]
  exact hlist

theorem write_enlistNew (h : Inv c n) (hs : s ∈ n.sessions) (hgen : s'.gen = s.gen)
    (hnic : s'.nic = s.nic) (hout : s'.pktsOut = s.pktsOut) (hsane : s'.Sane n)
    (hoffer : s'.pkt.state ≠ .reminfoReady) (htime : s'.pkt.state ≠ .timeout)
    (hpe : s'.pkt.remoteId.pe ≠ any) : Inv c ((n.write s').enlistNew s.gen) := by
  rw [← hgen]
  exact (h.write hs hgen hnic hout hsane).enlistNew (mem_writeKey_self hs hgen.symm) hoffer htime
    hpe

/-- The numbers of the other packets stay as they are. -/
theorem sent (h : Inv c n) (hs : s ∈ n.sessions) (hlist : s.gen ∈ n.smList) (hout : s.pktsOut = 0)
    (hbook : s.Booked s') {pkts : Nat → Option Nat}
    (hpkts : (n.nics s.nic).smPkts = some pkts) {k : Nat} (hk : k ≤ c.maxTxPkts)
    (hfree : Function.update pkts (n.nics s.nic).smPktId (some s.gen) k = none) :
    Inv c ((n.setNic s.nic { n.nics s.nic with
      smPkts := Function.update pkts (n.nics s.nic).smPktId (some s.gen), smPktId := k }).write
      s'.launch) := by
  have hslot (l : Nat) : n.slot s.nic l = pkts l := by
    rw [Node.slot, hpkts]
    rfl
  have hempty : pkts (n.nics s.nic).smPktId = none := by
    rw [← hslot]
    exact (h.table s.nic).2.2
  have hlike := hbook.like
  have hsane := h.session s hs
  have hbooked : s'.pktsOut = s.pktsOut ∧ s'.pkt.state = s.pkt.state := by
    obtain ⟨_, _, _, _, _, _, rfl⟩ := hbook
    exact ⟨rfl, rfl⟩
  generalize (n.nics s.nic).smPktId = id at *
  have hlaunch : s.Like s'.launch :=
    ⟨hlike.gen, hlike.nic, hlike.cookie, hlike.localId, hlike.remoteId, hlike.localUdata⟩
  -- the other packets stay where they are, and the place taken was empty
  refine h.transfer hs hout hlaunch rfl rfl hk hfree ?_ ?_ ?_ ?_
      ⟨fun hno => absurd hlist hno, ?_, ?_, ?_, ?_⟩
  · intro l g hl hne
    rcases eq_or_ne l id with rfl | hlid
    · rw [Function.update_self] at hl
      exact absurd (Option.some.inj hl).symm hne
    · rw [Function.update_of_ne hlid] at hl
      rw [hslot]
      exact hl
  · intro l g hl _
    rw [hslot] at hl
    rcases eq_or_ne l id with rfl | hlid
    · rw [hempty] at hl
      cases hl
    · rw [Function.update_of_ne hlid]
      exact hl
  · -- the session had no packet under way, so the new one is the only one
    have hnew (l : Nat) (hl : Function.update pkts id (some s.gen) l = some s.gen) : l = id := by
      by_contra hlid
      rw [Function.update_of_ne hlid, ← hslot] at hl
      exact h.no_slot hs hout s.nic l hl
    intro l l' hl hl'
    rw [hnew l hl, hnew l' hl']
  · refine ⟨?_, id, Function.update_self ..⟩
    show s'.pktsOut + 1 = 1
    rw [hbooked.1, hout]
    rfl
  · show s'.pkt.state = _ → _
    rw [hbooked.2]
    exact hsane.offer
  · show _ → _ ∧ s'.pkt.state = _
    rw [hbooked.2]
    exact hsane.opened
  · show s'.pkt.state = _ → _
    rw [hbooked.2]
    exact hsane.expired
  · show s'.pkt.state = _ ∨ s'.pkt.state = _ → ∃ d, s'.pkt.localUdata = _ ∧ _
    rw [hbooked.2, hlike.localUdata]
    exact hsane.data

/-- A session leaves the table for a handler. -/
theorem found (h : Inv c n) (hs : s ∈ n.sessions) {e : Event} (hnic : s.nic = e.nic)
    {pkts : Nat → Option Nat} (hpkts : (n.nics e.nic).smPkts = some pkts)
    (hown : pkts e.pktId = some s.gen) :
    Inv c { n.setNic e.nic { n.nics e.nic with smPkts := Function.update pkts e.pktId none } with
      handlers := ⟨e.nic, s.gen, e.status, false⟩ :: n.handlers } := by
  have hold : n.slot e.nic e.pktId = some s.gen := by
    rw [Node.slot, hpkts]
    exact hown
  have hone : s.pktsOut = 1 := by
    obtain ⟨t, ht, hgen, -, hone⟩ := h.slots _ _ _ hold
    rw [← h.eq_of_gen ht hs hgen]
    exact hone
  generalize hn' : { n.setNic e.nic { n.nics e.nic with
    smPkts := Function.update pkts e.pktId none } with
      handlers := ⟨e.nic, s.gen, e.status, false⟩ :: n.handlers } = n'
  have hslot (j k : Nat) : n'.slot j k =
      if j = e.nic ∧ k = e.pktId then none else n.slot j k := by
    subst hn'
    show ((n.setNic e.nic _).nics j).smPkts.bind _ = _
    rcases eq_or_ne j e.nic with rfl | hj
    · rw [Node.nics_setNic_self, Node.slot, hpkts]
      show Function.update pkts e.pktId none k = _
      rcases eq_or_ne k e.pktId with rfl | hk
      · rw [Function.update_self, if_pos ⟨rfl, rfl⟩]
      · rw [Function.update_of_ne hk, if_neg fun hjk => hk hjk.2]
        rfl
    · rw [Node.nics_setNic_of_ne hj, if_neg fun hjk => hj hjk.1]
      rfl
  -- a slot still in use was so before, and its packet is of another session
  have hless {j k g : Nat} (hg : n'.slot j k = some g) :
      n.slot j k = some g ∧ g ≠ s.gen := by
    rw [hslot] at hg
    split at hg
    · cases hg
    · next hno =>
        refine ⟨hg, ?_⟩
        rintro rfl
        obtain ⟨t, ht, hgen, hti, -⟩ := h.slots _ _ _ hg
        obtain rfl := h.eq_of_gen ht hs hgen
        obtain rfl : j = e.nic := hti.symm.trans hnic
        exact hno ⟨rfl, h.slot_inj _ _ _ _ hg hold⟩
  have hcdm (j : Nat) : (n'.nics j).cdm = (n.nics j).cdm ∧
      (n'.nics j).smPktId = (n.nics j).smPktId ∧
      ((n.nics j).smPkts.isSome → (n'.nics j).smPkts.isSome) := by
    subst hn'
    show ((n.setNic e.nic _).nics j).cdm = _ ∧ _
    rcases eq_or_ne j e.nic with rfl | hj
    · exact ⟨by rw [Node.nics_setNic_self], by rw [Node.nics_setNic_self],
        fun _ => by rw [Node.nics_setNic_self]; rfl⟩
    · exact ⟨by rw [Node.nics_setNic_of_ne hj], by rw [Node.nics_setNic_of_ne hj],
        fun hsome => by rw [Node.nics_setNic_of_ne hj]; exact hsome⟩
  have hhandlers : n'.handlers = ⟨e.nic, s.gen, e.status, false⟩ :: n.handlers := by rw [← hn']
  have hrest : n'.pe = n.pe ∧ n'.sessions = n.sessions ∧ n'.smList = n.smList ∧
      n'.smGeneration = n.smGeneration := by
    rw [← hn']
    exact ⟨rfl, rfl, rfl, rfl⟩
  -- only the table of one NIC and the handlers have changed
  obtain ⟨hpe, hsess, hlist, hnext⟩ := hrest
  refine ⟨hpe ▸ h.pe, hnext ▸ h.pos, hsess ▸ h.gens, hsess ▸ hnext ▸ h.fresh,
    hsess ▸ hlist ▸ h.listed, hlist ▸ h.nodup, fun j => ?_, fun j cdm hj => ?_,
    fun j k g hg => ?_, fun j k l g hk hl => ?_, ?_, fun r hr => ?_, fun r hr j k hg => ?_,
    fun t ht => ?_⟩
  · obtain ⟨hsame, hid, hsome⟩ := hcdm j
    obtain ⟨htable, hmax, hfree⟩ := h.table j
    rw [hsame, hid]
    refine ⟨fun hj => hsome (htable hj), hmax, ?_⟩
    rw [hslot]
    split
    · rfl
    · exact hfree
  · rw [(hcdm j).1] at hj
    exact h.inst j cdm hj
  · rw [hsess]
    exact h.slots j k g (hless hg).1
  · exact h.slot_inj j k l g (hless hk).1 (hless hl).1
  · rw [hhandlers, List.map_cons, List.nodup_cons]
    -- the handlers so far have none of the packets in the table
    refine ⟨fun hmem => ?_, h.single⟩
    obtain ⟨r, hr, hgen⟩ := List.mem_map.mp hmem
    exact h.apart r hr _ _ (hold.trans (congrArg some hgen.symm))
  · rw [hhandlers] at hr
    rw [hsess]
    rcases List.mem_cons.mp hr with rfl | hr
    · exact ⟨s, hs, rfl, hnic, hone⟩
    · exact h.handled r hr
  · rw [hhandlers] at hr
    rcases List.mem_cons.mp hr with rfl | hr
    · exact (hless hg).2 rfl
    · exact h.apart r hr j k (hless hg).1
  · rw [hsess] at ht
    have hsane := h.session t ht
    refine ⟨?_, ?_, hlist ▸ hsane.quiet, hlist ▸ hsane.offer, hlist ▸ hsane.opened, hsane.whole,
      hlist ▸ hsane.expired, hsane.data⟩
    · rw [(hcdm t.nic).1, hpe]
      exact hsane.home
    · -- a packet keeps its place, but for the one that the handler has now
      refine hsane.out.imp_right fun hout => ⟨hout.1, ?_⟩
      rw [SmInfo.Pending, hhandlers]
      rcases hout.2 with ⟨k, hk⟩ | ⟨r, hr, hgen⟩
      · by_cases hthis : t.nic = e.nic ∧ k = e.pktId
        · rw [hthis.1, hthis.2, hold] at hk
          exact .inr ⟨_, List.mem_cons_self, Option.some.inj hk⟩
        · refine .inl ⟨k, ?_⟩
          rw [hslot, if_neg hthis]
          exact hk
      · exact .inr ⟨r, .tail _ hr, hgen⟩

/-- A handler goes on. -/
theorem proceed (h : Inv c n) {r r' : Handler} (hr : r ∈ n.handlers) (hgen : r'.gen = r.gen)
    (hnic : r'.nic = r.nic) :
    Inv c { n with handlers := writeKey Handler.gen n.handlers r' } := by
  have hmem {q : Handler} (hq : q ∈ writeKey Handler.gen n.handlers r') :
      ∃ q' ∈ n.handlers, q'.gen = q.gen ∧ q'.nic = q.nic := by
    rcases mem_writeKey hq with rfl | ⟨hq, -⟩
    · exact ⟨r, hr, hgen.symm, hnic.symm⟩
    · exact ⟨q, hq, rfl, rfl⟩
  refine ⟨h.pe, h.pos, h.gens, h.fresh, h.listed, h.nodup, h.table, h.inst, h.slots, h.slot_inj, ?_,
    fun q hq => ?_, fun q hq i k => ?_, fun t ht => ?_⟩
  · show ((writeKey Handler.gen n.handlers r').map Handler.gen).Nodup
    rw [map_key_writeKey]
    exact h.single
  · obtain ⟨q', hq', hqgen, hqnic⟩ := hmem hq
    rw [← hqgen, ← hqnic]
    exact h.handled q' hq'
  · obtain ⟨q', hq', hqgen, -⟩ := hmem hq
    rw [← hqgen]
    exact h.apart q' hq' i k
  · have hsane := h.session t ht
    refine ⟨hsane.home, ?_, hsane.quiet, hsane.offer, hsane.opened, hsane.whole, hsane.expired,
      hsane.data⟩
    refine hsane.out.imp_right fun hout => ⟨hout.1, hout.2.imp_right ?_⟩
    rintro ⟨q, hq, hqgen⟩
    by_cases hkey : q.gen = r'.gen
    · exact ⟨r', mem_writeKey_self hq hkey, hkey.symm.trans hqgen⟩
    · exact ⟨q, mem_writeKey_of_ne hq hkey, hqgen⟩

theorem marked (h : Inv c n) (hs : s ∈ n.sessions) {r : Handler} (hr : r ∈ n.handlers) :
    Inv c { n.write (r.report s) with
      handlers := writeKey Handler.gen n.handlers { r with marked := true } } := by
  have hlike := s.report_like r
  exact (h.write hs hlike.gen hlike.nic (s.report_pktsOut r) ((h.session s hs).report r)).proceed hr
    rfl rfl

/-- A handler is done, and the packet is not under way any more. -/
theorem landed (h : Inv c n) (hs : s ∈ n.sessions) {r : Handler} (hr : r ∈ n.handlers)
    (hgen : s.gen = r.gen) :
    Inv c { n.write s.land with handlers := removeKey Handler.gen n.handlers r.gen } := by
  have hzero : s.land.pktsOut = 0 := by
    obtain ⟨t, ht, htgen, -, hone⟩ := h.handled r hr
    obtain rfl := h.eq_of_gen ht hs (htgen.trans hgen.symm)
    show t.pktsOut - 1 = 0
    rw [hone]
    rfl
  have hmem {t : SmInfo} (ht : t ∈ n.sessions) (hne : t.gen ≠ s.gen) :
      t ∈ writeKey SmInfo.gen n.sessions s.land :=
    mem_writeKey_of_ne ht hne
  have hself : s.land ∈ writeKey SmInfo.gen n.sessions s.land := mem_writeKey_self hs rfl
  refine ⟨h.pe, h.pos, ?_, fun t ht => ?_, fun g hg => ?_, h.nodup, h.table, h.inst,
    fun i k g hg => ?_, h.slot_inj, nodup_removeKey h.single, fun q hq => ?_, fun q hq => ?_,
    fun t ht => ?_⟩
  · show ((writeKey SmInfo.gen n.sessions s.land).map SmInfo.gen).Nodup
    rw [map_key_writeKey]
    exact h.gens
  · rcases mem_writeKey ht with rfl | ⟨ht, -⟩
    · exact h.fresh s hs
    · exact h.fresh t ht
  · obtain ⟨t, ht, rfl⟩ := h.listed g hg
    by_cases hkey : t.gen = s.gen
    · exact ⟨s.land, hself, hkey.symm⟩
    · exact ⟨t, hmem ht hkey, rfl⟩
  · obtain ⟨t, ht, rfl, hti, hone⟩ := h.slots i k g hg
    refine ⟨t, hmem ht fun hkey => ?_, rfl, hti, hone⟩
    exact h.apart r hr i k (hg.trans (congrArg some (hkey.trans hgen)))
  · obtain ⟨hq, hne⟩ := mem_removeKey.mp hq
    obtain ⟨t, ht, htgen, hti, hone⟩ := h.handled q hq
    refine ⟨t, hmem ht fun hkey => ?_, htgen, hti, hone⟩
    exact hne (htgen.symm.trans (hkey.trans hgen))
  · exact h.apart q (mem_removeKey.mp hq).1
  · rcases mem_writeKey ht with rfl | ⟨ht, hne⟩
    · have hsane := h.session s hs
      exact ⟨hsane.home, .inl hzero, fun _ => hzero, hsane.offer, hsane.opened, hsane.whole,
        hsane.expired, hsane.data⟩
    · have hsane := h.session t ht
      refine ⟨hsane.home, ?_, hsane.quiet, hsane.offer, hsane.opened, hsane.whole, hsane.expired,
        hsane.data⟩
      refine hsane.out.imp_right fun hout => ⟨hout.1, hout.2.imp_right ?_⟩
      rintro ⟨q, hq, hqgen⟩
      refine ⟨q, mem_removeKey.mpr ⟨hq, fun hkey => hne ?_⟩, hqgen⟩
      exact hqgen.symm.trans (hkey.trans hgen.symm)

/-- No session is left on a NIC that is not attached. -/
theorem attach (h : Inv c n) {i : Nat} (hnone : (n.nics i).cdm = none) {cdm : Cdm}
    (hid : cdm.instId ≠ any) (cnt : Option Int) (kernel : Bool) :
    Inv c (attach n i cdm cnt kernel) := by
  have hnic {t : SmInfo} (ht : t ∈ n.sessions) : t.nic ≠ i := by
    rintro rfl
    obtain ⟨cdm', hcdm', -⟩ := (h.session t ht).home
    rw [hnone] at hcdm'
    cases hcdm'
  rw [Datagram.attach, hnone]
  show Inv c (n.setNic i _)
  have hslot (j k : Nat) : (n.setNic i
      { n.nics i with cdm := some cdm, chnl := true, datagramCnt := cnt
                      smPkts := some fun _ => none, kernel }).slot j k =
      if j = i then none else n.slot j k := by
    show ((n.setNic i _).nics j).smPkts.bind _ = _
    split
    · next hj => rw [hj, Node.nics_setNic_self]; rfl
    · next hj => rw [Node.nics_setNic_of_ne hj]; rfl
  refine ⟨h.pe, h.pos, h.gens, h.fresh, h.listed, h.nodup, fun j => ?_, fun j cdm' hj => ?_,
    fun j k g hg => ?_, fun j k l g hk hl => ?_, h.single, h.handled, fun r hr j k hg => ?_,
    fun t ht => ?_⟩
  · rw [hslot]
    rcases eq_or_ne j i with rfl | hne
    · rw [if_pos rfl, Node.nics_setNic_self]
      exact ⟨fun _ => rfl, (h.table j).2.1, rfl⟩
    · rw [if_neg hne, Node.nics_setNic_of_ne hne]
      exact h.table j
  · rcases eq_or_ne j i with rfl | hne
    · rw [Node.nics_setNic_self] at hj
      rw [← Option.some.inj hj]
      exact hid
    · rw [Node.nics_setNic_of_ne hne] at hj
      exact h.inst j cdm' hj
  · rw [hslot] at hg
    split at hg
    · cases hg
    · exact h.slots j k g hg
  · rw [hslot] at hk hl
    split at hk
    · cases hk
    · next hj =>
        rw [if_neg hj] at hl
        exact h.slot_inj j k l g hk hl
  · rw [hslot] at hg
    split at hg
    · cases hg
    · exact h.apart r hr j k hg
  · have hold := h.session t ht
    refine ⟨?_, ?_, hold.quiet, hold.offer, hold.opened, hold.whole, hold.expired, hold.data⟩
    · rw [Node.nics_setNic_of_ne (hnic ht)]
      exact hold.home
    · simp only [SmInfo.Pending, hslot, if_neg (hnic ht)]
      exact hold.out

theorem detach (h : Inv c n) {i : Nat} (hquiet : ∀ r ∈ n.handlers, r.nic ≠ i) :
    Inv c (detach n i) := by
  have hmem {t : SmInfo} : t ∈ (Datagram.detach n i).sessions ↔ t ∈ n.sessions ∧ t.nic ≠ i := by
    show t ∈ n.sessions.filter _ ↔ _
    rw [List.mem_filter, decide_eq_true_iff]
  have hlist {g : Nat} : g ∈ (Datagram.detach n i).smList ↔
      g ∈ n.smList ∧ ∀ t ∈ n.sessions, t.nic = i → t.gen ≠ g := by
    show g ∈ n.smList.filter _ ↔ _
    rw [List.mem_filter, decide_eq_true_iff, List.mem_map]
    simp [Node.sessionsOf]
  -- the sessions of other NICs stay on the list if they were on it
  have hkeep {t : SmInfo} (ht : t ∈ n.sessions) (hti : t.nic ≠ i) :
      t.gen ∈ (Datagram.detach n i).smList ↔ t.gen ∈ n.smList := by
    rw [hlist]
    refine ⟨And.left, fun hg => ⟨hg, fun u hu hui hgen => ?_⟩⟩
    rw [h.eq_of_gen hu ht hgen] at hui
    exact hti hui
  have hnic {j : Nat} (hne : j ≠ i) : (Datagram.detach n i).nics j = n.nics j :=
    Function.update_of_ne hne ..
  have hself : (Datagram.detach n i).nics i = { n.nics i with cdm := none, smPkts := none } :=
    Function.update_self ..
  have hslot (j k : Nat) : (Datagram.detach n i).slot j k = if j = i then none else n.slot j k := by
    rw [Node.slot]
    split
    · next hj => rw [hj, hself]; rfl
    · next hj => rw [hnic hj]; rfl
  refine ⟨h.pe, h.pos, ?_, fun t ht => h.fresh t (hmem.mp ht).1, fun g hg => ?_, h.nodup.filter _,
    fun j => ?_, fun j cdm hj => ?_, fun j k g hg => ?_, fun j k l g hk hl => ?_, h.single,
    fun r hr => ?_, fun r hr j k hg => ?_, fun t ht => ?_⟩
  · exact h.gens.sublist (List.filter_sublist.map _)
  · obtain ⟨hg, hother⟩ := hlist.mp hg
    obtain ⟨t, ht, rfl⟩ := h.listed g hg
    exact ⟨t, hmem.mpr ⟨ht, fun hti => hother t ht hti rfl⟩, rfl⟩
  · rw [hslot]
    rcases eq_or_ne j i with rfl | hne
    · rw [if_pos rfl, hself]
      exact ⟨fun hsome => absurd hsome Bool.false_ne_true, (h.table j).2.1, rfl⟩
    · rw [if_neg hne, hnic hne]
      exact h.table j
  · rcases eq_or_ne j i with rfl | hne
    · rw [hself] at hj
      cases hj
    · rw [hnic hne] at hj
      exact h.inst j cdm hj
  · rw [hslot] at hg
    split at hg
    · cases hg
    · next hj =>
        obtain ⟨t, ht, rfl, hti, hone⟩ := h.slots j k g hg
        exact ⟨t, hmem.mpr ⟨ht, fun h' => hj (hti.symm.trans h')⟩, rfl, hti, hone⟩
  · rw [hslot] at hk hl
    split at hk
    · cases hk
    · next hj =>
        rw [if_neg hj] at hl
        exact h.slot_inj j k l g hk hl
  · obtain ⟨t, ht, hgen, hti, hone⟩ := h.handled r hr
    -- no handler of the NIC is at work, so its session stays
    exact ⟨t, hmem.mpr ⟨ht, hti ▸ hquiet r hr⟩, hgen, hti, hone⟩
  · rw [hslot] at hg
    split at hg
    · cases hg
    · exact h.apart r hr j k hg
  · obtain ⟨ht, hti⟩ := hmem.mp ht
    have hold := h.session t ht
    refine ⟨?_, ?_, ?_, ?_, ?_, hold.whole, ?_, hold.data⟩
    · rw [hnic hti]
      exact hold.home
    · simp only [SmInfo.Pending, hslot, if_neg hti]
      exact hold.out
    · rw [hkeep ht hti]
      exact hold.quiet
    · rw [hkeep ht hti]
      exact hold.offer
    · rw [hkeep ht hti]
      exact hold.opened
    · rw [hkeep ht hti]
      exact hold.expired

end Inv

theorem udata_ok {p : SmPkt} {d : List UInt8} (h : udata p = .ok d) :
    p.localUdata = some d ∧ d.length ≤ datagramMaxsize := by
  unfold udata at h
  split at h
  · cases h
  · next d' hd =>
      split at h
      · cases h
      · next hlen =>
          cases h
          exact ⟨hd, Nat.le_of_not_lt hlen⟩

theorem SmId.bound_iff {e : SmId} : e.bound = true ↔ e.pe ≠ any ∧ e.instId ≠ any := by
  rw [SmId.bound, Bool.and_eq_true, bne_iff_ne, bne_iff_ne]

/-- A session begun by a post. -/
theorem Inv.begun {c : Config} {n : Node} (h : Inv c n) {i : Nat} {a : PostArgs} {p : Post}
    (hp : checkPost (n.nics i) a = .ok p) (hwhole : p.remote.pe ≠ any → p.remote.instId ≠ any) :
    Inv c (n.add (begun n i a p)) := by
  obtain ⟨hcdm, hlen, -⟩ := checkPost_ok hp
  exact h.add rfl rfl ⟨p.cdm, hcdm, rfl, rfl⟩ (fun _ => rfl) hwhole fun _ => ⟨p.data, rfl, hlen⟩

namespace Inv

variable {c : Config} {n : Node} {s s' : SmInfo}

/-- A session changes its state to one that may be anywhere on the list or off it. -/
theorem restate (h : Inv c n) (hs : s ∈ n.sessions) (hlike : s.Like s')
    (hout : s'.pktsOut = s.pktsOut) (hpe : s.pkt.remoteId.pe ≠ any)
    (hoffer : s'.pkt.state ≠ .reminfoReady) (htime : s'.pkt.state ≠ .timeout)
    (hdata : s'.pkt.state = .locinfoReady ∨ s'.pkt.state = .completed →
      s.pkt.state = .locinfoReady ∨ s.pkt.state = .completed) : s'.Sane n :=
  (h.session s hs).like hlike hout (fun hst => absurd hst hoffer) (fun hany => absurd hany hpe)
    (fun hst => absurd hst htime) hdata

theorem answered (h : Inv c n) (hs : s ∈ n.sessions) {a : PostArgs} {p : Post}
    (hstate : s.pkt.state = .reminfoReady) (hlist : s.gen ∉ n.smList)
    (hp : checkPost (n.nics s.nic) a = .ok p) :
    Inv c ((n.write (answered a p s)).enlist s.gen) := by
  obtain ⟨hcdm, hlen, -⟩ := checkPost_ok hp
  have hsane := h.session s hs
  have hpe : s.pkt.remoteId.pe ≠ any := by
    intro hany
    have := (hsane.opened hany).2
    rw [hstate] at this
    cases this
  have hsane' : (Datagram.answered a p s).Sane n :=
    ⟨hsane.home, hsane.out, hsane.quiet, fun _ => hlist, fun hany => absurd hany hpe, hsane.whole,
      fun _ => hlist, fun _ => ⟨p.data, rfl, hlen⟩⟩
  refine h.write_enlist hs rfl rfl rfl hsane' hlist ?_ ?_ hpe
  · intro hoffer
    cases hoffer
  · intro htime
    cases htime

theorem begun_enlist (h : Inv c n) {i : Nat} {a : PostArgs} {p : Post}
    (hp : checkPost (n.nics i) a = .ok p) (hpe : p.remote.pe ≠ any) (hid : p.remote.instId ≠ any) :
    Inv c ((n.add (Datagram.begun n i a p)).enlist n.smGeneration) := by
  refine (h.begun hp fun _ => hid).enlist (s := Datagram.begun n i a p) ?_ ?_ ?_ ?_ hpe
  · exact List.mem_append_right _ (List.mem_singleton_self _)
  · intro hmem
    obtain ⟨t, ht, hgen⟩ := h.listed _ hmem
    exact absurd hgen (Nat.ne_of_lt (h.fresh t ht).2)
  · intro hoffer
    cases hoffer
  · intro htime
    cases htime

theorem ending (h : Inv c n) (hs : s ∈ n.sessions) (hpe : s.pkt.remoteId.pe ≠ any) :
    Inv c ((n.write s.ending).enlistNew s.gen) := by
  have hoffer : s.ending.pkt.state ≠ .reminfoReady := by
    intro hoffer
    cases hoffer
  have htime : s.ending.pkt.state ≠ .timeout := by
    intro htime
    cases htime
  refine h.write_enlistNew hs rfl rfl rfl ?_ hoffer htime hpe
  refine h.restate hs ⟨rfl, rfl, rfl, rfl, rfl, rfl⟩ rfl hpe hoffer htime ?_
  rintro (hdata | hdata) <;> cases hdata

theorem booked (h : Inv c n) (hs : s ∈ n.sessions) (hbook : s.Booked s') : Inv c (n.write s') := by
  have hlike := hbook.like
  obtain ⟨_, _, _, _, _, _, rfl⟩ := hbook
  exact h.write hs rfl rfl rfl ((h.session _ hs).same hlike rfl rfl)

theorem expired (h : Inv c n) (hs : s ∈ n.sessions) (hlist : s.gen ∈ n.smList)
    (hout : s.pktsOut = 0) : Inv c ((n.delist s.gen).notify s.expire) := by
  have hgone : s.gen ∉ (n.delist s.gen).smList := by
    intro hmem
    exact of_decide_eq_true (List.mem_filter.mp hmem).2 rfl
  have hdel := h.delist hs hout
  refine hdel.notify hs rfl rfl rfl ?_
  refine (hdel.session s hs).like ⟨rfl, rfl, rfl, rfl, rfl, rfl⟩ rfl ?_ ?_ ?_ ?_
  · exact fun _ => hgone
  · exact fun hany => absurd hlist ((h.session s hs).opened hany).1
  · exact fun _ => hgone
  · rintro (hdata | hdata) <;> cases hdata

theorem settled (h : Inv c n) (hs : s ∈ n.sessions) (hout : s.pktsOut = 0) :
    Inv c ((n.delist s.gen).notify s.settle) := by
  have hdel := h.delist hs hout
  exact hdel.notify hs s.settle_like.gen s.settle_like.nic s.settle_pktsOut
    (hdel.session s hs).settle

theorem shut (h : Inv c n) (hs : s ∈ n.sessions) (hout : s.pktsOut = 0) :
    Inv c ((n.delist s.gen).write s.settle) := by
  have hdel := h.delist hs hout
  exact hdel.write hs s.settle_like.gen s.settle_like.nic s.settle_pktsOut
    (hdel.session s hs).settle

theorem cut (h : Inv c n) (hs : s ∈ n.sessions) (p : SmPkt) (hpe : s.pkt.remoteId.pe ≠ any) :
    Inv c (n.notify (s.cut p)) := by
  refine h.notify hs rfl rfl rfl
    (h.restate hs ⟨rfl, rfl, rfl, rfl, rfl, rfl⟩ rfl hpe ?_ ?_ ?_)
  · intro hoffer
    cases hoffer
  · intro htime
    cases htime
  · rintro (hdata | hdata) <;> cases hdata

theorem crossed (h : Inv c n) (hs : s ∈ n.sessions) (hstate : s.pkt.state = .locinfoReady)
    (p : SmPkt) (d : List UInt8) (hpe : s.pkt.remoteId.pe ≠ any) :
    Inv c ((n.write (s.cross p d)).enlistNew s.gen) := by
  have hoffer : (s.cross p d).pkt.state ≠ .reminfoReady := by
    intro hoffer
    cases hoffer
  have htime : (s.cross p d).pkt.state ≠ .timeout := by
    intro htime
    cases htime
  refine h.write_enlistNew hs rfl rfl rfl ?_ hoffer htime hpe
  exact h.restate hs ⟨rfl, rfl, rfl, rfl, rfl, rfl⟩ rfl hpe hoffer htime fun _ => .inl hstate

theorem completed (h : Inv c n) (hs : s ∈ n.sessions) (hstate : s.pkt.state = .locinfoReady)
    (p : SmPkt) (d : List UInt8) (hpe : s.pkt.remoteId.pe ≠ any) :
    Inv c (n.notify (s.learns p .completed d)) := by
  refine h.notify hs rfl rfl rfl
    (h.restate hs ⟨rfl, rfl, rfl, rfl, rfl, rfl⟩ rfl hpe ?_ ?_ fun _ => .inl hstate)
  · intro hoffer
    cases hoffer
  · intro htime
    cases htime

/-- An open session has no PE, and waits for its peer. -/
theorem open_state (h : Inv c n) (hs : s ∈ n.sessions) {p : SmPkt} (hopen : s.open p = true) :
    s.gen ∉ n.smList ∧ s.pkt.state = .locinfoReady := by
  have hsane := h.session s hs
  by_cases hany : s.pkt.remoteId.pe = any
  · exact hsane.opened hany
  · have hbound := SmId.bound_iff.mpr ⟨hany, hsane.whole hany⟩
    rw [SmInfo.open, hbound] at hopen
    cases hopen

theorem bound (h : Inv c n) (hs : s ∈ n.sessions) {p : SmPkt} (hopen : s.open p = true)
    (hfrom : p.localId.bound = true) (d : List UInt8) :
    Inv c ((n.write (s.bind p d)).enlist s.gen) := by
  obtain ⟨hpe, hid⟩ := SmId.bound_iff.mp hfrom
  obtain ⟨hlist, hloc⟩ := h.open_state hs hopen
  have hsane := h.session s hs
  have hsane' : (s.bind p d).Sane n :=
    ⟨hsane.home, hsane.out, hsane.quiet, fun _ => hlist, fun hany => absurd hany hpe,
      fun _ => hid, fun _ => hlist, fun _ => hsane.data (.inl hloc)⟩
  refine h.write_enlist hs rfl rfl rfl hsane' hlist ?_ ?_ hpe
  · intro hoffer
    cases hoffer
  · intro htime
    cases htime

theorem offered (h : Inv c n) {i : Nat} {cdm : Cdm} (hcdm : (n.nics i).cdm = some cdm) {p : SmPkt}
    (hfrom : p.localId.bound = true) (d : List UInt8) : Inv c (n.add (offered n i cdm p d)) := by
  obtain ⟨hpe, hid⟩ := SmId.bound_iff.mp hfrom
  refine h.add (s := Datagram.offered n i cdm p d) rfl rfl ⟨cdm, hcdm, rfl, rfl⟩ ?_ ?_ ?_
  · exact fun hany => absurd hany hpe
  · exact fun _ => hid
  · rintro (hdata | hdata) <;> cases hdata

end Inv

/-- **A move keeps what the functions rely on.** -/
theorem Move.inv {c : Config} {n n' : Node} {l : Label} (hmove : Move c n l n') (h : Inv c n) :
    Inv c n' := by
  cases hmove with
  | answered hs hstate hlist hp hto => exact h.answered hs hstate hlist hp
  | begun hp hnew hpe hid => exact h.begun_enlist hp hpe hid
  | opened hp hpe => exact h.begun hp fun hne => absurd hpe hne
  | dropped hs hpe => exact (h.free hs ((h.session _ hs).opened hpe).1).count _ _
  | ending hs hpe => exact h.ending hs hpe
  | booked hs hbook => exact h.booked hs hbook
  | picked hs hfinal hlist => exact Inv.free (h.count _ _) hs hlist
  | missed hs hfinal hlist hvirt => exact h.count _ _
  | expired hs hlist hout => exact h.expired hs hlist hout
  | sent hs hlist hout hstate hbook hpkts hk hfree =>
      exact h.sent hs hlist hout hbook hpkts hk hfree
  | settled hs hlist hout hchnl => exact h.settled hs hout
  | shut hs hlist hout hchnl => exact h.shut hs hout
  | found hs hnic hpkts hslot => exact h.found hs hnic hpkts hslot
  | marked hs hr hgen => exact h.marked hs hr
  | landed hs hr hgen => exact h.landed hs hr hgen
  | withdrawn hs hstate hlist => exact h.free hs hlist
  | cut hs hstate hpe => exact h.cut hs _ hpe
  | crossed hs hstate hp hfor hfresh hcookie hpe hd => exact h.crossed hs hstate _ _ hpe
  | completed hs hstate hp hfor hfresh hcookie hpe hd => exact h.completed hs hstate _ _ hpe
  | bound hs hopen hlist hp hgen hcookie hfrom hd => exact h.bound hs hopen hfrom _
  | offered hcdm hcookie hto hp hgen hnew hfrom hd => exact h.offered hcdm hfrom _
  | attached hcdm hid hcnt => exact h.attach hcdm hid _ _
  | configured => exact h.setNic rfl rfl rfl
  | closing => exact h.setNic rfl rfl rfl
  | detached hquiet => exact h.detach hquiet

end Nvl.Datagram

/-
Nvl/Jobs/DomainRuns.lean

The communication domains (`kgni_ops.c`): what every run of attaches and detaches keeps, and
what it can lose.
-/
import Nvl.Jobs.Domains

namespace Nvl.Domains

open SysLib

/-! ### Pointers -/

/-- What is known of the CDMs that attaches have pointers to, and that may be freed.  One without
a place in the table is known to who made it only. -/
structure Pointers (s : State) : Prop where
  below : ∀ n ∈ s.nics, ∀ a, n.phase.Enters a → a < s.nextAddr
  blank : ∀ n ∈ s.nics, ∀ a cdm, n.phase.Enters a → s.cdms a = some cdm → cdm.myId = none →
    (∀ j, cdm.nicHndls j = none) ∧ ∀ t ∈ s.nics, t.phase.Enters a → t.id = n.id

section Pointers

variable {maxCdm : Nat} {s s' : State} {n n' : Nic} {a : Nat} {cdm : Cdm}

theorem Phase.Enters.eq {p : Phase} {b : Nat} (h : p.Enters a) (h' : p.Enters b) : a = b := by
  cases p with
  | entering => exact (show _ = a from h).symm.trans h'
  | idle | looking | creating | attaching | clearing | freeing => cases h

theorem Pointers.write (h : Pointers s) (hid : n'.id = n.id) (hnics : s'.nics = s.nics)
    (hnext : s.nextAddr ≤ s'.nextAddr)
    (hkeep : ∀ t ∈ s.nics, t.id ≠ n.id → ∀ a cdm, t.phase.Enters a → s'.cdms a = some cdm →
      cdm.myId = none → s.cdms a = some cdm)
    (hself : ∀ a, n'.phase.Enters a → a < s'.nextAddr ∧ ∀ cdm, s'.cdms a = some cdm →
      cdm.myId = none → (∀ j, cdm.nicHndls j = none) ∧
        ∀ t ∈ s.nics, t.id ≠ n.id → ¬ t.phase.Enters a) : Pointers (s'.writeNic n') := by
  refine ⟨fun t ht a ha => ?_, fun t ht a cdm ha hcdm hnone => ?_⟩
  · rcases mem_write hid hnics ht with rfl | ⟨ht, -⟩
    · exact (hself a ha).1
    · exact Nat.lt_of_lt_of_le (h.below t ht a ha) hnext
  · rcases mem_write hid hnics ht with rfl | ⟨ht', hne⟩
    · obtain ⟨hblank, hno⟩ := (hself a ha).2 cdm hcdm hnone
      refine ⟨hblank, fun u hu hua => ?_⟩
      rcases mem_write hid hnics hu with rfl | ⟨hu', hune⟩
      · rfl
      · exact absurd hua (hno u hu' hune)
    · obtain ⟨hblank, hsame⟩ := h.blank t ht' a cdm ha (hkeep t ht' hne a cdm ha hcdm hnone) hnone
      refine ⟨hblank, fun u hu hua => ?_⟩
      rcases mem_write hid hnics hu with rfl | ⟨hu', -⟩
      · exact absurd ha (((hself a hua).2 cdm hcdm hnone).2 t ht' hne)
      · exact hsame u hu' hua

theorem Move.pointers {calm orderly : Prop} (m : Move maxCdm s calm orderly s')
    (h : Inv maxCdm s) (hp : Pointers s) : Pointers s' := by
  have hnew : s.cdms s.nextAddr = none := h.table.fresh _ (Nat.le_refl _)
  cases m with
  | same => exact hp
  | create hnew hphase =>
      refine ⟨fun t ht a ha => ?_, fun t ht a cdm ha hcdm hnone => ?_⟩
      · rcases mem_add ht with ht | rfl
        · exact hp.below t ht a ha
        · rw [hphase] at ha
          cases ha
      · rcases mem_add ht with ht | rfl
        · refine ⟨(hp.blank t ht a cdm ha hcdm hnone).1, fun u hu hua => ?_⟩
          rcases mem_add hu with hu | rfl
          · exact (hp.blank t ht a cdm ha hcdm hnone).2 u hu hua
          · rw [hphase] at hua
            cases hua
        · rw [hphase] at ha
          cases ha
  | destroy =>
      refine ⟨fun t ht => hp.below t (mem_removeKey.mp ht).1, fun t ht a cdm ha hcdm hnone => ?_⟩
      obtain ⟨hblank, hsame⟩ := hp.blank t (mem_removeKey.mp ht).1 a cdm ha hcdm hnone
      exact ⟨hblank, fun u hu => hsame u (mem_removeKey.mp hu).1⟩
  | loose hn hid hcdm hcdm' hphase hphase' hleft hfound =>
      refine hp.write hid rfl (Nat.le_refl _) (fun _ _ _ _ _ _ hcdm _ => hcdm) fun a ha => ?_
      obtain ⟨i, hi⟩ := hfound a ha
      obtain ⟨cdm, hcdm, hmy⟩ := h.table.placed i a hi
      refine ⟨?_, fun cdm' hcdm' hnone => ?_⟩
      · by_contra hno
        rw [h.table.fresh a (Nat.le_of_not_lt hno)] at hcdm
        cases hcdm
      · obtain rfl := Option.some.inj (hcdm.symm.trans hcdm')
        rw [hnone] at hmy
        cases hmy
  | attached =>
      exact hp.write rfl rfl (Nat.le_refl _) (fun _ _ _ _ _ _ hcdm _ => hcdm)
        fun _ ha => absurd ha fun ha => ha
  | @make n n' identity place r hn hid hcdm hcdm' hphase hphase' hplace =>
      refine hp.write hid rfl (Nat.le_succ _) (fun t ht _ a cdm ha hcdm _ => ?_) fun a ha => ?_
      -- the address is new, so no other NIC points to it
      · have hne : a ≠ s.nextAddr := Nat.ne_of_lt (hp.below t ht a ha)
        exact (Function.update_of_ne hne ..).symm.trans hcdm
      · rcases hphase' with hp' | hp' <;> rw [hp'] at ha
        · cases ha
        · obtain rfl : s.nextAddr = a := ha
          refine ⟨Nat.lt_succ_self _, fun cdm hcdm _ => ?_⟩
          obtain rfl := Option.some.inj ((Function.update_self s.nextAddr _ s.cdms).symm.trans hcdm)
          refine ⟨fun _ => rfl, fun t ht _ hta => ?_⟩
          exact absurd rfl (Nat.ne_of_lt (hp.below t ht _ hta))
  | @link n a i j cdm hn hcdm hphase ha hvalid hi =>
      refine hp.write rfl rfl (Nat.le_refl _) (fun t _ _ b c _ hc hnone => ?_)
        fun _ ha => absurd ha fun ha => ha
      rcases eq_or_ne b a with rfl | hne
      · obtain rfl := Option.some.inj ((cdms_writeCdm_self ..).symm.trans hc)
        rw [show cdm.myId = none from hnone] at hi
        cases hi
      · exact (cdms_writeCdm_of_ne s _ hne).symm.trans hc
  | @fill n n' a cdm cdm' hn hid hcdm hcdm' hphase hphase' ha hnone hnone' =>
      refine hp.write hid rfl (Nat.le_refl _) (fun t ht hne b c hb hc _ => ?_)
        fun _ hb => absurd hb (by rw [hphase']; exact fun hb => hb)
      rcases eq_or_ne b a with rfl | hba
      -- only the NIC that made it points to a CDM without a place
      · exact absurd ((hp.blank n hn b cdm hphase ha hnone).2 t ht hb) hne
      · exact (cdms_writeCdm_of_ne s _ hba).symm.trans hc
  | @unlink n n' a i j cdm cdm' hn hid hcdm hcdm' hj ha hi hmy hidentity hhndls hend =>
      refine hp.write hid rfl (Nat.le_refl _) (fun t _ _ b c _ hc hnone => ?_) fun b hb => ?_
      · rcases eq_or_ne b a with rfl | hne
        · obtain rfl := Option.some.inj ((cdms_writeCdm_self ..).symm.trans hc)
          obtain ⟨c', hc', hmy'⟩ := h.table.placed i b hi
          obtain rfl := Option.some.inj (ha.symm.trans hc')
          rw [← hmy, hnone] at hmy'
          cases hmy'
        · exact (cdms_writeCdm_of_ne s _ hne).symm.trans hc
      · rcases hend with ⟨hidle, -⟩ | ⟨⟨rc, hclear⟩, -⟩
        · rw [hidle] at hb
          cases hb
        · rw [hclear] at hb
          cases hb
  | clear =>
      exact hp.write rfl rfl (Nat.le_refl _) (fun _ _ _ _ _ _ hcdm _ => hcdm)
        fun _ ha => absurd ha fun ha => ha
  | @free n a rc hn hphase =>
      refine hp.write rfl rfl (Nat.le_refl _) (fun t _ _ b c _ hc _ => ?_)
        fun _ ha => absurd ha fun ha => ha
      rcases eq_or_ne b a with rfl | hne
      · cases (Function.update_self b none s.cdms).symm.trans hc
      · exact (Function.update_of_ne hne ..).symm.trans hc

end Pointers

/-! ### Loops -/

section Loops

variable {maxCdm : Nat} {s : State} {n m : Nic} {a i : Nat} {c cdm : Cdm}

/-- What `kgni_cdm_lookup` finds is in the table. -/
theorem lookupLoop_ok (h : Table maxCdm s) (identity : Identity) (k i : Nat) :
    ∃ r, lookupLoop s identity k i = .ok r ∧ ∀ a, r = some a → ∃ j, s.cdmArray j = some a := by
  induction k generalizing i with
  | zero => exact ⟨none, rfl, fun _ h => (by cases h)⟩
  | succ k ih =>
      unfold lookupLoop
      split
      · exact ih (i + 1)
      · next a ha =>
          obtain ⟨cdm, hcdm, -⟩ := h.placed i a ha
          rw [hcdm]
          dsimp only
          split
          · exact ⟨some a, rfl, fun b hb => ⟨i, ha.trans hb⟩⟩
          · exact ih (i + 1)

/-- The first valid CDM of its identity is found. -/
theorem lookupLoop_first (htable : Table maxCdm s) (ha : s.cdmArray i = some a)
    (hcdm : s.cdms a = some cdm) (hvalid : cdm.valid = true)
    (hfirst : ∀ j < i, ∀ b c, s.cdmArray j = some b → s.cdms b = some c → c.valid = true →
      c.identity ≠ cdm.identity) :
    ∀ k j, j + k = maxCdm → j ≤ i → lookupLoop s cdm.identity k j = .ok (some a)
  | 0, j, hjk, hji => by
      have hi := htable.bound i a ha
      omega
  | k + 1, j, hjk, hji => by
      unfold lookupLoop
      rcases Nat.eq_or_lt_of_le hji with rfl | hlt
      · rw [ha]
        dsimp only
        rw [hcdm]
        dsimp only
        rw [if_pos ⟨hvalid, rfl⟩]
      · have ih := lookupLoop_first htable ha hcdm hvalid hfirst k (j + 1) (by omega) hlt
        split
        · exact ih
        · next b hb =>
            obtain ⟨c, hc, -⟩ := htable.placed j b hb
            rw [hc]
            dsimp only
            rw [if_neg fun hsame => hfirst j hlt b c hb hc hsame.1 hsame.2]
            exact ih

/-- The place is the first that is free, and the whole table is looked at. -/
theorem createLoop_ok (h : Table maxCdm s) (identity : Identity) :
    ∀ (k i : Nat) (place : Option Nat), i + k = maxCdm →
      (∀ l, place = some l → l < maxCdm ∧ s.cdmArray l = none) →
      ∃ r dup, createLoop s identity k i place = .ok (r, dup) ∧
        (∀ l, r = some l → l < maxCdm ∧ s.cdmArray l = none) ∧
        (r = none → place = none ∧
          (dup = false → ∀ l, i ≤ l → l < maxCdm → s.cdmArray l ≠ none)) ∧
        (dup = true → ∃ l < maxCdm, ∃ a ∈ s.cdmArray l, ∃ cdm ∈ s.cdms a,
          cdm.identity = identity) ∧
        (dup = false → ∀ l a cdm, i ≤ l → s.cdmArray l = some a → s.cdms a = some cdm →
          cdm.identity ≠ identity)
  | 0, i, place, hik, hplace => by
      refine ⟨place, false, rfl, hplace, fun hnone => ⟨hnone, fun _ l hil hl => ?_⟩,
        fun hdup => (by cases hdup), fun _ l a cdm hil ha _ => ?_⟩
      · omega
      · have hl := h.bound l a ha
        omega
  | k + 1, i, place, hik, hplace => by
      unfold createLoop
      split
      · next hfree =>
          -- a place found before is kept, else this one is taken
          have hplace' : ∀ l, some (place.getD i) = some l → l < maxCdm ∧ s.cdmArray l = none := by
            intro l hl
            obtain rfl := Option.some.inj hl
            rcases place with - | l
            · exact ⟨by show i < maxCdm; omega, hfree⟩
            · exact hplace l rfl
          obtain ⟨r, dup, hloop, hr, hnone, hdup, hnodup⟩ :=
            createLoop_ok h identity k (i + 1) _ (by omega) hplace'
          refine ⟨r, dup, hloop, hr, fun hn => ?_, hdup, fun hd l a cdm hil ha hcdm => ?_⟩
          · cases (hnone hn).1
          · refine hnodup hd l a cdm ?_ ha hcdm
            rcases Nat.eq_or_lt_of_le hil with rfl | hlt
            · rw [hfree] at ha
              cases ha
            · exact hlt
      · next a ha =>
          obtain ⟨cdm, hcdm, -⟩ := h.placed i a ha
          rw [hcdm]
          dsimp only
          split
          · next hsame =>
              exact ⟨place, true, rfl, hplace, fun hnone => ⟨hnone, fun hd => (by cases hd)⟩,
                fun _ => ⟨i, h.bound i a ha, a, ha, cdm, hcdm, hsame⟩, fun hd => (by cases hd)⟩
          · next hdiff =>
              obtain ⟨r, dup, hloop, hr, hnone, hdup, hnodup⟩ :=
                createLoop_ok h identity k (i + 1) place (by omega) hplace
              refine ⟨r, dup, hloop, hr, fun hn => ⟨(hnone hn).1, fun hd l hil hl => ?_⟩, hdup,
                fun hd l b cdm' hil hb hcdm' => ?_⟩
              · rcases Nat.eq_or_lt_of_le hil with rfl | hlt
                · rw [ha]
                  exact fun hno => (by cases hno)
                · exact (hnone hn).2 hd l hlt hl
              · rcases Nat.eq_or_lt_of_le hil with rfl | hlt
                · obtain rfl := Option.some.inj (ha.symm.trans hb)
                  obtain rfl := Option.some.inj (hcdm.symm.trans hcdm')
                  exact hdiff
                · exact hnodup hd l b cdm' hlt hb hcdm'

/-- How far the NIC `n` is linked to the CDM `cdm` after `i` places. -/
inductive Linking (cdm : Cdm) (n : Nic) (i : Nat) : Cdm → Nic → Prop
  | full (hfull : ∀ j < i, cdm.nicHndls j ≠ none) : Linking cdm n i cdm n
  | linked {j : Nat} (hj : j < i) (hfree : cdm.nicHndls j = none) :
      Linking cdm n i { cdm with nicHndls := Function.update cdm.nicHndls j (some n.id) }
        { n with cdmId := cdm.myId, myId := some j }

theorem Linking.succ {i : Nat} (h : Linking cdm n i c m) (hi : cdm.nicHndls i ≠ none) :
    Linking cdm n (i + 1) c m := by
  cases h with
  | full hfull =>
      refine .full fun j hj => ?_
      rcases Nat.eq_or_lt_of_le (Nat.le_of_lt_succ hj) with rfl | hlt
      · exact hi
      · exact hfull j hlt
  | linked hj hfree => exact .linked (Nat.lt_succ_of_lt hj) hfree

theorem retract_of_linked {l j : Nat} (hcdm : n.cdmId = some l) (hj : n.myId = some j) :
    retract cdm n = ({ cdm with nicHndls := Function.update cdm.nicHndls j none },
      { n with cdmId := none }) := by
  rw [retract, hcdm, hj]

/-- After every place the NIC is linked at most once; if the same PE is found, the CDM is left as
it was. -/
theorem linkLoop_ok {l : Nat} (hmy : cdm.myId = some l) (hcdm : n.cdmId = none)
    (hlive : ∀ j id, cdm.nicHndls j = some id → ∃ t, s.nic id = some t) :
    ∀ (k i : Nat) (c : Cdm) (m : Nic), Linking cdm n i c m →
      ∃ c' m' found, linkLoop s k i c m = .ok (c', m', found) ∧
        (found = true → Linking cdm n (i + k) c' m') ∧
        (found = false → c' = cdm ∧ m'.id = n.id ∧ m'.cdmId = none ∧ cdm.Used)
  | 0, i, c, m, h => ⟨c, m, true, rfl, fun _ => h, fun hf => (by cases hf)⟩
  | k + 1, i, c, m, h => by
      have hnext : i + (k + 1) = i + 1 + k := by omega
      rw [hnext]
      unfold linkLoop
      split
      · next hfree =>
          split
          · next hm =>
              cases h with
              | full =>
                  exact linkLoop_ok hmy hcdm hlive k (i + 1) _ _
                    (.linked (Nat.lt_succ_self i) hfree)
              | linked =>
                  rw [show cdm.myId = none from hm] at hmy
                  cases hmy
          · next l' hm =>
              cases h with
              | full =>
                  rw [hcdm] at hm
                  cases hm
              | @linked j hj hfree' =>
                  exact linkLoop_ok hmy hcdm hlive k (i + 1) _ _
                    (.linked (Nat.lt_succ_of_lt hj) hfree')
      · next id hid =>
          -- the NIC itself is further up
          have hid' : cdm.nicHndls i = some id := by
            cases h with
            | full => exact hid
            | @linked j hj =>
                exact (Function.update_of_ne (Nat.ne_of_gt hj) ..).symm.trans hid
          obtain ⟨t, ht⟩ := hlive i id hid'
          rw [ht]
          dsimp only
          split
          -- what was linked on the way is taken out again
          · refine ⟨_, _, false, rfl, fun hf => (by cases hf), fun _ => ?_⟩
            cases h with
            | full =>
                rw [retract, hcdm]
                exact ⟨rfl, rfl, hcdm, i, id, hid'⟩
            | @linked j hj hfree =>
                refine ⟨?_, ?_, ?_, i, id, hid'⟩
                · rw [retract_of_linked hmy rfl]
                  show Cdm.mk _ _ _ (Function.update (Function.update _ j _) j none) = cdm
                  rw [Function.update_idem, ← hfree, Function.update_eq_self]
                · rw [retract_of_linked hmy rfl]
                · rw [retract_of_linked hmy rfl]
          · refine linkLoop_ok hmy hcdm hlive k (i + 1) c m (h.succ ?_)
            rw [hid']
            exact fun hno => (by cases hno)

/-- A CDM without a place in the table takes the NIC wherever it can, and does not keep it. -/
theorem linkLoop_blank :
    ∀ (k i : Nat) (c : Cdm) (m : Nic), c.myId = none → m.cdmId = none →
      (∀ j, i ≤ j → c.nicHndls j = none) →
      ∃ c' m', linkLoop s k i c m = .ok (c', m', true) ∧ c'.myId = none ∧ m'.cdmId = none ∧
        m'.id = m.id
  | 0, _, c, m, hmy, hcdm, _ => ⟨c, m, rfl, hmy, hcdm, rfl⟩
  | k + 1, i, c, m, hmy, hcdm, hblank => by
      unfold linkLoop
      rw [hblank i (Nat.le_refl i), hcdm]
      obtain ⟨c', m', hloop, hmy', hcdm', hid⟩ := linkLoop_blank k (i + 1)
        { c with nicHndls := Function.update c.nicHndls i (some m.id) }
        { m with cdmId := c.myId, myId := some i } hmy hmy fun j hj =>
          (Function.update_of_ne (Nat.ne_of_gt hj) ..).trans (hblank j (Nat.le_of_lt hj))
      exact ⟨c', m', hloop, hmy', hcdm', hid⟩

end Loops

/-! ### Calls -/

section Calls

variable {maxCdm : Nat} {s s' : State} {n : Nic} {a i : Nat} {cdm : Cdm}

/-- A part of a call goes well, and does one of the things that can happen. -/
def Goes (maxCdm : Nat) (s : State) (r : Except Fault (State × Option Ret))
    (calm orderly : Prop) : Prop :=
  ∃ s' ret c o, r = .ok (s', ret) ∧ Move maxCdm s c o s' ∧ (calm → c) ∧ (orderly → o)

theorem Move.goes {ret : Option Ret} {calm orderly : Prop} (m : Move maxCdm s True True s') :
    Goes maxCdm s (.ok (s', ret)) calm orderly :=
  ⟨s', ret, True, True, rfl, m, fun _ => trivial, fun _ => trivial⟩

theorem writeCdm_eq_self (ha : s.cdms a = some cdm) : s.writeCdm a cdm = s := by
  rw [State.writeCdm, ← ha, Function.update_eq_self]

theorem Cdm.empty_iff : cdm.empty = true ↔ ∀ j < maxNicsAttached, cdm.nicHndls j = none := by
  simp [Cdm.empty]

theorem Cdm.used_of_not_empty (h : ¬ cdm.empty = true) : cdm.Used := by
  rw [Cdm.empty_iff] at h
  push Not at h
  obtain ⟨j, -, hj⟩ := h
  obtain ⟨id, hid⟩ := Option.ne_none_iff_exists'.mp hj
  exact ⟨j, id, hid⟩

/-- Who is in a CDM with a place in the table is there. -/
theorem Inv.exists_nic (h : Inv maxCdm s) {j id : Nat} (hhas : s.Has a i j id) :
    ∃ t, s.nic id = some t := by
  obtain ⟨-, -, t, ht, rfl, -⟩ := h.live a i j id hhas
  exact ⟨t, findKey_eq h.ids ht⟩

theorem Inv.cdmId_of_enters (h : Inv maxCdm s) (hn : n ∈ s.nics) (hphase : n.phase.Enters a) :
    n.cdmId = none :=
  (h.sound n hn).cdmId_eq_none (.inr hphase)

section

variable (h : Inv maxCdm s) (hn : n ∈ s.nics) {calm orderly : Prop}
include h hn

theorem unlink_goes (hi : n.cdmId = some i) (ha : s.cdmArray i = some a)
    (hcdm : s.cdms a = some cdm) (rc : Ret) :
    Goes maxCdm s (unlink s n a cdm rc) calm orderly := by
  obtain ⟨b, c, j, hb, hc, -, hj, -⟩ := h.has_of_linked hn hi
  obtain rfl := Option.some.inj (ha.symm.trans hb)
  obtain rfl := Option.some.inj (hcdm.symm.trans hc)
  unfold unlink
  rw [hj]
  dsimp only
  split
  · next hempty =>
      refine Move.goes (.unlink hn ?_ hi ?_ hj hcdm ha ?_ ?_ ?_ (.inr ⟨⟨rc, ?_⟩, ?_, ?_⟩))
      all_goals first | rfl | exact Cdm.empty_iff.mp hempty
  · next hempty =>
      refine Move.goes (.unlink hn ?_ hi ?_ hj hcdm ha ?_ ?_ ?_ (.inl ⟨?_, ?_, ?_⟩))
      all_goals first | rfl | exact Cdm.used_of_not_empty hempty

omit h in
theorem attach_goes (hphase : n.phase = .idle) (identity : Identity) (check : Ret) :
    Goes maxCdm s (.ok (attach s n identity check)) calm orderly := by
  unfold attach
  split
  · exact Move.same.goes
  · next hcdm =>
      have hnone : n.cdmId = none := not_not.mp hcdm
      rcases check with e | u
      · exact Move.same.goes
      · refine Move.goes (.loose hn rfl hnone hnone ?_ trivial ?_ fun _ ha => ha.elim)
        · rw [hphase]
          trivial
        · intro a cdm ha
          rw [hphase] at ha
          exact ha.elim

theorem lookup_goes {identity : Identity} {retried : Bool}
    (hphase : n.phase = .looking identity retried) :
    Goes maxCdm s (lookup maxCdm s n identity retried) calm orderly := by
  have hnone := h.sound n hn
  unfold Nic.Sound at hnone
  rw [hphase] at hnone
  have hloose : n.phase.Loose := by
    rw [hphase]
    trivial
  have hleft (a : Nat) (cdm : Cdm) (ha : n.phase.Enters a) : s.cdms a = some cdm →
      cdm.valid = true → cdm.Used := by
    rw [hphase] at ha
    exact ha.elim
  obtain ⟨r, hloop, hfound⟩ := lookupLoop_ok h.table identity maxCdm 0
  unfold lookup
  rw [hloop]
  rcases r with - | a
  · exact Move.goes (.loose hn rfl hnone hnone hloose trivial hleft fun _ ha => ha.elim)
  · refine Move.goes (.loose hn rfl hnone hnone hloose trivial hleft fun b hb => ?_)
    obtain rfl : a = b := hb
    exact hfound a rfl

theorem make_goes {identity : Identity} {retried : Bool}
    (hphase : n.phase = .creating identity retried) (allocFails : Bool)
    (horderly : orderly → (∃ i < maxCdm, s.cdmArray i = none) ∧
      ∀ i < maxCdm, ∀ a ∈ s.cdmArray i, ∀ cdm ∈ s.cdms a, cdm.identity ≠ identity) :
    Goes maxCdm s (make maxCdm s n identity retried allocFails) calm orderly := by
  have hnone := h.sound n hn
  unfold Nic.Sound at hnone
  rw [hphase] at hnone
  obtain ⟨r, dup, hloop, hplace, hfull, hdup, hnodup⟩ := createLoop_ok h.table identity maxCdm 0
    none (Nat.zero_add maxCdm) fun _ hl => (by cases hl)
  unfold make
  split
  · refine Move.goes (.loose hn rfl hnone hnone ?_ trivial ?_ fun _ ha => ha.elim)
    · rw [hphase]
      trivial
    · intro a cdm ha
      rw [hphase] at ha
      exact ha.elim
  · rw [hloop]
    rcases dup with - | -
    · refine ⟨_, _, True, _, rfl, .make hn rfl hnone hnone hphase (.inr rfl) hplace,
        fun _ => trivial, fun ho => ⟨fun hr => ?_, rfl, fun l b cdm => ?_⟩⟩
      · obtain ⟨⟨l, hl, hfree⟩, -⟩ := horderly ho
        exact (hfull hr).2 rfl l (Nat.zero_le l) hl hfree
      · exact hnodup rfl l b cdm (Nat.zero_le l)
    · refine ⟨_, _, True, _, rfl, .make hn rfl hnone hnone hphase (.inl rfl) hplace,
        fun _ => trivial, fun ho => ?_⟩
      obtain ⟨l, hl, b, hb, cdm, hcdm, hsame⟩ := hdup rfl
      exact absurd hsame ((horderly ho).2 l hl b hb cdm hcdm)

/-- An attach takes the lock of its CDM, or finds it freed. -/
theorem enter_goes (hp : Pointers s) {identity : Identity} {retried : Bool}
    (hphase : n.phase = .entering identity retried a) :
    Goes maxCdm s (enter s n identity retried a) calm orderly ∨
      s.cdms a = none ∧ enter s n identity retried a = .error .stale := by
  have henters : n.phase.Enters a := by
    rw [hphase]
    rfl
  have hloose : n.phase.Loose := by
    rw [hphase]
    trivial
  have hnone := h.cdmId_of_enters hn henters
  unfold enter
  rcases ha : s.cdms a with - | cdm
  · exact .inr ⟨rfl, rfl⟩
  left
  have hleft (hused : cdm.valid = true → cdm.Used) (b : Nat) (c : Cdm) (hb : n.phase.Enters b)
      (hc : s.cdms b = some c) : c.valid = true → c.Used := by
    obtain rfl := henters.eq hb
    obtain rfl := Option.some.inj (ha.symm.trans hc)
    exact hused
  dsimp only
  split
  · next hinvalid =>
      have hno : cdm.valid = true → cdm.Used := fun hvalid => by
        rw [hvalid] at hinvalid
        cases hinvalid
      split
      · exact Move.goes (.loose hn rfl hnone hnone hloose trivial (hleft hno) fun _ hb => hb.elim)
      · exact Move.goes (.loose hn rfl hnone hnone hloose trivial (hleft hno) fun _ hb => hb.elim)
  · next hvalid =>
      have hvalid' : cdm.valid = true := by
        simpa using hvalid
      -- a CDM without a place is known to this NIC only
      rcases hmy : cdm.myId with - | l
      · obtain ⟨c', m', hloop, hmy', hcdm', hid⟩ := linkLoop_blank (s := s) maxNicsAttached 0 cdm n
          hmy hnone fun j _ => (hp.blank n hn a cdm henters ha hmy).1 j
        rw [hloop]
        dsimp only
        rw [if_pos hcdm']
        exact Move.goes (.fill hn hid hnone hcdm' henters rfl ha hmy hmy')
      · obtain ⟨c', m', found, hloop, hlinked, hdup⟩ := linkLoop_ok (s := s) hmy hnone
          (fun j id hj => h.exists_nic ⟨cdm, ha, hmy, hj⟩) maxNicsAttached 0 cdm n
          (.full fun _ hj => absurd hj (Nat.not_lt_zero _))
        rw [hloop]
        rcases found with - | -
        · obtain ⟨rfl, hid, hcdm', hused⟩ := hdup rfl
          dsimp only
          rw [writeCdm_eq_self ha]
          exact Move.goes (.loose hn hid hnone hcdm' hloose trivial (hleft fun _ => hused)
            fun _ hb => hb.elim)
        · dsimp only
          cases hlinked rfl with
          | full hfull =>
              have hused : cdm.Used := by
                obtain ⟨id, hid⟩ := Option.ne_none_iff_exists'.mp (hfull 0 (by decide))
                exact ⟨0, id, hid⟩
              rw [if_pos hnone, writeCdm_eq_self ha]
              exact Move.goes (.loose hn rfl hnone hnone hloose trivial (hleft fun _ => hused)
                fun _ hb => hb.elim)
          | @linked j hj hfree =>
              have hno : cdm.myId ≠ none := by
                rw [hmy]
                exact fun hno => (by cases hno)
              rw [Nat.zero_add] at hj
              have m : Move maxCdm s True True _ := .link hn hnone henters ha hvalid' hmy hj hfree
              rw [← hmy] at m
              rw [if_neg hno]
              exact m.goes

theorem finish_goes (hphase : n.phase = .attaching a) (failure : Option Errno) :
    Goes maxCdm s (finish s n a failure) calm orderly := by
  have hsound := h.sound n hn
  unfold Nic.Sound at hsound
  rw [hphase] at hsound
  obtain ⟨i, hi, harray⟩ := hsound
  obtain ⟨cdm, hcdm, -⟩ := h.table.placed i a harray
  rcases failure with - | e
  · exact Move.goes (.attached hn hphase)
  · rw [finish, hcdm]
    exact unlink_goes h hn hi harray hcdm (.error e)

theorem detach_goes : Goes maxCdm s (detach s n) calm orderly := by
  unfold detach
  split
  · exact Move.same.goes
  · next i hi =>
      obtain ⟨a, cdm, j, harray, hcdm, -⟩ := h.linked n hn i hi
      rw [harray]
      dsimp only
      rw [hcdm]
      dsimp only
      split
      · exact Move.same.goes
      · exact unlink_goes h hn hi harray hcdm (.ok ())

theorem clear_goes {rc : Ret} (hphase : n.phase = .clearing a rc) :
    Goes maxCdm s (clear s n a rc) calm orderly := by
  have hsound := h.sound n hn
  unfold Nic.Sound at hsound
  rw [hphase] at hsound
  obtain ⟨-, i, ⟨cdm, hcdm, hmy, -⟩, -⟩ := hsound
  unfold clear
  rw [hcdm]
  dsimp only
  rw [hmy]
  exact Move.goes (.clear hn hphase hcdm hmy)

theorem free_goes {rc : Ret} (hphase : n.phase = .freeing a rc)
    (hcalm : calm → ∀ t ∈ s.nics, ¬ t.phase.Enters a) :
    Goes maxCdm s (free s n a rc) calm orderly := by
  have hsound := h.sound n hn
  unfold Nic.Sound at hsound
  rw [hphase] at hsound
  obtain ⟨-, ⟨i, cdm, hcdm, -⟩, -⟩ := hsound
  unfold free
  rw [hcdm]
  exact ⟨_, _, _, True, rfl, .free hn hphase, hcalm, fun _ => trivial⟩

omit h in
theorem destroy_goes (hphase : n.phase = .idle) :
    Goes maxCdm s (.ok (destroy s n)) calm orderly := by
  unfold destroy
  split
  · exact Move.same.goes
  · next hcdm => exact Move.goes (.destroy hn hphase (not_not.mp hcdm))

end

theorem on_of_nic {id : Nat} (h : s.nic id = some n)
    (f : Nic → Except Fault (State × Option Ret)) : s.on id f = f n := by
  rw [State.on, h]

theorem on_eq (h : Inv maxCdm s) (hn : n ∈ s.nics)
    (f : Nic → Except Fault (State × Option Ret)) : s.on n.id f = f n :=
  on_of_nic (findKey_eq h.ids hn) f

/-- A step goes well, or an attach finds its CDM freed. -/
theorem step_goes (h : Inv maxCdm s) (hp : Pointers s) {op : Op} (hen : op.Enabled s) :
    Goes maxCdm s (step maxCdm s op) (op.Calm s) (op.Orderly maxCdm s) ∨
      step maxCdm s op = .error .stale ∧ ∃ n ∈ s.nics, ∃ a, n.phase.Enters a ∧ s.cdms a = none := by
  cases op with
  | create id nicPe =>
      exact .inl (Move.goes (.create (n := .new id nicPe) hen rfl rfl))
  | attach id identity check =>
      obtain ⟨n, hn, rfl, htakes⟩ := hen
      cases hphase : n.phase <;> rw [hphase] at htakes <;> cases htakes
      left
      rw [step, on_eq h hn]
      exact attach_goes hn hphase identity check
  | lookup id =>
      obtain ⟨n, hn, rfl, htakes⟩ := hen
      cases hphase : n.phase <;> rw [hphase] at htakes <;> cases htakes
      left
      rw [step, on_eq h hn, hphase]
      exact lookup_goes h hn hphase
  | make id allocFails =>
      obtain ⟨n, hn, rfl, htakes⟩ := hen
      cases hphase : n.phase <;> rw [hphase] at htakes <;> cases htakes
      left
      rw [step, on_eq h hn, hphase]
      exact make_goes h hn hphase allocFails fun ho => ho n hn rfl _ _ hphase
  | enter id =>
      obtain ⟨n, hn, rfl, htakes⟩ := hen
      cases hphase : n.phase <;> rw [hphase] at htakes <;> cases htakes
      rw [step, on_eq h hn, hphase]
      rcases enter_goes h hn hp hphase with hgoes | ⟨hnone, hstale⟩
      · exact .inl hgoes
      · refine .inr ⟨hstale, n, hn, _, ?_, hnone⟩
        rw [hphase]
        rfl
  | finish id failure =>
      obtain ⟨n, hn, rfl, htakes⟩ := hen
      cases hphase : n.phase <;> rw [hphase] at htakes <;> cases htakes
      left
      rw [step, on_eq h hn, hphase]
      exact finish_goes h hn hphase failure
  | detach id =>
      obtain ⟨n, hn, rfl, -⟩ := hen
      left
      rw [step, on_eq h hn]
      exact detach_goes h hn
  | clear id =>
      obtain ⟨n, hn, rfl, htakes⟩ := hen
      cases hphase : n.phase <;> rw [hphase] at htakes <;> cases htakes
      left
      rw [step, on_eq h hn, hphase]
      exact clear_goes h hn hphase
  | free id =>
      obtain ⟨n, hn, rfl, htakes⟩ := hen
      cases hphase : n.phase <;> rw [hphase] at htakes <;> cases htakes
      left
      rw [step, on_eq h hn, hphase]
      refine free_goes h hn hphase fun hcalm => hcalm n hn rfl _ ?_
      rw [hphase]
      rfl
  | destroy id =>
      obtain ⟨n, hn, rfl, htakes⟩ := hen
      cases hphase : n.phase <;> rw [hphase] at htakes <;> cases htakes
      left
      rw [step, on_eq h hn]
      exact destroy_goes hn hphase

end Calls

/-! ### What stays as it is -/

section Keeps

variable {maxCdm : Nat} {s s' : State} {n n' : Nic} {a b i : Nat} {cdm : Cdm}
variable {calm orderly : Prop}

/-- No attach has a pointer to a CDM that is freed. -/
def Held (s : State) : Prop := ∀ n ∈ s.nics, ∀ a, n.phase.Enters a → s.cdms a ≠ none

/-- A CDM without a place in the table, that nobody knows of. -/
structure Lost (s : State) (a : Nat) (cdm : Cdm) : Prop where
  there : s.cdms a = some cdm
  unlisted : cdm.myId = none
  unknown : ∀ n ∈ s.nics, ¬ n.phase.Enters a

theorem Held.write (h : Held s) (hid : n'.id = n.id) (hnics : s'.nics = s.nics)
    (hkeep : ∀ a, s.cdms a ≠ none → s'.cdms a ≠ none)
    (hself : ∀ a, n'.phase.Enters a → s'.cdms a ≠ none) : Held (s'.writeNic n') := by
  intro t ht a ha
  rcases mem_write hid hnics ht with rfl | ⟨ht, -⟩
  · exact hself a ha
  · exact hkeep a (h t ht a ha)

theorem cdms_writeCdm_ne_none (cdm : Cdm) (hb : s.cdms b ≠ none) :
    (s.writeCdm a cdm).cdms b ≠ none := by
  rcases eq_or_ne b a with rfl | hne
  · rw [cdms_writeCdm_self]
    exact Option.some_ne_none cdm
  · rw [cdms_writeCdm_of_ne s cdm hne]
    exact hb

theorem Move.held (m : Move maxCdm s calm orderly s') (h : Inv maxCdm s) (hheld : Held s)
    (hcalm : calm) : Held s' := by
  cases m with
  | same => exact hheld
  | create hnew hphase =>
      intro t ht a ha
      rcases mem_add ht with ht | rfl
      · exact hheld t ht a ha
      · rw [hphase] at ha
        cases ha
  | destroy => exact fun t ht => hheld t (mem_removeKey.mp ht).1
  | loose hn hid hcdm hcdm' hphase hphase' hleft hfound =>
      refine hheld.write hid rfl (fun _ ha => ha) fun a ha => ?_
      obtain ⟨i, hi⟩ := hfound a ha
      obtain ⟨cdm, hcdm, -⟩ := h.table.placed i a hi
      rw [hcdm]
      exact Option.some_ne_none cdm
  | attached => exact hheld.write rfl rfl (fun _ ha => ha) fun _ ha => ha.elim
  | @make n n' identity place r hn hid hcdm hcdm' hphase hphase' hplace =>
      have hkeep (b : Nat) (hb : b = s.nextAddr ∨ s.cdms b ≠ none) :
          (s.place identity place).cdms b ≠ none := by
        rcases eq_or_ne b s.nextAddr with rfl | hne
        · show Function.update s.cdms _ _ _ ≠ none
          rw [Function.update_self]
          exact Option.some_ne_none _
        · show Function.update s.cdms _ _ _ ≠ none
          rw [Function.update_of_ne hne]
          exact hb.resolve_left hne
      refine hheld.write hid rfl (fun b hb => hkeep b (.inr hb)) fun b hb => ?_
      rcases hphase' with hp | hp <;> rw [hp] at hb
      · cases hb
      · obtain rfl : s.nextAddr = b := hb
        exact hkeep _ (.inl rfl)
  | link => exact hheld.write rfl rfl (fun _ => cdms_writeCdm_ne_none _) fun _ ha => ha.elim
  | fill hn hid hcdm hcdm' hphase hphase' =>
      refine hheld.write hid rfl (fun _ => cdms_writeCdm_ne_none _) fun b hb => ?_
      rw [hphase'] at hb
      cases hb
  | unlink hn hid hcdm hcdm' hj ha hi hmy hidentity hhndls hend =>
      refine hheld.write hid rfl (fun _ => cdms_writeCdm_ne_none _) fun b hb => ?_
      rcases hend with ⟨hp, -⟩ | ⟨⟨rc, hp⟩, -⟩ <;> rw [hp] at hb <;> cases hb
  | clear => exact hheld.write rfl rfl (fun _ ha => ha) fun _ ha => ha.elim
  | @free n a rc hn hphase =>
      intro t ht b hb
      rcases mem_write rfl rfl ht with rfl | ⟨ht, -⟩
      · cases hb
      · have hne : b ≠ a := by
          rintro rfl
          exact hcalm t ht hb
        show Function.update s.cdms _ none b ≠ none
        rw [Function.update_of_ne hne]
        exact hheld t ht b hb

theorem Lost.write (h : Lost s a cdm) (hid : n'.id = n.id) (hnics : s'.nics = s.nics)
    (hcdms : s'.cdms a = s.cdms a) (hself : ¬ n'.phase.Enters a) : Lost (s'.writeNic n') a cdm := by
  refine ⟨hcdms.trans h.there, h.unlisted, fun t ht ha => ?_⟩
  rcases mem_write hid hnics ht with rfl | ⟨ht, -⟩
  · exact hself ha
  · exact h.unknown t ht ha

/-- What is lost is not in the table. -/
theorem Lost.ne_of_myId (h : Lost s a cdm) {c : Cdm} (hc : s.cdms b = some c)
    (hi : c.myId = some i) : a ≠ b := by
  rintro rfl
  obtain rfl := Option.some.inj (h.there.symm.trans hc)
  rw [h.unlisted] at hi
  cases hi

theorem Lost.ne_of_enters (h : Lost s a cdm) (hn : n ∈ s.nics) (hb : n.phase.Enters b) : a ≠ b := by
  rintro rfl
  exact h.unknown n hn hb

theorem Move.lost (m : Move maxCdm s calm orderly s') (h : Inv maxCdm s) (hlost : Lost s a cdm) :
    Lost s' a cdm := by
  have hne : a ≠ s.nextAddr := by
    rintro rfl
    cases (h.table.fresh _ (Nat.le_refl _)).symm.trans hlost.there
  cases m with
  | same => exact hlost
  | create hnew hphase =>
      refine ⟨hlost.there, hlost.unlisted, fun t ht ha => ?_⟩
      rcases mem_add ht with ht | rfl
      · exact hlost.unknown t ht ha
      · rw [hphase] at ha
        cases ha
  | destroy =>
      exact ⟨hlost.there, hlost.unlisted, fun t ht => hlost.unknown t (mem_removeKey.mp ht).1⟩
  | loose hn hid hcdm hcdm' hphase hphase' hleft hfound =>
      refine hlost.write hid rfl rfl fun ha => ?_
      obtain ⟨i, hi⟩ := hfound a ha
      obtain ⟨c, hc, hmy⟩ := h.table.placed i a hi
      exact hlost.ne_of_myId hc hmy rfl
  | attached => exact hlost.write rfl rfl rfl fun ha => ha
  | make hn hid hcdm hcdm' hphase hphase' =>
      refine hlost.write hid rfl (Function.update_of_ne hne ..) fun ha => ?_
      rcases hphase' with hp | hp <;> rw [hp] at ha
      · cases ha
      · exact hne (show s.nextAddr = a from ha).symm
  | link hn hcdm hphase =>
      exact hlost.write rfl rfl (cdms_writeCdm_of_ne s _ (hlost.ne_of_enters hn hphase))
        fun ha => ha
  | fill hn hid hcdm hcdm' hphase hphase' =>
      refine hlost.write hid rfl (cdms_writeCdm_of_ne s _ (hlost.ne_of_enters hn hphase))
        fun ha => ?_
      rw [hphase'] at ha
      cases ha
  | unlink hn hid hcdm hcdm' hj hc hi hmy hidentity hhndls hend =>
      obtain ⟨c, hc', hmy'⟩ := h.table.placed _ _ hi
      refine hlost.write hid rfl (cdms_writeCdm_of_ne s _ (hlost.ne_of_myId hc' hmy')) fun ha => ?_
      rcases hend with ⟨hp, -⟩ | ⟨⟨rc, hp⟩, -⟩ <;> rw [hp] at ha <;> cases ha
  | clear => exact hlost.write rfl rfl rfl fun ha => ha
  | @free n b rc hn hphase =>
      have hcloses : n.phase.Closes b := by
        rw [hphase]
        rfl
      obtain ⟨i, c, hc, hmy, -⟩ := (h.sound n hn).dying hcloses
      exact hlost.write rfl rfl (Function.update_of_ne (hlost.ne_of_myId hc hmy) ..) fun ha => ha

/-- A CDM is used, or is about to be, or about to go. -/
structure Kept (s : State) (a : Nat) (cdm : Cdm) : Prop where
  placed : ∃ i, cdm.myId = some i
  used : cdm.valid = true → cdm.Used ∨ ∃ n ∈ s.nics, n.phase.Enters a
  closed : cdm.valid = false → ∃ n ∈ s.nics, n.phase.Closes a

/-- No CDM is left behind, and there is one for a job and an instance. -/
structure Tidy (s : State) : Prop where
  kept : ∀ a cdm, s.cdms a = some cdm → Kept s a cdm
  unique : ∀ i a c j b d, s.cdmArray i = some a → s.cdms a = some c → s.cdmArray j = some b →
    s.cdms b = some d → c.identity = d.identity → i = j

/-- Who is left after one NIC has changed. -/
theorem exists_write (h : Inv maxCdm s) (hn : n ∈ s.nics) (hid : n'.id = n.id)
    (hnics : s'.nics = s.nics) {P : Phase → Prop} (hP : ∃ t ∈ s.nics, P t.phase)
    (hpass : P n.phase → P n'.phase) : ∃ t ∈ (s'.writeNic n').nics, P t.phase := by
  obtain ⟨t, ht, hPt⟩ := hP
  by_cases hsame : t.id = n.id
  · obtain rfl := List.inj_on_of_nodup_map h.ids ht hn hsame
    refine ⟨n', mem_writeKey_self ?_ hid.symm, hpass hPt⟩
    rw [hnics]
    exact hn
  · refine ⟨t, mem_writeKey_of_ne ?_ ?_, hPt⟩
    · rw [hnics]
      exact ht
    · rw [hid]
      exact hsame

theorem Kept.write (hk : Kept s a cdm) (h : Inv maxCdm s) (hn : n ∈ s.nics) (hid : n'.id = n.id)
    (hnics : s'.nics = s.nics)
    (henters : n.phase.Enters a → cdm.valid = true → cdm.Used ∨ n'.phase.Enters a)
    (hcloses : n.phase.Closes a → n'.phase.Closes a) : Kept (s'.writeNic n') a cdm := by
  refine ⟨hk.placed, fun hvalid => ?_, fun hinvalid => ?_⟩
  · by_cases hused : cdm.Used
    · exact .inl hused
    · right
      exact exists_write h hn hid hnics ((hk.used hvalid).resolve_left hused) fun ha =>
        (henters ha hvalid).resolve_left hused
  · exact exists_write h hn hid hnics (hk.closed hinvalid) hcloses

theorem Tidy.unique_of_sub (ht : Tidy s) (h : Inv maxCdm s)
    (harray : ∀ i a, s'.cdmArray i = some a → s.cdmArray i = some a)
    (hcdms : ∀ a c c', s.cdms a = some c → s'.cdms a = some c' → c'.identity = c.identity) :
    ∀ i a c j b d, s'.cdmArray i = some a → s'.cdms a = some c → s'.cdmArray j = some b →
      s'.cdms b = some d → c.identity = d.identity → i = j := by
  intro i a c j b d hi hc hj hd hsame
  obtain ⟨c₀, hc₀, -⟩ := h.table.placed i a (harray i a hi)
  obtain ⟨d₀, hd₀, -⟩ := h.table.placed j b (harray j b hj)
  refine ht.unique i a c₀ j b d₀ (harray i a hi) hc₀ (harray j b hj) hd₀ ?_
  rw [← hcdms a c₀ c hc₀ hc, ← hcdms b d₀ d hd₀ hd]
  exact hsame

theorem identity_writeCdm {cdm' c c' : Cdm} (ha : s.cdms a = some cdm)
    (hidentity : cdm'.identity = cdm.identity) (hc : s.cdms b = some c)
    (hc' : (s.writeCdm a cdm').cdms b = some c') : c'.identity = c.identity := by
  rcases eq_or_ne b a with rfl | hne
  · rw [cdms_writeCdm_self] at hc'
    obtain rfl := Option.some.inj hc'
    obtain rfl := Option.some.inj (ha.symm.trans hc)
    exact hidentity
  · rw [cdms_writeCdm_of_ne s cdm' hne] at hc'
    obtain rfl := Option.some.inj (hc.symm.trans hc')
    rfl

theorem Phase.Enters.not_closes {p : Phase} (h : p.Enters a) : ¬ p.Closes b := by
  cases p with
  | entering => exact fun hc => hc
  | idle | looking | creating | attaching | clearing | freeing => cases h

theorem Phase.Closes.eq {p : Phase} (h : p.Closes a) (h' : p.Closes b) : a = b := by
  cases p with
  | clearing | freeing => exact (show _ = a from h).symm.trans h'
  | idle | looking | creating | entering | attaching => cases h

/-- CDMs that are as they were are as they were found by. -/
theorem same_identity {c : Nat} {d d' : Cdm} (hd : s.cdms c = some d) (hd' : s.cdms c = some d') :
    d'.identity = d.identity := by
  obtain rfl := Option.some.inj (hd.symm.trans hd')
  rfl

namespace Tidy

theorem create (ht : Tidy s) (n : Nic) : Tidy { s with nics := s.nics ++ [n] } := by
  refine ⟨fun b c hc => ?_, ht.unique⟩
  obtain ⟨hplaced, hused, hclosed⟩ := ht.kept b c hc
  refine ⟨hplaced, fun hv => (hused hv).imp id fun hex => ?_, fun hv => ?_⟩
  · obtain ⟨t, hmem, hte⟩ := hex
    exact ⟨t, List.mem_append_left _ hmem, hte⟩
  · obtain ⟨t, hmem, htc⟩ := hclosed hv
    exact ⟨t, List.mem_append_left _ hmem, htc⟩

/-- A NIC that is idle is not the one that a CDM is kept for. -/
theorem destroy (ht : Tidy s) (h : Inv maxCdm s) (hn : n ∈ s.nics) (hphase : n.phase = .idle) :
    Tidy { s with nics := removeKey Nic.id s.nics n.id } := by
  refine ⟨fun b c hc => ?_, ht.unique⟩
  obtain ⟨hplaced, hused, hclosed⟩ := ht.kept b c hc
  have hstays {t : Nic} {P : Phase → Prop} (hmem : t ∈ s.nics) (hP : P t.phase)
      (hidle : ¬ P .idle) : t ∈ removeKey Nic.id s.nics n.id := by
    refine mem_removeKey.mpr ⟨hmem, fun hid => hidle ?_⟩
    obtain rfl := List.inj_on_of_nodup_map h.ids hmem hn hid
    exact hphase ▸ hP
  refine ⟨hplaced, fun hv => (hused hv).imp id fun hex => ?_, fun hv => ?_⟩
  · obtain ⟨t, hmem, hte⟩ := hex
    exact ⟨t, hstays (P := (Phase.Enters b ·)) hmem hte fun hno => hno, hte⟩
  · obtain ⟨t, hmem, htc⟩ := hclosed hv
    exact ⟨t, hstays (P := (Phase.Closes b ·)) hmem htc fun hno => hno, htc⟩

theorem loose (ht : Tidy s) (h : Inv maxCdm s) (hn : n ∈ s.nics) (hid : n'.id = n.id)
    (hphase : n.phase.Loose)
    (hleft : ∀ a cdm, n.phase.Enters a → s.cdms a = some cdm → cdm.valid = true → cdm.Used) :
    Tidy (s.writeNic n') := by
  refine ⟨fun b c hc => ?_, ht.unique_of_sub h (fun _ _ hi => hi) fun _ _ _ => same_identity⟩
  exact (ht.kept b c hc).write h hn hid rfl (fun hb hv => .inl (hleft b c hb hc hv))
    fun hb => absurd hb hphase.not_closes

theorem attached (ht : Tidy s) (h : Inv maxCdm s) (hn : n ∈ s.nics)
    (hphase : n.phase = .attaching a) : Tidy (s.writeNic { n with phase := .idle }) := by
  refine ⟨fun b c hc => ?_, ht.unique_of_sub h (fun _ _ hi => hi) fun _ _ _ => same_identity⟩
  refine (ht.kept b c hc).write h hn rfl rfl (fun hb => ?_) fun hb => ?_
  · rw [hphase] at hb
    cases hb
  · rw [hphase] at hb
    cases hb

/-- The new CDM is at its place, and everything else is as it was. -/
theorem make (ht : Tidy s) (h : Inv maxCdm s) (hn : n ∈ s.nics) (hid : n'.id = n.id)
    {identity : Identity} {r : Bool} (hphase : n.phase = .creating identity r) (k : Nat)
    (henters : n'.phase.Enters s.nextAddr)
    (hdiff : ∀ i a cdm, s.cdmArray i = some a → s.cdms a = some cdm → cdm.identity ≠ identity) :
    Tidy ((s.place identity (some k)).writeNic n') := by
  have hself {c : Cdm} (hc : (s.place identity (some k)).cdms s.nextAddr = some c) :
      c = ⟨identity, true, some k, fun _ => none⟩ :=
    Option.some.inj (hc.symm.trans (Function.update_self s.nextAddr _ s.cdms))
  have hother {b : Nat} {c : Cdm} (hc : (s.place identity (some k)).cdms b = some c)
      (hne : b ≠ s.nextAddr) : s.cdms b = some c :=
    (Function.update_of_ne hne ..).symm.trans hc
  have harray {i b : Nat} (hi : (s.place identity (some k)).cdmArray i = some b) :
      i = k ∧ b = s.nextAddr ∨ i ≠ k ∧ b ≠ s.nextAddr ∧ s.cdmArray i = some b := by
    rcases eq_or_ne i k with rfl | hne
    · exact .inl ⟨rfl, (Option.some.inj ((Function.update_self i _ s.cdmArray).symm.trans
        hi)).symm⟩
    · have hb : s.cdmArray i = some b := (Function.update_of_ne hne ..).symm.trans hi
      refine .inr ⟨hne, ?_, hb⟩
      rintro rfl
      obtain ⟨c, hc, -⟩ := h.table.placed i s.nextAddr hb
      cases (h.table.fresh _ (Nat.le_refl _)).symm.trans hc
  refine ⟨fun b c hc => ?_, fun i b c j b' d hi hc hj hd hsame => ?_⟩
  · rcases eq_or_ne b s.nextAddr with rfl | hne
    · obtain rfl := hself hc
      refine ⟨⟨k, rfl⟩, fun _ => .inr ⟨n', mem_writeKey_self hn hid.symm, henters⟩,
        fun hv => (by cases hv)⟩
    · refine (ht.kept b c (hother hc hne)).write h hn hid rfl (fun hb => ?_) fun hb => ?_
      · rw [hphase] at hb
        cases hb
      · rw [hphase] at hb
        cases hb
  · rcases harray hi with ⟨rfl, rfl⟩ | ⟨hik, hb, hi'⟩
    · rcases harray hj with ⟨rfl, -⟩ | ⟨-, hb', hj'⟩
      · rfl
      · obtain rfl := hself hc
        exact absurd hsame.symm (hdiff j b' d hj' (hother hd hb'))
    · rcases harray hj with ⟨rfl, rfl⟩ | ⟨-, hb', hj'⟩
      · obtain rfl := hself hd
        exact absurd hsame (hdiff i b c hi' (hother hc hb))
      · exact ht.unique i b c j b' d hi' (hother hc hb) hj' (hother hd hb') hsame

theorem link (ht : Tidy s) (h : Inv maxCdm s) (hn : n ∈ s.nics) (hphase : n.phase.Enters a)
    (ha : s.cdms a = some cdm) (hvalid : cdm.valid = true) (hmy : cdm.myId = some i) (j : Nat) :
    Tidy ((s.writeCdm a
        { cdm with nicHndls := Function.update cdm.nicHndls j (some n.id) }).writeNic
      { n with cdmId := some i, myId := some j, phase := .attaching a }) := by
  refine ⟨fun b c hc => ?_, ht.unique_of_sub h (fun _ _ hi => hi)
    fun _ _ _ => identity_writeCdm ha rfl⟩
  rcases eq_or_ne b a with rfl | hne
  · obtain rfl := Option.some.inj ((cdms_writeCdm_self s b _).symm.trans hc)
    refine ⟨⟨i, hmy⟩, fun _ => .inl ⟨j, n.id, Function.update_self ..⟩, fun hv => ?_⟩
    rw [show cdm.valid = false from hv] at hvalid
    cases hvalid
  · refine (ht.kept b c ((cdms_writeCdm_of_ne s _ hne).symm.trans hc)).write h hn rfl rfl
      (fun hb => absurd (hb.eq hphase) hne) fun hb => absurd hb hphase.not_closes

/-- Who was the last one frees the CDM. -/
theorem unlink (ht : Tidy s) (h : Inv maxCdm s) {cdm' : Cdm} (hn : n ∈ s.nics)
    (hid : n'.id = n.id) (hcdm : n.cdmId = some i) (ha : s.cdms a = some cdm)
    (hmy : cdm'.myId = cdm.myId) (hidentity : cdm'.identity = cdm.identity)
    (hend : cdm'.valid = cdm.valid ∧ cdm'.Used ∨
      (∃ rc, n'.phase = .clearing a rc) ∧ cdm'.valid = false) :
    Tidy ((s.writeCdm a cdm').writeNic n') := by
  have hno (c : Nat) : ¬ n.phase.Closes c ∧ ¬ n.phase.Enters c := by
    constructor
    · intro hc
      cases hcdm.symm.trans ((h.sound n hn).cdmId_eq_none (.inl hc))
    · intro hc
      cases hcdm.symm.trans ((h.sound n hn).cdmId_eq_none (.inr hc))
  refine ⟨fun b c hc => ?_, ht.unique_of_sub h (fun _ _ hi => hi)
    fun _ _ _ => identity_writeCdm ha hidentity⟩
  rcases eq_or_ne b a with rfl | hne
  · obtain rfl := Option.some.inj ((cdms_writeCdm_self s b _).symm.trans hc)
    have hk := ht.kept b cdm ha
    refine ⟨hmy ▸ hk.placed, fun hv => ?_, fun hv => ?_⟩
    · rcases hend with ⟨-, hused⟩ | ⟨-, hinvalid⟩
      · exact .inl hused
      · rw [hinvalid] at hv
        cases hv
    · rcases hend with ⟨hvalid, -⟩ | ⟨⟨rc, hphase'⟩, -⟩
      · exact exists_write h hn hid rfl (P := (Phase.Closes b ·))
          (hk.closed (hvalid.symm.trans hv)) fun hc => absurd hc (hno b).1
      · refine ⟨n', mem_writeKey_self hn hid.symm, ?_⟩
        rw [hphase']
        rfl
  · exact (ht.kept b c ((cdms_writeCdm_of_ne s _ hne).symm.trans hc)).write h hn hid rfl
      (fun hb => absurd hb (hno b).2) fun hb => absurd hb (hno b).1

theorem clear (ht : Tidy s) (h : Inv maxCdm s) (hn : n ∈ s.nics) {rc : Ret}
    (hphase : n.phase = .clearing a rc) (i : Nat) :
    Tidy ({ s with cdmArray := Function.update s.cdmArray i none }.writeNic
      { n with phase := .freeing a rc }) := by
  refine ⟨fun b c hc => ?_, ht.unique_of_sub h (fun k b hk => ?_) fun _ _ _ => same_identity⟩
  · refine (ht.kept b c hc).write h hn rfl rfl (fun hb => ?_) fun hb => ?_
    · rw [hphase] at hb
      cases hb
    · rw [hphase] at hb
      exact hb
  · have hk' : Function.update s.cdmArray i none k = some b := hk
    rcases eq_or_ne k i with rfl | hne
    · rw [Function.update_self] at hk'
      cases hk'
    · rwa [Function.update_of_ne hne] at hk'

theorem free (ht : Tidy s) (h : Inv maxCdm s) (hn : n ∈ s.nics) {rc : Ret}
    (hphase : n.phase = .freeing a rc) :
    Tidy ({ s with cdms := Function.update s.cdms a none }.writeNic { n with phase := .idle }) := by
  have hold {b : Nat} {c : Cdm} (hc : Function.update s.cdms a none b = some c) :
      b ≠ a ∧ s.cdms b = some c := by
    rcases eq_or_ne b a with rfl | hne
    · cases (Function.update_self b none s.cdms).symm.trans hc
    · exact ⟨hne, (Function.update_of_ne hne ..).symm.trans hc⟩
  refine ⟨fun b c hc => ?_, ht.unique_of_sub h (fun _ _ hi => hi) fun b c c' hc hc' => ?_⟩
  · refine (ht.kept b c (hold hc).2).write h hn rfl rfl (fun hb => ?_) fun hb => ?_
    · rw [hphase] at hb
      cases hb
    · have hcloses : n.phase.Closes a := by
        rw [hphase]
        rfl
      exact absurd (hb.eq hcloses) (hold hc).1
  · exact same_identity hc (hold hc').2

end Tidy

theorem Move.tidy (m : Move maxCdm s calm orderly s') (h : Inv maxCdm s) (ht : Tidy s)
    (horderly : orderly) : Tidy s' := by
  cases m with
  | same => exact ht
  | create hnew hphase hcdm => exact ht.create _
  | destroy hn hphase hcdm => exact ht.destroy h hn hphase
  | loose hn hid hcdm hcdm' hphase hphase' hleft hfound => exact ht.loose h hn hid hphase hleft
  | attached hn hphase => exact ht.attached h hn hphase
  | make hn hid hcdm hcdm' hphase hphase' hplace =>
      obtain ⟨hsome, henters, hdiff⟩ := horderly
      obtain ⟨k, rfl⟩ := Option.ne_none_iff_exists'.mp hsome
      exact ht.make h hn hid hphase k henters hdiff
  | link hn hcdm hphase ha hvalid hmy hj hfree => exact ht.link h hn hphase ha hvalid hmy _
  | fill hn hid hcdm hcdm' hphase hphase' ha hnone =>
      obtain ⟨i, hi⟩ := (ht.kept _ _ ha).placed
      rw [hnone] at hi
      cases hi
  | unlink hn hid hcdm hcdm' hj ha hi hmy hidentity hhndls hend =>
      exact ht.unlink h hn hid hcdm ha hmy hidentity
        (hend.imp (fun hstays => hstays.2) fun hlast => ⟨hlast.1, hlast.2.1⟩)
  | clear hn hphase ha hi => exact ht.clear h hn hphase _
  | free hn hphase => exact ht.free h hn hphase

end Keeps

/-! ### Every run -/

section Runs

variable {maxCdm : Nat} {s s' : State} {calm orderly : Prop}

/-- What a run has kept. -/
structure Reached (maxCdm : Nat) (s s' : State) (calm orderly : Prop) : Prop where
  inv : Inv maxCdm s'
  pointers : Pointers s'
  held : calm → Held s → Held s'
  tidy : orderly → Tidy s → Tidy s'
  lost : ∀ a cdm, Lost s a cdm → Lost s' a cdm

theorem Move.reached {c o : Prop} (m : Move maxCdm s c o s') (h : Inv maxCdm s) (hp : Pointers s)
    (hc : calm → c) (ho : orderly → o) : Reached maxCdm s s' calm orderly where
  inv := m.inv h
  pointers := m.pointers h hp
  held hcalm hheld := m.held h hheld (hc hcalm)
  tidy horderly ht := m.tidy h ht (ho horderly)
  lost _ _ hlost := m.lost h hlost

/-- Along a run, by induction on what is left of it.  An attach that finds its CDM freed ends it. -/
theorem run_reached {ops : List Op} :
    ∀ {s : State}, Inv maxCdm s → Pointers s → Along maxCdm Op.Enabled s ops →
      (∃ s', run maxCdm s ops = .ok s' ∧ Reached maxCdm s s' (Along maxCdm Op.Calm s ops)
          (Along maxCdm (Op.Orderly maxCdm) s ops)) ∨
        run maxCdm s ops = .error .stale ∧ ¬ (Held s ∧ Along maxCdm Op.Calm s ops) := by
  induction ops with
  | nil =>
      intro s h hp _
      exact .inl ⟨s, rfl, h, hp, fun _ hheld => hheld, fun _ ht => ht, fun _ _ hlost => hlost⟩
  | cons op ops ih =>
      intro s h hp hen
      rcases step_goes h hp hen.1 with hgoes | ⟨hstep, n, hn, a, hna, hnone⟩
      · obtain ⟨s₁, ret, c, o, hstep, m, hc, ho⟩ := hgoes
        have h₁ := m.reached h hp hc ho
        have hrun (r : Except Fault State) (hr : run maxCdm s₁ ops = r) :
            run maxCdm s (op :: ops) = r := by
          rw [run, hstep]
          exact hr
        rcases ih h₁.inv h₁.pointers (hen.2 s₁ ret hstep) with ⟨s₂, hrun₂, h₂⟩ | ⟨hstale, hno⟩
        · refine .inl ⟨s₂, hrun _ hrun₂, h₂.inv, h₂.pointers, fun hcalm hheld => ?_,
            fun horderly ht => ?_, fun a cdm hlost => h₂.lost a cdm (h₁.lost a cdm hlost)⟩
          · exact h₂.held (hcalm.2 s₁ ret hstep) (h₁.held hcalm.1 hheld)
          · exact h₂.tidy (horderly.2 s₁ ret hstep) (h₁.tidy horderly.1 ht)
        · refine .inr ⟨hrun _ hstale, fun ⟨hheld, hcalm⟩ => hno ?_⟩
          exact ⟨h₁.held hcalm.1 hheld, hcalm.2 s₁ ret hstep⟩
      · refine .inr ⟨?_, fun ⟨hheld, _⟩ => hheld n hn a hna hnone⟩
        rw [run, hstep]

theorem reached_of_run {ops : List Op} (h : Inv maxCdm s) (hp : Pointers s)
    (hen : Along maxCdm Op.Enabled s ops) (hrun : run maxCdm s ops = .ok s') :
    Reached maxCdm s s' (Along maxCdm Op.Calm s ops) (Along maxCdm (Op.Orderly maxCdm) s ops) := by
  rcases run_reached h hp hen with ⟨s₁, hrun₁, h₁⟩ | ⟨hstale, -⟩
  · obtain rfl := Except.ok.inj (hrun.symm.trans hrun₁)
    exact h₁
  · cases hrun.symm.trans hstale

theorem inv_start : Inv maxCdm .start := by
  refine ⟨⟨fun _ _ => rfl, ?_, ?_, ?_⟩, List.nodup_nil, ?_, fun _ h => (by cases h),
    fun _ h => (by cases h), fun _ h => (by cases h)⟩
  · exact fun _ _ h => (by cases h)
  · exact fun _ _ h => (by cases h)
  · exact fun _ _ _ h => (by cases h)
  · exact fun _ _ _ _ ⟨_, h, _⟩ => (by cases h)

theorem pointers_start : Pointers .start :=
  ⟨fun _ h => (by cases h), fun _ h => (by cases h)⟩

theorem held_start : Held .start := fun _ h => (by cases h)

theorem tidy_start : Tidy .start :=
  ⟨fun _ _ h => (by cases h), fun _ _ _ _ _ _ h => (by cases h)⟩

/-- A NIC that is attached is in a valid CDM of the table, and who is in a CDM of the table is
attached to it, at one place. -/
structure Consistent (maxCdm : Nat) (s : State) : Prop where
  listed : ∀ i a, s.cdmArray i = some a →
    i < maxCdm ∧ ∃ cdm, s.cdms a = some cdm ∧ cdm.myId = some i
  linked : ∀ n ∈ s.nics, ∀ i, n.cdmId = some i → ∃ a cdm j, s.cdmArray i = some a ∧
    s.cdms a = some cdm ∧ cdm.valid = true ∧ n.myId = some j ∧ cdm.nicHndls j = some n.id
  attached : ∀ i a cdm j id, s.cdmArray i = some a → s.cdms a = some cdm →
    cdm.nicHndls j = some id → j < maxNicsAttached ∧
      ∃ n ∈ s.nics, n.id = id ∧ n.cdmId = some i ∧ n.myId = some j

theorem Inv.consistent (h : Inv maxCdm s) : Consistent maxCdm s where
  listed i a ha := ⟨h.table.bound i a ha, h.table.placed i a ha⟩
  linked n hn i hi := by
    obtain ⟨a, cdm, j, ha, hcdm, hmy, hj, hhndl⟩ := h.has_of_linked hn hi
    refine ⟨a, cdm, j, ha, hcdm, ?_, hj, hhndl⟩
    by_contra hno
    exact (h.live a i j n.id ⟨cdm, hcdm, hmy, hhndl⟩).1
      ⟨cdm, hcdm, hmy, Bool.eq_false_iff.mpr hno⟩
  attached i a cdm j id ha hcdm hhndl := by
    obtain ⟨cdm', hcdm', hmy⟩ := h.table.placed i a ha
    obtain rfl := Option.some.inj (hcdm.symm.trans hcdm')
    exact (h.live a i j id ⟨cdm, hcdm, hmy, hhndl⟩).2

/-- **The NICs and the CDMs point to each other**, in every state of every interleaving, no
assertion fails and nothing is used after it is freed, but for the CDM that an attach has found:
where it is freed before its lock is taken the run fails. -/
theorem domains_linked {ops : List Op} (hen : Along maxCdm Op.Enabled .start ops) :
    (∃ s, run maxCdm .start ops = .ok s ∧ Consistent maxCdm s) ∨
      run maxCdm .start ops = .error .stale ∧ ¬ Along maxCdm Op.Calm .start ops := by
  rcases run_reached inv_start pointers_start hen with ⟨s, hrun, h⟩ | ⟨hstale, hno⟩
  · exact .inl ⟨s, hrun, h.inv.consistent⟩
  · exact .inr ⟨hstale, fun hcalm => hno ⟨held_start, hcalm⟩⟩

def sampleIdentity : Identity := ⟨5, 7, 0⟩

/-- Two NICs attach to one CDM, and leave it. -/
def sampleJob : List Op :=
  [.create 1 10, .create 2 20, .attach 1 sampleIdentity (.ok ()), .lookup 1, .make 1 false,
    .enter 1, .attach 2 sampleIdentity (.ok ()), .lookup 2, .enter 2, .finish 1 none,
    .finish 2 (some .enomem), .detach 1, .clear 1, .free 1, .destroy 1]

theorem domains_linked_job :
    (∃ s, run 2 .start sampleJob = .ok s ∧ Consistent 2 s) ∨
      run 2 .start sampleJob = .error .stale ∧ ¬ Along 2 Op.Calm .start sampleJob :=
  domains_linked (by decide)

/-- **No CDM is left behind**, and none is there twice, where there is a place for each that is
made and not its like: if all calls have ended, a NIC is attached to each CDM. -/
theorem domains_exact {ops : List Op} (hen : Along maxCdm Op.Enabled .start ops)
    (horderly : Along maxCdm (Op.Orderly maxCdm) .start ops)
    (hrun : run maxCdm .start ops = .ok s) :
    (∀ i a c j b d, s.cdmArray i = some a → s.cdms a = some c → s.cdmArray j = some b →
      s.cdms b = some d → c.identity = d.identity → i = j) ∧
    ((∀ n ∈ s.nics, n.phase = .idle) → ∀ a cdm, s.cdms a = some cdm →
      cdm.valid = true ∧ ∃ n ∈ s.nics, ∃ i, n.cdmId = some i ∧ s.cdmArray i = some a) := by
  have h := reached_of_run inv_start pointers_start hen hrun
  have ht := h.tidy horderly tidy_start
  refine ⟨ht.unique, fun hidle a cdm ha => ?_⟩
  obtain ⟨⟨i, hi⟩, hused, hclosed⟩ := ht.kept a cdm ha
  have hvalid : cdm.valid = true := by
    by_contra hno
    obtain ⟨n, hn, hc⟩ := hclosed (Bool.eq_false_iff.mpr hno)
    rw [hidle n hn] at hc
    cases hc
  rcases hused hvalid with ⟨j, id, hj⟩ | ⟨n, hn, hna⟩
  · obtain ⟨-, -, n, hn, -, hni, -⟩ := h.inv.live a i j id ⟨cdm, ha, hi, hj⟩
    exact ⟨hvalid, n, hn, i, hni, h.inv.table.listed a cdm i ha hi hvalid⟩
  · rw [hidle n hn] at hna
    cases hna

theorem domains_exact_job : ∃ s, run 2 .start sampleJob = .ok s ∧
    (∀ i a c j b d, s.cdmArray i = some a → s.cdms a = some c → s.cdmArray j = some b →
      s.cdms b = some d → c.identity = d.identity → i = j) ∧
    ((∀ n ∈ s.nics, n.phase = .idle) → ∀ a cdm, s.cdms a = some cdm →
      cdm.valid = true ∧ ∃ n ∈ s.nics, ∃ i, n.cdmId = some i ∧ s.cdmArray i = some a) := by
  have hen : Along 2 Op.Enabled .start sampleJob := by decide
  have horderly : Along 2 (Op.Orderly 2) .start sampleJob := by decide
  exact ⟨_, rfl, domains_exact hen horderly rfl⟩

/-- **A CDM that is made without a place is lost.**  `gni_cdm_create` does not free it where its
like is there; no later call finds it, and it stays. -/
theorem lost_stays {ops more : List Op} (hen : Along maxCdm Op.Enabled .start ops)
    (hrun : run maxCdm .start ops = .ok s) (hmore : Along maxCdm Op.Enabled s more)
    (hrun' : run maxCdm s more = .ok s') {a : Nat} {cdm : Cdm} (ha : s.cdms a = some cdm)
    (hnone : cdm.myId = none) (hunknown : ∀ n ∈ s.nics, ¬ n.phase.Enters a) :
    s'.cdms a = some cdm ∧ (∀ i, s'.cdmArray i ≠ some a) ∧
      ∀ n ∈ s'.nics, ¬ n.phase.Enters a := by
  have h := reached_of_run inv_start pointers_start hen hrun
  have h' := reached_of_run h.inv h.pointers hmore hrun'
  have hlost := h'.lost a cdm ⟨ha, hnone, hunknown⟩
  refine ⟨hlost.there, fun i hi => ?_, hlost.unknown⟩
  obtain ⟨c, hc, hmy⟩ := h'.inv.table.placed i a hi
  exact hlost.ne_of_myId hc hmy rfl

/-- Two attaches find no CDM and make one each; the second has no place for it. -/
def sampleRace : List Op :=
  [.create 1 10, .create 2 20, .attach 1 sampleIdentity (.ok ()), .lookup 1,
    .attach 2 sampleIdentity (.ok ()), .lookup 2, .make 1 false, .make 2 false]

def sampleState : State := (run 1 .start sampleRace).toOption.getD .start

/-- Both leave. -/
def sampleLeave : List Op :=
  [.enter 1, .finish 1 none, .detach 1, .clear 1, .free 1, .destroy 1, .destroy 2]

theorem lost_stays_race : run 1 .start sampleRace = .ok sampleState ∧
    ∃ s' cdm, run 1 sampleState sampleLeave = .ok s' ∧ s'.cdms 1 = some cdm ∧
      (∀ i, s'.cdmArray i ≠ some 1) ∧ ∀ n ∈ s'.nics, ¬ n.phase.Enters 1 := by
  have hen : Along 1 Op.Enabled .start sampleRace := by decide
  have hmore : Along 1 Op.Enabled sampleState sampleLeave := by decide
  obtain ⟨s', hrun'⟩ : ∃ s', run 1 sampleState sampleLeave = .ok s' := ⟨_, rfl⟩
  exact ⟨rfl, s', _, hrun', lost_stays hen rfl hmore hrun' rfl rfl (by decide)⟩

end Runs

/-! ### The race with the last NIC -/

section Race

variable {maxCdm : Nat} {s s' : State} {n t m : Nic} {a i : Nat} {cdm : Cdm}

theorem nic_writeNic_self (h : s.nic m.id = some n) : (s.writeNic m).nic m.id = some m :=
  findKey_writeKey_self h

theorem nic_writeNic_of_ne {id : Nat} (hne : id ≠ m.id) : (s.writeNic m).nic id = s.nic id :=
  findKey_writeKey_of_ne hne

theorem mem_of_nic {id : Nat} (h : s.nic id = some n) : n ∈ s.nics ∧ n.id = id := findKey_some h

theorem run_cons {op : Op} {ops : List Op} {ret : Option Ret}
    (hstep : step maxCdm s op = .ok (s', ret)) : run maxCdm s (op :: ops) = run maxCdm s' ops := by
  rw [run, hstep]

theorem along_cons {P : State → Op → Prop} {op : Op} {ops : List Op} {ret : Option Ret}
    (hP : P s op) (hstep : step maxCdm s op = .ok (s', ret)) (h : Along maxCdm P s' ops) :
    Along maxCdm P s (op :: ops) := by
  refine ⟨hP, fun s₂ ret₂ hstep₂ => ?_⟩
  rw [hstep] at hstep₂
  cases hstep₂
  exact h

/-- Without its only NIC a CDM is empty. -/
theorem Inv.empty_of_only (h : Inv maxCdm s) (hn : n ∈ s.nics) {j : Nat} (hj : n.myId = some j)
    (hcdm : s.cdms a = some cdm) (hmy : cdm.myId = some i)
    (honly : ∀ l id, cdm.nicHndls l = some id → id = n.id) :
    Cdm.empty { cdm with nicHndls := Function.update cdm.nicHndls j none } = true := by
  refine Cdm.empty_iff.mpr fun l _ => ?_
  show Function.update cdm.nicHndls j none l = none
  rcases eq_or_ne l j with rfl | hlj
  · rw [Function.update_self]
  · rw [Function.update_of_ne hlj]
    by_contra hsome
    obtain ⟨id, hid⟩ := Option.ne_none_iff_exists'.mp hsome
    obtain rfl := honly l id hid
    obtain ⟨-, -, m, hm, hmid, -, hml⟩ := h.live a i l n.id ⟨cdm, hcdm, hmy, hid⟩
    obtain rfl := List.inj_on_of_nodup_map h.ids hm hn hmid
    exact hlj (Option.some.inj (hml.symm.trans hj))

/-- The last NIC marks its CDM. -/
theorem detach_last {j : Nat} (hi : n.cdmId = some i) (hj : n.myId = some j)
    (ha : s.cdmArray i = some a) (hcdm : s.cdms a = some cdm) (hvalid : cdm.valid = true)
    (hempty : Cdm.empty { cdm with nicHndls := Function.update cdm.nicHndls j none } = true) :
    detach s n = .ok ((s.writeCdm a
        ⟨cdm.identity, false, cdm.myId, Function.update cdm.nicHndls j none⟩).writeNic
      { n with cdmId := none, myId := some j, phase := .clearing a (.ok ()) }, none) := by
  have hunlink : unlink s n a cdm (.ok ()) = .ok ((s.writeCdm a
        ⟨cdm.identity, false, cdm.myId, Function.update cdm.nicHndls j none⟩).writeNic
      { n with cdmId := none, myId := some j, phase := .clearing a (.ok ()) }, none) := by
    rw [unlink, hj]
    dsimp only
    rw [if_pos hempty]
  rw [detach, hi]
  dsimp only
  rw [ha]
  dsimp only
  rw [hcdm]
  dsimp only
  rw [hvalid]
  exact hunlink

/-- An attach looks up a CDM, whose last NIC leaves before the attach goes on. -/
def raceOps (attacher last : Nat) (identity : Identity) : List Op :=
  [.attach attacher identity (.ok ()), .lookup attacher, .detach last, .clear last, .free last,
    .enter attacher]

/-- **The mark does not help who comes late.**  Whenever the only NIC of a CDM is idle, an attach
of another NIC can find the CDM, and take its lock when it is freed. -/
theorem mark_late {ops : List Op} (hen : Along maxCdm Op.Enabled .start ops)
    (hrun : run maxCdm .start ops = .ok s) (hn : n ∈ s.nics) (ht : t ∈ s.nics) (hne : t.id ≠ n.id)
    (hidle : n.phase = .idle) (htidle : t.phase = .idle) (htcdm : t.cdmId = none)
    (hi : n.cdmId = some i) (ha : s.cdmArray i = some a) (hcdm : s.cdms a = some cdm)
    (honly : ∀ j id, cdm.nicHndls j = some id → id = n.id)
    (hfirst : ∀ j < i, ∀ b c, s.cdmArray j = some b → s.cdms b = some c → c.valid = true →
      c.identity ≠ cdm.identity) :
    Along maxCdm Op.Enabled s (raceOps t.id n.id cdm.identity) ∧
      run maxCdm s (raceOps t.id n.id cdm.identity) = .error .stale := by
  have h : Inv maxCdm s := (reached_of_run inv_start pointers_start hen hrun).inv
  obtain ⟨b, c, j, hb, hc, hvalid, hj, hhndl⟩ := h.consistent.linked n hn i hi
  obtain rfl := Option.some.inj (hb.symm.trans ha)
  obtain rfl := Option.some.inj (hc.symm.trans hcdm)
  obtain ⟨c', hc', hmy⟩ := h.table.placed i b ha
  obtain rfl := Option.some.inj (hc'.symm.trans hcdm)
  have hn' : s.nic n.id = some n := findKey_eq h.ids hn
  have ht' : s.nic t.id = some t := findKey_eq h.ids ht
  -- the two NICs and the states after each of the first five steps
  let t₁ : Nic := { t with phase := .looking c'.identity false }
  let t₂ : Nic := { t with phase := .entering c'.identity false b }
  let n₃ : Nic := { n with cdmId := none, myId := some j, phase := .clearing b (.ok ()) }
  let n₄ : Nic := { n with cdmId := none, myId := some j, phase := .freeing b (.ok ()) }
  let n₅ : Nic := { n with cdmId := none, myId := some j, phase := .idle }
  let cdm₃ : Cdm := ⟨c'.identity, false, c'.myId, Function.update c'.nicHndls j none⟩
  let s₁ := s.writeNic t₁
  let s₂ := s₁.writeNic t₂
  let s₃ := (s₂.writeCdm b cdm₃).writeNic n₃
  let s₄ := { s₃ with cdmArray := Function.update s₃.cdmArray i none }.writeNic n₄
  let s₅ := { s₄ with cdms := Function.update s₄.cdms b none }.writeNic n₅
  -- the NIC that attaches
  have ht₁ : s₁.nic t.id = some t₁ := nic_writeNic_self (m := t₁) ht'
  have ht₂ : s₂.nic t.id = some t₂ := nic_writeNic_self (m := t₂) ht₁
  have ht₃ : s₃.nic t.id = some t₂ := (nic_writeNic_of_ne (m := n₃) hne).trans ht₂
  have ht₄ : s₄.nic t.id = some t₂ := (nic_writeNic_of_ne (m := n₄) hne).trans ht₃
  have ht₅ : s₅.nic t.id = some t₂ := (nic_writeNic_of_ne (m := n₅) hne).trans ht₄
  -- the one that leaves
  have hn₁ : s₁.nic n.id = some n := (nic_writeNic_of_ne (m := t₁) hne.symm).trans hn'
  have hn₂ : s₂.nic n.id = some n := (nic_writeNic_of_ne (m := t₂) hne.symm).trans hn₁
  have hn₃ : s₃.nic n.id = some n₃ := nic_writeNic_self (m := n₃) hn₂
  have hn₄ : s₄.nic n.id = some n₄ := nic_writeNic_self (m := n₄) hn₃
  have hcdm₃ : s₃.cdms b = some cdm₃ := cdms_writeCdm_self s₂ b cdm₃
  -- without its only NIC the CDM is empty, so the detach frees it
  have hempty := h.empty_of_only hn hj hcdm hmy honly
  have hstep₁ : step maxCdm s (.attach t.id c'.identity (.ok ())) = .ok (s₁, none) := by
    rw [step, on_of_nic ht', attach, if_neg fun hno => hno htcdm]
  have hstep₂ : step maxCdm s₁ (.lookup t.id) = .ok (s₂, none) := by
    have htable : Table maxCdm s₁ :=
      ⟨h.table.fresh, h.table.bound, h.table.placed, h.table.listed⟩
    -- no CDM of the same identity comes before it in the table
    have hfound := lookupLoop_first htable ha hcdm hvalid hfirst maxCdm 0 (Nat.zero_add _)
      (Nat.zero_le i)
    rw [step, on_of_nic ht₁]
    show lookup maxCdm s₁ t₁ c'.identity false = _
    rw [lookup, hfound]
  have hstep₃ : step maxCdm s₂ (.detach n.id) = .ok (s₃, none) := by
    rw [step, on_of_nic hn₂]
    exact detach_last hi hj ha hcdm hvalid hempty
  have hstep₄ : step maxCdm s₃ (.clear n.id) = .ok (s₄, none) := by
    rw [step, on_of_nic hn₃]
    show clear s₃ n₃ b (.ok ()) = _
    rw [clear, hcdm₃]
    dsimp only
    rw [show cdm₃.myId = some i from hmy]
  have hstep₅ : step maxCdm s₄ (.free n.id) = .ok (s₅, some (.ok ())) := by
    have hcdm₄ : s₄.cdms b = some cdm₃ := hcdm₃
    rw [step, on_of_nic hn₄]
    show free s₄ n₄ b (.ok ()) = _
    rw [free, hcdm₄]
  have hstep₆ : step maxCdm s₅ (.enter t.id) = .error .stale := by
    have hcdm₅ : s₅.cdms b = none := by
      show Function.update s₄.cdms b none b = none
      rw [Function.update_self]
    rw [step, on_of_nic ht₅]
    show enter s₅ t₂ c'.identity false b = _
    rw [enter, hcdm₅]
  constructor
  · refine along_cons ⟨t, ht, rfl, ?_⟩ hstep₁ (along_cons ⟨t₁, ?_, rfl, rfl⟩ hstep₂
      (along_cons ⟨n, ?_, rfl, ?_⟩ hstep₃ (along_cons ⟨n₃, ?_, rfl, rfl⟩ hstep₄
        (along_cons ⟨n₄, ?_, rfl, rfl⟩ hstep₅ ⟨⟨t₂, ?_, rfl, rfl⟩, ?_⟩))))
    · rw [htidle]
      rfl
    · exact (mem_of_nic ht₁).1
    · exact (mem_of_nic hn₂).1
    · rw [hidle]
      rfl
    · exact (mem_of_nic hn₃).1
    · exact (mem_of_nic hn₄).1
    · exact (mem_of_nic ht₅).1
    · intro s₆ ret hstep
      rw [hstep₆] at hstep
      cases hstep
  · rw [raceOps, run_cons hstep₁, run_cons hstep₂, run_cons hstep₃, run_cons hstep₄,
      run_cons hstep₅, run, hstep₆]

/-- One NIC is attached. -/
def sampleSingle : List Op :=
  [.create 1 10, .create 2 20, .attach 1 sampleIdentity (.ok ()), .lookup 1, .make 1 false,
    .enter 1, .finish 1 none]

def sampleAttached : State := (run 2 .start sampleSingle).toOption.getD .start

theorem mark_late_pair :
    Along 2 Op.Enabled sampleAttached (raceOps 2 1 sampleIdentity) ∧
      run 2 sampleAttached (raceOps 2 1 sampleIdentity) = .error .stale := by
  have hen : Along 2 Op.Enabled .start sampleSingle := by decide
  have hn : ⟨1, 10, .idle, some 0, some 0⟩ ∈ sampleAttached.nics := by decide
  have ht : ⟨2, 20, .idle, none, none⟩ ∈ sampleAttached.nics := by decide
  refine mark_late (a := 0) hen rfl hn ht (by decide) rfl rfl rfl rfl rfl rfl (fun j id hj => ?_)
    fun j hj => absurd hj (Nat.not_lt_zero j)
  cases j with
  | zero =>
      cases hj
      rfl
  | succ j => cases hj

end Race

end Nvl.Domains

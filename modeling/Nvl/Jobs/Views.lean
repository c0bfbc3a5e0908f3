/-
Nvl/Jobs/Views.lean

Where a NIC stands in the two models of `kgni_nic_attach`, with its CDM and with its resources,
and what each part of a call makes of it.
-/
import Nvl.Jobs.DomainRuns
import Nvl.Jobs.Resources

namespace Nvl.Domains

open SysLib

/-! ### The CDM of a NIC -/

/-- Where a NIC stands with the domains. -/
inductive Place where
  | out
  | searching
  | joined
  | linked
  | leaving
  deriving DecidableEq

def Nic.place (n : Nic) : Place :=
  match n.phase with
  | .idle => if n.cdmId = none then .out else .linked
  | .looking _ _ | .creating _ _ | .entering _ _ _ => .searching
  | .attaching _ => .joined
  | .clearing _ _ | .freeing _ _ => .leaving

def places (s : State) (id : Nat) : Option Place := (s.nic id).map Nic.place

/-- The parts of an attach that look for a CDM. -/
def Op.Seeks (id : Nat) (op : Op) : Prop :=
  op = .lookup id ∨ (∃ allocFails, op = .make id allocFails) ∨ op = .enter id

section Places

variable {maxCdm : Nat} {s s' : State} {n n' : Nic} {id : Nat}
  {ret : Option Ret}

theorem places_writeNic (hn : s.nic n'.id = some n) (hnics : s'.nics = s.nics) :
    places (s'.writeNic n') = Function.update (places s) n'.id (some (n'.place)) := by
  have hsame (j : Nat) : s'.nic j = s.nic j := by rw [State.nic, hnics]; rfl
  funext j
  by_cases hj : j = n'.id
  · rw [hj, Function.update_self, places, nic_writeNic_self ((hsame _).trans hn)]
    rfl
  · rw [Function.update_of_ne hj, places, nic_writeNic_of_ne hj, hsame]
    rfl

theorem on_ok {f : Nic → Except Fault (State × Option Ret)}
    {r : State × Option Ret} (h : s.on id f = .ok r) :
    ∃ n, s.nic id = some n ∧ f n = .ok r := by
  rw [State.on] at h
  split at h
  · cases h
  · next n hn => exact ⟨n, hn, h⟩

theorem places_eq (hn : s.nic id = some n) : places s id = some (n.place) := by
  rw [places, hn]
  rfl

/-- A NIC that is written back is at its new place. -/
theorem places_put {p : Place} (hn : s.nic id = some n) (hp : n'.place = p)
    (hid : n'.id = n.id) (hnics : s'.nics = s.nics) :
    places (s'.writeNic n') = Function.update (places s) id (some p) := by
  have hnid : n'.id = id := hid.trans (mem_of_nic hn).2
  subst hnid
  rw [places_writeNic hn hnics, hp]

theorem idle_of_linked (hn : s.nic id = some n) (hplace : places s id = some .linked) :
    n.phase = .idle := by
  rw [places_eq hn, Nic.place] at hplace
  cases hphase : n.phase with
  | idle => rfl
  | looking | creating | entering | attaching | clearing | freeing =>
      rw [hphase] at hplace
      cases hplace

theorem place_idle (hphase : n.phase = .idle) (hcdm : n.cdmId = none) : n.place = .out := by
  rw [Nic.place, hphase]
  exact if_pos hcdm

theorem attach_places {identity : Identity} {check : Ret}
    (h : step maxCdm s (.attach id identity check) = .ok (s', ret)) :
    ret ≠ none ∧ s' = s ∨ ret = none ∧ (∃ p, places s id = some p ∧ p ≠ .linked) ∧
      places s' = Function.update (places s) id (some .searching) := by
  obtain ⟨n, hn, h⟩ := on_ok h
  unfold attach at h
  split at h
  · cases h
    exact .inl ⟨by simp, rfl⟩
  · next hcdm =>
      split at h
      · cases h
        exact .inl ⟨by simp, rfl⟩
      · cases h
        refine .inr ⟨rfl, ⟨n.place, places_eq hn, ?_⟩, places_put hn (by rfl) (by rfl) (by rfl)⟩
        rw [Nic.place, not_not.mp hcdm]
        cases n.phase <;> simp

/-- What the search of an attach leaves: a failed call, or a NIC that goes on. -/
def Sought (s s' : State) (id : Nat) (ret : Option Ret) : Prop :=
  ret ≠ none ∧ places s' = Function.update (places s) id (some .out) ∨
    ret = none ∧ ∃ p, (p = .searching ∨ p = .joined) ∧
      places s' = Function.update (places s) id (some p)

theorem lookup_places (h : step maxCdm s (.lookup id) = .ok (s', ret)) :
    places s id = some .searching ∧ Sought s s' id ret := by
  obtain ⟨n, hn, h⟩ := on_ok h
  rw [places_eq hn, Nic.place]
  split at h
  · next hphase =>
      rw [hphase]
      refine ⟨rfl, .inr ?_⟩
      unfold lookup at h
      split at h
      · cases h
      · cases h
        exact ⟨rfl, .searching, .inl rfl, places_put hn (by rfl) (by rfl) (by rfl)⟩
      · cases h
        exact ⟨rfl, .searching, .inl rfl, places_put hn (by rfl) (by rfl) (by rfl)⟩
  · cases h

theorem make_places {allocFails : Bool} (hinv : Inv maxCdm s)
    (h : step maxCdm s (.make id allocFails) = .ok (s', ret)) :
    places s id = some .searching ∧ Sought s s' id ret := by
  obtain ⟨n, hn, h⟩ := on_ok h
  have hsound := hinv.sound n (mem_of_nic hn).1
  rw [places_eq hn, Nic.place]
  split at h
  · next hphase =>
      rw [Nic.Sound, hphase] at hsound
      rw [hphase]
      refine ⟨rfl, ?_⟩
      unfold make at h
      split at h
      · cases h
        exact .inl ⟨by simp, places_put hn (place_idle rfl hsound) (by rfl) (by rfl)⟩
      · split at h
        · cases h
        · cases h
          exact .inl ⟨by simp, places_put hn (place_idle rfl hsound) (by rfl) (by rfl)⟩
        · cases h
          exact .inr ⟨rfl, .searching, .inl rfl, places_put hn (by rfl) (by rfl) (by rfl)⟩
  · cases h

/-- The loop over the places of a CDM keeps the NIC, and unlinks it if it fails. -/
theorem linkLoop_nic : ∀ (k i : Nat) (cdm : Cdm) (n : Nic)
    {cdm' : Cdm} {n' : Nic} {found : Bool},
    (n.cdmId = none ∨ n.myId ≠ none) →
      linkLoop s k i cdm n = .ok (cdm', n', found) →
        n'.id = n.id ∧ (found = false → n'.cdmId = none)
  | 0, _, _, _, _, _, _, _, h => by
      cases h
      exact ⟨rfl, fun hf => (by cases hf)⟩
  | k + 1, i, cdm, n, _, _, _, hn, h => by
      unfold linkLoop at h
      split at h
      · split at h
        · have hnext := linkLoop_nic k (i + 1) _ _ (.inr (by simp)) h
          exact hnext
        · exact linkLoop_nic k (i + 1) _ _ hn h
      · split at h
        · cases h
        · split at h
          · cases h
            unfold retract
            split
            · exact ⟨rfl, fun _ => rfl⟩
            · next hno =>
                refine ⟨rfl, fun _ => hn.elim id fun hmy => ?_⟩
                obtain ⟨j, hj⟩ := Option.ne_none_iff_exists'.mp hmy
                by_contra hcdm
                obtain ⟨l, hl⟩ := Option.ne_none_iff_exists'.mp hcdm
                exact hno l j hl hj
          · exact linkLoop_nic k (i + 1) _ _ hn h

theorem enter_places (hinv : Inv maxCdm s)
    (h : step maxCdm s (.enter id) = .ok (s', ret)) :
    places s id = some .searching ∧ Sought s s' id ret := by
  obtain ⟨n, hn, h⟩ := on_ok h
  have hsound := hinv.sound n (mem_of_nic hn).1
  rw [places_eq hn, Nic.place]
  split at h
  · next hphase =>
      rw [Nic.Sound, hphase] at hsound
      rw [hphase]
      refine ⟨rfl, ?_⟩
      unfold enter at h
      split at h
      · cases h
      · split at h
        · split at h
          · cases h
            exact .inl ⟨by simp, places_put hn (place_idle rfl hsound) (by rfl) (by rfl)⟩
          · cases h
            exact .inr ⟨rfl, .searching, .inl rfl, places_put hn (by rfl) (by rfl) (by rfl)⟩
        · split at h
          · cases h
          · next hloop =>
              obtain ⟨hid, hnone⟩ := linkLoop_nic _ _ _ _ (.inl hsound) hloop
              cases h
              exact .inl ⟨by simp, places_put hn (place_idle rfl (hnone rfl)) hid (by rfl)⟩
          · next hloop =>
              obtain ⟨hid, -⟩ := linkLoop_nic _ _ _ _ (.inl hsound) hloop
              split at h
              · next hcdm =>
                  cases h
                  exact .inl ⟨by simp, places_put hn (place_idle rfl hcdm) hid (by rfl)⟩
              · cases h
                exact .inr ⟨rfl, .joined, .inr rfl, places_put hn (by rfl) hid (by rfl)⟩
  · cases h

theorem seek_places {op : Op} (hinv : Inv maxCdm s) (hop : op.Seeks id)
    (h : step maxCdm s op = .ok (s', ret)) :
    places s id = some .searching ∧ Sought s s' id ret := by
  rcases hop with rfl | ⟨allocFails, rfl⟩ | rfl
  · exact lookup_places h
  · exact make_places hinv h
  · exact enter_places hinv h

theorem finish_places (hinv : Inv maxCdm s)
    (h : step maxCdm s (.finish id none) = .ok (s', ret)) :
    places s id = some .joined ∧ places s' = Function.update (places s) id (some .linked) := by
  obtain ⟨n, hn, h⟩ := on_ok h
  have hsound := hinv.sound n (mem_of_nic hn).1
  rw [places_eq hn, Nic.place]
  split at h
  · next hphase =>
      rw [Nic.Sound, hphase] at hsound
      obtain ⟨i, hi, -⟩ := hsound
      rw [hphase]
      cases h
      refine ⟨rfl, places_put hn ?_ (by rfl) (by rfl)⟩
      show (if n.cdmId = none then Place.out else .linked) = .linked
      rw [hi]
      rfl
  · cases h

/-- A NIC that is taken out of its CDM is idle, or it has to clear the CDM away. -/
def Unlinked (s s' : State) (id : Nat) (ret : Option Ret) : Prop :=
  ret ≠ none ∧ places s' = Function.update (places s) id (some .out) ∨
    ret = none ∧ places s' = Function.update (places s) id (some .leaving)

theorem unlink_places {a : Nat} {cdm : Cdm} {rc : Ret} (hn : s.nic id = some n)
    (h : unlink s n a cdm rc = .ok (s', ret)) : Unlinked s s' id ret := by
  unfold unlink at h
  split at h
  · cases h
  · dsimp only at h
    split at h
    · cases h
      exact .inr ⟨rfl, places_put hn (by rfl) (by rfl) (by rfl)⟩
    · cases h
      exact .inl ⟨by simp, places_put hn (by rfl) (by rfl) (by rfl)⟩

theorem failed_places {e : Errno}
    (h : step maxCdm s (.finish id (some e)) = .ok (s', ret)) : Unlinked s s' id ret := by
  obtain ⟨n, hn, h⟩ := on_ok h
  split at h
  · unfold finish at h
    dsimp only at h
    split at h
    · cases h
    · exact unlink_places hn h
  · cases h

theorem detach_places (hinv : Inv maxCdm s) (hplace : places s id = some .linked)
    (h : step maxCdm s (.detach id) = .ok (s', ret)) : Unlinked s s' id ret := by
  obtain ⟨n, hn, h⟩ := on_ok h
  have hmem := (mem_of_nic hn).1
  unfold detach at h
  split at h
  · next hcdm =>
      rw [places_eq hn, Nic.place, hcdm] at hplace
      cases hphase : n.phase <;> rw [hphase] at hplace <;> simp at hplace
  · next i hi =>
      obtain ⟨a, cdm, -, ha, hcdm, hvalid, -⟩ := hinv.consistent.linked n hmem i hi
      rw [ha] at h
      dsimp only at h
      rw [hcdm] at h
      dsimp only at h
      rw [hvalid] at h
      exact unlink_places hn h

theorem clear_places (h : step maxCdm s (.clear id) = .ok (s', ret)) :
    places s id = some .leaving ∧ places s' = places s := by
  obtain ⟨n, hn, h⟩ := on_ok h
  split at h
  · next hphase =>
      have hplace : places s id = some .leaving := by rw [places_eq hn, Nic.place, hphase]
      refine ⟨hplace, ?_⟩
      unfold clear at h
      split at h
      · cases h
      · split at h
        · cases h
        · cases h
          exact (places_put hn (by rfl) (by rfl) (by rfl)).trans (eq_update hplace).symm
  · cases h

theorem free_places (hinv : Inv maxCdm s)
    (h : step maxCdm s (.free id) = .ok (s', ret)) :
    places s' = Function.update (places s) id (some .out) := by
  obtain ⟨n, hn, h⟩ := on_ok h
  have hsound := hinv.sound n (mem_of_nic hn).1
  split at h
  · next hphase =>
      rw [Nic.Sound, hphase] at hsound
      unfold free at h
      split at h
      · cases h
      · cases h
        exact places_put hn (place_idle rfl hsound.1) (by rfl) (by rfl)
  · cases h

theorem create_places (pe : UInt32) (hnew : s.nic id = none) :
    places { s with nics := s.nics ++ [.new id pe] } =
      Function.update (places s) id (some .out) := by
  funext j
  by_cases hj : j = id
  · subst hj
    have hfind : findKey Nic.id (s.nics ++ [.new j pe]) j = some (.new j pe) :=
      findKey_concat_self hnew
    rw [Function.update_self]
    exact congrArg (Option.map Nic.place) hfind
  · have hfind : findKey Nic.id (s.nics ++ [.new id pe]) j = s.nic j :=
      findKey_concat_of_ne hj
    rw [Function.update_of_ne hj, places, State.nic, hfind]
    rfl

theorem destroy_places {ret : Option Ret}
    (h : step maxCdm s (.destroy id) = .ok (s', ret)) :
    places s id ≠ none ∧ (places s id = some .linked → places s' = places s) ∧
      (places s id = some .out → places s' = Function.update (places s) id none) := by
  obtain ⟨n, hn, h⟩ := on_ok h
  rw [places_eq hn]
  refine ⟨by simp, ?_⟩
  unfold destroy at h
  split at h
  · next hcdm =>
      cases h
      refine ⟨fun _ => rfl, fun hout => absurd hout ?_⟩
      rw [Nic.place]
      cases n.phase <;> simp [hcdm]
  · next hcdm =>
      cases h
      have hid := (mem_of_nic hn).2
      constructor
      · intro hlinked
        rw [Nic.place, not_not.mp hcdm] at hlinked
        cases hphase : n.phase <;> rw [hphase] at hlinked <;> simp at hlinked
      · intro _
        funext j
        by_cases hj : j = id
        · subst hj
          rw [Function.update_self, places, State.nic, hid, findKey_removeKey_self]
          rfl
        · rw [Function.update_of_ne hj, places, State.nic, hid,
            findKey_removeKey_of_ne hj]
          rfl

end Places

end Nvl.Domains

namespace Nvl.Resources

open SysLib

/-! ### The resources of a NIC -/

def phases (d : Dev) (id : Nat) : Option Phase := (d.nic id).map (·.phase)

section Phases

variable {c : Config} {d d' : Dev} {n n' : Nic} {id : Nat}
  {ret : Except Errno Unit}

theorem phases_congr (hnics : d'.nics = d.nics) : phases d' = phases d := by
  funext j
  rw [phases, Dev.nic, hnics]
  rfl

theorem phases_eq (hn : d.nic id = some n) : phases d id = some n.phase := by
  rw [phases, hn]
  rfl

/-- A NIC that is written back is where it says. -/
theorem phases_put {p : Phase} (hn : d.nic id = some n) (hp : n'.phase = p)
    (hid : n'.id = n.id) (hnics : d'.nics = d.nics) :
    phases (d'.writeNic n') = Function.update (phases d) id (some p) := by
  have hnid : n'.id = id := hid.trans (findKey_some hn).2
  subst hnid
  have hn' : d'.nic n'.id = some n := by rw [Dev.nic, hnics]; exact hn
  have hfind : (d'.writeNic n').nic n'.id = some n' :=
    findKey_writeKey_self hn'
  funext j
  by_cases hj : j = n'.id
  · rw [hj, Function.update_self, phases_eq hfind, hp]
  · have hsame : (d'.writeNic n').nic j = d'.nic j := findKey_writeKey_of_ne hj
    rw [Function.update_of_ne hj, phases, hsame, Dev.nic, hnics]
    rfl

theorem phases_same (hn : d.nic id = some n) (hp : n'.phase = n.phase)
    (hid : n'.id = n.id) (hnics : d'.nics = d.nics) :
    phases (d'.writeNic n') = phases d :=
  (phases_put hn hp hid hnics).trans (eq_update (phases_eq hn)).symm

theorem on_ok {f : Nic →
      Except Fault (Dev × Except Errno Unit)}
    {r : Dev × Except Errno Unit} (h : d.on id f = .ok r) :
    ∃ n, d.nic id = some n ∧ f n = .ok r := by
  rw [Dev.on] at h
  split at h
  · cases h
  · next n hn => exact ⟨n, hn, h⟩

theorem nttDecref_nics {b : Option Nat} (h : nttDecref d b = .ok d') :
    d'.nics = d.nics := by
  unfold nttDecref at h
  split at h
  · cases h
    rfl
  · split at h
    · cases h
    · dsimp only at h
      split at h
      · cases h
      · split at h <;> cases h <;> rfl

theorem resourceDecref_nics (h : resourceDecref d n = .ok d') : d'.nics = d.nics := by
  unfold resourceDecref at h
  split at h
  · cases h
    rfl
  · split at h
    · cases h
    · split at h
      · obtain ⟨d₁, hd₁, rfl⟩ := map_ok h
        have hnics := nttDecref_nics hd₁
        exact hnics
      · cases h
        rfl

theorem full_phases {a : AttachArgs} (ha : a.cdm = .full)
    (h : step c d (.attach id a) = .ok (d', ret)) : phases d' = phases d := by
  obtain ⟨n, hn, h⟩ := on_ok h
  unfold nicAttach at h
  split at h
  · cases h
    rfl
  · split at h
    · cases h
      rfl
    · rw [ha] at h
      cases h
      exact phases_same hn (by rfl) (by rfl) (by rfl)

/-- What the sections of `kgni_resource_incref` leave. -/
def Taken (d d' : Dev) (id : Nat) (ret : Except Errno Unit) : Prop :=
  ret = .ok () ∧ (phases d' = Function.update (phases d) id (some .preparing) ∨
      ∃ a, phases d' = Function.update (phases d) id (some (.allocating a))) ∨
    ret ≠ .ok () ∧ phases d' = Function.update (phases d) id (some .idle)

theorem takeNtt_nic {r : Rsrc} (h : takeNtt c d n r = .ok n') :
    n'.id = n.id := by
  unfold takeNtt at h
  split at h
  · cases h
    rfl
  · split at h
    · cases h
    · cases h
      rfl

theorem increfFast_phases {a : AttachArgs} (hn : d.nic id = some n)
    (h : increfFast c d n' a = .ok (d', ret)) (hid : n'.id = n.id) :
    Taken d d' id ret := by
  unfold increfFast at h
  split at h
  · split at h
    · cases h
    · next m hm =>
        have hmid : m.id = n.id := (takeNtt_nic hm).trans hid
        split at h
        · cases h
          exact .inr ⟨by simp, phases_put hn (by rfl) hmid (by rfl)⟩
        · cases h
          exact .inl ⟨rfl, .inl (phases_put hn (by rfl) hmid (by rfl))⟩
  · split at h
    · cases h
      exact .inr ⟨by simp, phases_put hn (by rfl) hid (by rfl)⟩
    · cases h
      exact .inl ⟨rfl, .inr ⟨a, phases_put hn (by rfl) hid (by rfl)⟩⟩

theorem attach_phases {a : AttachArgs} (ha : a.cdm = .found)
    (hphase : phases d id = some .idle)
    (h : step c d (.attach id a) = .ok (d', ret)) : Taken d d' id ret := by
  obtain ⟨n, hn, h⟩ := on_ok h
  rw [phases_eq hn] at hphase
  unfold nicAttach at h
  rw [if_neg (not_not.mpr (Option.some.inj hphase))] at h
  split at h
  · cases h
    refine .inr ⟨by simp, (eq_update ?_)⟩
    rw [phases_eq hn, hphase]
  · rw [ha] at h
    exact increfFast_phases hn h (by rfl)

theorem alloc_phases {allocFails : Bool}
    (h : step c d (.alloc id allocFails) = .ok (d', ret)) :
    (∃ a, phases d id = some (.allocating a)) ∧ Taken d d' id ret := by
  obtain ⟨n, hn, h⟩ := on_ok h
  rw [phases_eq hn]
  split at h
  · next a hphase =>
      refine ⟨⟨a, congrArg _ hphase⟩, ?_⟩
      unfold increfSlow at h
      split at h
      · cases h
        exact .inr ⟨by simp, phases_put hn (by rfl) (by rfl) (by rfl)⟩
      · split at h
        · split at h
          · cases h
            exact .inr ⟨by simp, phases_put hn (by rfl) (by rfl) (by rfl)⟩
          · cases h
            exact .inl ⟨rfl, .inl (phases_put hn (by rfl) (by rfl) (by rfl))⟩
        · cases h
          exact .inl ⟨rfl, .inl (phases_put hn (by rfl) (by rfl) (by rfl))⟩
  · cases h

theorem finish_phases {failure : Option Errno}
    (h : step c d (.finish id failure) = .ok (d', ret)) :
    phases d id = some .preparing ∧
      phases d' = Function.update (phases d) id
        (some (if failure = none then .attached else .idle)) := by
  obtain ⟨n, hn, h⟩ := on_ok h
  split at h
  · next hphase =>
      refine ⟨(phases_eq hn).trans (congrArg _ hphase), ?_⟩
      cases failure with
      | none =>
          cases h
          exact phases_put hn (by rfl) (by rfl) (by rfl)
      | some e =>
          obtain ⟨d₁, hd₁, heq⟩ := map_ok h
          cases heq
          exact phases_put hn (by rfl) (by rfl) (resourceDecref_nics hd₁)
  · cases h

theorem detach_phases (hphase : phases d id = some .attached)
    (h : step c d (.detach id) = .ok (d', ret)) :
    phases d' = Function.update (phases d) id (some .idle) := by
  obtain ⟨n, hn, h⟩ := on_ok h
  rw [phases_eq hn] at hphase
  unfold nicDetach at h
  rw [if_neg (by rw [Option.some.inj hphase]; decide)] at h
  cases h
  exact phases_put hn (by rfl) (by rfl) (by rfl)

theorem nttFindIncref_nics {base size : Int} {selfdestruct : Bool} {r : Except Errno Nat}
    (h : nttFindIncref d base size selfdestruct = .ok (d', r)) : d'.nics = d.nics := by
  unfold nttFindIncref at h
  split at h
  · cases h
    rfl
  · dsimp only at h
    split at h
    · cases h
    · cases h
      rfl

theorem configNtt_nics {ptag : Nat} {limits : Option (Int × Int × Bool)}
    (h : configNtt d ptag limits = .ok (d', ret)) : d'.nics = d.nics := by
  unfold configNtt at h
  split at h
  · split at h
    · split at h
      · split at h
        · cases h
        · split at h <;> cases h <;> rfl
      · obtain ⟨r, hr, heq⟩ := map_ok h
        obtain ⟨d₁, r⟩ := r
        have hnics := nttFindIncref_nics hr
        cases r with
        | error e =>
            cases heq
            exact hnics
        | ok addr =>
            cases heq
            exact hnics
    · cases h
      rfl
  · cases h
    rfl

theorem jobConfig_phases {a : JobArgs}
    (h : step c d (.jobConfig id a) = .ok (d', ret)) : phases d' = phases d := by
  obtain ⟨n, hn, h⟩ := on_ok h
  unfold jobConfig at h
  split at h
  · cases h
    rfl
  · split at h
    · cases h
      rfl
    · split at h
      · split at h
        · cases h
          rfl
        · split at h
          · cases h
            rfl
          · rw [phases_congr (configNtt_nics h)]
            exact phases_same hn (by rfl) (by rfl) (by rfl)
      · rw [phases_congr (configNtt_nics h)]
        exact phases_same hn (by rfl) (by rfl) (by rfl)

theorem nttConfig_phases {a : NttArgs}
    (h : step c d (.nttConfig a) = .ok (d', ret)) : phases d' = phases d := by
  apply phases_congr
  have hd : d' = (nttConfig d a).1 := congrArg Prod.fst (Except.ok.inj h).symm
  rw [hd]
  unfold nttConfig nttCleanup
  repeat' split
  all_goals rfl

theorem create_phases (kernel : Bool) (hnew : d.nic id = none) :
    phases (d.create id kernel) = Function.update (phases d) id (some .idle) := by
  funext j
  by_cases hj : j = id
  · subst hj
    have hfind : findKey Nic.id (d.nics ++ [.new j kernel]) j = some (.new j kernel) :=
      findKey_concat_self hnew
    rw [Function.update_self]
    exact congrArg (Option.map (·.phase)) hfind
  · have hfind : findKey Nic.id (d.nics ++ [.new id kernel]) j = d.nic j :=
      findKey_concat_of_ne hj
    rw [Function.update_of_ne hj, phases, Dev.nic, Dev.create, hfind]
    rfl

theorem destroy_phases {c : Config} {ret : Except Errno Unit}
    (h : step c d (.destroy id) = .ok (d', ret)) :
    (phases d id = some .attached → phases d' = phases d) ∧
      (phases d id = some .idle → phases d' = Function.update (phases d) id none) := by
  obtain ⟨n, hn, h⟩ := on_ok h
  rw [phases_eq hn]
  unfold nicDestroy at h
  split at h
  · next hphase =>
      cases h
      exact ⟨fun _ => rfl, fun hidle => absurd (Option.some.inj hidle) hphase⟩
  · next hphase =>
      obtain ⟨d₁, hd₁, heq⟩ := map_ok h
      cases heq
      have hid := (findKey_some hn).2
      constructor
      · intro hattached
        rw [not_not.mp hphase] at hattached
        cases hattached
      · intro _
        funext j
        by_cases hj : j = id
        · subst hj
          rw [Function.update_self, phases, Dev.nic, Dev.removeNic, hid,
            findKey_removeKey_self]
          rfl
        · rw [Function.update_of_ne hj, phases, Dev.nic, Dev.removeNic, hid,
            findKey_removeKey_of_ne hj, resourceDecref_nics hd₁]
          rfl

end Phases

end Nvl.Resources

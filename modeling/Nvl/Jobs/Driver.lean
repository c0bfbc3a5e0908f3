/-
Nvl/Jobs/Driver.lean

The three views of a NIC together: its CDM (`Nvl.Domains`), its resources (`Nvl.Resources`) and
its channel (`Nvl.Datagram`).

`kgni_nic_attach` and `kgni_nic_detach` do something to each of them, part by part.  Here the
parts are put in the order in which the two functions have them, with a mark for where the call
on a NIC stands.  Then the views agree on every NIC in every state (`driver_agree`): the three
tests for an attached NIC are one test (`Agree.attached_iff`), and what each view asks of the
order of the calls on a NIC holds by itself.  The node has one device.
-/
import Nvl.Jobs.Views
import Nvl.Datagram.Channels

namespace Nvl.Driver

open SysLib
open Domains (Place places)
open Resources (phases)
open Datagram (channel)

/-! ### The driver -/

/-- The arguments of an attach that the views read, and the job of the caller. -/
structure AttachArgs where
  ptag : UInt8
  cookie : UInt32
  rank : UInt32
  jobId : UInt64

def AttachArgs.identity (a : AttachArgs) : Domains.Identity := ⟨a.ptag, a.cookie, a.rank⟩

def AttachArgs.request (a : AttachArgs) (cdm : Resources.CdmLookup) : Resources.AttachArgs :=
  ⟨a.ptag.toNat, a.cookie, a.jobId, cdm⟩

def AttachArgs.cdm (a : AttachArgs) : Datagram.Cdm := ⟨a.ptag, a.cookie, a.rank⟩

/-- Where the call on a NIC stands. -/
inductive Call where
  | none
  | attaching (a : AttachArgs)
  | failing
  | detaching
  | leaving

structure State where
  domains : Domains.State
  dev : Resources.Dev
  node : Datagram.Node
  calls : Nat → Call

/-- The call goes on as long as it has no result. -/
def Call.on (c : Call) (ret : Option Domains.Ret) : Call := if ret = .none then c else .none

/-- What is asked of the environment of a post, a test, a packet or an event.  A call is made
while there is no other on its NIC. -/
def Meets (c : Datagram.Config) (s : State) : Datagram.Op → Prop
  | .post i a => s.calls i = .none ∧ Datagram.Addressed (s.node.nics i) a.remotePe a.remoteId
  | .terminate i a => s.calls i = .none ∧ Datagram.Addressed (s.node.nics i) a.remotePe a.remoteId
  | .test i _ => s.calls i = .none
  | .task ts => Datagram.TaskFair c s.node s.node.smList ts
  | .event e => e.Fair c s.node
  | .receive i p _ => (s.node.nics i).cdm.isSome = true ∧ p.Sound
  | .attach _ _ _ _ | .configure _ _ | .close _ | .detach _ => False

structure Config where
  maxCdm : Nat
  resources : Resources.Config
  datagram : Datagram.Config

/-- What the driver can do. -/
inductive Step (c : Config) (s : State) : State → Prop
  | create {id : Nat} (kernel : Bool) (hnew : s.domains.nic id = none)
      (hnew' : s.dev.nic id = none) :
      Step c s { s with
        domains := { s.domains with nics := s.domains.nics ++ [.new id s.node.pe] }
        dev := s.dev.create id kernel }
  /-- `kgni_nic_attach`, up to the check of the tag. -/
  | attach {id : Nat} {a : AttachArgs} {check : Domains.Ret} {d : Domains.State}
      {ret : Option Domains.Ret} (hcall : s.calls id = .none)
      (hcheck : check = .ok () ↔
        c.resources.checkPtag a.ptag.toNat (Resources.cookiePkey a.cookie) = .ok ())
      (hd : Domains.step c.maxCdm s.domains (.attach id a.identity check) = .ok (d, ret)) :
      Step c s { s with
        domains := d
        calls := Function.update s.calls id ((Call.attaching a).on ret) }
  | seek {id : Nat} {a : AttachArgs} {op : Domains.Op} {d : Domains.State}
      {ret : Option Domains.Ret} (hcall : s.calls id = .attaching a) (hop : op.Seeks id)
      (hd : Domains.step c.maxCdm s.domains op = .ok (d, ret))
      (hret : ret ≠ some (.error .emfile)) :
      Step c s { s with
        domains := d
        calls := Function.update s.calls id ((Call.attaching a).on ret) }
  /-- The CDM has no place for the NIC (`resr_error`). -/
  | full {id : Nat} {a : AttachArgs} {op : Domains.Op} {d : Domains.State} {dev : Resources.Dev}
      {ret : Except Resources.Errno Unit} (hcall : s.calls id = .attaching a) (hop : op.Seeks id)
      (hd : Domains.step c.maxCdm s.domains op = .ok (d, some (.error .emfile)))
      (hdev : Resources.step c.resources s.dev (.attach id (a.request .full)) = .ok (dev, ret)) :
      Step c s { s with domains := d, dev, calls := Function.update s.calls id .none }
  /-- `kgni_resource_incref`. -/
  | incref {id : Nat} {a : AttachArgs} {dev : Resources.Dev} {ret : Except Resources.Errno Unit}
      (hcall : s.calls id = .attaching a) (hplace : places s.domains id = some .joined)
      (hphase : phases s.dev id = some .idle)
      (hdev : Resources.step c.resources s.dev (.attach id (a.request .found)) = .ok (dev, ret)) :
      Step c s { s with
        dev
        calls := Function.update s.calls id (if ret = .ok () then .attaching a else .failing) }
  | alloc {id : Nat} {a : AttachArgs} {dev : Resources.Dev} {ret : Except Resources.Errno Unit}
      (allocFails : Bool) (hcall : s.calls id = .attaching a)
      (hdev : Resources.step c.resources s.dev (.alloc id allocFails) = .ok (dev, ret)) :
      Step c s { s with
        dev
        calls := Function.update s.calls id (if ret = .ok () then .attaching a else .failing) }
  /-- The rest of `kgni_nic_attach`, if all goes well. -/
  | attached {id : Nat} {a : AttachArgs} {d : Domains.State} {dev : Resources.Dev}
      {ret : Option Domains.Ret} {ret' : Except Resources.Errno Unit} (datagramCnt : Option Int)
      (kernel : Bool) (hcall : s.calls id = .attaching a) (hrank : a.rank ≠ Datagram.any)
      (hcnt : ∀ k, datagramCnt = some k → 0 ≤ k)
      (hdev : Resources.step c.resources s.dev (.finish id none) = .ok (dev, ret'))
      (hd : Domains.step c.maxCdm s.domains (.finish id none) = .ok (d, ret)) :
      Step c s
        { domains := d
          dev
          node := Datagram.attach s.node id a.cdm datagramCnt kernel
          calls := Function.update s.calls id .none }
  /-- One of its later calls fails: the reference is dropped (`mm_error`). -/
  | fail {id : Nat} {a : AttachArgs} {e : Resources.Errno} {dev : Resources.Dev}
      {ret : Except Resources.Errno Unit} (hcall : s.calls id = .attaching a)
      (hdev : Resources.step c.resources s.dev (.finish id (some e)) = .ok (dev, ret)) :
      Step c s { s with dev, calls := Function.update s.calls id .failing }
  /-- The NIC is taken out of its CDM (`incref_error`). -/
  | unlink {id : Nat} {e : Domains.Errno} {d : Domains.State} {ret : Option Domains.Ret}
      (hcall : s.calls id = .failing)
      (hd : Domains.step c.maxCdm s.domains (.finish id (some e)) = .ok (d, ret)) :
      Step c s { s with domains := d, calls := Function.update s.calls id (Call.leaving.on ret) }
  /-- `kgni_nic_detach`, up to where it gives up the lock of the sessions. -/
  | close {id : Nat} (hcall : s.calls id = .none) (hplace : places s.domains id = some .linked) :
      Step c s { s with
        node := Datagram.detachChnl s.node id
        calls := Function.update s.calls id .detaching }
  /-- The rest of it, up to where it gives up the lock of the CDM. -/
  | detach {id : Nat} {d : Domains.State} {dev : Resources.Dev} {ret : Option Domains.Ret}
      {ret' : Except Resources.Errno Unit} (hcall : s.calls id = .detaching)
      (hquiet : ∀ r ∈ s.node.handlers, r.nic ≠ id)
      (hdev : Resources.step c.resources s.dev (.detach id) = .ok (dev, ret'))
      (hd : Domains.step c.maxCdm s.domains (.detach id) = .ok (d, ret)) :
      Step c s
        { domains := d
          dev
          node := Datagram.detach s.node id
          calls := Function.update s.calls id (Call.leaving.on ret) }
  | clear {id : Nat} {d : Domains.State} {ret : Option Domains.Ret} (hcall : s.calls id = .leaving)
      (hd : Domains.step c.maxCdm s.domains (.clear id) = .ok (d, ret)) :
      Step c s { s with domains := d }
  | free {id : Nat} {d : Domains.State} {ret : Option Domains.Ret} (hcall : s.calls id = .leaving)
      (hd : Domains.step c.maxCdm s.domains (.free id) = .ok (d, ret)) :
      Step c s { s with domains := d, calls := Function.update s.calls id .none }
  | destroy {id : Nat} {d : Domains.State} {dev : Resources.Dev} {ret : Option Domains.Ret}
      {ret' : Except Resources.Errno Unit} (hcall : s.calls id = .none)
      (hd : Domains.step c.maxCdm s.domains (.destroy id) = .ok (d, ret))
      (hdev : Resources.step c.resources s.dev (.destroy id) = .ok (dev, ret')) :
      Step c s { s with domains := d, dev }
  | jobConfig {id : Nat} {a : Resources.JobArgs} {dev : Resources.Dev}
      {ret : Except Resources.Errno Unit} (hcall : s.calls id = .none)
      (hdev : Resources.step c.resources s.dev (.jobConfig id a) = .ok (dev, ret)) :
      Step c s { s with dev }
  | nttConfig {a : Resources.NttArgs} {dev : Resources.Dev} {ret : Except Resources.Errno Unit}
      (hdev : Resources.step c.resources s.dev (.nttConfig a) = .ok (dev, ret)) :
      Step c s { s with dev }
  /-- A NIC translates addresses in another way: it takes the part of its job in
  `kgni_resource_incref`, and the table belongs to the device. -/
  | translate {id : Nat} (ntt : Datagram.Ntt) :
      Step c s { s with node := Datagram.jobConfig s.node id ntt }
  /-- Posts, tests, packets and events. -/
  | session {op : Datagram.Op} {node : Datagram.Node} {out : Datagram.Out}
      (hop : Meets c.datagram s op)
      (hnode : Datagram.step c.datagram s.node op = .ok (node, out)) :
      Step c s { s with node }

/-! ### Agreement -/

/-- The mark of the call, the CDM, the resources and the channel of a NIC. -/
inductive Coupled : Call → Option Place → Option Resources.Phase → Option Bool → Prop
  | absent : Coupled .none none none none
  | out : Coupled .none (some .out) (some .idle) none
  | linked : Coupled .none (some .linked) (some .attached) (some true)
  | searching (a : AttachArgs) : Coupled (.attaching a) (some .searching) (some .idle) none
  | joined (a : AttachArgs) : Coupled (.attaching a) (some .joined) (some .idle) none
  | allocating (a : AttachArgs) (b : Resources.AttachArgs) :
      Coupled (.attaching a) (some .joined) (some (.allocating b)) none
  | preparing (a : AttachArgs) : Coupled (.attaching a) (some .joined) (some .preparing) none
  | failing : Coupled .failing (some .joined) (some .idle) none
  | detaching : Coupled .detaching (some .linked) (some .attached) (some false)
  | leaving : Coupled .leaving (some .leaving) (some .idle) none

/-- The views agree on every NIC. -/
def Agree (s : State) : Prop :=
  ∀ id, Coupled (s.calls id) (places s.domains id) (phases s.dev id) (channel s.node id)

/-- What happens to one NIC is checked for it. -/
theorem Agree.update {s s' : State} (h : Agree s) {id : Nat} {call : Call} {p : Option Place}
    {r : Option Resources.Phase} {b : Option Bool}
    (hcalls : s'.calls = Function.update s.calls id call)
    (hplaces : places s'.domains = Function.update (places s.domains) id p)
    (hphases : phases s'.dev = Function.update (phases s.dev) id r)
    (hchannel : channel s'.node = Function.update (channel s.node) id b)
    (hself : Coupled call p r b) : Agree s' := by
  intro j
  rw [hcalls, hplaces, hphases, hchannel]
  by_cases hj : j = id
  · subst hj
    simpa only [Function.update_self] using hself
  · simpa only [Function.update_of_ne hj] using h j

/-! ### The views agree -/

section Coupled

variable {a : AttachArgs} {p : Option Place} {r : Option Resources.Phase} {b : Option Bool}

theorem coupled_none (h : Coupled .none p r b) :
    p = none ∧ r = none ∧ b = none ∨ p = some .out ∧ r = some .idle ∧ b = none ∨
      p = some .linked ∧ r = some .attached ∧ b = some true := by
  cases h <;> simp

theorem coupled_absent {call : Call} (h : Coupled call none r b) : call = .none ∧ b = none := by
  cases h
  exact ⟨rfl, rfl⟩

theorem coupled_attaching (h : Coupled (.attaching a) p r b) :
    b = none ∧ (p = some .searching ∧ r = some .idle ∨ p = some .joined) := by
  cases h <;> simp

theorem coupled_failing (h : Coupled .failing p r b) :
    p = some .joined ∧ r = some .idle ∧ b = none := by
  cases h
  exact ⟨rfl, rfl, rfl⟩

theorem coupled_detaching (h : Coupled .detaching p r b) :
    p = some .linked ∧ r = some .attached ∧ b = some false := by
  cases h
  exact ⟨rfl, rfl, rfl⟩

theorem coupled_leaving (h : Coupled .leaving p r b) :
    p = some .leaving ∧ r = some .idle ∧ b = none := by
  cases h
  exact ⟨rfl, rfl, rfl⟩

end Coupled

section Run

variable {c : Config} {s s' : State}

/-- The views agree, and each is as its own calls leave it. -/
structure Good (c : Config) (s : State) : Prop where
  agree : Agree s
  domains : Domains.Inv c.maxCdm s.domains
  pointers : Domains.Pointers s.domains
  dev : ∃ lost, Resources.Inv s.dev lost
  node : Datagram.Inv c.datagram s.node

theorem Agree.at_call {id : Nat} {call : Call} (h : Agree s) (hcall : s.calls id = call) :
    Coupled call (places s.domains id) (phases s.dev id) (channel s.node id) :=
  hcall ▸ h id

theorem Agree.congr (h : Agree s) (hcalls : s'.calls = s.calls)
    (hplaces : places s'.domains = places s.domains) (hphases : phases s'.dev = phases s.dev)
    (hchannel : channel s'.node = channel s.node) : Agree s' := by
  intro id
  rw [hcalls, hplaces, hphases, hchannel]
  exact h id

theorem keeps_of_meets {c : Datagram.Config} {op : Datagram.Op} (h : Meets c s op) : op.Keeps := by
  cases op with
  | post | terminate | test | task | event | receive => trivial
  | attach | configure | close | detach => cases h

theorem agree_seek {id : Nat} {a : AttachArgs} {d : Domains.State} {ret : Option Domains.Ret}
    {dev : Resources.Dev} (h : Agree s) (hcall : s.calls id = .attaching a)
    (hplace : places s.domains id = some .searching) (hsought : Domains.Sought s.domains d id ret)
    (hdev : phases dev = phases s.dev) :
    Agree { s with
      domains := d, dev, calls := Function.update s.calls id ((Call.attaching a).on ret) } := by
  obtain ⟨hchannel, ⟨-, hphase⟩ | hjoined⟩ := coupled_attaching (h.at_call hcall)
  · have hphases := hdev.trans (eq_update hphase)
    have hchannels := eq_update hchannel
    rcases hsought with ⟨hret, hd⟩ | ⟨rfl, p, rfl | rfl, hd⟩
    · rw [Call.on, if_neg hret]
      exact h.update rfl hd hphases hchannels .out
    · exact h.update rfl hd hphases hchannels (.searching a)
    · exact h.update rfl hd hphases hchannels (.joined a)
  · rw [hplace] at hjoined
    cases hjoined

/-- The NIC has its reference, is about to, or the attach has failed. -/
theorem agree_taken {id : Nat} {a : AttachArgs} {dev : Resources.Dev}
    {ret : Except Resources.Errno Unit} (h : Agree s) (hplace : places s.domains id = some .joined)
    (hchannel : channel s.node id = none) (htaken : Resources.Taken s.dev dev id ret) :
    Agree { s with
      dev
      calls := Function.update s.calls id (if ret = .ok () then .attaching a else .failing) } := by
  have hplaces := eq_update hplace
  have hchannels := eq_update hchannel
  rcases htaken with ⟨rfl, hdev | ⟨b, hdev⟩⟩ | ⟨hret, hdev⟩
  · exact h.update rfl hplaces hdev hchannels (.preparing a)
  · exact h.update rfl hplaces hdev hchannels (.allocating a b)
  · rw [if_neg hret]
    exact h.update rfl hplaces hdev hchannels .failing

theorem agree_unlinked {id : Nat} {d : Domains.State} {dev : Resources.Dev} {node : Datagram.Node}
    {ret : Option Domains.Ret} (h : Agree s) (hunlinked : Domains.Unlinked s.domains d id ret)
    (hphases : phases dev = Function.update (phases s.dev) id (some .idle))
    (hchannels : channel node = Function.update (channel s.node) id none) :
    Agree
      { domains := d, dev, node, calls := Function.update s.calls id (Call.leaving.on ret) } := by
  rcases hunlinked with ⟨hret, hd⟩ | ⟨rfl, hd⟩
  · rw [Call.on, if_neg hret]
    exact h.update rfl hd hphases hchannels .out
  · exact h.update rfl hd hphases hchannels .leaving

/-- What each view makes of a step fits together. -/
theorem Step.agree (h : Step c s s') (hgood : Good c s) : Agree s' := by
  have hagree := hgood.agree
  cases h with
  | @create id kernel hnew hnew' =>
      have hid := hagree id
      have hplace : places s.domains id = none := by rw [places, hnew]; rfl
      rw [hplace] at hid
      obtain ⟨hcall, hchannel⟩ := coupled_absent hid
      exact hagree.update (eq_update hcall) (Domains.create_places _ hnew)
        (Resources.create_phases kernel hnew') (eq_update hchannel) .out
  | @attach id a check d ret hcall hcheck hd =>
      rcases Domains.attach_places hd with ⟨hret, rfl⟩ | ⟨rfl, ⟨p, hp, hlinked⟩, hd⟩
      · rw [Call.on, if_neg hret, ← eq_update hcall]
        exact hagree
      · rcases coupled_none (hagree.at_call hcall) with ⟨hno, -⟩ | ⟨-, hr, hb⟩ | ⟨hl, -⟩
        · cases hp.symm.trans hno
        · exact hagree.update rfl hd (eq_update hr) (eq_update hb) (.searching a)
        · exact absurd (Option.some.inj (hp.symm.trans hl)) hlinked
  | @seek id a op d ret hcall hop hd hret =>
      obtain ⟨hplace, hsought⟩ := Domains.seek_places hgood.domains hop hd
      exact agree_seek hagree hcall hplace hsought rfl
  | @full id a op d dev ret hcall hop hd hdev =>
      obtain ⟨hplace, hsought⟩ := Domains.seek_places hgood.domains hop hd
      exact agree_seek hagree hcall hplace hsought (Resources.full_phases rfl hdev)
  | @incref id a dev ret hcall hplace hphase hdev =>
      obtain ⟨hchannel, -⟩ := coupled_attaching (hagree.at_call hcall)
      exact agree_taken hagree hplace hchannel (Resources.attach_phases rfl hphase hdev)
  | @alloc id a dev ret allocFails hcall hdev =>
      obtain ⟨⟨b, hphase⟩, htaken⟩ := Resources.alloc_phases hdev
      obtain ⟨hchannel, ⟨-, hidle⟩ | hplace⟩ := coupled_attaching (hagree.at_call hcall)
      · cases hphase.symm.trans hidle
      · exact agree_taken hagree hplace hchannel htaken
  | @attached id a d dev ret ret' datagramCnt kernel hcall hrank hcnt hdev hd =>
      obtain ⟨hchannel, -⟩ := coupled_attaching (hagree.at_call hcall)
      exact hagree.update rfl (Domains.finish_places hgood.domains hd).2
        (Resources.finish_phases hdev).2
        (Datagram.attach_channel hchannel a.cdm datagramCnt kernel) .linked
  | @fail id a e dev ret hcall hdev =>
      obtain ⟨hphase, hdev⟩ := Resources.finish_phases hdev
      obtain ⟨hchannel, ⟨-, hidle⟩ | hplace⟩ := coupled_attaching (hagree.at_call hcall)
      · cases hphase.symm.trans hidle
      · exact hagree.update rfl (eq_update hplace) hdev (eq_update hchannel) .failing
  | @unlink id e d ret hcall hd =>
      obtain ⟨-, hphase, hchannel⟩ := coupled_failing (hagree.at_call hcall)
      exact agree_unlinked hagree (Domains.failed_places hd) (eq_update hphase)
        (eq_update hchannel)
  | @close id hcall hplace =>
      rcases coupled_none (hagree.at_call hcall) with ⟨hno, -⟩ | ⟨hout, -⟩ | ⟨-, hr, hb⟩
      · cases hplace.symm.trans hno
      · cases hplace.symm.trans hout
      · exact hagree.update rfl (eq_update hplace) (eq_update hr)
          (Datagram.detachChnl_channel hb) .detaching
  | @detach id d dev ret ret' hcall hquiet hdev hd =>
      obtain ⟨hplace, hphase, -⟩ := coupled_detaching (hagree.at_call hcall)
      exact agree_unlinked hagree (Domains.detach_places hgood.domains hplace hd)
        (Resources.detach_phases hphase hdev) Datagram.detach_channel
  | @clear id d ret hcall hd => exact hagree.congr rfl (Domains.clear_places hd).2 rfl rfl
  | @free id d ret hcall hd =>
      obtain ⟨-, hphase, hchannel⟩ := coupled_leaving (hagree.at_call hcall)
      exact hagree.update rfl (Domains.free_places hgood.domains hd) (eq_update hphase)
        (eq_update hchannel) .out
  | @destroy id d dev ret ret' hcall hd hdev =>
      obtain ⟨hsome, hlinked, hout⟩ := Domains.destroy_places hd
      obtain ⟨hattached, hidle⟩ := Resources.destroy_phases hdev
      rcases coupled_none (hagree.at_call hcall) with ⟨hp, -⟩ | ⟨hp, hr, hb⟩ | ⟨hp, hr, -⟩
      · exact absurd hp hsome
      · exact hagree.update (eq_update hcall) (hout hp) (hidle hr) (eq_update hb) .absent
      · exact hagree.congr rfl (hlinked hp) (hattached hr) rfl
  | jobConfig hcall hdev => exact hagree.congr rfl rfl (Resources.jobConfig_phases hdev) rfl
  | nttConfig hdev => exact hagree.congr rfl rfl (Resources.nttConfig_phases hdev) rfl
  | translate ntt => exact hagree.congr rfl rfl rfl (Datagram.channel_setNic_same rfl rfl)
  | session hop hnode =>
      exact hagree.congr rfl rfl rfl (Datagram.step_channel (keeps_of_meets hop) hnode)

/-! ### Each view can do its part -/

/-- A NIC between two calls is idle for the domains. -/
theorem Agree.idle (h : Agree s) {id : Nat} (hcall : s.calls id = .none) {n : Domains.Nic}
    (hn : s.domains.nic id = some n) : n.phase = .idle := by
  have hid := h.at_call hcall
  rw [Domains.places_eq hn] at hid
  have hplace : n.place = .out ∨ n.place = .linked := by
    rcases coupled_none hid with ⟨hp, -⟩ | ⟨hp, -⟩ | ⟨hp, -⟩
    · cases hp
    · exact .inl (Option.some.inj hp)
    · exact .inr (Option.some.inj hp)
  unfold Domains.Nic.place at hplace
  cases hphase : n.phase with
  | idle => rfl
  | looking | creating | entering | attaching | clearing | freeing =>
      rw [hphase] at hplace
      simp at hplace

/-- And for the resources not in an attach. -/
theorem Agree.between (h : Agree s) {id : Nat} (hcall : s.calls id = .none) {m : Resources.Nic}
    (hm : s.dev.nic id = some m) : m.phase.Between := by
  have hid := h.at_call hcall
  rw [Resources.phases_eq hm] at hid
  rcases coupled_none hid with ⟨-, hr, -⟩ | ⟨-, hr, -⟩ | ⟨-, hr, -⟩
  · cases hr
  · exact .inl (Option.some.inj hr)
  · exact .inr (Option.some.inj hr)

/-- What a step of the domains asks of the order of calls on a NIC holds by the mark. -/
theorem Good.domains_step (h : Good c s) {op : Domains.Op} {d : Domains.State}
    {ret : Option Domains.Ret} (hd : Domains.step c.maxCdm s.domains op = .ok (d, ret))
    (hnew : ∀ id pe, op ≠ .create id pe)
    (hidle : ∀ n, s.domains.nic op.nic = some n → op.takes .idle = true → n.phase = .idle) :
    Domains.Inv c.maxCdm d ∧ Domains.Pointers d := by
  -- a call begins on an idle NIC; a later part found the NIC in its phase
  have hen : op.Enabled s.domains := by
    cases op with
    | create id pe => exact absurd rfl (hnew id pe)
    | attach id | detach id | destroy id =>
        obtain ⟨n, hn, -⟩ := Domains.on_ok hd
        obtain ⟨hmem, hid⟩ := Domains.mem_of_nic hn
        refine ⟨n, hmem, hid, ?_⟩
        rw [hidle n hn rfl]
        rfl
    | lookup id | make id | enter id | finish id | clear id | free id =>
        obtain ⟨n, hn, hf⟩ := Domains.on_ok hd
        obtain ⟨hmem, hid⟩ := Domains.mem_of_nic hn
        refine ⟨n, hmem, hid, ?_⟩
        split at hf
        · next hphase =>
            rw [hphase]
            rfl
        · cases hf
  rcases Domains.step_goes h.domains h.pointers hen with ⟨d', ret', _, _, hstep, m, -⟩ | ⟨hstale, -⟩
  · cases hd.symm.trans hstep
    exact ⟨m.inv h.domains, m.pointers h.domains h.pointers⟩
  · cases hd.symm.trans hstale

theorem Good.domains_seek (h : Good c s) {id : Nat} {op : Domains.Op} {d : Domains.State}
    {ret : Option Domains.Ret} (hop : op.Seeks id)
    (hd : Domains.step c.maxCdm s.domains op = .ok (d, ret)) :
    Domains.Inv c.maxCdm d ∧ Domains.Pointers d := by
  rcases hop with rfl | ⟨allocFails, rfl⟩ | rfl <;> exact h.domains_step hd nofun nofun

/-- The same of the resources. -/
theorem Good.dev_step (h : Good c s) (hc : c.resources.Checks) {op : Resources.Op}
    {dev : Resources.Dev} {ret : Except Resources.Errno Unit}
    (hdev : Resources.step c.resources s.dev op = .ok (dev, ret)) (hen : op.Enabled s.dev) :
    ∃ lost, Resources.Inv dev lost := by
  obtain ⟨lost, hinv⟩ := h.dev
  obtain ⟨d', ret', hstep, lost', hinv', -⟩ := Resources.step_ok hc hinv hen
  cases hdev.symm.trans hstep
  exact ⟨lost', hinv'⟩

theorem exists_phase {id : Nat} {p : Resources.Phase} (hp : phases s.dev id = some p) :
    ∃ m ∈ s.dev.nics, m.id = id ∧ m.phase = p := by
  obtain ⟨m, hm, hphase⟩ := Option.map_eq_some_iff.mp hp
  exact ⟨m, (findKey_some hm).1, (findKey_some hm).2, hphase⟩

theorem Agree.exists_between (h : Agree s) {id : Nat} (hcall : s.calls id = .none)
    {f : Resources.Nic → Except Resources.Fault (Resources.Dev × Except Resources.Errno Unit)}
    {r : Resources.Dev × Except Resources.Errno Unit} (hdev : s.dev.on id f = .ok r) :
    ∃ m ∈ s.dev.nics, m.id = id ∧ m.phase.Between := by
  obtain ⟨m, hm, -⟩ := Resources.on_ok hdev
  exact ⟨m, (findKey_some hm).1, (findKey_some hm).2, h.between hcall hm⟩

/-- A test comes on a NIC with a channel, or with nothing. -/
theorem Good.usable (h : Good c s) {i : Nat} (hcall : s.calls i = .none) :
    (s.node.nics i).Usable := by
  intro hsome
  obtain ⟨cdm, hcdm⟩ := Option.isSome_iff_exists.mp hsome
  have hchannel : channel s.node i = some (s.node.nics i).chnl := by
    rw [channel, hcdm]
    rfl
  rcases coupled_none (h.agree.at_call hcall) with ⟨-, -, hb⟩ | ⟨-, -, hb⟩ | ⟨-, -, hb⟩
  · cases hchannel.symm.trans hb
  · cases hchannel.symm.trans hb
  · exact Option.some.inj (hchannel.symm.trans hb)

/-- What session management asks of the order of calls on a NIC holds by the mark. -/
theorem Good.fair (h : Good c s) {op : Datagram.Op} (hop : Meets c.datagram s op) :
    op.Fair c.datagram s.node := by
  cases op with
  | post i a => exact hop.2
  | terminate i a => exact ⟨hop.2, h.usable hop.1⟩
  | test i a => exact h.usable hop
  | task ts => exact hop
  | event e => exact hop
  | receive i p f => exact hop
  | attach | configure | close | detach => cases hop

theorem Good.node_step (h : Good c s) (op : Datagram.Op) {node : Datagram.Node}
    {out : Datagram.Out} (hfair : op.Fair c.datagram s.node)
    (hnode : Datagram.step c.datagram s.node op = .ok (node, out)) :
    Datagram.Inv c.datagram node := by
  obtain ⟨n', out', ls, hstep, hmoves, -⟩ := Datagram.step_moves h.node hfair
  cases hnode.symm.trans hstep
  exact hmoves.inv h.node

/-- A step is one that each view allows. -/
theorem Step.good (hc : c.resources.Checks) (h : Step c s s') (hgood : Good c s) : Good c s' := by
  have hagree := h.agree hgood
  have hviews := hgood.agree
  cases h with
  | @create id kernel hnew hnew' =>
      have hen : (Domains.Op.create id s.node.pe).Enabled s.domains := by
        intro n hn hid
        obtain ⟨m, hm⟩ : ∃ m, s.domains.nic n.id = some m := exists_findKey hn
        cases hnew.symm.trans (hid ▸ hm)
      have hen' : (Resources.Op.create id kernel).Enabled s.dev := by
        intro n hn hid
        obtain ⟨m, hm⟩ : ∃ m, s.dev.nic n.id = some m := exists_findKey hn
        cases hnew'.symm.trans (hid ▸ hm)
      have hmove : Domains.Move c.maxCdm s.domains True True _ :=
        .create (n := .new id s.node.pe) hen rfl rfl
      exact ⟨hagree, hmove.inv hgood.domains, hmove.pointers hgood.domains hgood.pointers,
        hgood.dev_step hc rfl hen', hgood.node⟩
  | @attach id a check d ret hcall hcheck hd =>
      obtain ⟨hinv, hp⟩ := hgood.domains_step hd nofun fun n hn _ => hviews.idle hcall hn
      exact ⟨hagree, hinv, hp, hgood.dev, hgood.node⟩
  | @seek id a op d ret hcall hop hd hret =>
      obtain ⟨hinv, hp⟩ := hgood.domains_seek hop hd
      exact ⟨hagree, hinv, hp, hgood.dev, hgood.node⟩
  | @full id a op d dev ret hcall hop hd hdev =>
      obtain ⟨hinv, hp⟩ := hgood.domains_seek hop hd
      obtain ⟨hplace, -⟩ := Domains.seek_places hgood.domains hop hd
      obtain ⟨-, ⟨-, hphase⟩ | hjoined⟩ := coupled_attaching (hviews.at_call hcall)
      · obtain ⟨m, hm, hid, hidle⟩ := exists_phase hphase
        exact ⟨hagree, hinv, hp, hgood.dev_step hc hdev ⟨m, hm, hid, .inl hidle⟩, hgood.node⟩
      · cases hplace.symm.trans hjoined
  | @incref id a dev ret hcall hplace hphase hdev =>
      obtain ⟨m, hm, hid, hidle⟩ := exists_phase hphase
      exact ⟨hagree, hgood.domains, hgood.pointers,
        hgood.dev_step hc hdev ⟨m, hm, hid, .inl hidle⟩, hgood.node⟩
  | @alloc id a dev ret allocFails hcall hdev =>
      obtain ⟨⟨b, hphase⟩, -⟩ := Resources.alloc_phases hdev
      obtain ⟨m, hm, hid, hb⟩ := exists_phase hphase
      exact ⟨hagree, hgood.domains, hgood.pointers, hgood.dev_step hc hdev ⟨m, hm, hid, b, hb⟩,
        hgood.node⟩
  | @attached id a d dev ret ret' datagramCnt kernel hcall hrank hcnt hdev hd =>
      obtain ⟨hinv, hp⟩ := hgood.domains_step hd nofun nofun
      have hphase := (Resources.finish_phases hdev).1
      exact ⟨hagree, hinv, hp, hgood.dev_step hc hdev (exists_phase hphase),
        hgood.node_step (.attach id a.cdm datagramCnt kernel) ⟨hrank, hcnt⟩ rfl⟩
  | @fail id a e dev ret hcall hdev =>
      exact ⟨hagree, hgood.domains, hgood.pointers,
        hgood.dev_step hc hdev (exists_phase (Resources.finish_phases hdev).1), hgood.node⟩
  | @unlink id e d ret hcall hd =>
      obtain ⟨hinv, hp⟩ := hgood.domains_step hd nofun nofun
      exact ⟨hagree, hinv, hp, hgood.dev, hgood.node⟩
  | @close id hcall hplace =>
      exact ⟨hagree, hgood.domains, hgood.pointers, hgood.dev,
        hgood.node_step (.close id) trivial rfl⟩
  | @detach id d dev ret ret' hcall hquiet hdev hd =>
      obtain ⟨hplace, hphase, -⟩ := coupled_detaching (hviews.at_call hcall)
      obtain ⟨m, hm, hid, hattached⟩ := exists_phase hphase
      obtain ⟨hinv, hp⟩ := hgood.domains_step hd nofun fun n hn _ =>
        Domains.idle_of_linked hn hplace
      exact ⟨hagree, hinv, hp, hgood.dev_step hc hdev ⟨m, hm, hid, .inr hattached⟩,
        hgood.node_step (.detach id) hquiet rfl⟩
  | @clear id d ret hcall hd =>
      obtain ⟨hinv, hp⟩ := hgood.domains_step hd nofun nofun
      exact ⟨hagree, hinv, hp, hgood.dev, hgood.node⟩
  | @free id d ret hcall hd =>
      obtain ⟨hinv, hp⟩ := hgood.domains_step hd nofun nofun
      exact ⟨hagree, hinv, hp, hgood.dev, hgood.node⟩
  | @destroy id d dev ret ret' hcall hd hdev =>
      obtain ⟨hinv, hp⟩ := hgood.domains_step hd nofun fun n hn _ => hviews.idle hcall hn
      exact ⟨hagree, hinv, hp, hgood.dev_step hc hdev (hviews.exists_between hcall hdev),
        hgood.node⟩
  | @jobConfig id a dev ret hcall hdev =>
      exact ⟨hagree, hgood.domains, hgood.pointers,
        hgood.dev_step hc hdev (hviews.exists_between hcall hdev), hgood.node⟩
  | nttConfig hdev =>
      exact ⟨hagree, hgood.domains, hgood.pointers, hgood.dev_step hc hdev trivial, hgood.node⟩
  | @translate id ntt =>
      exact ⟨hagree, hgood.domains, hgood.pointers, hgood.dev,
        hgood.node_step (.configure id ntt) trivial rfl⟩
  | @session op node out hop hnode =>
      exact ⟨hagree, hgood.domains, hgood.pointers, hgood.dev,
        hgood.node_step op (hgood.fair hop) hnode⟩

/-! ### Every run -/

/-- A node before its first NIC. -/
def State.boot (pe : UInt32) (ntt : Datagram.Ntt) : State :=
  ⟨.start, .start, .boot pe ntt, fun _ => .none⟩

theorem good_boot {pe : UInt32} (hpe : pe ≠ Datagram.any) (ntt : Datagram.Ntt) :
    Good c (.boot pe ntt) where
  agree _ := .absent
  domains := Domains.inv_start
  pointers := Domains.pointers_start
  dev := ⟨_, Resources.inv_start⟩
  node := Datagram.inv_boot hpe ntt

theorem good_of_reaches (hc : c.resources.Checks) {pe : UInt32} (hpe : pe ≠ Datagram.any)
    {ntt : Datagram.Ntt} (h : Relation.ReflTransGen (Step c) (.boot pe ntt) s) : Good c s := by
  induction h with
  | refl => exact good_boot hpe ntt
  | tail _ hstep ih => exact hstep.good hc ih

/-- The three tests for an attached NIC, where no call is under way: `cdm_id` in the domains, the
phase of the resources and the CDM of session management. -/
theorem Agree.attached_iff (h : Agree s) {id : Nat} (hcall : s.calls id = .none)
    {n : Domains.Nic} {m : Resources.Nic} (hn : s.domains.nic id = some n)
    (hm : s.dev.nic id = some m) :
    (n.cdmId ≠ none ↔ m.phase ≠ .idle) ∧ (n.cdmId ≠ none ↔ (s.node.nics id).cdm.isSome = true) := by
  have hid := h.at_call hcall
  have hidle := h.idle hcall hn
  rw [Domains.places_eq hn, Resources.phases_eq hm, Domains.Nic.place, hidle] at hid
  have hcdm : (s.node.nics id).cdm.isSome = (channel s.node id).isSome := by
    rw [channel, Option.isSome_map]
  rw [hcdm]
  by_cases hnone : n.cdmId = none
  · rw [if_pos hnone] at hid
    rcases coupled_none hid with ⟨hp, -⟩ | ⟨-, hr, hb⟩ | ⟨hp, -⟩
    · cases hp
    · rw [hb, Option.some.inj hr]
      simp [hnone]
    · cases hp
  · rw [if_neg hnone] at hid
    rcases coupled_none hid with ⟨hp, -⟩ | ⟨hp, -⟩ | ⟨-, hr, hb⟩
    · cases hp
    · cases hp
    · rw [hb, Option.some.inj hr]
      simp [hnone]

/-- **The three models are of one driver.**  In every state reached each is as its own runs leave
it, and they agree on every NIC. -/
theorem driver_agree (hc : c.resources.Checks) {pe : UInt32} (hpe : pe ≠ Datagram.any)
    {ntt : Datagram.Ntt} (h : Relation.ReflTransGen (Step c) (.boot pe ntt) s) :
    Agree s ∧ Domains.Consistent c.maxCdm s.domains ∧ Resources.Sound s.dev ∧
      Datagram.Inv c.datagram s.node := by
  have hgood := good_of_reaches hc hpe h
  obtain ⟨lost, hdev⟩ := hgood.dev
  exact ⟨hgood.agree, hgood.domains.consistent, hdev.sound, hgood.node⟩

end Run

end Nvl.Driver

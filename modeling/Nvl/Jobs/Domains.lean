/-
Nvl/Jobs/Domains.lean

The communication domains (`kgni_ops.c`): the table of the CDMs, and the NICs attached to them.

An attach looks for the CDM of its job and instance, makes it if there is none, and links the
NIC to it; the last NIC that leaves takes the CDM out of the table and frees it.  Each of these
parts has its lock, and between them anything can happen.

The code knows of one such race: a CDM that is about to go is marked, and an attach that meets
the mark starts again.  But it reads the mark in the CDM, which may be freed by then.
-/
import Nvl.Lib.Keyed
import Mathlib.Logic.Function.Basic

namespace Nvl.Domains

open SysLib

/-! ### CDMs and NICs -/

/-- What a CDM is found by. -/
structure Identity where
  ptag : UInt8
  cookie : UInt32
  instId : UInt32
  deriving DecidableEq

/-- `gni_cdm_t`; `valid` says that `type_id` is `GNI_TYPE_CDM_HANDLE`. -/
structure Cdm where
  identity : Identity
  valid : Bool
  myId : Option Nat
  nicHndls : Nat → Option Nat

/-- Error codes; the last is what `KGNI_ERROR_FROM_GNI_RETURN_CODE` makes of
`GNI_RC_INVALID_STATE`. -/
inductive Errno where
  | eexist
  | einval
  | enomem
  | emfile
  | enxio
  | ebusy
  | invalidState
  deriving DecidableEq

abbrev Ret := Except Errno Unit

/-- Where a NIC is: between two calls, or in one that does not hold a lock. -/
inductive Phase where
  | idle
  | looking (identity : Identity) (retried : Bool)
  | creating (identity : Identity) (retried : Bool)
  | entering (identity : Identity) (retried : Bool) (cdm : Nat)
  | attaching (cdm : Nat)
  | clearing (cdm : Nat) (rc : Ret)
  | freeing (cdm : Nat) (rc : Ret)
  deriving DecidableEq

/-- What counts of `gni_nic_t`. -/
structure Nic where
  id : Nat
  nicPe : UInt32
  phase : Phase
  cdmId : Option Nat
  myId : Option Nat
  deriving DecidableEq

/-- `kgni_cdm_array`, the CDMs at their addresses, and the NICs. -/
structure State where
  cdmArray : Nat → Option Nat
  cdms : Nat → Option Cdm
  nics : List Nic
  nextAddr : Nat

inductive Fault where
  | stale
  | freed
  | assertion
  | outside
  | absent
  deriving DecidableEq

/-- `GNI_MAX_NICS_ATTACHED`. -/
def maxNicsAttached : Nat := 32

namespace State

variable (s : State)

def nic (id : Nat) : Option Nic := findKey Nic.id s.nics id

def writeNic (n : Nic) : State := { s with nics := writeKey Nic.id s.nics n }

def writeCdm (a : Nat) (cdm : Cdm) : State :=
  { s with cdms := Function.update s.cdms a (some cdm) }

end State

theorem cdms_writeCdm_self (s : State) (a : Nat) (cdm : Cdm) :
    (s.writeCdm a cdm).cdms a = some cdm := Function.update_self ..

theorem cdms_writeCdm_of_ne (s : State) {a b : Nat} (cdm : Cdm) (hne : b ≠ a) :
    (s.writeCdm a cdm).cdms b = s.cdms b := Function.update_of_ne hne ..

/-! ### Finding and making a CDM -/

/-- The loop of `kgni_cdm_lookup`, over `k` places from `i` on. -/
def lookupLoop (s : State) (identity : Identity) : Nat → Nat → Except Fault (Option Nat)
  | 0, _ => .ok none
  | k + 1, i =>
      match s.cdmArray i with
      | none => lookupLoop s identity k (i + 1)
      | some a =>
          match s.cdms a with
          | none => .error .freed
          | some cdm =>
              if cdm.valid ∧ cdm.identity = identity then .ok (some a)
              else lookupLoop s identity k (i + 1)

/-- The loop of `gni_cdm_create`: the place the CDM gets, and whether its like is there.  A CDM
without the mark of a valid one counts as well. -/
def createLoop (s : State) (identity : Identity) :
    Nat → Nat → Option Nat → Except Fault (Option Nat × Bool)
  | 0, _, place => .ok (place, false)
  | k + 1, i, place =>
      match s.cdmArray i with
      | none => createLoop s identity k (i + 1) (some (place.getD i))
      | some a =>
          match s.cdms a with
          | none => .error .freed
          | some cdm =>
              if cdm.identity = identity then .ok (place, true)
              else createLoop s identity k (i + 1) place

/-- A CDM is allocated, and put into the table if there is a place for it. -/
def State.place (s : State) (identity : Identity) (place : Option Nat) : State :=
  { s with
    cdms := Function.update s.cdms s.nextAddr (some ⟨identity, true, place, fun _ => none⟩)
    cdmArray := match place with
      | none => s.cdmArray
      | some i => Function.update s.cdmArray i (some s.nextAddr)
    nextAddr := s.nextAddr + 1 }

/-! ### Linking a NIC and a CDM -/

/-- A NIC at the same PE is there: the NIC is taken out again. -/
def retract (cdm : Cdm) (n : Nic) : Cdm × Nic :=
  match n.cdmId, n.myId with
  | some _, some j =>
      ({ cdm with nicHndls := Function.update cdm.nicHndls j none }, { n with cdmId := none })
  | _, _ => (cdm, n)

/-- The loop of `kgni_nic_attach` over the NICs of a CDM; `false` for `-EEXIST`. -/
def linkLoop (s : State) : Nat → Nat → Cdm → Nic → Except Fault (Cdm × Nic × Bool)
  | 0, _, cdm, n => .ok (cdm, n, true)
  | k + 1, i, cdm, n =>
      match cdm.nicHndls i with
      | none =>
          match n.cdmId with
          | none =>
              linkLoop s k (i + 1)
                { cdm with nicHndls := Function.update cdm.nicHndls i (some n.id) }
                { n with cdmId := cdm.myId, myId := some i }
          | some _ => linkLoop s k (i + 1) cdm n
      | some id =>
          match s.nic id with
          | none => .error .freed
          | some t =>
              if t.nicPe = n.nicPe then .ok ((retract cdm n).1, (retract cdm n).2, false)
              else linkLoop s k (i + 1) cdm n

/-- No NIC is attached. -/
def Cdm.empty (cdm : Cdm) : Bool :=
  (List.range maxNicsAttached).all fun j => (cdm.nicHndls j).isNone

/-- The end of `kgni_nic_detach` and of a failed `kgni_nic_attach`, with the lock of the CDM. -/
def unlink (s : State) (n : Nic) (a : Nat) (cdm : Cdm) (rc : Ret) :
    Except Fault (State × Option Ret) :=
  match n.myId with
  | none => .error .assertion
  | some j =>
      let cdm := { cdm with nicHndls := Function.update cdm.nicHndls j none }
      if cdm.empty then
        .ok ((s.writeCdm a { cdm with valid := false }).writeNic
          { n with cdmId := none, phase := .clearing a rc }, none)
      else .ok ((s.writeCdm a cdm).writeNic { n with cdmId := none, phase := .idle }, some rc)

/-! ### Calls -/

/-- `kgni_nic_attach` up to the lookup; `check` is what `kgni_user_ptag_pkey_check` answers. -/
def attach (s : State) (n : Nic) (identity : Identity) (check : Ret) : State × Option Ret :=
  if n.cdmId ≠ none then (s, some (.error .eexist))
  else
    match check with
    | .error e => (s, some (.error e))
    | .ok () => (s.writeNic { n with phase := .looking identity false }, none)

/-- `kgni_cdm_lookup`. -/
def lookup (maxCdm : Nat) (s : State) (n : Nic) (identity : Identity) (retried : Bool) :
    Except Fault (State × Option Ret) :=
  match lookupLoop s identity maxCdm 0 with
  | .error f => .error f
  | .ok none => .ok (s.writeNic { n with phase := .creating identity retried }, none)
  | .ok (some a) => .ok (s.writeNic { n with phase := .entering identity retried a }, none)

/-- `gni_cdm_create`.  If the like of the CDM is there the code is `GNI_RC_INVALID_STATE`; the
clean-up is for `GNI_RC_INVALID_PARAM`, and the CDM stays. -/
def make (maxCdm : Nat) (s : State) (n : Nic) (identity : Identity) (retried allocFails : Bool) :
    Except Fault (State × Option Ret) :=
  if allocFails then .ok (s.writeNic { n with phase := .idle }, some (.error .enomem))
  else
    match createLoop s identity maxCdm 0 none with
    | .error f => .error f
    | .ok (place, true) =>
        .ok ((s.place identity place).writeNic { n with phase := .idle },
          some (.error .invalidState))
    | .ok (place, false) =>
        .ok ((s.place identity place).writeNic
          { n with phase := .entering identity retried s.nextAddr }, none)

/-- The part of `kgni_nic_attach` that has the lock of the CDM. -/
def enter (s : State) (n : Nic) (identity : Identity) (retried : Bool) (a : Nat) :
    Except Fault (State × Option Ret) :=
  match s.cdms a with
  | none => .error .stale
  | some cdm =>
      if !cdm.valid then
        if retried then .ok (s.writeNic { n with phase := .idle }, some (.error .einval))
        else .ok (s.writeNic { n with phase := .looking identity true }, none)
      else
        match linkLoop s maxNicsAttached 0 cdm n with
        | .error f => .error f
        | .ok (cdm, n, false) =>
            .ok ((s.writeCdm a cdm).writeNic { n with phase := .idle }, some (.error .eexist))
        | .ok (cdm, n, true) =>
            if n.cdmId = none then
              .ok ((s.writeCdm a cdm).writeNic { n with phase := .idle }, some (.error .emfile))
            else .ok ((s.writeCdm a cdm).writeNic { n with phase := .attaching a }, none)

/-- The rest of `kgni_nic_attach`, if one of its later calls fails or none does. -/
def finish (s : State) (n : Nic) (a : Nat) : Option Errno → Except Fault (State × Option Ret)
  | none => .ok (s.writeNic { n with phase := .idle }, some (.ok ()))
  | some e =>
      match s.cdms a with
      | none => .error .freed
      | some cdm => unlink s n a cdm (.error e)

/-- `kgni_nic_detach`, up to where the lock of the CDM is given up. -/
def detach (s : State) (n : Nic) : Except Fault (State × Option Ret) :=
  match n.cdmId with
  | none => .ok (s, some (.error .enxio))
  | some i =>
      match s.cdmArray i with
      | none => .error .assertion
      | some a =>
          match s.cdms a with
          | none => .error .freed
          | some cdm => if !cdm.valid then .ok (s, some (.ok ())) else unlink s n a cdm (.ok ())

/-- The place in the table is cleared. -/
def clear (s : State) (n : Nic) (a : Nat) (rc : Ret) : Except Fault (State × Option Ret) :=
  match s.cdms a with
  | none => .error .freed
  | some cdm =>
      match cdm.myId with
      | none => .error .outside
      | some i =>
          .ok ({ s with cdmArray := Function.update s.cdmArray i none }.writeNic
            { n with phase := .freeing a rc }, none)

/-- `kfree`. -/
def free (s : State) (n : Nic) (a : Nat) (rc : Ret) : Except Fault (State × Option Ret) :=
  match s.cdms a with
  | none => .error .freed
  | some _ =>
      .ok ({ s with cdms := Function.update s.cdms a none }.writeNic { n with phase := .idle },
        some rc)

/-- `kgni_nic_destroy`. -/
def destroy (s : State) (n : Nic) : State × Option Ret :=
  if n.cdmId ≠ none then (s, some (.error .ebusy))
  else ({ s with nics := removeKey Nic.id s.nics n.id }, some (.ok ()))

/-! ### Runs -/

/-- What can be done.  An attach is up to seven steps, and more if it starts again. -/
inductive Op where
  | create (id : Nat) (nicPe : UInt32)
  | attach (id : Nat) (identity : Identity) (check : Ret)
  | lookup (id : Nat)
  | make (id : Nat) (allocFails : Bool)
  | enter (id : Nat)
  | finish (id : Nat) (failure : Option Errno)
  | detach (id : Nat)
  | clear (id : Nat)
  | free (id : Nat)
  | destroy (id : Nat)

/-- On a NIC that is there. -/
def State.on (s : State) (id : Nat) (f : Nic → Except Fault (State × Option Ret)) :
    Except Fault (State × Option Ret) :=
  match s.nic id with
  | none => .error .absent
  | some n => f n

/-- A new NIC (`kgni_nic_create`). -/
def Nic.new (id : Nat) (nicPe : UInt32) : Nic := ⟨id, nicPe, .idle, none, none⟩

def step (maxCdm : Nat) (s : State) : Op → Except Fault (State × Option Ret)
  | .create id nicPe => .ok ({ s with nics := s.nics ++ [.new id nicPe] }, none)
  | .attach id identity check => s.on id fun n => .ok (attach s n identity check)
  | .lookup id => s.on id fun n =>
      match n.phase with
      | .looking identity retried => lookup maxCdm s n identity retried
      | _ => .error .absent
  | .make id allocFails => s.on id fun n =>
      match n.phase with
      | .creating identity retried => make maxCdm s n identity retried allocFails
      | _ => .error .absent
  | .enter id => s.on id fun n =>
      match n.phase with
      | .entering identity retried a => enter s n identity retried a
      | _ => .error .absent
  | .finish id failure => s.on id fun n =>
      match n.phase with
      | .attaching a => finish s n a failure
      | _ => .error .absent
  | .detach id => s.on id fun n => detach s n
  | .clear id => s.on id fun n =>
      match n.phase with
      | .clearing a rc => clear s n a rc
      | _ => .error .absent
  | .free id => s.on id fun n =>
      match n.phase with
      | .freeing a rc => free s n a rc
      | _ => .error .absent
  | .destroy id => s.on id fun n => .ok (destroy s n)

def run (maxCdm : Nat) (s : State) : List Op → Except Fault State
  | [] => .ok s
  | op :: ops =>
      match step maxCdm s op with
      | .error f => .error f
      | .ok (s, _) => run maxCdm s ops

def State.start : State := ⟨fun _ => none, fun _ => none, [], 0⟩

/-- The NIC of a step. -/
def Op.nic : Op → Nat
  | .create id _ | .attach id _ _ | .lookup id | .make id _ | .enter id | .finish id _
  | .detach id | .clear id | .free id | .destroy id => id

/-- A call starts on an idle NIC, and goes on from where it is. -/
def Op.takes : Op → Phase → Bool
  | .attach _ _ _, .idle | .lookup _, .looking _ _ | .make _ _, .creating _ _
  | .enter _, .entering _ _ _ | .finish _ _, .attaching _ | .detach _, .idle
  | .clear _, .clearing _ _ | .free _, .freeing _ _ | .destroy _, .idle => true
  | _, _ => false

/-- The step can be taken.  There is one call at a time on a NIC. -/
def Op.Enabled (s : State) (op : Op) : Prop :=
  match op with
  | .create id _ => ∀ n ∈ s.nics, n.id ≠ id
  | op => ∃ n ∈ s.nics, n.id = op.nic ∧ op.takes n.phase

/-- The NIC has a pointer to a CDM that it is not linked to. -/
def Phase.Enters (a : Nat) : Phase → Prop
  | .entering _ _ b => b = a
  | _ => False

/-- The NIC was the last one of the CDM. -/
def Phase.Closes (a : Nat) : Phase → Prop
  | .clearing b _ => b = a
  | .freeing b _ => b = a
  | _ => False

/-- No CDM is freed while an attach is about to take its lock. -/
def Op.Calm (s : State) : Op → Prop
  | .free id => ∀ n ∈ s.nics, n.id = id → ∀ a, n.phase.Closes a →
      ∀ t ∈ s.nics, ¬ t.phase.Enters a
  | _ => True

/-- When a CDM is made there is a place for it, and not its like. -/
def Op.Orderly (maxCdm : Nat) (s : State) : Op → Prop
  | .make id _ => ∀ n ∈ s.nics, n.id = id → ∀ identity retried,
      n.phase = .creating identity retried →
        (∃ i < maxCdm, s.cdmArray i = none) ∧
          ∀ i < maxCdm, ∀ a ∈ s.cdmArray i, ∀ cdm ∈ s.cdms a, cdm.identity ≠ identity
  | _ => True

/-- At every step of a run. -/
def Along (maxCdm : Nat) (P : State → Op → Prop) (s : State) : List Op → Prop
  | [] => True
  | op :: ops => P s op ∧ ∀ s' ret, step maxCdm s op = .ok (s', ret) → Along maxCdm P s' ops

instance (a : Nat) : (p : Phase) → Decidable (p.Enters a)
  | .entering _ _ b => inferInstanceAs (Decidable (b = a))
  | .idle | .looking _ _ | .creating _ _ | .attaching _ | .clearing _ _ | .freeing _ _ =>
      isFalse fun h => h

instance (P : Nat → Prop) [DecidablePred P] : (p : Phase) → Decidable (∀ a, p.Closes a → P a)
  | .clearing a _ | .freeing a _ =>
      decidable_of_iff (P a) ⟨fun h _ hb => (show a = _ from hb) ▸ h, fun h => h a rfl⟩
  | .idle | .looking _ _ | .creating _ _ | .entering _ _ _ | .attaching _ =>
      isTrue fun _ h => h.elim

instance (P : Identity → Prop) [DecidablePred P] : (p : Phase) →
    Decidable (∀ identity retried, p = .creating identity retried → P identity)
  | .creating identity retried =>
      decidable_of_iff (P identity) ⟨fun h _ _ hp => (by cases hp; exact h), fun h => h _ _ rfl⟩
  | .idle | .looking _ _ | .entering _ _ _ | .attaching _ | .clearing _ _ | .freeing _ _ =>
      isTrue fun _ _ h => (by cases h)

instance (s : State) : (op : Op) → Decidable (op.Enabled s)
  | .create _ _ => inferInstanceAs (Decidable (∀ n ∈ s.nics, _))
  | .attach _ _ _ | .lookup _ | .make _ _ | .enter _ | .finish _ _ | .detach _ | .clear _
  | .free _ | .destroy _ => inferInstanceAs (Decidable (∃ n ∈ s.nics, _ ∧ _))

instance (s : State) : (op : Op) → Decidable (op.Calm s)
  | .free _ => inferInstanceAs (Decidable (∀ n ∈ s.nics, _ → ∀ a, n.phase.Closes a → _))
  | .create _ _ | .attach _ _ _ | .lookup _ | .make _ _ | .enter _ | .finish _ _ | .detach _
  | .clear _ | .destroy _ => isTrue trivial

instance (maxCdm : Nat) (s : State) : (op : Op) → Decidable (op.Orderly maxCdm s)
  | .make _ _ => inferInstanceAs (Decidable (∀ n ∈ s.nics, _ →
      ∀ identity retried, n.phase = .creating identity retried → _))
  | .create _ _ | .attach _ _ _ | .lookup _ | .enter _ | .finish _ _ | .detach _ | .clear _
  | .free _ | .destroy _ => isTrue trivial

instance decidableAlong (maxCdm : Nat) (P : State → Op → Prop) [∀ s op, Decidable (P s op)] :
    (ops : List Op) → (s : State) → Decidable (Along maxCdm P s ops)
  | [], _ => isTrue trivial
  | op :: ops, s =>
      have := decidableAlong maxCdm P ops
      match hstep : step maxCdm s op with
      | .error _ => decidable_of_iff (P s op)
          ⟨fun h => ⟨h, fun _ _ h' => (by rw [hstep] at h'; cases h')⟩, fun h => h.1⟩
      | .ok (s', _) => decidable_of_iff (P s op ∧ Along maxCdm P s' ops)
          ⟨fun h => ⟨h.1, fun _ _ h' => (by rw [hstep] at h'; cases h'; exact h.2)⟩,
            fun h => ⟨h.1, h.2 _ _ hstep⟩⟩

/-! ### What a step can do -/

/-- The NIC has no part in a CDM. -/
def Phase.Loose : Phase → Prop
  | .idle | .looking _ _ | .creating _ _ | .entering _ _ _ => True
  | _ => False

/-- NICs are there that are attached to the CDM. -/
def Cdm.Used (cdm : Cdm) : Prop := ∃ j id, cdm.nicHndls j = some id

/-- What can happen; `calm` and `orderly` say of the step what the conditions of these names say
of a call. -/
inductive Move (maxCdm : Nat) (s : State) : (calm orderly : Prop) → State → Prop
  | same : Move maxCdm s True True s
  | create {n : Nic} (hnew : ∀ t ∈ s.nics, t.id ≠ n.id) (hphase : n.phase = .idle)
      (hcdm : n.cdmId = none) : Move maxCdm s True True { s with nics := s.nics ++ [n] }
  | destroy {n : Nic} (hn : n ∈ s.nics) (hphase : n.phase = .idle) (hcdm : n.cdmId = none) :
      Move maxCdm s True True { s with nics := removeKey Nic.id s.nics n.id }
  /-- A NIC without a CDM goes on.  Where it gave up a CDM that is there, others are attached. -/
  | loose {n n' : Nic} (hn : n ∈ s.nics) (hid : n'.id = n.id) (hcdm : n.cdmId = none)
      (hcdm' : n'.cdmId = none) (hphase : n.phase.Loose) (hphase' : n'.phase.Loose)
      (hleft : ∀ a cdm, n.phase.Enters a → s.cdms a = some cdm → cdm.valid = true → cdm.Used)
      (hfound : ∀ a, n'.phase.Enters a → ∃ i, s.cdmArray i = some a) :
      Move maxCdm s True True (s.writeNic n')
  | attached {n : Nic} {a : Nat} (hn : n ∈ s.nics) (hphase : n.phase = .attaching a) :
      Move maxCdm s True True (s.writeNic { n with phase := .idle })
  /-- A CDM is made; the NIC goes on with it, or has failed. -/
  | make {n n' : Nic} {identity : Identity} {place : Option Nat} {r : Bool} (hn : n ∈ s.nics)
      (hid : n'.id = n.id) (hcdm : n.cdmId = none) (hcdm' : n'.cdmId = none)
      (hphase : n.phase = .creating identity r)
      (hphase' : n'.phase = .idle ∨ n'.phase = .entering identity r s.nextAddr)
      (hplace : ∀ i, place = some i → i < maxCdm ∧ s.cdmArray i = none) :
      Move maxCdm s True
        (place ≠ none ∧ n'.phase.Enters s.nextAddr ∧
          ∀ i a cdm, s.cdmArray i = some a → s.cdms a = some cdm → cdm.identity ≠ identity)
        ((s.place identity place).writeNic n')
  | link {n : Nic} {a i j : Nat} {cdm : Cdm} (hn : n ∈ s.nics) (hcdm : n.cdmId = none)
      (hphase : n.phase.Enters a) (ha : s.cdms a = some cdm) (hvalid : cdm.valid = true)
      (hi : cdm.myId = some i) (hj : j < maxNicsAttached) (hfree : cdm.nicHndls j = none) :
      Move maxCdm s True True ((s.writeCdm a
          { cdm with nicHndls := Function.update cdm.nicHndls j (some n.id) }).writeNic
        { n with cdmId := some i, myId := some j, phase := .attaching a })
  /-- A CDM without a place in the table is of no use. -/
  | fill {n n' : Nic} {a : Nat} {cdm cdm' : Cdm} (hn : n ∈ s.nics) (hid : n'.id = n.id)
      (hcdm : n.cdmId = none) (hcdm' : n'.cdmId = none) (hphase : n.phase.Enters a)
      (hphase' : n'.phase = .idle) (ha : s.cdms a = some cdm) (hnone : cdm.myId = none)
      (hnone' : cdm'.myId = none) : Move maxCdm s True True ((s.writeCdm a cdm').writeNic n')
  /-- A NIC is taken out of its CDM, and is the last one or not. -/
  | unlink {n n' : Nic} {a i j : Nat} {cdm cdm' : Cdm} (hn : n ∈ s.nics) (hid : n'.id = n.id)
      (hcdm : n.cdmId = some i) (hcdm' : n'.cdmId = none) (hj : n.myId = some j)
      (ha : s.cdms a = some cdm) (hi : s.cdmArray i = some a)
      (hmy : cdm'.myId = cdm.myId) (hidentity : cdm'.identity = cdm.identity)
      (hhndls : cdm'.nicHndls = Function.update cdm.nicHndls j none)
      (hend : n'.phase = .idle ∧ cdm'.valid = cdm.valid ∧ cdm'.Used ∨
        (∃ rc, n'.phase = .clearing a rc) ∧ cdm'.valid = false ∧
          ∀ j < maxNicsAttached, cdm'.nicHndls j = none) :
      Move maxCdm s True True ((s.writeCdm a cdm').writeNic n')
  | clear {n : Nic} {a i : Nat} {cdm : Cdm} {rc : Ret} (hn : n ∈ s.nics)
      (hphase : n.phase = .clearing a rc) (ha : s.cdms a = some cdm) (hi : cdm.myId = some i) :
      Move maxCdm s True True ({ s with cdmArray := Function.update s.cdmArray i none }.writeNic
        { n with phase := .freeing a rc })
  | free {n : Nic} {a : Nat} {rc : Ret} (hn : n ∈ s.nics) (hphase : n.phase = .freeing a rc) :
      Move maxCdm s (∀ t ∈ s.nics, ¬ t.phase.Enters a) True
        ({ s with cdms := Function.update s.cdms a none }.writeNic { n with phase := .idle })

/-! ### Links -/

/-- The table and the CDMs. -/
structure Table (maxCdm : Nat) (s : State) : Prop where
  fresh : ∀ a, s.nextAddr ≤ a → s.cdms a = none
  bound : ∀ i a, s.cdmArray i = some a → i < maxCdm
  placed : ∀ i a, s.cdmArray i = some a → ∃ cdm, s.cdms a = some cdm ∧ cdm.myId = some i
  listed : ∀ a cdm i, s.cdms a = some cdm → cdm.myId = some i → cdm.valid = true →
    s.cdmArray i = some a

/-- The CDM that the NIC is attached to has it. -/
def Nic.Linked (s : State) (n : Nic) : Prop :=
  ∀ i, n.cdmId = some i → ∃ a cdm j, s.cdmArray i = some a ∧ s.cdms a = some cdm ∧
    n.myId = some j ∧ cdm.nicHndls j = some n.id

/-- The CDM has lost its last NIC. -/
def State.Dying (s : State) (a i : Nat) : Prop :=
  ∃ cdm, s.cdms a = some cdm ∧ cdm.myId = some i ∧ cdm.valid = false

/-- What a NIC in a call relies on. -/
def Nic.Sound (s : State) (n : Nic) : Prop :=
  match n.phase with
  | .idle => True
  | .looking _ _ | .creating _ _ | .entering _ _ _ => n.cdmId = none
  | .attaching a => ∃ i, n.cdmId = some i ∧ s.cdmArray i = some a
  | .clearing a _ => n.cdmId = none ∧ ∃ i, s.Dying a i ∧ s.cdmArray i = some a
  | .freeing a _ => n.cdmId = none ∧ (∃ i, s.Dying a i) ∧ ∀ i, s.cdmArray i ≠ some a

/-- The CDM at `a` has at place `j` the NIC `id`. -/
def State.Has (s : State) (a i j id : Nat) : Prop :=
  ∃ cdm, s.cdms a = some cdm ∧ cdm.myId = some i ∧ cdm.nicHndls j = some id

/-- The table, the CDMs and the NICs point to each other. -/
structure Inv (maxCdm : Nat) (s : State) : Prop where
  table : Table maxCdm s
  ids : (s.nics.map Nic.id).Nodup
  live : ∀ a i j id, s.Has a i j id → ¬ s.Dying a i ∧ j < maxNicsAttached ∧
    ∃ n ∈ s.nics, n.id = id ∧ n.cdmId = some i ∧ n.myId = some j
  linked : ∀ n ∈ s.nics, n.Linked s
  sound : ∀ n ∈ s.nics, n.Sound s
  alone : ∀ n ∈ s.nics, ∀ t ∈ s.nics, ∀ a, n.phase.Closes a → t.phase.Closes a → n.id = t.id

section Inv

variable {maxCdm : Nat} {s s' : State} {n n' t : Nic} {a i j : Nat} {cdm cdm' : Cdm}

theorem mem_add {t : Nic} (ht : t ∈ s.nics ++ [n]) : t ∈ s.nics ∨ t = n := by
  simpa using ht

theorem mem_write {t : Nic} (hid : n'.id = n.id) (hnics : s'.nics = s.nics)
    (ht : t ∈ (s'.writeNic n').nics) : t = n' ∨ t ∈ s.nics ∧ t.id ≠ n.id := by
  rcases mem_writeKey ht with rfl | ⟨ht, hne⟩
  · exact .inl rfl
  · rw [hnics] at ht
    rw [hid] at hne
    exact .inr ⟨ht, hne⟩

/-- One NIC changes, and the table and the CDMs with it. -/
theorem Inv.write (h : Inv maxCdm s) (hn : n ∈ s.nics) (hid : n'.id = n.id)
    (hnics : s'.nics = s.nics) (htable : Table maxCdm s')
    (hlive : ∀ a i j id, s'.Has a i j id → ¬ s'.Dying a i ∧ j < maxNicsAttached ∧
      (id = n.id ∧ n'.cdmId = some i ∧ n'.myId = some j ∨
        id ≠ n.id ∧ ∃ t ∈ s.nics, t.id = id ∧ t.cdmId = some i ∧ t.myId = some j))
    (hlinked : ∀ t ∈ s.nics, t.id ≠ n.id → t.Linked s') (hlinked' : n'.Linked s')
    (hsound : ∀ t ∈ s.nics, t.id ≠ n.id → t.Sound s') (hsound' : n'.Sound s')
    (halone : ∀ a, n'.phase.Closes a → ∀ t ∈ s.nics, t.id ≠ n.id → ¬ t.phase.Closes a) :
    Inv maxCdm (s'.writeNic n') := by
  refine ⟨⟨htable.fresh, htable.bound, htable.placed, htable.listed⟩, ?_, ?_, ?_, ?_, ?_⟩
  · rw [State.writeNic, map_key_writeKey, hnics]
    exact h.ids
  · intro a i j id hhas
    obtain ⟨hi, hj, hsame | ⟨hne, t, ht, hid', hcdm, hmy⟩⟩ := hlive a i j id hhas
    · obtain ⟨rfl, hcdm, hmy⟩ := hsame
      refine ⟨hi, hj, n', mem_writeKey_self ?_ hid.symm, hid, hcdm, hmy⟩
      rw [hnics]
      exact hn
    · refine ⟨hi, hj, t, mem_writeKey_of_ne ?_ ?_, hid', hcdm, hmy⟩
      · rw [hnics]
        exact ht
      · rw [hid, hid']
        exact hne
  · intro t ht
    rcases mem_write hid hnics ht with rfl | ⟨ht, hne⟩
    · exact hlinked'
    · exact hlinked t ht hne
  · intro t ht
    rcases mem_write hid hnics ht with rfl | ⟨ht, hne⟩
    · exact hsound'
    · exact hsound t ht hne
  · intro t ht u hu a hta hua
    rcases mem_write hid hnics ht with rfl | ⟨ht', htne⟩ <;>
      rcases mem_write hid hnics hu with rfl | ⟨hu', hune⟩
    · rfl
    · exact absurd hua (halone a hta u hu' hune)
    · exact absurd hta (halone a hua t ht' htne)
    · exact h.alone t ht' u hu' a hta hua

theorem Phase.Loose.not_closes {p : Phase} (h : p.Loose) : ¬ p.Closes a := by
  cases p with
  | clearing | freeing => cases h
  | idle | looking | creating | entering | attaching => exact fun hc => hc

theorem Nic.Sound.of_loose (hphase : n.phase.Loose) (hcdm : n.cdmId = none) : n.Sound s := by
  unfold Nic.Sound
  split
  · trivial
  · exact hcdm
  · exact hcdm
  · exact hcdm
  · next h => rw [h] at hphase; cases hphase
  · next h => rw [h] at hphase; cases hphase
  · next h => rw [h] at hphase; cases hphase

theorem Nic.Linked.of_none (hcdm : n.cdmId = none) : n.Linked s := by
  intro i hi
  rw [hcdm] at hi
  cases hi

/-- A NIC that closes a CDM or has a pointer to one is not attached. -/
theorem Nic.Sound.cdmId_eq_none (h : n.Sound s) (hphase : n.phase.Closes a ∨ n.phase.Enters a) :
    n.cdmId = none := by
  unfold Nic.Sound at h
  split at h
  · next hp => rw [hp] at hphase; simp [Phase.Closes, Phase.Enters] at hphase
  · exact h
  · exact h
  · exact h
  · next hp => rw [hp] at hphase; simp [Phase.Closes, Phase.Enters] at hphase
  · exact h.1
  · exact h.1

/-- What is attached to the NIC is in the table. -/
theorem Inv.has_of_linked (h : Inv maxCdm s) (hn : n ∈ s.nics) (hi : n.cdmId = some i) :
    ∃ a cdm j, s.cdmArray i = some a ∧ s.cdms a = some cdm ∧ cdm.myId = some i ∧
      n.myId = some j ∧ cdm.nicHndls j = some n.id := by
  obtain ⟨a, cdm, j, ha, hcdm, hj, hhndl⟩ := h.linked n hn i hi
  obtain ⟨cdm', hcdm', hmy⟩ := h.table.placed i a ha
  obtain rfl := Option.some.inj (hcdm.symm.trans hcdm')
  exact ⟨a, cdm, j, ha, hcdm, hmy, hj, hhndl⟩

/-- The NIC has no place in any CDM. -/
theorem Inv.not_has (h : Inv maxCdm s) (hn : n ∈ s.nics) (hcdm : n.cdmId = none) {a i j : Nat} :
    ¬ s.Has a i j n.id := by
  intro hhas
  obtain ⟨-, -, t, ht, hid, hti, -⟩ := h.live a i j n.id hhas
  obtain rfl := List.inj_on_of_nodup_map h.ids ht hn hid
  rw [hcdm] at hti
  cases hti

/-- A NIC without a CDM goes on. -/
theorem Inv.goOn (h : Inv maxCdm s) (hn : n ∈ s.nics) (hid : n'.id = n.id) (hcdm : n.cdmId = none)
    (hcdm' : n'.cdmId = none) (hphase' : n'.phase.Loose) : Inv maxCdm (s.writeNic n') := by
  refine h.write hn hid rfl h.table ?_ (fun t ht _ => h.linked t ht) (.of_none hcdm')
    (fun t ht _ => h.sound t ht) (.of_loose hphase' hcdm')
    fun a hc => absurd hc hphase'.not_closes
  intro a i j id hhas
  obtain ⟨hi, hj, ht⟩ := h.live a i j id hhas
  refine ⟨hi, hj, .inr ⟨?_, ht⟩⟩
  rintro rfl
  exact h.not_has hn hcdm hhas

theorem Nic.Linked.frame (h : t.Linked s) (hkeep : ∀ i a cdm j, s.cdmArray i = some a →
    s.cdms a = some cdm → cdm.nicHndls j = some t.id → s'.cdmArray i = some a ∧
      ∃ cdm', s'.cdms a = some cdm' ∧ cdm'.nicHndls j = some t.id) : t.Linked s' := by
  intro i hi
  obtain ⟨a, cdm, j, ha, hcdm, hj, hhndl⟩ := h i hi
  obtain ⟨ha', cdm', hcdm', hhndl'⟩ := hkeep i a cdm j ha hcdm hhndl
  exact ⟨a, cdm', j, ha', hcdm', hj, hhndl'⟩

theorem Nic.Sound.frame (h : t.Sound s)
    (hattach : ∀ i a, t.cdmId = some i → s.cdmArray i = some a → s'.cdmArray i = some a)
    (hdying : ∀ a i, t.phase.Closes a → s.Dying a i → s'.Dying a i)
    (hclear : ∀ a i, t.phase.Closes a → s.Dying a i → s.cdmArray i = some a →
      s'.cdmArray i = some a)
    (hfree : ∀ a i, s.Dying a i → (∀ k, s.cdmArray k ≠ some a) → ∀ k, s'.cdmArray k ≠ some a) :
    t.Sound s' := by
  unfold Nic.Sound at h ⊢
  split at h
  · trivial
  · exact h
  · exact h
  · exact h
  · obtain ⟨i, hi, ha⟩ := h
    exact ⟨i, hi, hattach i _ hi ha⟩
  · next b rc hp =>
      obtain ⟨hcdm, i, hd, ha⟩ := h
      have hc : t.phase.Closes b := by
        rw [hp]
        rfl
      exact ⟨hcdm, i, hdying b i hc hd, hclear b i hc hd ha⟩
  · next b rc hp =>
      obtain ⟨hcdm, ⟨i, hd⟩, ha⟩ := h
      have hc : t.phase.Closes b := by
        rw [hp]
        rfl
      exact ⟨hcdm, ⟨i, hdying b i hc hd⟩, hfree b i hd ha⟩

theorem Nic.Sound.dying (h : t.Sound s) (hc : t.phase.Closes a) : ∃ i, s.Dying a i := by
  unfold Nic.Sound at h
  split at h
  · next hp => rw [hp] at hc; cases hc
  · next hp => rw [hp] at hc; cases hc
  · next hp => rw [hp] at hc; cases hc
  · next hp => rw [hp] at hc; cases hc
  · next hp => rw [hp] at hc; cases hc
  · next hp =>
      rw [hp] at hc
      obtain rfl : _ = a := hc
      obtain ⟨-, i, hd, -⟩ := h
      exact ⟨i, hd⟩
  · next hp =>
      rw [hp] at hc
      obtain rfl : _ = a := hc
      exact h.2.1

/-- A CDM is written back at its place. -/
theorem Table.writeCdm (h : Table maxCdm s) (ha : s.cdms a = some cdm)
    (hmy : cdm'.myId = cdm.myId) (hvalid : cdm'.valid = true → cdm.valid = true) :
    Table maxCdm (s.writeCdm a cdm') := by
  have hself := cdms_writeCdm_self s a cdm'
  have hother {b : Nat} (hb : b ≠ a) := cdms_writeCdm_of_ne s cdm' hb
  refine ⟨fun b hb => ?_, h.bound, fun i b hb => ?_, fun b c i hc hi hv => ?_⟩
  · have hne : b ≠ a := by
      rintro rfl
      rw [h.fresh b hb] at ha
      cases ha
    rw [hother hne]
    exact h.fresh b hb
  · obtain ⟨c, hc, hi⟩ := h.placed i b hb
    rcases eq_or_ne b a with rfl | hne
    · obtain rfl := Option.some.inj (ha.symm.trans hc)
      exact ⟨cdm', hself, hmy.trans hi⟩
    · exact ⟨c, (hother hne).trans hc, hi⟩
  · rcases eq_or_ne b a with rfl | hne
    · obtain rfl := Option.some.inj (hself.symm.trans hc)
      exact h.listed b cdm i ha (hmy.symm.trans hi) (hvalid hv)
    · exact h.listed b c i ((hother hne).symm.trans hc) hi hv

theorem dying_congr (h : s'.cdms a = s.cdms a) : s'.Dying a i ↔ s.Dying a i := by
  rw [State.Dying, State.Dying, h]

theorem not_dying (ha : s.cdms a = some cdm) (hvalid : cdm.valid = true) : ¬ s.Dying a i := by
  rintro ⟨c, hc, -, hv⟩
  obtain rfl := Option.some.inj (ha.symm.trans hc)
  rw [hvalid] at hv
  cases hv

theorem Inv.add (h : Inv maxCdm s) (hnew : ∀ t ∈ s.nics, t.id ≠ n.id) (hphase : n.phase = .idle)
    (hcdm : n.cdmId = none) : Inv maxCdm { s with nics := s.nics ++ [n] } := by
  have hloose : n.phase.Loose := by
    rw [hphase]
    trivial
  refine ⟨⟨h.table.fresh, h.table.bound, h.table.placed, h.table.listed⟩, ?_, ?_, ?_, ?_, ?_⟩
  · show ((s.nics ++ [n]).map Nic.id).Nodup
    rw [List.map_append, List.nodup_append']
    refine ⟨h.ids, List.nodup_singleton _, fun id hid hid' => ?_⟩
    obtain ⟨t, ht, rfl⟩ := List.mem_map.mp hid
    exact hnew t ht (List.mem_singleton.mp hid')
  · intro a i j id hhas
    obtain ⟨hd, hj, t, ht, hrest⟩ := h.live a i j id hhas
    exact ⟨hd, hj, t, List.mem_append_left _ ht, hrest⟩
  · intro t ht
    rcases mem_add ht with ht | rfl
    · exact h.linked t ht
    · exact .of_none hcdm
  · intro t ht
    rcases mem_add ht with ht | rfl
    · exact h.sound t ht
    · exact .of_loose hloose hcdm
  · intro t ht u hu a hta hua
    rcases mem_add ht with ht' | rfl
    · rcases mem_add hu with hu' | rfl
      · exact h.alone t ht' u hu' a hta hua
      · exact absurd hua hloose.not_closes
    · exact absurd hta hloose.not_closes

theorem Inv.remove (h : Inv maxCdm s) (hn : n ∈ s.nics) (hcdm : n.cdmId = none) :
    Inv maxCdm { s with nics := removeKey Nic.id s.nics n.id } := by
  refine ⟨⟨h.table.fresh, h.table.bound, h.table.placed, h.table.listed⟩,
    nodup_removeKey h.ids, ?_, fun t ht => h.linked t (mem_removeKey.mp ht).1,
    fun t ht => h.sound t (mem_removeKey.mp ht).1, fun t ht u hu =>
      h.alone t (mem_removeKey.mp ht).1 u (mem_removeKey.mp hu).1⟩
  intro a i j id hhas
  obtain ⟨hd, hj, t, ht, hid, hrest⟩ := h.live a i j id hhas
  refine ⟨hd, hj, t, mem_removeKey.mpr ⟨ht, fun hsame => ?_⟩, hid, hrest⟩
  rw [← hid, hsame] at hhas
  exact h.not_has hn hcdm hhas

/-- An attach is over. -/
theorem Inv.attached (h : Inv maxCdm s) (hn : n ∈ s.nics) :
    Inv maxCdm (s.writeNic { n with phase := .idle }) := by
  refine h.write hn rfl rfl h.table ?_ (fun t ht _ => h.linked t ht) (h.linked n hn)
    (fun t ht _ => h.sound t ht) trivial fun a hc => absurd hc fun hc => hc
  intro a i j id hhas
  obtain ⟨hd, hj, t, ht, hid, hi, hmy⟩ := h.live a i j id hhas
  refine ⟨hd, hj, ?_⟩
  rcases eq_or_ne id n.id with rfl | hne
  · obtain rfl := List.inj_on_of_nodup_map h.ids ht hn hid
    exact .inl ⟨rfl, hi, hmy⟩
  · exact .inr ⟨hne, t, ht, hid, hi, hmy⟩

/-- A CDM is made. -/
theorem Inv.make (h : Inv maxCdm s) (hn : n ∈ s.nics) (hid : n'.id = n.id) (hcdm : n.cdmId = none)
    (hcdm' : n'.cdmId = none) (hphase' : n'.phase.Loose) {identity : Identity}
    {place : Option Nat} (hplace : ∀ i, place = some i → i < maxCdm ∧ s.cdmArray i = none) :
    Inv maxCdm ((s.place identity place).writeNic n') := by
  have hnew : s.cdms s.nextAddr = none := h.table.fresh _ (Nat.le_refl _)
  have hself : (s.place identity place).cdms s.nextAddr =
      some ⟨identity, true, place, fun _ => none⟩ := Function.update_self ..
  have hother {b : Nat} (hb : b ≠ s.nextAddr) : (s.place identity place).cdms b = s.cdms b :=
    Function.update_of_ne hb ..
  -- no CDM that was there is at the new address
  have hold {b : Nat} {c : Cdm} (hc : s.cdms b = some c) : b ≠ s.nextAddr := by
    rintro rfl
    rw [hnew] at hc
    cases hc
  have harray (i : Nat) : (s.place identity place).cdmArray i =
      if place = some i then some s.nextAddr else s.cdmArray i := by
    rcases place with - | k
    · rfl
    · show Function.update s.cdmArray k (some s.nextAddr) i = _
      rcases eq_or_ne i k with rfl | hne
      · rw [Function.update_self, if_pos rfl]
      · rw [Function.update_of_ne hne, if_neg fun hk => hne (Option.some.inj hk).symm]
  -- the place was free, so the table keeps what it had
  have hkeep {i b : Nat} (hb : s.cdmArray i = some b) :
      (s.place identity place).cdmArray i = some b := by
    rw [harray, if_neg]
    · exact hb
    · intro hi
      rw [(hplace i hi).2] at hb
      cases hb
  refine h.write hn hid rfl ⟨?_, ?_, ?_, ?_⟩ ?_ ?_ (.of_none hcdm') ?_ (.of_loose hphase' hcdm')
    fun a hc => absurd hc hphase'.not_closes
  · intro b hb
    rw [hother (Nat.ne_of_gt hb)]
    exact h.table.fresh b (Nat.le_of_succ_le hb)
  · intro i b hb
    rw [harray] at hb
    split at hb
    · next hi => exact (hplace i hi).1
    · exact h.table.bound i b hb
  · intro i b hb
    rw [harray] at hb
    split at hb
    · next hi =>
        obtain rfl := Option.some.inj hb
        exact ⟨_, hself, hi⟩
    · obtain ⟨c, hc, hi⟩ := h.table.placed i b hb
      exact ⟨c, (hother (hold hc)).trans hc, hi⟩
  · intro b c i hc hi hv
    rcases eq_or_ne b s.nextAddr with rfl | hne
    · obtain rfl := Option.some.inj (hself.symm.trans hc)
      rw [harray, if_pos hi]
    · exact hkeep (h.table.listed b c i ((hother hne).symm.trans hc) hi hv)
  · rintro b i j id ⟨c, hc, hi, hj⟩
    rcases eq_or_ne b s.nextAddr with rfl | hne
    · obtain rfl := Option.some.inj (hself.symm.trans hc)
      cases hj
    · have hhas : s.Has b i j id := ⟨c, (hother hne).symm.trans hc, hi, hj⟩
      obtain ⟨hd, hlt, ht⟩ := h.live b i j id hhas
      refine ⟨fun hd' => hd ((dying_congr (hother hne)).mp hd'), hlt, .inr ⟨?_, ht⟩⟩
      rintro rfl
      exact h.not_has hn hcdm hhas
  · intro t ht _
    refine (h.linked t ht).frame fun i b c j hb hc hj => ⟨hkeep hb, c, ?_, hj⟩
    exact (hother (hold hc)).trans hc
  · intro t ht _
    refine (h.sound t ht).frame (fun i b _ hb => hkeep hb) (fun b i _ hd => ?_)
      (fun b i _ _ hb => hkeep hb) fun b i hd hb k hk => ?_
    · obtain ⟨c, hc, -⟩ := id hd
      exact (dying_congr (hother (hold hc))).mpr hd
    · rw [harray] at hk
      split at hk
      · obtain rfl := Option.some.inj hk
        obtain ⟨c, hc, -⟩ := hd
        exact hold hc rfl
      · exact hb k hk

/-- A NIC is put into a CDM. -/
theorem Inv.link (h : Inv maxCdm s) (hn : n ∈ s.nics) (hcdm : n.cdmId = none)
    (ha : s.cdms a = some cdm) (hvalid : cdm.valid = true) (hi : cdm.myId = some i)
    (hj : j < maxNicsAttached) (hfree : cdm.nicHndls j = none) :
    Inv maxCdm ((s.writeCdm a
        { cdm with nicHndls := Function.update cdm.nicHndls j (some n.id) }).writeNic
      { n with cdmId := some i, myId := some j, phase := .attaching a }) := by
  let cdm' : Cdm := { cdm with nicHndls := Function.update cdm.nicHndls j (some n.id) }
  have hself : (s.writeCdm a cdm').cdms a = some cdm' := cdms_writeCdm_self ..
  have harray : s.cdmArray i = some a := h.table.listed a cdm i ha hi hvalid
  refine h.write hn rfl rfl (h.table.writeCdm ha rfl id) ?_ ?_ ?_ ?_ ⟨i, rfl, harray⟩
    fun b hc => absurd hc fun hc => hc
  · rintro b k l id ⟨c, hc, hk, hl⟩
    rcases eq_or_ne b a with rfl | hne
    · obtain rfl := Option.some.inj (hself.symm.trans hc)
      obtain rfl := Option.some.inj (hi.symm.trans hk)
      refine ⟨not_dying hself hvalid, ?_⟩
      rcases eq_or_ne l j with rfl | hlj
      · have hl' : Function.update cdm.nicHndls l (some n.id) l = some id := hl
        rw [Function.update_self] at hl'
        obtain rfl := Option.some.inj hl'
        exact ⟨hj, .inl ⟨rfl, rfl, rfl⟩⟩
      -- an older entry is not of this NIC, which was in no CDM
      · have hhas : s.Has b i l id := ⟨cdm, ha, hi, (Function.update_of_ne hlj ..).symm.trans hl⟩
        obtain ⟨-, hlt, ht⟩ := h.live b i l id hhas
        refine ⟨hlt, .inr ⟨?_, ht⟩⟩
        rintro rfl
        exact h.not_has hn hcdm hhas
    · have hsame := cdms_writeCdm_of_ne s cdm' hne
      have hhas : s.Has b k l id := ⟨c, hsame.symm.trans hc, hk, hl⟩
      obtain ⟨hd, hlt, ht⟩ := h.live b k l id hhas
      refine ⟨fun hd' => hd ((dying_congr hsame).mp hd'), hlt, .inr ⟨?_, ht⟩⟩
      rintro rfl
      exact h.not_has hn hcdm hhas
  · intro t ht _
    refine (h.linked t ht).frame fun k b c l hb hc hl => ⟨hb, ?_⟩
    rcases eq_or_ne b a with rfl | hne
    · obtain rfl := Option.some.inj (ha.symm.trans hc)
      refine ⟨cdm', hself, ?_⟩
      have hlj : l ≠ j := by
        rintro rfl
        rw [hfree] at hl
        cases hl
      exact (Function.update_of_ne hlj ..).trans hl
    · exact ⟨c, (cdms_writeCdm_of_ne s cdm' hne).trans hc, hl⟩
  · intro k hk
    obtain rfl := Option.some.inj hk
    exact ⟨a, cdm', j, harray, hself, rfl, Function.update_self ..⟩
  · intro t ht _
    refine (h.sound t ht).frame (fun _ _ _ hb => hb) (fun b k _ hd => ?_) (fun _ _ _ _ hb => hb)
      fun _ _ _ hb => hb
    rcases eq_or_ne b a with rfl | hne
    · exact absurd hd (not_dying ha hvalid)
    · exact (dying_congr (cdms_writeCdm_of_ne s cdm' hne)).mpr hd

/-- A CDM without a place is written back. -/
theorem Inv.fill (h : Inv maxCdm s) (hn : n ∈ s.nics) (hid : n'.id = n.id) (hcdm : n.cdmId = none)
    (hcdm' : n'.cdmId = none) (hphase' : n'.phase.Loose) (ha : s.cdms a = some cdm)
    (hnone : cdm.myId = none) (hnone' : cdm'.myId = none) :
    Inv maxCdm ((s.writeCdm a cdm').writeNic n') := by
  have hself : (s.writeCdm a cdm').cdms a = some cdm' := cdms_writeCdm_self ..
  -- a CDM with a place is another one
  have hlost {b k : Nat} {c : Cdm} (hc : s.cdms b = some c) (hk : c.myId = some k) : b ≠ a := by
    rintro rfl
    obtain rfl := Option.some.inj (ha.symm.trans hc)
    rw [hnone] at hk
    cases hk
  have htable : Table maxCdm (s.writeCdm a cdm') := by
    refine ⟨fun b hb => ?_, h.table.bound, fun k b hb => ?_, fun b c k hc hk hv => ?_⟩
    · have hne : b ≠ a := by
        rintro rfl
        rw [h.table.fresh b hb] at ha
        cases ha
      rw [cdms_writeCdm_of_ne s cdm' hne]
      exact h.table.fresh b hb
    · obtain ⟨c, hc, hk⟩ := h.table.placed k b hb
      exact ⟨c, (cdms_writeCdm_of_ne s cdm' (hlost hc hk)).trans hc, hk⟩
    · rcases eq_or_ne b a with rfl | hne
      · obtain rfl := Option.some.inj (hself.symm.trans hc)
        rw [hnone'] at hk
        cases hk
      · exact h.table.listed b c k ((cdms_writeCdm_of_ne s cdm' hne).symm.trans hc) hk hv
  refine h.write hn hid rfl htable ?_ ?_ (.of_none hcdm') ?_ (.of_loose hphase' hcdm')
    fun b hc => absurd hc hphase'.not_closes
  · rintro b k l id ⟨c, hc, hk, hl⟩
    rcases eq_or_ne b a with rfl | hne
    · obtain rfl := Option.some.inj (hself.symm.trans hc)
      rw [hnone'] at hk
      cases hk
    · have hsame := cdms_writeCdm_of_ne s cdm' hne
      have hhas : s.Has b k l id := ⟨c, hsame.symm.trans hc, hk, hl⟩
      obtain ⟨hd, hlt, ht⟩ := h.live b k l id hhas
      refine ⟨fun hd' => hd ((dying_congr hsame).mp hd'), hlt, .inr ⟨?_, ht⟩⟩
      rintro rfl
      exact h.not_has hn hcdm hhas
  · intro t ht _
    refine (h.linked t ht).frame fun k b c l hb hc hl => ⟨hb, c, ?_, hl⟩
    obtain ⟨c', hc', hk⟩ := h.table.placed k b hb
    exact (cdms_writeCdm_of_ne s cdm' (hlost hc' hk)).trans hc
  · intro t ht _
    refine (h.sound t ht).frame (fun _ _ _ hb => hb) (fun b k _ hd => ?_) (fun _ _ _ _ hb => hb)
      fun _ _ _ hb => hb
    obtain ⟨c, hc, hk, -⟩ := id hd
    exact (dying_congr (cdms_writeCdm_of_ne s cdm' (hlost hc hk))).mpr hd

/-- A NIC is taken out of its CDM. -/
theorem Inv.unlink (h : Inv maxCdm s) (hn : n ∈ s.nics) (hid : n'.id = n.id)
    (hcdm : n.cdmId = some i) (hcdm' : n'.cdmId = none) (hj : n.myId = some j)
    (ha : s.cdms a = some cdm) (hi : s.cdmArray i = some a) (hmy : cdm'.myId = cdm.myId)
    (hhndls : cdm'.nicHndls = Function.update cdm.nicHndls j none)
    (hend : n'.phase = .idle ∧ cdm'.valid = cdm.valid ∧ cdm'.Used ∨
      (∃ rc, n'.phase = .clearing a rc) ∧ cdm'.valid = false ∧
        ∀ j < maxNicsAttached, cdm'.nicHndls j = none) :
    Inv maxCdm ((s.writeCdm a cdm').writeNic n') := by
  have hself : (s.writeCdm a cdm').cdms a = some cdm' := cdms_writeCdm_self ..
  -- the CDM is the one of the NIC, and was not about to go
  obtain ⟨b, c, j', hb, hc, hmyId, hj', hhndl⟩ := h.has_of_linked hn hcdm
  obtain rfl := Option.some.inj (hb.symm.trans hi)
  obtain rfl := Option.some.inj (hc.symm.trans ha)
  obtain rfl := Option.some.inj (hj'.symm.trans hj)
  have hlive : ¬ s.Dying b i := (h.live b i j' n.id ⟨c, hc, hmyId, hhndl⟩).1
  have hvalid : c.valid = true := by
    by_contra hno
    exact hlive ⟨c, hc, hmyId, Bool.eq_false_iff.mpr hno⟩
  have hplace {k : Nat} (hd : s.Dying b k) : False := by
    obtain ⟨c', hc', hk, -⟩ := id hd
    obtain rfl := Option.some.inj (hc.symm.trans hc')
    obtain rfl := Option.some.inj (hmyId.symm.trans hk)
    exact hlive hd
  have htable : Table maxCdm (s.writeCdm b cdm') := h.table.writeCdm hc hmy fun _ => hvalid
  refine h.write hn hid rfl htable ?_ ?_ (.of_none hcdm') ?_ ?_ ?_
  · rintro d k l id ⟨c', hc', hk, hl⟩
    rcases eq_or_ne d b with rfl | hne
    -- another entry of the same CDM
    · obtain rfl := Option.some.inj (hself.symm.trans hc')
      obtain rfl := Option.some.inj (hmyId.symm.trans (hmy.symm.trans hk))
      have hlj : l ≠ j' := by
        rintro rfl
        rw [hhndls, Function.update_self] at hl
        cases hl
      have hhas : s.Has d i l id := by
        rw [hhndls, Function.update_of_ne hlj] at hl
        exact ⟨c, hc, hmyId, hl⟩
      obtain ⟨-, hlt, t, ht, htid, hti, htmy⟩ := h.live d i l id hhas
      refine ⟨?_, hlt, .inr ⟨?_, t, ht, htid, hti, htmy⟩⟩
      · rcases hend with ⟨-, hsame, -⟩ | ⟨-, -, hempty⟩
        · exact not_dying hself (hsame.trans hvalid)
        · rw [hempty l hlt] at hl
          cases hl
      · rintro rfl
        obtain rfl := List.inj_on_of_nodup_map h.ids ht hn htid
        exact hlj (Option.some.inj (htmy.symm.trans hj'))
    -- an entry of another CDM is not of this NIC, which is in one CDM only
    · have hsame := cdms_writeCdm_of_ne s cdm' hne
      obtain ⟨hd, hlt, t, ht, htid, hti, htmy⟩ := h.live d k l id ⟨c', hsame.symm.trans hc', hk, hl⟩
      refine ⟨fun hd' => hd ((dying_congr hsame).mp hd'), hlt, .inr ⟨?_, t, ht, htid, hti, htmy⟩⟩
      rintro rfl
      obtain rfl := List.inj_on_of_nodup_map h.ids ht hn htid
      obtain rfl := Option.some.inj (htmy.symm.trans hj')
      obtain rfl := Option.some.inj (hti.symm.trans hcdm)
      have hplaced := h.table.listed d c' k (hsame.symm.trans hc') hk ?_
      · exact hne (Option.some.inj (hplaced.symm.trans hb))
      · by_contra hno
        exact hd ⟨c', hsame.symm.trans hc', hk, Bool.eq_false_iff.mpr hno⟩
  · intro t ht htne
    refine (h.linked t ht).frame fun k d c' l hd hc' hl => ⟨hd, ?_⟩
    rcases eq_or_ne d b with rfl | hne
    · obtain rfl := Option.some.inj (hc.symm.trans hc')
      have hlj : l ≠ j' := by
        rintro rfl
        exact htne (Option.some.inj (hl.symm.trans hhndl))
      refine ⟨cdm', hself, ?_⟩
      rw [hhndls, Function.update_of_ne hlj]
      exact hl
    · exact ⟨c', (cdms_writeCdm_of_ne s cdm' hne).trans hc', hl⟩
  · intro t ht _
    refine (h.sound t ht).frame (fun _ _ _ hb => hb) (fun d k _ hd => ?_) (fun _ _ _ _ hb => hb)
      fun _ _ _ hb => hb
    rcases eq_or_ne d b with rfl | hne
    · exact (hplace hd).elim
    · exact (dying_congr (cdms_writeCdm_of_ne s cdm' hne)).mpr hd
  · rcases hend with ⟨hidle, -⟩ | ⟨⟨rc, hclear⟩, hinvalid, -⟩
    · exact .of_loose (by rw [hidle]; trivial) hcdm'
    · unfold Nic.Sound
      rw [hclear]
      exact ⟨hcdm', i, ⟨cdm', hself, hmy.trans hmyId, hinvalid⟩, hb⟩
  · intro d hd t ht _ htd
    rcases hend with ⟨hidle, -⟩ | ⟨⟨rc, hclear⟩, -⟩
    · rw [hidle] at hd
      exact hd
    · rw [hclear] at hd
      obtain rfl : b = d := hd
      obtain ⟨k, hk⟩ := (h.sound t ht).dying htd
      exact hplace hk

/-- A CDM goes out of the table. -/
theorem Inv.clear (h : Inv maxCdm s) (hn : n ∈ s.nics) {rc : Ret}
    (hphase : n.phase = .clearing a rc) (ha : s.cdms a = some cdm) (hi : cdm.myId = some i) :
    Inv maxCdm ({ s with cdmArray := Function.update s.cdmArray i none }.writeNic
      { n with phase := .freeing a rc }) := by
  have hsound := h.sound n hn
  unfold Nic.Sound at hsound
  rw [hphase] at hsound
  obtain ⟨hcdm, k, hd, harray⟩ := hsound
  have hcloses : n.phase.Closes a := by
    rw [hphase]
    rfl
  obtain ⟨c, hc, hk, hinvalid⟩ := id hd
  obtain rfl := Option.some.inj (ha.symm.trans hc)
  obtain rfl := Option.some.inj (hi.symm.trans hk)
  -- every other place of the table is as it was
  have hkeep {l b : Nat} (hb : s.cdmArray l = some b) (hne : b ≠ a) :
      Function.update s.cdmArray i none l = some b := by
    have hli : l ≠ i := by
      rintro rfl
      exact hne (Option.some.inj (hb.symm.trans harray))
    rwa [Function.update_of_ne hli]
  have hold {l b : Nat} (hb : Function.update s.cdmArray i none l = some b) :
      l ≠ i ∧ s.cdmArray l = some b := by
    rcases eq_or_ne l i with rfl | hli
    · rw [Function.update_self] at hb
      cases hb
    · rw [Function.update_of_ne hli] at hb
      exact ⟨hli, hb⟩
  have hother {l b : Nat} {c' : Cdm} {m id : Nat} (hb : s.cdmArray l = some b)
      (hc' : s.cdms b = some c') (hm : c'.nicHndls m = some id) : b ≠ a := by
    rintro rfl
    obtain rfl := Option.some.inj (ha.symm.trans hc')
    exact (h.live b i m id ⟨cdm, ha, hi, hm⟩).1 hd
  refine h.write hn rfl rfl ⟨h.table.fresh, fun l b hb => ?_, fun l b hb => ?_,
    fun b c' l hc' hl hv => ?_⟩ ?_ ?_ (.of_none hcdm) ?_ ?_ ?_
  · exact h.table.bound l b (hold hb).2
  · exact h.table.placed l b (hold hb).2
  · refine hkeep (h.table.listed b c' l hc' hl hv) ?_
    rintro rfl
    exact not_dying hc' hv hd
  · intro b l m id hhas
    obtain ⟨hd', hlt, ht⟩ := h.live b l m id hhas
    refine ⟨hd', hlt, .inr ⟨?_, ht⟩⟩
    rintro rfl
    exact h.not_has hn hcdm hhas
  · intro t ht _
    exact (h.linked t ht).frame fun l b c m hb hc hm => ⟨hkeep hb (hother hb hc hm), c, hc, hm⟩
  · intro t ht htne
    refine (h.sound t ht).frame (fun l b hl hb => ?_) (fun _ _ _ hd => hd) (fun b l htb _ hb => ?_)
      fun b l _ hb m hm => ?_
    · obtain ⟨b', c, m, hb', hc, hm⟩ := h.linked t ht l hl
      obtain rfl := Option.some.inj (hb.symm.trans hb')
      exact hkeep hb (hother hb hc hm.2)
    · refine hkeep hb ?_
      rintro rfl
      exact htne (h.alone t ht n hn b htb hcloses)
    · exact hb m (hold hm).2
  · refine ⟨hcdm, ⟨i, hd⟩, fun l hl => ?_⟩
    obtain ⟨hli, hl⟩ := hold hl
    obtain ⟨c, hc, hmy⟩ := h.table.placed l a hl
    obtain rfl := Option.some.inj (ha.symm.trans hc)
    exact hli (Option.some.inj (hmy.symm.trans hi))
  · intro b hb t ht htne htb
    obtain rfl : a = b := hb
    exact htne (h.alone t ht n hn a htb hcloses)

/-- A CDM that is out of the table is freed. -/
theorem Inv.free (h : Inv maxCdm s) (hn : n ∈ s.nics) {rc : Ret}
    (hphase : n.phase = .freeing a rc) :
    Inv maxCdm ({ s with cdms := Function.update s.cdms a none }.writeNic
      { n with phase := .idle }) := by
  have hsound := h.sound n hn
  unfold Nic.Sound at hsound
  rw [hphase] at hsound
  obtain ⟨hcdm, -, harray⟩ := hsound
  have hcloses : n.phase.Closes a := by
    rw [hphase]
    rfl
  have hother {b : Nat} (hb : b ≠ a) : Function.update s.cdms a none b = s.cdms b :=
    Function.update_of_ne hb ..
  have hold {b : Nat} {c : Cdm} (hc : Function.update s.cdms a none b = some c) :
      b ≠ a ∧ s.cdms b = some c := by
    rcases eq_or_ne b a with rfl | hne
    · rw [Function.update_self] at hc
      cases hc
    · exact ⟨hne, (hother hne).symm.trans hc⟩
  have hlisted {l b : Nat} (hb : s.cdmArray l = some b) : b ≠ a := by
    rintro rfl
    exact harray l hb
  refine h.write hn rfl rfl ⟨fun b hb => ?_, h.table.bound, fun l b hb => ?_,
    fun b c l hc hl hv => h.table.listed b c l (hold hc).2 hl hv⟩ ?_ ?_ (.of_none hcdm) ?_ trivial
    fun b hc => absurd hc fun hc => hc
  · rcases eq_or_ne b a with rfl | hne
    · exact Function.update_self ..
    · exact (hother hne).trans (h.table.fresh b hb)
  · obtain ⟨c, hc, hl⟩ := h.table.placed l b hb
    exact ⟨c, (hother (hlisted hb)).trans hc, hl⟩
  · rintro b l m id ⟨c, hc, hl, hm⟩
    obtain ⟨hne, hc⟩ := hold hc
    have hhas : s.Has b l m id := ⟨c, hc, hl, hm⟩
    obtain ⟨hd, hlt, ht⟩ := h.live b l m id hhas
    refine ⟨fun hd' => hd ((dying_congr (hother hne)).mp hd'), hlt, .inr ⟨?_, ht⟩⟩
    rintro rfl
    exact h.not_has hn hcdm hhas
  · intro t ht _
    exact (h.linked t ht).frame fun l b c m hb hc hm =>
      ⟨hb, c, (hother (hlisted hb)).trans hc, hm⟩
  · intro t ht htne
    refine (h.sound t ht).frame (fun _ _ _ hb => hb) (fun b l htb hd => ?_) (fun _ _ _ _ hb => hb)
      fun _ _ _ hb => hb
    -- nobody else is about to free the same CDM
    have hne : b ≠ a := by
      rintro rfl
      exact htne (h.alone t ht n hn b htb hcloses)
    exact (dying_congr (hother hne)).mpr hd

/-- Whatever happens, the table, the CDMs and the NICs point to each other. -/
theorem Move.inv {calm orderly : Prop} (m : Move maxCdm s calm orderly s') (h : Inv maxCdm s) :
    Inv maxCdm s' := by
  cases m with
  | same => exact h
  | create hnew hphase hcdm => exact h.add hnew hphase hcdm
  | destroy hn hphase hcdm => exact h.remove hn hcdm
  | loose hn hid hcdm hcdm' _ hphase' => exact h.goOn hn hid hcdm hcdm' hphase'
  | attached hn => exact h.attached hn
  | make hn hid hcdm hcdm' hphase hphase' hplace =>
      refine h.make hn hid hcdm hcdm' ?_ hplace
      rcases hphase' with hp | hp <;> rw [hp] <;> trivial
  | link hn hcdm hphase ha hvalid hi hj hfree => exact h.link hn hcdm ha hvalid hi hj hfree
  | fill hn hid hcdm hcdm' hphase hphase' ha hnone hnone' =>
      refine h.fill hn hid hcdm hcdm' ?_ ha hnone hnone'
      rw [hphase']
      trivial
  | unlink hn hid hcdm hcdm' hj ha hi hmy hidentity hhndls hend =>
      exact h.unlink hn hid hcdm hcdm' hj ha hi hmy hhndls hend
  | clear hn hphase ha hi => exact h.clear hn hphase ha hi
  | free hn hphase => exact h.free hn hphase

end Inv

end Nvl.Domains

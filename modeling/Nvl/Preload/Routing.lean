/-
Nvl/Preload/Routing.lean

Which calls of the application does the preloaded library take for its own?

`open` and `ioctl` are interposed, `close` is not.  The library remembers one
descriptor number for each of its two devices, in globals that start at 0 and
that every `open` of a path with the right beginning overwrites, whatever comes
of it.  `clientFd_calls` and `pmiFd_calls` say what the numbers are after any
history.

What they should be is a matter of the descriptor table, which the application
and the system keep between them (`openTable`).  The two agree on an `ioctl`
exactly if its descriptor is an open one of a device and the last number
remembered for one, or neither.
-/
import Mathlib.Data.List.Induction
import Nvl.Preload.Client
import Nvl.StaticLink.System

namespace Nvl.Preload

open SysLib ClientM

/-! ### The interposed calls -/

/-- The two devices. -/
inductive DevNode
  | kgni0
  | pmi
  deriving DecidableEq

/-- The name of a device. -/
def DevNode.path : DevNode → List Char
  | kgni0 => "/dev/kgni0".toList
  | pmi => "/dev/pmi".toList

/-- `strncmp (s, t, n) == 0`, on strings without NUL. -/
def strncmpZero (s t : List Char) (n : Nat) : Bool := s.take n == t.take n

/-- `open`.  `result` is what the real `open` answers, for a file that stands in
for the device or for the path itself; it is also what the caller gets.  The
set-up of `mt` and of the queue in `kgni_open` is left out, routing reads neither. -/
def openPath (c : Client) (path : List Char) (result : Int) : Client :=
  if strncmpZero path DevNode.kgni0.path 10 then { c with clientFd := result }
  else if strncmpZero path DevNode.pmi.path 8 then { c with pmiFd := result }
  else c

/-- Where an `ioctl` goes: to `handle_ioctl`, or on to the real one. -/
inductive Route
  | handled
  | passed (fd : Int) (request : UInt32) (argp : UInt64)
  deriving DecidableEq

/-- `ioctl`.  The request is passed on as an `int`. -/
def route (c : Client) (fd : Int) (request argp : UInt64) : Route :=
  if fd = c.clientFd then .handled
  else if fd = c.pmiFd then .handled
  else .passed fd request.toUInt32 argp

/-- The client program goes where `route` says. -/
theorem ioctl_eq_route (c : Client) (fd : Int) (r : Request) (argp : UInt64) :
    ioctl c fd r = match route c fd r.code argp with
      | .handled => handleIoctl c r >>= fun x => pure (x.1, x.2, 0)
      | .passed fd request _ => realIoctl fd request >>= fun v => pure (c, r, v) := by
  rw [ioctl, route]
  by_cases hk : fd = c.clientFd
  · rw [if_pos hk, if_pos hk]
  · rw [if_neg hk, if_neg hk]
    by_cases hp : fd = c.pmiFd
    · rw [if_pos hp, if_pos hp]
    · rw [if_neg hp, if_neg hp]

/-! ### A history of calls -/

/-- A call of the application, with what the outside answers. -/
inductive AppCall
  | open (path : List Char) (result : Int)
  | close (fd : Int)
  | ioctl (fd : Int) (r : Request) (argp : UInt64) (env : (o : ClientCall) → o.Ans)

/-- The library after a call. -/
def AppCall.after (c : Client) : AppCall → Client
  | .open path result => openPath c path result
  | .close _ => c
  | .ioctl fd r _ env => ((Preload.ioctl c fd r).exec env).1.1

/-- The library after a history. -/
def afterCalls (c : Client) (h : List AppCall) : Client := h.foldl AppCall.after c

/-- What a call does to the descriptor table, which gives for each open descriptor
the path it was opened under; a failed `open` leaves it alone. -/
def AppCall.onTable (t : Int → Option (List Char)) : AppCall → Int → Option (List Char)
  | .open path result => if 0 ≤ result then Function.update t result (some path) else t
  | .close fd => Function.update t fd none
  | .ioctl _ _ _ _ => t

/-- The descriptor table after a history. -/
def openTable (h : List AppCall) : Int → Option (List Char) :=
  h.foldl AppCall.onTable fun _ => none

/-- The descriptor is an open one, returned by an `open` of a device. -/
def DeviceOpen (h : List AppCall) (fd : Int) : Prop :=
  ∃ d : DevNode, openTable h fd = some d.path

/-- The result of an attempt to open a path that begins with the name of `d`. -/
def AppCall.attempt (d : DevNode) : AppCall → Option Int
  | .open path result => if d.path.isPrefixOf path then some result else none
  | _ => none

/-- The result of the last such attempt, and 0 before the first. -/
def lastResult (d : DevNode) (h : List AppCall) : Int :=
  (h.filterMap (AppCall.attempt d)).getLast?.getD 0

/-! ### The numbers remembered -/

theorem strncmpZero_path (d : DevNode) (path : List Char) :
    strncmpZero path d.path d.path.length = d.path.isPrefixOf path := by
  rw [Bool.eq_iff_iff, strncmpZero, beq_iff_eq, List.take_length, List.isPrefixOf_iff_prefix,
    List.prefix_iff_eq_take]
  exact eq_comm

/-- No path begins with both names. -/
theorem not_kgni0_of_pmi {path : List Char} (h : DevNode.pmi.path.isPrefixOf path = true) :
    DevNode.kgni0.path.isPrefixOf path = false := by
  rw [Bool.eq_false_iff, ne_eq, List.isPrefixOf_iff_prefix]
  rw [List.isPrefixOf_iff_prefix] at h
  intro hk
  -- else the shorter name would be the beginning of the longer
  have hpre := List.prefix_of_prefix_length_le h hk (by decide)
  exact absurd hpre (by decide)

/-- The two numbers are the same. -/
def SameFds (c c' : Client) : Prop := c'.clientFd = c.clientFd ∧ c'.pmiFd = c.pmiFd

theorem record_fds (c : Client) (segid addr len : UInt64) :
    (record c segid addr len).Returns (SameFds c) := fun _ => ⟨rfl, rfl⟩

theorem SameFds.trans {c c' c'' : Client} (h : SameFds c c') (h' : SameFds c' c'') :
    SameFds c c'' := ⟨h'.1.trans h.1, h'.2.trans h.2⟩

theorem unpackNicSetattr_fds (c : Client) (a : GniNicSetattrArgs) :
    (unpackNicSetattr c a).Returns fun x => SameFds c x.1 := by
  simp only [unpackNicSetattr, xememLookupSegid, Prog.call_bind, Prog.returns_step]
  intro seg
  refine .bind (Prog.returns_true (attachWindow ..)) fun win _ => ?_
  rcases win with - | win
  · exact ⟨rfl, rfl⟩
  refine .bind (record_fds c _ _ _) fun c₁ h₁ seg => ?_
  refine .bind (Prog.returns_true (attachWindow ..)) fun put _ => ?_
  rcases put with - | put
  · exact h₁
  refine .bind (record_fds c₁ _ _ _) fun c₂ h₂ seg => ?_
  refine .bind (Prog.returns_true (attachWindow ..)) fun get _ => ?_
  rcases get with - | get
  · exact h₁.trans h₂
  refine .bind (record_fds c₂ _ _ _) fun c₃ h₃ seg => ?_
  refine .bind (Prog.returns_true (attachWindow ..)) fun ctrl _ => ?_
  rcases ctrl with - | ctrl
  · exact (h₁.trans h₂).trans h₃
  · exact .bind (record_fds c₃ _ _ _) fun c₄ h₄ => ((h₁.trans h₂).trans h₃).trans h₄

theorem packArgs_fds (c : Client) (r : Request) :
    (packArgs c r).Returns fun x => SameFds c x.1 := by
  cases r <;> simp [packArgs, packNicSetattr, packPostRdma, StaticLink.packArgs,
    StaticLink.allgather, StaticLink.pmiFinalize, StaticLink.pmiBarrier, SameFds]

/-- No request changes the numbers. -/
theorem ioctl_fds (c : Client) (fd : Int) (r : Request) :
    (ioctl c fd r).Returns fun x => SameFds c x.1 := by
  have hhandle : (handleIoctl c r).Returns fun x => SameFds c x.1 := by
    refine .bind (packArgs_fds c r) fun x hx => ?_
    obtain ⟨c', r', p⟩ := x
    have hunpack : (unpackArgs c' r').Returns fun y => SameFds c' y.1 := by
      cases r' with
      | nicSetattr a => exact unpackNicSetattr_fds c' a
      | _ => exact ⟨rfl, rfl⟩
    exact .bind hunpack fun y hy => hx.trans hy
  rw [ioctl_eq_route c fd r 0]
  split
  · exact .bind hhandle fun x hx => hx
  · exact fun _ => ⟨rfl, rfl⟩

section Numbers

variable {c : Client} (h : List AppCall) (x : AppCall)

theorem afterCalls_snoc : afterCalls c (h ++ [x]) = x.after (afterCalls c h) :=
  List.foldl_append

theorem lastResult_snoc (d : DevNode) :
    lastResult d (h ++ [x]) = (x.attempt d).getD (lastResult d h) := by
  rw [lastResult, lastResult, List.filterMap_append]
  rcases hx : x.attempt d with - | result <;> simp [hx]

/-- One call: an attempt on a device is remembered, and nothing else is. -/
theorem after_fds (c : Client) : (x.after c).clientFd = (x.attempt .kgni0).getD c.clientFd ∧
    (x.after c).pmiFd = (x.attempt .pmi).getD c.pmiFd := by
  cases x with
  | «open» path result =>
      show (openPath c path result).clientFd = _ ∧ (openPath c path result).pmiFd = _
      rw [openPath, AppCall.attempt, AppCall.attempt,
        show strncmpZero path DevNode.kgni0.path 10 = _ from strncmpZero_path .kgni0 path,
        show strncmpZero path DevNode.pmi.path 8 = _ from strncmpZero_path .pmi path]
      cases hk : DevNode.kgni0.path.isPrefixOf path with
      | true =>
          have hp : DevNode.pmi.path.isPrefixOf path = false := by
            by_contra hp
            rw [not_kgni0_of_pmi (by simpa using hp)] at hk
            cases hk
          simp [hp]
      | false => cases hp : DevNode.pmi.path.isPrefixOf path <;> simp
  | close fd => exact ⟨rfl, rfl⟩
  | ioctl fd r argp env => exact (ioctl_fds c fd r).exec env

variable (hk : c.clientFd = 0) (hp : c.pmiFd = 0)
include hk hp

/-- **The numbers remembered** after any history. -/
theorem fds_afterCalls : (afterCalls c h).clientFd = lastResult .kgni0 h ∧
    (afterCalls c h).pmiFd = lastResult .pmi h := by
  induction h using List.reverseRec with
  | nil => exact ⟨hk, hp⟩
  | append_singleton h x ih =>
      obtain ⟨hclient, hpmi⟩ := after_fds x (afterCalls c h)
      rw [afterCalls_snoc, lastResult_snoc, lastResult_snoc, hclient, hpmi, ih.1, ih.2]
      exact ⟨rfl, rfl⟩

end Numbers

/-! ### Routing -/

/-- An `ioctl` goes where it should: to the library if its descriptor is an open
one of a device, else to the real `ioctl`, as it came. -/
def RoutedRight (c : Client) (h : List AppCall) (fd : Int) (request argp : UInt64) : Prop :=
  (DeviceOpen h fd → route (afterCalls c h) fd request argp = .handled) ∧
  (¬ DeviceOpen h fd → ∃ word : UInt32, word.toUInt64 = request ∧
    route (afterCalls c h) fd request argp = .passed fd word argp)

/-- The descriptor was the answer to the last attempt on one of the devices. -/
def Remembered (h : List AppCall) (fd : Int) : Prop := ∃ d : DevNode, fd = lastResult d h

theorem remembered_iff (h : List AppCall) (fd : Int) :
    Remembered h fd ↔ fd = lastResult .kgni0 h ∨ fd = lastResult .pmi h := by
  constructor
  · rintro ⟨- | -, hd⟩
    · exact .inl hd
    · exact .inr hd
  · rintro (hd | hd)
    · exact ⟨_, hd⟩
    · exact ⟨_, hd⟩

/-- What the history and the call must be like for the routing to be right. -/
structure Fits (h : List AppCall) (fd : Int) (request : UInt64) : Prop where
  device : DeviceOpen h fd → Remembered h fd
  other : ¬ DeviceOpen h fd → ¬ Remembered h fd ∧ request.toNat < 2 ^ 32

section Route

variable {c : Client} (hk : c.clientFd = 0) (hp : c.pmiFd = 0)
include hk hp

theorem route_of_remembered {h : List AppCall} {fd : Int} (hr : Remembered h fd)
    (request argp : UInt64) : route (afterCalls c h) fd request argp = .handled := by
  obtain ⟨hclient, hpmi⟩ := fds_afterCalls h hk hp
  rw [route, hclient, hpmi]
  rcases (remembered_iff h fd).mp hr with hd | hd
  · rw [if_pos hd]
  · rw [if_pos hd, ite_self]

theorem route_of_not_remembered {h : List AppCall} {fd : Int} (hr : ¬ Remembered h fd)
    (request argp : UInt64) :
    route (afterCalls c h) fd request argp = .passed fd request.toUInt32 argp := by
  obtain ⟨hclient, hpmi⟩ := fds_afterCalls h hk hp
  rw [remembered_iff, not_or] at hr
  rw [route, hclient, hpmi, if_neg hr.1, if_neg hr.2]

theorem routedRight_iff_fits (h : List AppCall) (fd : Int) (request argp : UInt64) :
    RoutedRight c h fd request argp ↔ Fits h fd request := by
  by_cases hr : Remembered h fd
  · have hroute := route_of_remembered hk hp hr request argp
    constructor
    · rintro ⟨-, hother⟩
      refine ⟨fun _ => hr, fun hdev => ?_⟩
      obtain ⟨word, -, hpassed⟩ := hother hdev
      rw [hroute] at hpassed
      cases hpassed
    · intro hfits
      exact ⟨fun _ => hroute, fun hdev => absurd hr (hfits.other hdev).1⟩
  · have hroute := route_of_not_remembered hk hp hr request argp
    constructor
    · rintro ⟨hdevice, hother⟩
      have hdev : ¬ DeviceOpen h fd := by
        intro hdev
        have hhandled := hdevice hdev
        rw [hroute] at hhandled
        cases hhandled
      obtain ⟨word, rfl, -⟩ := hother hdev
      have hword : word.toUInt64.toNat < 2 ^ 32 := by
        rw [UInt32.toNat_toUInt64]
        exact word.toNat_lt
      exact ⟨fun hd => absurd hd hdev, fun _ => ⟨hr, hword⟩⟩
    · intro hfits
      refine ⟨fun hdev => absurd (hfits.device hdev) hr, fun hdev => ?_⟩
      refine ⟨request.toUInt32, ?_, hroute⟩
      have hlt := (hfits.other hdev).2
      apply UInt64.toNat_inj.mp
      simpa using Nat.mod_eq_of_lt hlt

/-- **Routing.**  Over any sequence of `open`, `close` and `ioctl` calls, every
`ioctl` goes where it should exactly if each one fits its history. -/
theorem routing_iff (calls : List AppCall) :
    (∀ h fd r argp env post, calls = h ++ .ioctl fd r argp env :: post →
      RoutedRight c h fd r.code argp) ↔
    ∀ h fd r argp env post, calls = h ++ .ioctl fd r argp env :: post → Fits h fd r.code := by
  constructor
  · intro hall h fd r argp env post hcalls
    exact (routedRight_iff_fits hk hp h fd r.code argp).mp (hall h fd r argp env post hcalls)
  · intro hall h fd r argp env post hcalls
    exact (routedRight_iff_fits hk hp h fd r.code argp).mpr (hall h fd r argp env post hcalls)

end Route

/-- The library when it is loaded. -/
def loaded : Client := ⟨listNew, 0, 0, 0, 0⟩

/-- The application opens a device and makes a request on it. -/
def openAndAsk : List AppCall :=
  [.open "/dev/kgni0".toList 3, .ioctl 3 (.cqDestroy default) 0 (StaticLink.calmClient 1)]

theorem routing_openAndAsk : loaded.clientFd = 0 ∧ loaded.pmiFd = 0 ∧
    ∀ h fd r argp env post, openAndAsk = h ++ .ioctl fd r argp env :: post →
      RoutedRight loaded h fd r.code argp := by
  refine ⟨rfl, rfl, (routing_iff rfl rfl openAndAsk).mpr ?_⟩
  intro h fd r argp env post hcalls
  -- the second call is the only `ioctl`
  rcases h with - | ⟨x, - | ⟨y, h⟩⟩
  · simp [openAndAsk] at hcalls
  · simp only [openAndAsk, List.cons_append, List.nil_append, List.cons.injEq] at hcalls
    obtain ⟨rfl, hioctl, -⟩ := hcalls
    injection hioctl with hfd
    subst hfd
    exact ⟨fun _ => ⟨.kgni0, rfl⟩, fun hdev => absurd ⟨.kgni0, rfl⟩ hdev⟩
  · simp [openAndAsk] at hcalls

/-- Four ways to go wrong: standard input before any `open`, a device opened twice,
a number used again after `close`, and a path that only begins like a device's. -/
theorem routing_fails :
    ¬ RoutedRight loaded [] 0 0x5401 0 ∧
    ¬ RoutedRight loaded [.open "/dev/kgni0".toList 3, .open "/dev/kgni0".toList 4] 3 0x5401 0 ∧
    ¬ RoutedRight loaded
      [.open "/dev/pmi".toList 3, .close 3, .open "/etc/motd".toList 3] 3 0x5401 0 ∧
    ¬ RoutedRight loaded [.open "/dev/kgni0.log".toList 3] 3 0x5401 0 := by
  have hiff := routedRight_iff_fits (c := loaded) rfl rfl
  rw [hiff, hiff, hiff, hiff]
  refine ⟨fun hfits => ?_, fun hfits => ?_, fun hfits => ?_, fun hfits => ?_⟩
  · refine (hfits.other ?_).1 ⟨.kgni0, rfl⟩
    rintro ⟨d, hd⟩
    cases hd
  · obtain ⟨- | -, hd⟩ := hfits.device ⟨.kgni0, rfl⟩
    · exact absurd hd (by decide)
    · exact absurd hd (by decide)
  · refine (hfits.other ?_).1 ⟨.pmi, rfl⟩
    rintro ⟨- | -, hd⟩
    · exact absurd hd (by decide)
    · exact absurd hd (by decide)
  · refine (hfits.other ?_).1 ⟨.kgni0, rfl⟩
    rintro ⟨- | -, hd⟩
    · exact absurd hd (by decide)
    · exact absurd hd (by decide)

end Nvl.Preload

/-
Nvl/Host/OsDebug.lean

The OS_DEBUG device of the changed Palacios: one buffer, two ways in.

Bytes written to the debug port are collected by `handle_gen_write` and printed
at a newline or when the buffer is full but for one byte.  The hypercall handler
`handle_hcall` copies 20 bytes of the guest over the same buffer, sets the offset
to 500 and prints.  Each handler is sound alone; the port handler does not check
the offset it starts from, so a port write after a hypercall stores at index 500.

What the device does to the outside is a list of effects, and a run is safe if
all its effects are.  Whether that is so can be told from the events alone: one
only has to follow which offsets a hypercall left, through checkpoints too.
-/
import Mathlib.Data.List.Forall2

namespace Nvl.Host

/-! ### The device -/

/-- `BUF_SIZE`. -/
def bufSize : Nat := 20

/-- `struct debug_state`. -/
structure DebugState where
  debugBuf : Vector UInt8 bufSize
  debugOffset : UInt32
  deriving DecidableEq

/-- The state `debug_init` leaves, and `handle_gen_write` after it has printed. -/
def debugInit : DebugState := ⟨Vector.replicate bufSize 0, 0⟩

/-- What the handlers do besides changing the state. -/
inductive Effect
  | store (index : UInt32)
  | print (buf : Vector UInt8 bufSize)
  | copyOut (dest : UInt64) (state : DebugState)
  deriving DecidableEq

/-- `handle_gen_write` on the first byte of what was written.  A store outside the
buffer is an effect; what it hits is not part of this state. -/
def handleGenWrite (src : UInt8) (s : DebugState) : DebugState × List Effect :=
  let buf := s.debugBuf.setIfInBounds s.debugOffset.toNat src
  let offset := s.debugOffset + 1
  if src = 0xa ∨ offset.toNat = bufSize - 1 then
    (debugInit, [.store s.debugOffset, .print buf])
  else (⟨buf, offset⟩, [.store s.debugOffset])

/-- The registers `handle_hcall` reads, but for the length it only prints. -/
structure HcallRegs where
  rbx : UInt64
  rsi : UInt64
  rdx : UInt64
  deriving DecidableEq

/-- What a hypercall finds: `v3_gva_to_hva`, and the bytes at a host address. -/
structure GuestMem where
  gvaToHva : UInt64 → Option UInt64
  bytes : UInt64 → Vector UInt8 bufSize

/-- The host address of a guest address; it stays zero if `buf_is_va` is not set
or the lookup fails, and is used all the same. -/
def hostAddr (regs : HcallRegs) (mem : GuestMem) (va : UInt64) : UInt64 :=
  if regs.rdx.toUInt32 = 1 then (mem.gvaToHva va).getD 0 else 0

/-- `handle_hcall`. -/
def handleHcall (regs : HcallRegs) (mem : GuestMem) (_ : DebugState) :
    DebugState × List Effect :=
  let s := ⟨mem.bytes (hostAddr regs mem regs.rbx), 500⟩
  (s, [.copyOut (hostAddr regs mem regs.rsi) s, .print s.debugBuf])

/-- `debug_save`, when both fields are saved. -/
def debugSave (s : DebugState) : DebugState := ⟨s.debugBuf, s.debugOffset⟩

/-- `debug_load`, when both fields are loaded. -/
def debugLoad (chkpt : DebugState) (_ : DebugState) : DebugState :=
  ⟨chkpt.debugBuf, chkpt.debugOffset⟩

/-! ### Runs -/

/-- What can happen to the device after `debug_init`. -/
inductive DebugEvent
  | portWrite (src : UInt8)
  | hcall (regs : HcallRegs) (mem : GuestMem)
  | save
  | load (i : Nat)

/-- The device with the checkpoints taken so far. -/
structure DebugVm where
  dev : DebugState
  chkpts : List DebugState

/-- A machine just configured. -/
def DebugVm.boot : DebugVm := ⟨debugInit, []⟩

def DebugVm.step (m : DebugVm) : DebugEvent → DebugVm × List Effect
  | .portWrite src =>
      let r := handleGenWrite src m.dev
      ({ m with dev := r.1 }, r.2)
  | .hcall regs mem =>
      let r := handleHcall regs mem m.dev
      ({ m with dev := r.1 }, r.2)
  | .save => ({ m with chkpts := m.chkpts ++ [debugSave m.dev] }, [])
  | .load i =>
      match m.chkpts[i]? with
      | some chkpt => ({ m with dev := debugLoad chkpt m.dev }, [])
      | none => (m, [])

def DebugVm.run (m : DebugVm) : List DebugEvent → DebugVm × List Effect
  | [] => (m, [])
  | e :: es => (((m.step e).1.run es).1, (m.step e).2 ++ ((m.step e).1.run es).2)

/-- A store is inside the buffer and leaves its last byte alone; what is printed
as a string has a NUL. -/
def Effect.Safe : Effect → Prop
  | store index => index.toNat < bufSize - 1
  | print buf => 0 ∈ buf.toList
  | copyOut _ _ => True

instance : DecidablePred Effect.Safe
  | .store index => inferInstanceAs (Decidable (index.toNat < bufSize - 1))
  | .print buf => inferInstanceAs (Decidable (0 ∈ buf.toList))
  | .copyOut _ _ => isTrue trivial

/-- Every effect of the run is safe. -/
def DebugSafe (events : List DebugEvent) : Prop := ∀ e ∈ (DebugVm.boot.run events).2, e.Safe

instance (events : List DebugEvent) : Decidable (DebugSafe events) :=
  inferInstanceAs (Decidable (∀ e ∈ (DebugVm.boot.run events).2, e.Safe))

/-! ### Reading safety off the events -/

/-- Which offsets a hypercall left: the device's, and those in the checkpoints. -/
structure Origins where
  dev : Bool
  chkpts : List Bool

def Origins.boot : Origins := ⟨false, []⟩

def Origins.step (o : Origins) : DebugEvent → Origins
  | .portWrite _ => o
  | .hcall _ _ => { o with dev := true }
  | .save => { o with chkpts := o.chkpts ++ [o.dev] }
  | .load i => { o with dev := o.chkpts[i]?.getD o.dev }

/-- A port write does not follow a hypercall, and a hypercall brings a NUL. -/
def Origins.Allows (o : Origins) : DebugEvent → Prop
  | .portWrite _ => o.dev = false
  | .hcall regs mem => 0 ∈ (mem.bytes (hostAddr regs mem regs.rbx)).toList
  | .save => True
  | .load _ => True

/-- Every event is allowed where it happens. -/
def Origins.AllowsAll (o : Origins) : List DebugEvent → Prop
  | [] => True
  | e :: es => o.Allows e ∧ (o.step e).AllowsAll es

/-! ### The invariant -/

/-- A state against its origin.  An offset not left by a hypercall is below the
last byte of the buffer, which is still NUL. -/
def DebugState.Tracks (s : DebugState) : Bool → Prop
  | true => s.debugOffset = 500
  | false => s.debugOffset.toNat < bufSize - 1 ∧ s.debugBuf[19]? = some 0

/-- The machine against the origins, checkpoint by checkpoint. -/
structure DebugVm.Tracks (m : DebugVm) (o : Origins) : Prop where
  dev : m.dev.Tracks o.dev
  chkpts : List.Forall₂ DebugState.Tracks m.chkpts o.chkpts

theorem DebugVm.boot_tracks : DebugVm.boot.Tracks Origins.boot :=
  ⟨⟨by decide, rfl⟩, List.Forall₂.nil⟩

/-- A port write at a tracked offset is safe and keeps it tracked. -/
theorem handleGenWrite_tracks (src : UInt8) {s : DebugState} (h : s.Tracks false) :
    (handleGenWrite src s).1.Tracks false ∧ ∀ e ∈ (handleGenWrite src s).2, e.Safe := by
  obtain ⟨hoff, hlast⟩ := h
  have hoff19 : s.debugOffset.toNat < 19 := hoff
  have hnext : (s.debugOffset + 1).toNat = s.debugOffset.toNat + 1 := by
    rw [UInt32.toNat_add]
    exact Nat.mod_eq_of_lt (show s.debugOffset.toNat + 1 < 2 ^ 32 by omega)
  have hne : s.debugOffset.toNat ≠ 19 := Nat.ne_of_lt hoff
  -- the byte stored does not reach the last place
  have hbuf : (s.debugBuf.setIfInBounds s.debugOffset.toNat src)[19]? = some 0 := by
    rw [Vector.getElem?_setIfInBounds_ne hne]
    exact hlast
  rw [handleGenWrite]
  split
  · -- printed and cleared
    refine ⟨DebugVm.boot_tracks.dev, ?_⟩
    intro e he
    rcases List.mem_pair.mp he with rfl | rfl
    · exact hoff
    · exact Vector.mem_toList_iff.mpr (Vector.mem_of_getElem? hbuf)
  · rename_i hfull
    refine ⟨⟨?_, hbuf⟩, ?_⟩
    · show (s.debugOffset + 1).toNat < bufSize - 1
      have : (s.debugOffset + 1).toNat ≠ bufSize - 1 := fun h => hfull (Or.inr h)
      omega
    · intro e he
      rw [List.mem_singleton.mp he]
      exact hoff

/-- One event: the effects are safe exactly if it is allowed. -/
theorem DebugVm.step_safe_iff {m : DebugVm} {o : Origins} (h : m.Tracks o) (e : DebugEvent) :
    (∀ eff ∈ (m.step e).2, eff.Safe) ↔ o.Allows e := by
  cases e with
  | portWrite src =>
      constructor
      · intro hsafe
        -- the store comes first, whatever the byte is
        have hstore : (Effect.store m.dev.debugOffset).Safe := by
          refine hsafe _ ?_
          rw [DebugVm.step, handleGenWrite]
          split <;> exact List.mem_cons_self
        show o.dev = false
        rw [← Bool.not_eq_true]
        intro hdev
        have hoff : m.dev.debugOffset = 500 := by
          have := h.dev
          rwa [hdev] at this
        rw [Effect.Safe, hoff] at hstore
        exact absurd hstore (by decide)
      · intro hdev
        have htracks := h.dev
        rw [show o.dev = false from hdev] at htracks
        exact (handleGenWrite_tracks src htracks).2
  | hcall regs mem => simp [DebugVm.step, handleHcall, Effect.Safe, Origins.Allows]
  | save => simp [DebugVm.step, Origins.Allows]
  | load i =>
      refine iff_of_true ?_ trivial
      rw [DebugVm.step]
      split <;> simp

/-- One event: an allowed one keeps the origins right. -/
theorem DebugVm.step_tracks {m : DebugVm} {o : Origins} (h : m.Tracks o) {e : DebugEvent}
    (hallow : o.Allows e) : (m.step e).1.Tracks (o.step e) := by
  cases e with
  | portWrite src =>
      refine ⟨?_, h.chkpts⟩
      have hdev : o.dev = false := hallow
      have htracks := h.dev
      rw [hdev] at htracks
      show (handleGenWrite src m.dev).1.Tracks o.dev
      rw [hdev]
      exact (handleGenWrite_tracks src htracks).1
  | hcall regs mem => exact ⟨rfl, h.chkpts⟩
  | save =>
      refine ⟨h.dev, ?_⟩
      exact List.rel_append h.chkpts (List.Forall₂.cons h.dev List.Forall₂.nil)
  | load i =>
      have hlen := h.chkpts.length_eq
      rw [DebugVm.step, Origins.step]
      by_cases hi : i < m.chkpts.length
      · rw [List.getElem?_eq_getElem hi, List.getElem?_eq_getElem (hlen ▸ hi)]
        exact ⟨h.chkpts.get hi (hlen ▸ hi), h.chkpts⟩
      · rw [List.getElem?_eq_none (Nat.le_of_not_lt hi),
          List.getElem?_eq_none (hlen ▸ Nat.le_of_not_lt hi)]
        exact h

/-- A run: its effects are safe exactly if every event is allowed. -/
theorem DebugVm.run_safe_iff {m : DebugVm} {o : Origins} (h : m.Tracks o)
    (events : List DebugEvent) : (∀ eff ∈ (m.run events).2, eff.Safe) ↔ o.AllowsAll events := by
  induction events generalizing m o with
  | nil => simp [DebugVm.run, Origins.AllowsAll]
  | cons e es ih =>
      rw [DebugVm.run, List.forall_mem_append, m.step_safe_iff h]
      constructor
      · rintro ⟨he, hes⟩
        exact ⟨he, (ih (m.step_tracks h he)).mp hes⟩
      · rintro ⟨he, hes⟩
        exact ⟨he, (ih (m.step_tracks h he)).mpr hes⟩

/-- **Safety of the debug device.**  In a run from `debug_init`, every port write
starts below the last byte of the buffer and every string printed has a NUL,
exactly if each hypercall copies a NUL and no port write meets an offset that a
hypercall left. -/
theorem debugSafe_iff (events : List DebugEvent) :
    DebugSafe events ↔ Origins.boot.AllowsAll events :=
  DebugVm.run_safe_iff DebugVm.boot_tracks events

/-- A guest whose memory holds one byte throughout. -/
def constantMem (byte : UInt8) : GuestMem := ⟨some, fun _ => Vector.replicate bufSize byte⟩

/-- After one hypercall of zeros a port write stores at index 500; a hypercall of
`'A'`s prints them without an end. -/
theorem debugSafe_fails :
    (DebugVm.boot.run [.hcall ⟨0, 0, 1⟩ (constantMem 0), .portWrite 0x41]).2.getLast?
        = some (.store 500) ∧
      ¬ DebugSafe [.hcall ⟨0, 0, 1⟩ (constantMem 0), .portWrite 0x41] ∧
      ¬ DebugSafe [.hcall ⟨0, 0, 1⟩ (constantMem 0x41)] := by
  exact ⟨by decide, by decide, by decide⟩

end Nvl.Host

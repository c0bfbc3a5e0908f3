/-
Nvl/Guest/Records.lean

The records of the stub driver over whole runs of opens, closes and ioctls.

`KGNI_SET_VARIABLES` writes to the record of the calling process, and does it right
if there is exactly one (`setKept_iff`).  `add_guest_vm` and `remove_guest_vm` are
there to keep the list so, and `kgni_open` and `kgni_close` call neither: the list is
empty in every state a run reaches.  So the first process that sets its variables
writes through NULL.

`kgni_open` stores through a pointer `gpid` that it never sets, makes a hypercall, and
tests a variable `err` that it never sets.  Whether the store and the hypercall fault and
what is in `err` is part of the event.
-/
import Nvl.Guest.Kgni

namespace Nvl.Guest

open SysLib

/-! ### Runs -/

/-- The driver, and who has the device open: a process is there once for each of its
opens. -/
structure GuestVm where
  driver : Driver
  openers : List UInt32

/-- The guest after `kgni_init`. -/
def GuestVm.boot : GuestVm := ⟨kgniInit, []⟩

/-- What `kgni_open` leaves to the outside; `err` is a look at what is in the variable. -/
inductive OpenCall
  | kzalloc
  | storeGpid (pid : UInt32)
  | hcall2 (id : UInt64)
  | err
  deriving DecidableEq

/-- Whether there is memory, whether `gpid` points to memory that can be written (which is not
the driver's), the result of the hypercall if the instruction does not fault, and `err`. -/
@[reducible] def OpenCall.Ans : OpenCall → Type
  | kzalloc => Bool
  | storeGpid _ => Bool
  | hcall2 _ => Option UInt64
  | err => Int32

/-- How an open ends; a process that faults in the kernel is killed. -/
inductive OpenEnd
  | returned (v : Int32)
  | fault
  deriving DecidableEq

/-- `kgni_open`, called by the process `pid`.  The `result` of the hypercall is not looked at. -/
def kgniOpen (pid : UInt32) : Prog OpenCall OpenCall.Ans OpenEnd := do
  let fileInst ← Prog.call OpenCall.kzalloc
  if !fileInst then return .returned (-12)
  else
    let stored ← Prog.call (OpenCall.storeGpid pid)
    if !stored then return .fault
    else
      let result ← Prog.call (OpenCall.hcall2 0xc0c1)
      match result with
      | none => return .fault
      | some _ =>
        let err ← Prog.call OpenCall.err
        if err ≠ 0 then return .returned err else return .returned 0

/-- The file operations of the processes. -/
inductive FileOp
  | open (pid : UInt32) (env : (o : OpenCall) → o.Ans)
  | close (pid : UInt32)
  | ioctl (pid cmd : UInt32) (env : (o : GuestCall) → o.Ans)

/-- One operation.  Only a process that has the device open gets into `kgni_ioctl`, and
`kgni_close` does nothing to the driver. -/
def GuestVm.step (g : GuestVm) : FileOp → GuestVm
  | .open pid env =>
      if ((kgniOpen pid).exec env).1 = .returned 0 then { g with openers := pid :: g.openers }
      else g
  | .close pid => { g with openers := g.openers.erase pid }
  | .ioctl pid cmd env =>
      if pid ∈ g.openers then
        { g with driver := ((kgniIoctl g.driver pid cmd).exec env).1.1 }
      else g

/-- `P` holds of every operation of a run, in the state before it. -/
def GuestVm.Always (P : GuestVm → FileOp → Prop) : GuestVm → List FileOp → Prop
  | _, [] => True
  | g, op :: ops => P g op ∧ (g.step op).Always P ops

/-! ### What should hold -/

/-- The records of a process. -/
def recordsOf (l : List GuestvmStruct) (pid : UInt32) : List GuestvmStruct :=
  l.filter fun gvm => gvm.guestPid = pid

/-- The records of the others. -/
def otherRecords (l : List GuestvmStruct) (pid : UInt32) : List GuestvmStruct :=
  l.filter fun gvm => gvm.guestPid ≠ pid

/-- There is one record for the process, it gets the values passed, and nothing else is
touched. -/
structure SetKept (d : Driver) (pid : UInt32) (q : KgniArg) (out : Driver × IoctlEnd) : Prop where
  found : getGuestVm d.guestvmList pid ≠ none
  unique : (recordsOf d.guestvmList pid).length = 1
  stored : recordsOf out.1.guestvmList pid = [⟨pid, q.pid, q.cookie, q.ptag, q.instance_⟩]
  others : otherRecords out.1.guestvmList pid = otherRecords d.guestvmList pid
  noFault : out.2 ≠ .nullDeref

/-- The records are kept by an operation. -/
def FileOp.Kept (g : GuestVm) : FileOp → Prop
  | .open _ _ => True
  | .close pid => pid ∉ (g.step (.close pid)).openers →
      recordsOf (g.step (.close pid)).driver.guestvmList pid = []
  | .ioctl pid cmd env => pid ∈ g.openers → cmd = kgniSetVariables →
      ∀ q, env .copyArg = some q → SetKept g.driver pid q ((kgniIoctl g.driver pid cmd).exec env).1

/-- A process that has the device open sets its variables, and its argument can be read. -/
def FileOp.ReadableSet (g : GuestVm) : FileOp → Prop
  | .ioctl pid cmd env => pid ∈ g.openers ∧ cmd = kgniSetVariables ∧ env .copyArg ≠ none
  | _ => False

/-! ### One operation -/

/-- The one record of a process, where the lookup finds it. -/
theorem split_of_unique {l : List GuestvmStruct} {pid : UInt32}
    (h : (recordsOf l pid).length = 1) : ∃ early gvm late, l = early ++ gvm :: late ∧
      getGuestVm l pid = some early.length ∧ gvm.guestPid = pid ∧
        recordsOf early pid = [] ∧ recordsOf late pid = [] := by
  obtain ⟨gvm, hgvm⟩ := List.length_eq_one_iff.mp h
  obtain ⟨early, late, rfl, hearly, hpid, hlate⟩ := List.filter_eq_cons_iff.mp hgvm
  have hnone : early.findIdx? (fun gvm => decide (gvm.guestPid = pid)) = none :=
    List.findIdx?_eq_none_iff.mpr fun x hx => by simpa using hearly x hx
  refine ⟨early, gvm, late, rfl, ?_, of_decide_eq_true hpid, ?_, hlate⟩
  · simp [getGuestVm, List.findIdx?_append, hnone, List.findIdx?_cons, hpid]
  · exact List.filter_eq_nil_iff.mpr hearly

theorem recordsOf_append (l l' : List GuestvmStruct) (pid : UInt32) :
    recordsOf (l ++ l') pid = recordsOf l pid ++ recordsOf l' pid := List.filter_append ..

theorem recordsOf_cons_self {gvm : GuestvmStruct} {l : List GuestvmStruct} {pid : UInt32}
    (h : gvm.guestPid = pid) : recordsOf (gvm :: l) pid = gvm :: recordsOf l pid :=
  List.filter_cons_of_pos (decide_eq_true h)

theorem modify_length (early late : List GuestvmStruct) (gvm : GuestvmStruct)
    (f : GuestvmStruct → GuestvmStruct) :
    (early ++ gvm :: late).modify early.length f = early ++ f gvm :: late := by
  induction early with
  | nil => rfl
  | cons x early ih => rw [List.cons_append, List.length_cons, List.modify_succ_cons, ih]; rfl

/-- The command itself is right: what it takes is one record for the process. -/
theorem setKept_iff (env : (o : GuestCall) → o.Ans) (d : Driver) (pid : UInt32) {q : KgniArg}
    (hq : env .copyArg = some q) : SetKept d pid q ((setVariables d pid).exec env).1 ↔
      (recordsOf d.guestvmList pid).length = 1 := by
  refine ⟨fun h => h.unique, fun h => ?_⟩
  obtain ⟨early, gvm, late, hl, hget, hpid, hearly, hlate⟩ := split_of_unique h
  have hexec : ((setVariables d pid).exec env).1 = ({ d with
      cookie := q.cookie, ptag := q.ptag, instance_ := q.instance_
      guestvmList := early ++ setRecord pid q gvm :: late }, .returned 0) := by
    rw [← modify_length, ← hl]
    simp [setVariables, GuestM.copyArg, hq, hget]
  refine ⟨by rw [hget]; exact Option.some_ne_none _, h, ?_, ?_, ?_⟩
  · rw [hexec]
    show recordsOf (early ++ setRecord pid q gvm :: late) pid = _
    have hown : (setRecord pid q gvm).guestPid = pid := rfl
    rw [recordsOf_append, hearly, List.nil_append, recordsOf_cons_self hown, hlate]
    rfl
  · rw [hexec, hl]
    simp [otherRecords, setRecord, hpid]
  · rw [hexec]
    intro hfault
    cases hfault

/-- No command adds a record or takes one away. -/
theorem kgniIoctl_length (d : Driver) (pid cmd : UInt32) :
    (kgniIoctl d pid cmd).Returns fun out =>
      out.1.guestvmList.length = d.guestvmList.length := by
  have hget : (getVariables d).Returns fun out =>
      out.1.guestvmList.length = d.guestvmList.length := by
    simp [getVariables, GuestM.copyToUser]
  have hset : (setVariables d pid).Returns fun out =>
      out.1.guestvmList.length = d.guestvmList.length := by
    rintro (- | q)
    · rfl
    · rcases hrec : getGuestVm d.guestvmList pid with - | i
      · simp only [hrec]
        rfl
      · simp only [hrec]
        exact List.length_modify ..
  have hsend : (sendBuf d).Returns fun out =>
      out.1.guestvmList.length = d.guestvmList.length := by
    rintro (- | q)
    · rfl
    · exact fun _ _ => rfl
  have hnic : (nicSetattr d cmd).Returns fun out =>
      out.1.guestvmList.length = d.guestvmList.length := fun _ _ => rfl
  rw [kgniIoctl]
  simp only [Prog.returns_ite]
  exact ⟨fun _ => hget, fun _ => ⟨fun _ => rfl, fun _ => ⟨fun _ => hset, fun _ =>
    ⟨fun _ => hsend, fun _ => ⟨fun _ => hnic, fun _ => rfl⟩⟩⟩⟩⟩

/-- So the list stays empty. -/
theorem GuestVm.step_empty {g : GuestVm} (h : g.driver.guestvmList = []) (op : FileOp) :
    (g.step op).driver.guestvmList = [] := by
  cases op with
  | «open» pid env =>
      rw [GuestVm.step]
      split <;> exact h
  | close pid => exact h
  | ioctl pid cmd env =>
      rw [GuestVm.step]
      split
      · have hlen := (kgniIoctl_length g.driver pid cmd).exec env
        rw [h] at hlen
        exact List.length_eq_zero_iff.mp hlen
      · exact h

/-- In a state without records an operation keeps them exactly if it does not need one. -/
theorem FileOp.kept_iff {g : GuestVm} (h : g.driver.guestvmList = []) (op : FileOp) :
    op.Kept g ↔ ¬ op.ReadableSet g := by
  cases op with
  | «open» pid env => exact iff_of_true trivial id
  | close pid =>
      refine iff_of_true (fun _ => ?_) id
      rw [GuestVm.step_empty h]
      rfl
  | ioctl pid cmd env =>
      constructor
      · rintro hkept ⟨hopen, rfl, hq⟩
        obtain ⟨q, hq⟩ := Option.ne_none_iff_exists'.mp hq
        have hunique := (setKept_iff env g.driver pid hq).mp (hkept hopen rfl q hq)
        rw [h] at hunique
        cases hunique
      · intro hnot hopen hcmd q hq
        exact absurd ⟨hopen, hcmd, by rw [hq]; exact Option.some_ne_none q⟩ hnot

/-- A run from a state without records. -/
theorem GuestVm.always_kept_iff {g : GuestVm} (h : g.driver.guestvmList = [])
    (ops : List FileOp) : g.Always (fun g op => op.Kept g) ops ↔
      g.Always (fun g op => ¬ op.ReadableSet g) ops := by
  induction ops generalizing g with
  | nil => exact Iff.rfl
  | cons op ops ih =>
      rw [GuestVm.Always, GuestVm.Always, op.kept_iff h, ih (g.step_empty h op)]

/-- **Records of the stub driver.**  In a run from `kgni_init`, every readable
`KGNI_SET_VARIABLES` of a process that has the device open finds its one record and
stores into it, and every close leaves none, exactly if there is no such
`KGNI_SET_VARIABLES`. -/
theorem records_kept_iff (ops : List FileOp) :
    GuestVm.boot.Always (fun g op => op.Kept g) ops ↔
      GuestVm.boot.Always (fun g op => ¬ op.ReadableSet g) ops :=
  GuestVm.always_kept_iff rfl ops

/-- An open that goes through. -/
def goodOpen : (o : OpenCall) → o.Ans
  | .kzalloc => true
  | .storeGpid _ => true
  | .hcall2 _ => some 0
  | .err => 0

/-- A process opens the device and sets its variables: the driver writes through NULL. -/
theorem records_kept_fails :
    ((kgniIoctl (GuestVm.boot.step (.open 42 goodOpen)).driver 42 kgniSetVariables).exec
        noMemory).1.2 = .nullDeref ∧
      ¬ GuestVm.boot.Always (fun g op => op.Kept g)
        [.open 42 goodOpen, .ioctl 42 kgniSetVariables noMemory] := by
  refine ⟨rfl, fun h => ?_⟩
  have hkept : FileOp.Kept (GuestVm.boot.step (.open 42 goodOpen))
      (.ioctl 42 kgniSetVariables noMemory) := h.2.1
  have hset := hkept (by decide) rfl ⟨3000, 5000, 20000, 7⟩ rfl
  exact hset.noFault rfl

end Nvl.Guest

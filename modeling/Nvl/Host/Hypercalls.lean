/-
Nvl/Host/Hypercalls.lean

The hypercall handlers of the changed Palacios against failures of what they call.

`handle_hcall` and `handle_kgniioctl` print a line when a translation, a copy or an
allocation fails, and go on.  Both always return 0, so a handler stays within what
it was given exactly if nothing fails.  Every call a handler makes is told from the
others by its arguments, so a function of the calls gives every combination of
outcomes.
-/
import Nvl.Lib.Prog
import Nvl.Host.GuestCommand
import Nvl.Host.OsDebug

namespace Nvl.Host.Hypercall

open SysLib

/-! ### The handlers -/

/-- Which of the two addresses of `handle_hcall` is translated. -/
inductive Operand
  | src
  | dest
  deriving DecidableEq

/-- What the handlers call, and their accesses to host memory. -/
inductive HostCall
  | gvaToHva (which : Operand) (va : UInt64)
  | v3Malloc (size : UInt32)
  | readGvaMemory (va : UInt64) (count : Int32) (buf : UInt64)
  | openFromKernel
  | hostRead (addr : UInt64)
  | hostWrite (addr : UInt64) (state : DebugState)
  | kgniIoctl (file : UInt64) (cmd : UInt32) (arg : UInt64)
  | sysClose (fd : Int32)
  | print (buf : Vector UInt8 bufSize)
  deriving DecidableEq

/-- `v3_gva_to_hva` fails or gives an address, `V3_Malloc` gives NULL or a buffer,
`v3_read_gva_memory` the number of bytes it has copied, and `sys_open_from_kernel` a
descriptor and the file. -/
@[reducible] def HostCall.Ans : HostCall → Type
  | gvaToHva _ _ => Option UInt64
  | v3Malloc _ => UInt64
  | readGvaMemory _ _ _ => Int32
  | openFromKernel => Int32 × UInt64
  | hostRead _ => Vector UInt8 bufSize
  | hostWrite _ _ => Unit
  | kgniIoctl _ _ _ => Int64
  | sysClose _ => Int32
  | print _ => Unit

abbrev HostM : Type → Type := Prog HostCall HostCall.Ans

namespace HostM

def gvaToHva (which : Operand) (va : UInt64) : HostM (Option UInt64) :=
  Prog.call (HostCall.gvaToHva which va)

def v3Malloc (size : UInt32) : HostM UInt64 := Prog.call (HostCall.v3Malloc size)

def readGvaMemory (va : UInt64) (count : Int32) (buf : UInt64) : HostM Int32 :=
  Prog.call (HostCall.readGvaMemory va count buf)

def openFromKernel : HostM (Int32 × UInt64) := Prog.call HostCall.openFromKernel

def hostRead (addr : UInt64) : HostM (Vector UInt8 bufSize) :=
  Prog.call (HostCall.hostRead addr)

def hostWrite (addr : UInt64) (state : DebugState) : HostM Unit :=
  Prog.call (HostCall.hostWrite addr state)

def kgniIoctl (file : UInt64) (cmd : UInt32) (arg : UInt64) : HostM Int64 :=
  Prog.call (HostCall.kgniIoctl file cmd arg)

def sysClose (fd : Int32) : HostM Int32 := Prog.call (HostCall.sysClose fd)

def print (buf : Vector UInt8 bufSize) : HostM Unit := Prog.call (HostCall.print buf)

end HostM

open HostM

/-- The two host addresses; each stays zero if `buf_is_va` is not set or its lookup
fails. -/
def hostAddrs (regs : HcallRegs) : HostM (UInt64 × UInt64) :=
  if regs.rdx.toUInt32 = 1 then do
    let src ← gvaToHva .src regs.rbx
    let dest ← gvaToHva .dest regs.rsi
    return (src.getD 0, dest.getD 0)
  else return (0, 0)

/-- `handle_hcall`. -/
def handleHcall (regs : HcallRegs) (_ : DebugState) : HostM (DebugState × Int32) := do
  let (hostSrcVa, hostDestVa) ← hostAddrs regs
  let buf ← hostRead hostSrcVa
  let s := ⟨buf, 500⟩
  hostWrite hostDestVa s
  print buf
  return (s, 0)

/-- The registers `handle_kgniioctl` reads, but for the address it only prints. -/
structure KgniioctlRegs where
  rcx : UInt64
  rbx : UInt64
  rdx : UInt64
  deriving DecidableEq

/-- `count`, an `int`. -/
def KgniioctlRegs.count (regs : KgniioctlRegs) : Int32 := regs.rcx.toUInt32.toInt32

/-- `handle_kgniioctl`; the debug state is not used. -/
def handleKgniioctl (regs : KgniioctlRegs) (s : DebugState) : HostM (DebugState × Int32) := do
  let hostSrcVa ← v3Malloc regs.count.toUInt32
  let _ ← readGvaMemory regs.rbx regs.count hostSrcVa
  let opened ← openFromKernel
  let _ ← kgniIoctl opened.2 (guestWord regs.rdx) hostSrcVa
  let _ ← sysClose opened.1
  return (s, 0)

/-! ### What they may do -/

abbrev HostEvent : Type := Σ o : HostCall, o.Ans

abbrev HostTrace : Type := Prog.Trace HostCall HostCall.Ans

namespace HostEvent

/-- A translation, allocation, copy or open that did not succeed.  A copy has
succeeded when it has copied bytes, and all of them. -/
def Failed : HostEvent → Prop
  | ⟨.gvaToHva _ _, hva⟩ => hva = none
  | ⟨.v3Malloc _, buf⟩ => buf = 0
  | ⟨.readGvaMemory _ count _, n⟩ => n = 0 ∨ n ≠ count
  | ⟨.openFromKernel, opened⟩ => opened.1 < 0
  | _ => False

/-- The host address that is read or written. -/
def access : HostEvent → Option UInt64
  | ⟨.hostRead addr, _⟩ => some addr
  | ⟨.hostWrite addr _, _⟩ => some addr
  | _ => none

/-- What the debug device shows of a call. -/
def effect : HostEvent → Option Effect
  | ⟨.hostWrite addr state, _⟩ => some (.copyOut addr state)
  | ⟨.print buf, _⟩ => some (.print buf)
  | _ => none

/-- Accesses, calls into the driver, and copies to a buffer that is not there. -/
def Touches : HostEvent → Prop
  | ⟨.hostRead _, _⟩ => True
  | ⟨.hostWrite _ _, _⟩ => True
  | ⟨.kgniIoctl _ _ _, _⟩ => True
  | ⟨.readGvaMemory _ _ buf, _⟩ => buf = 0
  | _ => False

end HostEvent

/-- Nothing has failed, and every access starts at an address that was translated.  The
handlers make one lookup for each access of 20 or 24 bytes; that such an access runs on into
the next page of the guest, which may lie elsewhere, is not looked at. -/
def Covered (tr : HostTrace) : Prop :=
  (∀ e ∈ tr, ¬ HostEvent.Failed e) ∧
    ∀ e ∈ tr, ∀ addr, HostEvent.access e = some addr →
      ∃ which va, (⟨.gvaToHva which va, some addr⟩ : HostEvent) ∈ tr

/-- Nothing was done, and the guest is told so. -/
def Refused (s : DebugState) (out : (DebugState × Int32) × HostTrace) : Prop :=
  (∀ e ∈ out.2, ¬ HostEvent.Touches e) ∧ out.1.1 = s ∧ out.1.2 ≠ 0

/-- A handler acts when everything it needs has succeeded, and refuses otherwise. -/
def Guarded (s : DebugState) (out : (DebugState × Int32) × HostTrace) : Prop :=
  Covered out.2 ∨ Refused s out

variable (env : (o : HostCall) → o.Ans)

/-- The handlers' only answer to the guest is 0. -/
theorem guarded_iff_covered {p : HostM (DebugState × Int32)} (s : DebugState)
    (h : p.Returns fun out => out.2 = 0) :
    Guarded s (p.exec env) ↔ Covered (p.exec env).2 := by
  refine ⟨fun hg => hg.elim id fun hr => ?_, .inl⟩
  exact absurd (h.exec env) hr.2.2

theorem handleHcall_returns (regs : HcallRegs) (s : DebugState) :
    (handleHcall regs s).Returns fun out => out.2 = 0 :=
  .bind (Prog.returns_true (hostAddrs regs)) fun _ _ _ _ _ => rfl

theorem handleKgniioctl_returns (regs : KgniioctlRegs) (s : DebugState) :
    (handleKgniioctl regs s).Returns fun out => out.2 = 0 := fun _ _ _ _ _ => rfl

/-! ### `handle_hcall` -/

/-- The trace after the lookups, whose addresses are given. -/
def hcallAccesses (src dest : UInt64) : HostTrace :=
  let buf := env (.hostRead src)
  [⟨.hostRead src, buf⟩, ⟨.hostWrite dest ⟨buf, 500⟩, ()⟩, ⟨.print buf, ()⟩]

theorem exec_handleHcall_of_va {regs : HcallRegs} (h : regs.rdx.toUInt32 = 1) (s : DebugState) :
    ((handleHcall regs s).exec env).2
      = ⟨.gvaToHva .src regs.rbx, env (.gvaToHva .src regs.rbx)⟩
        :: ⟨.gvaToHva .dest regs.rsi, env (.gvaToHva .dest regs.rsi)⟩
        :: hcallAccesses env ((env (.gvaToHva .src regs.rbx)).getD 0)
            ((env (.gvaToHva .dest regs.rsi)).getD 0) := by
  rw [handleHcall, hostAddrs, if_pos h]
  rfl

theorem exec_handleHcall_of_not_va {regs : HcallRegs} (h : ¬ regs.rdx.toUInt32 = 1)
    (s : DebugState) : ((handleHcall regs s).exec env).2 = hcallAccesses env 0 0 := by
  rw [handleHcall, hostAddrs, if_neg h]
  rfl

theorem not_failed_of_mem_hcallAccesses {src dest : UInt64} {e : HostEvent}
    (he : e ∈ hcallAccesses env src dest) : ¬ e.Failed := by
  simp only [hcallAccesses, List.mem_cons, List.not_mem_nil, or_false] at he
  rcases he with rfl | rfl | rfl <;> exact id

theorem access_of_mem_hcallAccesses {src dest addr : UInt64} {e : HostEvent}
    (he : e ∈ hcallAccesses env src dest) (ha : e.access = some addr) :
    addr = src ∨ addr = dest := by
  simp only [hcallAccesses, List.mem_cons, List.not_mem_nil, or_false] at he
  rcases he with rfl | rfl | rfl
  · exact .inl (Option.some.inj ha).symm
  · exact .inr (Option.some.inj ha).symm
  · cases ha

theorem covered_handleHcall_iff (regs : HcallRegs) (s : DebugState) :
    Covered ((handleHcall regs s).exec env).2 ↔ regs.rdx.toUInt32 = 1 ∧
      env (.gvaToHva .src regs.rbx) ≠ none ∧ env (.gvaToHva .dest regs.rsi) ≠ none := by
  by_cases hva : regs.rdx.toUInt32 = 1
  · rw [exec_handleHcall_of_va env hva]
    constructor
    · rintro ⟨hok, -⟩
      exact ⟨hva, hok _ List.mem_cons_self, hok _ (List.mem_cons_of_mem _ List.mem_cons_self)⟩
    · rintro ⟨-, hsrc, hdest⟩
      obtain ⟨src, hsrc⟩ := Option.ne_none_iff_exists'.mp hsrc
      obtain ⟨dest, hdest⟩ := Option.ne_none_iff_exists'.mp hdest
      rw [hsrc, hdest]
      refine ⟨?_, ?_⟩
      · rintro e (- | ⟨-, - | ⟨-, he⟩⟩)
        · exact Option.some_ne_none src
        · exact Option.some_ne_none dest
        · exact not_failed_of_mem_hcallAccesses env he
      · rintro e (- | ⟨-, - | ⟨-, he⟩⟩) addr ha
        · cases ha
        · cases ha
        · rcases access_of_mem_hcallAccesses env he ha with rfl | rfl
          · exact ⟨.src, regs.rbx, List.mem_cons_self⟩
          · exact ⟨.dest, regs.rsi, List.mem_cons_of_mem _ List.mem_cons_self⟩
  · rw [exec_handleHcall_of_not_va env hva]
    refine iff_of_false (fun hc => ?_) fun h => hva h.1
    -- the access at address zero has no translation behind it
    obtain ⟨which, va, hmem⟩ := hc.2 _ List.mem_cons_self 0 rfl
    simp [hcallAccesses] at hmem

/-- The handler as a function of the guest's memory is this one, with every call
answered from there. -/
theorem handleHcall_effects (regs : HcallRegs) (mem : GuestMem) (s : DebugState)
    (hva : ∀ which va, env (.gvaToHva which va) = mem.gvaToHva va)
    (hbytes : ∀ addr, env (.hostRead addr) = mem.bytes addr) :
    (((handleHcall regs s).exec env).1.1,
        ((handleHcall regs s).exec env).2.filterMap HostEvent.effect)
      = Host.handleHcall regs mem s := by
  have haddrs : ((hostAddrs regs).exec env).1
      = (hostAddr regs mem regs.rbx, hostAddr regs mem regs.rsi) := by
    rw [hostAddrs, hostAddr, hostAddr]
    split
    · rw [← hva .src, ← hva .dest]
      rfl
    · rfl
  have hquiet : ((hostAddrs regs).exec env).2.filterMap HostEvent.effect = [] := by
    rw [hostAddrs]
    split <;> rfl
  rw [handleHcall, Prog.exec_bind, haddrs]
  dsimp only
  rw [List.filterMap_append, hquiet, List.nil_append, Host.handleHcall, ← hbytes]
  rfl

/-! ### `handle_kgniioctl` -/

/-- What `v3_read_gva_memory` returned. -/
def copied (regs : KgniioctlRegs) : Int32 :=
  env (.readGvaMemory regs.rbx regs.count (env (.v3Malloc regs.count.toUInt32)))

theorem covered_handleKgniioctl_iff (regs : KgniioctlRegs) (s : DebugState) :
    Covered ((handleKgniioctl regs s).exec env).2 ↔
      env (.v3Malloc regs.count.toUInt32) ≠ 0 ∧
        (copied env regs ≠ 0 ∧ copied env regs = regs.count) ∧
          ¬ (env .openFromKernel).1 < 0 := by
  constructor
  · rintro ⟨hok, -⟩
    have hmalloc := hok _ List.mem_cons_self
    have hcopy := hok _ (List.mem_cons_of_mem _ List.mem_cons_self)
    have hopen := hok _ (List.mem_cons_of_mem _ (List.mem_cons_of_mem _ List.mem_cons_self))
    exact ⟨hmalloc, ⟨fun h => hcopy (.inl h), not_not.mp fun h => hcopy (.inr h)⟩, hopen⟩
  · rintro ⟨hmalloc, ⟨hsome, hall⟩, hopen⟩
    refine ⟨?_, ?_⟩
    · rintro e (- | ⟨-, - | ⟨-, - | ⟨-, - | ⟨-, - | ⟨-, ⟨⟩⟩⟩⟩⟩⟩)
      · exact hmalloc
      · exact not_or_intro hsome (not_not_intro hall)
      · exact hopen
      · exact id
      · exact id
    · rintro e (- | ⟨-, - | ⟨-, - | ⟨-, - | ⟨-, - | ⟨-, ⟨⟩⟩⟩⟩⟩⟩) addr ha <;> cases ha

/-- **Failures and the handlers.**  `handle_hcall` acts on translated addresses only, or
not at all, exactly if the guest says that its addresses are virtual and both lookups
succeed; `handle_kgniioctl` exactly if there is a buffer, every byte was copied (and
there were some), and the device could be opened. -/
theorem handlers_guarded_iff (s : DebugState) :
    (∀ regs, Guarded s ((handleHcall regs s).exec env) ↔ regs.rdx.toUInt32 = 1 ∧
      env (.gvaToHva .src regs.rbx) ≠ none ∧ env (.gvaToHva .dest regs.rsi) ≠ none) ∧
    ∀ regs, Guarded s ((handleKgniioctl regs s).exec env) ↔
      env (.v3Malloc regs.count.toUInt32) ≠ 0 ∧
        (copied env regs ≠ 0 ∧ copied env regs = regs.count) ∧
          ¬ (env .openFromKernel).1 < 0 := by
  refine ⟨fun regs => ?_, fun regs => ?_⟩
  · rw [guarded_iff_covered env s (handleHcall_returns regs s), covered_handleHcall_iff]
  · rw [guarded_iff_covered env s (handleKgniioctl_returns regs s), covered_handleKgniioctl_iff]

/-- A host on which no translation, allocation or open succeeds. -/
def nothingWorks : (o : HostCall) → o.Ans
  | .gvaToHva _ _ => none
  | .v3Malloc _ => 0
  | .readGvaMemory _ _ _ => 0
  | .openFromKernel => (-2, 0)
  | .hostRead _ => Vector.replicate bufSize 0x41
  | .hostWrite _ _ => ()
  | .kgniIoctl _ _ _ => -9
  | .sysClose _ => -9
  | .print _ => ()

/-- The first handler reads and writes at address zero and changes the state; the
second calls the driver with no file and no buffer; both return 0. -/
theorem handlers_act_on_failure :
    (((handleHcall ⟨0x1000, 0x2000, 1⟩ debugInit).exec nothingWorks).2.filterMap HostEvent.access
        = [0, 0] ∧
      ((handleHcall ⟨0x1000, 0x2000, 1⟩ debugInit).exec nothingWorks).1.2 = 0 ∧
      ¬ Guarded debugInit ((handleHcall ⟨0x1000, 0x2000, 1⟩ debugInit).exec nothingWorks)) ∧
    ((⟨.kgniIoctl 0 (guestWord 0xc0586b08) 0, -9⟩ : HostEvent)
        ∈ ((handleKgniioctl ⟨88, 0x1000, 0xc0586b08⟩ debugInit).exec nothingWorks).2 ∧
      ((handleKgniioctl ⟨88, 0x1000, 0xc0586b08⟩ debugInit).exec nothingWorks).1.2 = 0 ∧
      ¬ Guarded debugInit
        ((handleKgniioctl ⟨88, 0x1000, 0xc0586b08⟩ debugInit).exec nothingWorks)) := by
  refine ⟨⟨rfl, rfl, ?_⟩, ⟨?_, rfl, ?_⟩⟩
  · rintro (⟨hok, -⟩ | ⟨-, -, hret⟩)
    · exact hok _ List.mem_cons_self rfl
    · exact hret rfl
  · exact List.mem_cons_of_mem _ (List.mem_cons_of_mem _ (List.mem_cons_of_mem _
      List.mem_cons_self))
  · rintro (⟨hok, -⟩ | ⟨-, -, hret⟩)
    · exact hok _ List.mem_cons_self rfl
    · exact hret rfl

end Nvl.Host.Hypercall

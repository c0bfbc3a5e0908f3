/-
Nvl/Preload/Segments.lean

Does the segment list of the preloaded client match what is really mapped?

A run of one `NIC_SETATTR` and any number of `MEM_REGISTER` requests attaches four
windows and exports some buffers; the calls made say which ranges these are.  The
list has an entry for each, with the right segment id and start, and the right
length but for one: the control window is attached with `GHAL_FMA_CTRL_SIZE` bytes
and recorded with `FMA_WINDOW_SIZE`.  The lookup takes the first entry that covers
an address, so the entry does no harm exactly where an earlier one hides the part
of it that is too long.
-/
import Nvl.Preload.Client

namespace Nvl.Preload

open SysLib ClientM

/-! ### What a lookup should answer -/

/-- Ranges that are really mapped: exportable, disjoint, under different ids. -/
structure WellMapped (s : MemsegList) : Prop where
  exportable : ∀ p ∈ s, Exportable p.address p.length
  ranges : s.Pairwise fun p q => Disjoint p.range q.range
  segids : s.Pairwise fun p q => p.segid ≠ q.segid
  valid : ∀ p ∈ s, p.segid ≠ notFound

instance (p q : XpmemSeg) : Decidable (Disjoint p.range q.range) :=
  decidable_of_iff _ Set.Ico_disjoint_Ico.symm

instance (s : MemsegList) : Decidable (WellMapped s) :=
  decidable_of_iff ((∀ p ∈ s, Exportable p.address p.length) ∧
      (s.Pairwise fun p q => Disjoint p.range q.range) ∧
      (s.Pairwise fun p q => p.segid ≠ q.segid) ∧ ∀ p ∈ s, p.segid ≠ notFound)
    ⟨fun h => ⟨h.1, h.2.1, h.2.2.1, h.2.2.2⟩, fun h => ⟨h.exportable, h.ranges, h.segids, h.valid⟩⟩

/-- Lookups in `mt` answer for the ranges of `mapped`. -/
structure Answers (mt mapped : MemsegList) : Prop where
  inside : ∀ p ∈ mapped, ∀ addr : UInt64, addr.toNat ∈ p.range →
    listFindSegidByVaddr mt addr = p.segid
  outside : ∀ addr : UInt64, (∀ p ∈ mapped, addr.toNat ∉ p.range) →
    listFindSegidByVaddr mt addr = notFound

/-- A list of what is mapped answers for itself. -/
theorem WellMapped.answers {s : MemsegList} (h : WellMapped s) : Answers s s := by
  constructor
  · intro p hp addr haddr
    refine listFindSegidByVaddr_of_find? ?_
    exact find?_range h.ranges (fun q hq => XpmemSeg.covers_iff (h.exportable q hq) addr) hp haddr
  · intro addr haddr
    have hnone : (s.find? fun q => q.covers addr) = none := by
      refine List.find?_eq_none.mpr fun q hq hcov => ?_
      exact haddr q hq ((XpmemSeg.covers_iff (h.exportable q hq) addr).mp hcov)
    rw [listFindSegidByVaddr_eq, hnone]
    rfl

/-- To answer for the mapped ranges is to answer as their own list does. -/
theorem answers_iff {mt mapped : MemsegList} (h : WellMapped mapped) :
    Answers mt mapped ↔
      ∀ addr, listFindSegidByVaddr mt addr = listFindSegidByVaddr mapped addr := by
  constructor
  · intro hmt addr
    by_cases hin : ∃ p ∈ mapped, addr.toNat ∈ p.range
    · obtain ⟨p, hp, haddr⟩ := hin
      rw [hmt.inside p hp addr haddr, h.answers.inside p hp addr haddr]
    · have hout : ∀ p ∈ mapped, addr.toNat ∉ p.range := fun p hp haddr => hin ⟨p, hp, haddr⟩
      rw [hmt.outside addr hout, h.answers.outside addr hout]
  · intro heq
    constructor
    · intro p hp addr haddr
      rw [heq, h.answers.inside p hp addr haddr]
    · intro addr haddr
      rw [heq, h.answers.outside addr haddr]

/-! ### One entry recorded too long -/

section Longer

variable {E L : MemsegList} {p : XpmemSeg} {len : UInt64}

/-- Changing the length of one entry goes unnoticed exactly if wherever it changes
what the entry covers, an earlier entry covers too. -/
theorem relengthen_iff (h : WellMapped (E ++ p :: L)) :
    (∀ addr, listFindSegidByVaddr (E ++ { p with length := len } :: L) addr
        = listFindSegidByVaddr (E ++ p :: L) addr) ↔
      ∀ addr, (∃ q ∈ E, q.covers addr = true) ∨
        XpmemSeg.covers { p with length := len } addr = p.covers addr := by
  -- behind `p` nobody answers with its id
  have hbehind : ∀ addr, listFindSegidByVaddr L addr ≠ p.segid := by
    intro addr
    have hids := List.pairwise_append.mp h.segids
    rcases listFindSegidByVaddr_mem L addr with hmiss | ⟨q, hq, hfound⟩
    · rw [hmiss]
      exact (h.valid p (by simp)).symm
    · rw [hfound]
      exact ((List.pairwise_cons.mp hids.2.1).1 q hq).symm
  -- so at each address the two searches agree or not as the two entries do
  refine forall_congr' fun addr => ?_
  by_cases hE : ∃ q ∈ E, q.covers addr = true
  · rw [listFindSegidByVaddr_append_of_covers hE, listFindSegidByVaddr_append_of_covers hE]
    exact iff_of_true rfl (Or.inl hE)
  · rw [listFindSegidByVaddr_append_of_not_covers hE, listFindSegidByVaddr_append_of_not_covers hE]
    have hne := hbehind addr
    simp only [listFindSegidByVaddr, hE, false_or]
    cases XpmemSeg.covers { p with length := len } addr <;> cases p.covers addr <;>
      simp [hne, hne.symm]

theorem exists_toNat_eq {a : ℕ} (h : a < 2 ^ 64) : ∃ addr : UInt64, addr.toNat = a :=
  ⟨UInt64.ofNat a, UInt64.toNat_ofNat_of_lt' h⟩

/-- An entry whose recorded end passes the top of the address space covers its
first address and no other. -/
theorem covers_succ_of_wrap (hwrap : 2 ^ 64 ≤ p.address.toNat + p.length.toNat)
    {addr : UInt64} (haddr : addr.toNat = p.address.toNat + 1) : p.covers addr = false := by
  have hlen := p.length.toNat_lt
  have haddrlt := p.address.toNat_lt
  have hsum : (p.address + p.length).toNat = p.address.toNat + p.length.toNat - 2 ^ 64 := by
    rw [UInt64.toNat_add]
    omega
  simp only [XpmemSeg.covers, Bool.or_eq_false_iff, Bool.and_eq_false_iff, beq_eq_false_iff_ne,
    decide_eq_false_iff_not, ← UInt64.toNat_inj, ne_eq, gt_iff_lt, UInt64.lt_iff_toNat_lt, hsum,
    haddr]
  omega

/-- A longer range that covers the same outside `E` ends below the top of the address space:
else the second byte of `p` is lost, and nobody else has it. -/
theorem noWrap_of_covers_same (h : WellMapped (E ++ p :: L)) (hp : 1 < p.length.toNat)
    (hsame : ∀ addr, (∃ q ∈ E, q.covers addr = true) ∨
      XpmemSeg.covers { p with length := len } addr = p.covers addr) :
    p.address.toNat + len.toNat < 2 ^ 64 := by
  have hexp : Exportable p.address p.length := h.exportable p (by simp)
  have hnowrap := hexp.noWrap
  by_contra hwrap
  obtain ⟨addr, haddr⟩ := exists_toNat_eq (a := p.address.toNat + 1) (by omega)
  have hlost : XpmemSeg.covers { p with length := len } addr = false :=
    covers_succ_of_wrap (Nat.le_of_not_lt hwrap) haddr
  have hmine : addr.toNat ∈ p.range := by
    rw [haddr]
    exact ⟨Nat.le_succ _, Nat.add_lt_add_left hp _⟩
  rcases hsame addr with ⟨q, hq, hcov⟩ | heq
  · have hdisj := (List.pairwise_append.mp h.ranges).2.2 q hq p List.mem_cons_self
    have hexpq := h.exportable q (List.mem_append_left _ hq)
    exact Set.disjoint_left.mp hdisj ((XpmemSeg.covers_iff hexpq addr).mp hcov) hmine
  · rw [hlost, (XpmemSeg.covers_iff hexp addr).mpr hmine] at heq
    exact Bool.false_ne_true heq

/-- Recording a longer range: the two entries cover the same outside `E` exactly if
`E` covers everything that was added. -/
theorem covers_longer_iff (h : WellMapped (E ++ p :: L)) (hp : 1 < p.length.toNat)
    (hlen : p.length.toNat < len.toNat) :
    (∀ addr, (∃ q ∈ E, q.covers addr = true) ∨
        XpmemSeg.covers { p with length := len } addr = p.covers addr) ↔
      ∀ a, p.address.toNat + p.length.toNat ≤ a → a < p.address.toNat + len.toNat →
        ∃ q ∈ E, a ∈ q.range := by
  have hexp : Exportable p.address p.length := h.exportable p (by simp)
  have hcovE : ∀ q ∈ E, ∀ addr, q.covers addr = true ↔ addr.toNat ∈ q.range := fun q hq =>
    XpmemSeg.covers_iff (h.exportable q (List.mem_append_left _ hq))
  have hshort (addr : UInt64) : p.covers addr = true ↔
      p.address.toNat ≤ addr.toNat ∧ addr.toNat < p.address.toNat + p.length.toNat :=
    XpmemSeg.covers_iff hexp addr
  have hlong (hfits : p.address.toNat + len.toNat < 2 ^ 64) (addr : UInt64) :
      XpmemSeg.covers { p with length := len } addr = true ↔
        p.address.toNat ≤ addr.toNat ∧ addr.toNat < p.address.toNat + len.toNat :=
    XpmemSeg.covers_iff ⟨show 0 < len.toNat by omega, hfits⟩ addr
  constructor
  · intro hsame a hlow hhigh
    have hfits := noWrap_of_covers_same h hp hsame
    obtain ⟨addr, rfl⟩ := exists_toNat_eq (hhigh.trans hfits)
    rcases hsame addr with ⟨q, hq, hcov⟩ | heq
    · exact ⟨q, hq, (hcovE q hq addr).mp hcov⟩
    · rw [Bool.eq_iff_iff, hlong hfits, hshort] at heq
      omega
  · intro hhidden addr
    -- the last address added lies in a range of `E`, which does not wrap
    obtain ⟨r, hr, hlast⟩ :=
      hhidden (p.address.toNat + len.toNat - 1) (by omega) (by omega)
    have hrwrap := (h.exportable r (List.mem_append_left _ hr)).noWrap
    have hrend : p.address.toNat + len.toNat - 1 < r.address.toNat + r.length.toNat := hlast.2
    by_cases hadded : p.address.toNat + p.length.toNat ≤ addr.toNat ∧
        addr.toNat < p.address.toNat + len.toNat
    · obtain ⟨q, hq, hin⟩ := hhidden addr.toNat hadded.1 hadded.2
      exact Or.inl ⟨q, hq, (hcovE q hq addr).mpr hin⟩
    · right
      rw [Bool.eq_iff_iff, hlong (by omega), hshort]
      omega

end Longer

/-! ### Runs -/

/-- A request of the application, with what the outside answers meanwhile. -/
structure Issue where
  request : Request
  env : (o : ClientCall) → o.Ans

/-- The request, made on the descriptor of the device. -/
def Issue.exec (i : Issue) (c : Client) :
    (Client × Request × Int) × Prog.Trace ClientCall ClientCall.Ans :=
  Prog.exec i.env (ioctl c c.clientFd i.request)

/-- On the device's own descriptor the request is never passed on. -/
theorem Issue.exec_eq (i : Issue) (c : Client) :
    i.exec c = Prog.exec i.env (do
      let (c, r) ← handleIoctl c i.request
      return (c, r, (0 : Int))) := by
  rw [Issue.exec, ioctl, if_pos rfl]

/-- The client after some requests. -/
def run (c : Client) (is : List Issue) : Client := is.foldl (fun c i => (i.exec c).1.1) c

/-- The range a call has exported or attached. -/
def mappedBy (env : (o : ClientCall) → o.Ans) : (Σ o : ClientCall, o.Ans) → Option XpmemSeg
  | ⟨.xememMake vaddr size, segid⟩ => some ⟨segid, vaddr, size⟩
  | ⟨.xememAttachNocache w _ size, addr⟩ => some ⟨env (.xememLookupSegid w), addr, size⟩
  | _ => none

/-- What is really mapped after some requests, from the calls they made. -/
def mapped (c : Client) : List Issue → MemsegList
  | [] => []
  | i :: is => (i.exec c).2.filterMap (mappedBy i.env) ++ mapped (i.exec c).1.1 is

@[simp] theorem run_append (c : Client) (is js : List Issue) :
    run c (is ++ js) = run (run c is) js :=
  List.foldl_append

theorem mapped_append (c : Client) (is js : List Issue) :
    mapped c (is ++ js) = mapped c is ++ mapped (run c is) js := by
  induction is generalizing c with
  | nil => rfl
  | cons i is ih =>
      rw [List.cons_append, mapped, ih, mapped, List.append_assoc]
      rfl

/-- A registration in its unsegmented form. -/
def Issue.Registers (i : Issue) : Prop := ∃ a, i.request = .memRegister a ∧ a.segmentsCnt = 1

/-- `NIC_SETATTR`. -/
def Issue.Attaches (i : Issue) : Prop := ∃ a, i.request = .nicSetattr a

/-- Every call on the outside succeeds. -/
structure Issue.Succeeds (i : Issue) : Prop where
  malloc : i.env .malloc = true
  get : ∀ w segid, 0 < i.env (.xememGet w segid)
  attach : ∀ w apid size, i.env (.xememAttachNocache w apid size) ≠ 0

/-- One window as it is attached. -/
def Issue.window (i : Issue) (w : Window) (size : UInt64) : XpmemSeg :=
  { segid := i.env (.xememLookupSegid w)
    address := i.env
      (.xememAttachNocache w (i.env (.xememGet w (i.env (.xememLookupSegid w)))) size)
    length := size }

/-- A registration appends to the list what it exports. -/
theorem exec_registers {i : Issue} (h : i.Registers) (hs : i.Succeeds) (c : Client) :
    (i.exec c).1.1.mt = c.mt ++ (i.exec c).2.filterMap (mappedBy i.env) := by
  obtain ⟨a, hreq, -⟩ := h
  have hmalloc := hs.malloc
  rw [Issue.exec_eq]
  simp only [handleIoctl, packArgs, hreq, StaticLink.packArgs, xememMake, malloc, hcqCmdIssue,
    hcqGetRetData, hcqCmdComplete, retData, Prog.pure_eq_ret, Prog.call_bind, unpackArgs,
    Prog.step_bind, Prog.ret_bind, Prog.exec_step, hmalloc, listAddElement_true, Prog.exec_ret]
  rfl

theorem run_registers {is : List Issue} (h : ∀ i ∈ is, i.Registers) (hs : ∀ i ∈ is, i.Succeeds)
    (c : Client) : (run c is).mt = c.mt ++ mapped c is := by
  induction is generalizing c with
  | nil => exact (List.append_nil _).symm
  | cons i is ih =>
      have hstep := exec_registers (h i List.mem_cons_self) (hs i List.mem_cons_self) c
      have hrest := ih (fun j hj => h j (List.mem_cons_of_mem i hj))
        (fun j hj => hs j (List.mem_cons_of_mem i hj)) (i.exec c).1.1
      rw [mapped, ← List.append_assoc, ← hstep]
      exact hrest

/-- A window sequence on which every call succeeds. -/
theorem exec_attachWindow {i : Issue} (hs : i.Succeeds) (w : Window) (segid removed size : UInt64) :
    Prog.exec i.env (attachWindow w segid removed size) =
      (some (i.env (.xememAttachNocache w (i.env (.xememGet w segid)) size)),
        [⟨.xememGet w segid, i.env (.xememGet w segid)⟩,
          ⟨.xememAttachNocache w (i.env (.xememGet w segid)) size,
            i.env (.xememAttachNocache w (i.env (.xememGet w segid)) size)⟩]) := by
  have hget : ¬ i.env (.xememGet w segid) ≤ 0 := not_le_of_gt (hs.get w segid)
  have hattach := hs.attach w (i.env (.xememGet w segid)) size
  simp [attachWindow, hget, hattach]

/-- `NIC_SETATTR` attaches the four windows. -/
theorem mapped_attaches {i : Issue} (h : i.Attaches) (hs : i.Succeeds) (c : Client) :
    (i.exec c).2.filterMap (mappedBy i.env) =
      [i.window .win fmaWindowSize, i.window .put fmaWindowSize, i.window .get fmaWindowSize,
        i.window .ctrl ghalFmaCtrlSize] := by
  obtain ⟨a, hreq⟩ := h
  rw [Issue.exec_eq]
  simp only [handleIoctl, packArgs, hreq, packNicSetattr, hcqCmdIssue, hcqGetRetData,
    hcqCmdComplete, retData, Prog.pure_eq_ret, Prog.call_bind, unpackArgs, unpackNicSetattr,
    xememLookupSegid, record, malloc, Prog.step_bind, Prog.ret_bind, Prog.exec_step,
    Prog.exec_bind, exec_attachWindow hs, Prog.exec_ret]
  rfl

/-- It records them, the last with the length of the others. -/
theorem exec_attaches {i : Issue} (h : i.Attaches) (hs : i.Succeeds) (c : Client) :
    (i.exec c).1.1.mt = c.mt ++
      [i.window .win fmaWindowSize, i.window .put fmaWindowSize, i.window .get fmaWindowSize,
        { i.window .ctrl ghalFmaCtrlSize with length := fmaWindowSize }] := by
  obtain ⟨a, hreq⟩ := h
  have hmalloc := hs.malloc
  rw [Issue.exec_eq]
  simp [handleIoctl, packArgs, packNicSetattr, unpackArgs, unpackNicSetattr, record, hreq,
    exec_attachWindow hs, hmalloc, Issue.window]

/-- A run of one `NIC_SETATTR` among registrations, on which every call succeeds. -/
structure Setup (before : List Issue) (nic : Issue) (after : List Issue) : Prop where
  registers : ∀ i ∈ before ++ after, i.Registers
  attaches : nic.Attaches
  succeeds : ∀ i ∈ before ++ nic :: after, i.Succeeds

section Setup

variable {c : Client} {before after : List Issue} {nic : Issue}

/-- What is mapped when the control window comes to be recorded. -/
def mappedBeforeCtrl (c : Client) (before : List Issue) (nic : Issue) : MemsegList :=
  mapped c before ++
    [nic.window .win fmaWindowSize, nic.window .put fmaWindowSize, nic.window .get fmaWindowSize]

theorem Setup.mapped_eq (h : Setup before nic after) :
    mapped c (before ++ nic :: after) = mappedBeforeCtrl c before nic ++
      nic.window .ctrl ghalFmaCtrlSize :: mapped (nic.exec (run c before)).1.1 after := by
  have hnic := mapped_attaches h.attaches (h.succeeds nic (by simp)) (run c before)
  rw [mapped_append, mapped, hnic, mappedBeforeCtrl]
  simp

theorem Setup.run_eq (h : Setup before nic after) (hc : c.mt = listNew) :
    (run c (before ++ nic :: after)).mt = mappedBeforeCtrl c before nic ++
      { nic.window .ctrl ghalFmaCtrlSize with length := fmaWindowSize } ::
        mapped (nic.exec (run c before)).1.1 after := by
  have hbefore : (run c before).mt = mapped c before := by
    rw [run_registers (fun i hi => h.registers i (List.mem_append_left _ hi))
      (fun i hi => h.succeeds i (List.mem_append_left _ hi)), hc]
    rfl
  have hnic := exec_attaches h.attaches (h.succeeds nic (by simp)) (run c before)
  have hafter := run_registers (fun i hi => h.registers i (List.mem_append_right _ hi))
    (fun i hi => h.succeeds i (by simp [hi])) (nic.exec (run c before)).1.1
  rw [hbefore] at hnic
  rw [hnic] at hafter
  rw [run_append, mappedBeforeCtrl]
  refine hafter.trans ?_
  simp

/-- **The list of segments.**  After such a run every lookup answers for what is
really mapped exactly if everything from the end of the control window to the end
of its entry was mapped before that entry was made. -/
theorem segments_answer_iff (hc : c.mt = listNew) (h : Setup before nic after)
    (hm : WellMapped (mapped c (before ++ nic :: after))) :
    Answers (run c (before ++ nic :: after)).mt (mapped c (before ++ nic :: after)) ↔
      ∀ a, (nic.window .ctrl ghalFmaCtrlSize).address.toNat + ghalFmaCtrlSize.toNat ≤ a →
        a < (nic.window .ctrl ghalFmaCtrlSize).address.toNat + fmaWindowSize.toNat →
          ∃ p ∈ mappedBeforeCtrl c before nic, a ∈ p.range := by
  -- list and mapping differ in the length of one entry only
  rw [answers_iff hm, h.run_eq hc]
  rw [h.mapped_eq] at hm ⊢
  rw [relengthen_iff hm]
  exact covers_longer_iff hm (show 1 < ghalFmaCtrlSize.toNat by decide)
    (show ghalFmaCtrlSize.toNat < fmaWindowSize.toNat by decide)

end Setup

/-! ### Two layouts -/

/-- Where the kernel puts a window in the layouts below. -/
def windowBase : Window → UInt64
  | .win => 0x7f0100000000
  | .put => 0x7f0200000000
  | .get => 0x7f0300000000
  | .ctrl => 0x7f0400000000

def windowSegid : Window → UInt64
  | .win => 1
  | .put => 2
  | .get => 3
  | .ctrl => 4

/-- An outside on which everything succeeds; a buffer gets the id 5. -/
def calmOutside : (o : ClientCall) → o.Ans
  | .malloc => true
  | .mallocInt => 0
  | .xememMake _ _ => 5
  | .xememLookupSegid w => windowSegid w
  | .xememGet _ _ => 1
  | .xememAttachNocache w _ _ => windowBase w
  | .xememRelease _ => ()
  | .xememRemove _ => ()
  | .hcqCmdIssue _ _ => 0
  | .hcqGetRetData _ => 0
  | .retData _ => []
  | .hcqCmdComplete _ => ()
  | .realIoctl _ _ => 0

/-- A client that has opened the device. -/
def freshClient : Client := ⟨listNew, 0, 0, 3, 4⟩

/-- The registration of one buffer. -/
def registerBuffer (addr len : UInt64) : Issue where
  request := .memRegister { (default : GniMemRegisterArgs) with
    segmentsCnt := 1, address := addr, length := len }
  env := calmOutside

/-- `NIC_SETATTR`. -/
def attachWindows : Issue where
  request := .nicSetattr default
  env := calmOutside

theorem calm_succeeds {r : Request} : (⟨r, calmOutside⟩ : Issue).Succeeds := by
  refine ⟨rfl, fun w segid => Int.one_pos, fun w apid size => ?_⟩
  show windowBase w ≠ 0
  cases w <;> decide

/-- A buffer that fills the gap behind the control window, registered first, hides
what is wrong with its entry. -/
theorem segments_answer_hidden :
    Answers
      (run freshClient ([registerBuffer 0x7f0400001000 0x3ffff000] ++ attachWindows :: [])).mt
      (mapped freshClient ([registerBuffer 0x7f0400001000 0x3ffff000] ++ attachWindows :: [])) := by
  have hsetup : Setup [registerBuffer 0x7f0400001000 0x3ffff000] attachWindows [] := by
    refine ⟨?_, ⟨default, rfl⟩, ?_⟩
    · intro i hi
      obtain rfl := List.mem_singleton.mp hi
      exact ⟨_, rfl, rfl⟩
    · intro i hi
      rcases List.mem_pair.mp hi with rfl | rfl
      · exact calm_succeeds
      · exact calm_succeeds
  refine (segments_answer_iff rfl hsetup (by decide)).mpr ?_
  intro a hlow hhigh
  refine ⟨⟨5, 0x7f0400001000, 0x3ffff000⟩, by decide, hlow, hhigh⟩

/-- Registered afterwards, a buffer behind the control window is looked up as the
control window. -/
theorem segments_answer_fails :
    WellMapped (mapped freshClient [attachWindows, registerBuffer 0x7f0400002000 0x1000]) ∧
      listFindSegidByVaddr
        (run freshClient [attachWindows, registerBuffer 0x7f0400002000 0x1000]).mt 0x7f0400002000
          = windowSegid .ctrl ∧
      ¬ Answers (run freshClient [attachWindows, registerBuffer 0x7f0400002000 0x1000]).mt
        (mapped freshClient [attachWindows, registerBuffer 0x7f0400002000 0x1000]) := by
  refine ⟨by decide, by decide, ?_⟩
  intro h
  have hfound := h.inside ⟨5, 0x7f0400002000, 0x1000⟩ (by decide) 0x7f0400002000
    ⟨le_rfl, by decide⟩
  exact absurd hfound (by decide)

end Nvl.Preload

/-
Nvl/Xmem/Heap.lean

`xmem_list.h` with its pointers: nodes on a heap, a head and a tail.

The rest of the development takes the list for the sequence of its entries.  Here
are the functions as they are written, on cells that `malloc` hands out and
`free` takes back, where using a cell that is not allocated is a fault.  The list
is the FIFO queue its comments speak of (`fifo_run`): whatever is added and
removed, and whichever calls of `malloc` fail, no fault occurs, head and tail
belong together, and the chain holds the entries of the queue.  The lookups that
follow the chain find what the lookups on the sequence find (`lookups_isQueue`).
-/
import Nvl.Lib.Chain
import Nvl.Xmem.List

namespace Nvl.Heap

open SysLib

/-! ### The functions -/

/-- A `struct memseg_list` and the heap its nodes are on. -/
structure Store where
  heap : CellHeap XpmemSeg
  head : Option Nat
  tail : Option Nat

/-- What a call prints.  `broken` stands for the messages that something is wrong with
head and tail. -/
inductive Report
  | silent
  | mallocFailed
  | empty
  | broken
  deriving DecidableEq

/-- The outcome of a call; `null` is whether it returned NULL. -/
structure Outcome where
  store : Store
  null : Bool
  report : Report

/-- `list_new`, on a heap where other things may be allocated. -/
def listNew (heap : CellHeap XpmemSeg) : Store := ⟨heap, none, none⟩

/-- `list_add_element`; `p` is the answer of `malloc`, and `none` as a result is a fault. -/
def listAddElement (s : Store) (p : Option Nat) (x : XpmemSeg) : Option Outcome :=
  match p with
  | none => some ⟨s, false, .mallocFailed⟩
  | some a =>
    let heap := Function.update s.heap a (some ⟨x, none⟩)
    match s.head, s.tail with
    | none, none => some ⟨⟨heap, some a, some a⟩, false, .silent⟩
    | some head, some tail =>
      match heap tail with
      | none => none
      | some c =>
        some ⟨⟨Function.update heap tail (some { c with next := some a }), some head, some a⟩,
          false, .silent⟩
    | head, tail => some ⟨⟨Function.update heap a none, head, tail⟩, true, .broken⟩

/-- `list_remove_element`. -/
def listRemoveElement (s : Store) : Option Outcome :=
  match s.head, s.tail with
  | none, none => some ⟨s, false, .empty⟩
  | some h, some tail =>
    match s.heap h with
    | none => none
    | some c =>
      let heap := Function.update s.heap h none
      -- the tail follows only when the list has become empty
      some ⟨⟨heap, c.next, if c.next = none then c.next else some tail⟩, false, .silent⟩
  | _, _ => some ⟨s, false, .broken⟩

/-- `list_free`; `none` is a fault or a loop that goes on after `fuel` tests. -/
def listFree : Nat → Store → Option Outcome
  | 0, _ => none
  | fuel + 1, s =>
    match s.head with
    | none => some ⟨s, false, .silent⟩
    | some _ => (listRemoveElement s).bind fun r => listFree fuel r.store

/-- The loop of both lookups: the first node from `p` on that passes the test.  The
outer `none` is a fault or a loop that goes on. -/
def findFrom (heap : CellHeap XpmemSeg) (test : XpmemSeg → Bool) :
    Nat → Option Nat → Option (Option XpmemSeg)
  | 0, _ => none
  | _ + 1, none => some none
  | fuel + 1, some a => (heap a).bind fun c =>
      if test c.val then some (some c.val) else findFrom heap test fuel c.next

/-- `list_find_segid_by_vaddr`. -/
def listFindSegidByVaddr (fuel : Nat) (s : Store) (addr : UInt64) : Option UInt64 :=
  (findFrom s.heap (fun p => p.covers addr) fuel s.head).map fun p =>
    (p.map XpmemSeg.segid).getD notFound

/-- `list_find_vaddr_by_segid`. -/
def listFindVaddrBySegid (fuel : Nat) (s : Store) (segid : UInt64) : Option UInt64 :=
  (findFrom s.heap (fun p => decide (p.segid = segid)) fuel s.head).map fun p =>
    (p.map XpmemSeg.address).getD notFound

/-! ### Sequences of calls -/

inductive Op
  | add (p : Option Nat) (x : XpmemSeg)
  | remove
  | free

def step (fuel : Nat) (s : Store) : Op → Option Outcome
  | .add p x => listAddElement s p x
  | .remove => listRemoveElement s
  | .free => listFree fuel s

/-- The outcomes of all calls, one after the other. -/
def run (fuel : Nat) (s : Store) : List Op → Option (Store × List Outcome)
  | [] => some (s, [])
  | op :: ops => do
    let r ← step fuel s op
    let (s, rs) ← run fuel r.store ops
    return (s, r :: rs)

/-- What `malloc` returns is not in use. -/
def Op.Fresh (s : Store) : Op → Prop
  | .add (some a) _ => s.heap a = none
  | _ => True

/-- It never is in a sequence of calls. -/
def AllFresh (fuel : Nat) (s : Store) : List Op → Prop
  | [] => True
  | op :: ops => op.Fresh s ∧ ∀ r, step fuel s op = some r → AllFresh fuel r.store ops

instance (s : Store) : DecidablePred (Op.Fresh s)
  | .add (some a) _ => decidable_of_iff ((s.heap a).isNone = true) Option.isNone_iff_eq_none
  | .add none _ => isTrue trivial
  | .remove => isTrue trivial
  | .free => isTrue trivial

instance decidableAllFresh (fuel : Nat) (s : Store) : (ops : List Op) →
    Decidable (AllFresh fuel s ops)
  | [] => isTrue trivial
  | op :: ops =>
    have : Decidable (∀ r, step fuel s op = some r → AllFresh fuel r.store ops) :=
      match step fuel s op with
      | none => isTrue fun _ hr => nomatch hr
      | some r =>
        have := decidableAllFresh fuel r.store ops
        decidable_of_iff (AllFresh fuel r.store ops)
          ⟨fun h _ hr => Option.some.inj hr ▸ h, fun h => h r rfl⟩
    inferInstanceAs (Decidable (op.Fresh s ∧ _))

/-- What the calls are for: a queue of entries. -/
def queueStep (l : MemsegList) : Op → MemsegList
  | .add p x => Nvl.listAddElement l p.isSome x.segid x.address x.length
  | .remove => l.tail
  | .free => Nvl.listNew

def queueOf (ops : List Op) : MemsegList := ops.foldl queueStep Nvl.listNew

/-- The list holds the queue `l`.  Head and tail are NULL together; the pointers lead
from the head through allocated nodes, none of them twice, to NULL, the last one is
the tail, and the entries on the way are those of `l`. -/
structure IsQueue (s : Store) (l : MemsegList) : Prop where
  empty_iff : s.head = none ↔ s.tail = none
  chain : ∃ cells, Chain s.heap s.head cells none ∧ (cells.map Prod.fst).Nodup ∧
    s.tail = cells.getLast?.map Prod.fst ∧ cells.map Prod.snd = l

/-- A call did what it should: nothing is wrong with head and tail, and NULL was not
returned. -/
def Outcome.Fine (r : Outcome) : Prop := r.report ≠ .broken ∧ r.null = false

/-! ### One call -/

section Calls

variable {s : Store} {l : MemsegList}

theorem fine_mk (s : Store) {report : Report} (h : report ≠ .broken) :
    Outcome.Fine ⟨s, false, report⟩ := ⟨h, rfl⟩

/-- The other fields of `IsQueue` follow from the chain and the tail. -/
theorem isQueue_of_chain {cells : List (Nat × XpmemSeg)} (hc : Chain s.heap s.head cells none)
    (htail : s.tail = cells.getLast?.map Prod.fst) (hl : cells.map Prod.snd = l) :
    IsQueue s l := by
  refine ⟨?_, cells, hc, hc.nodup, htail, hl⟩
  cases hcells : cells with
  | nil =>
      rw [hcells] at hc htail
      cases hhead : s.head with
      | none => simp [htail]
      | some a =>
          rw [hhead] at hc
          cases hc
  | cons c cells' =>
      rw [hcells] at hc htail
      have hhead : s.head = some c.1 := by
        cases hhead : s.head with
        | none =>
            rw [hhead] at hc
            cases hc
        | some a =>
            rw [hhead] at hc
            cases hc
            rfl
      simp [hhead, htail]

theorem isQueue_listNew (heap : CellHeap XpmemSeg) : IsQueue (listNew heap) Nvl.listNew :=
  isQueue_of_chain (.nil none) rfl rfl

theorem IsQueue.head_eq_none (h : IsQueue s l) (hhead : s.head = none) : l = [] := by
  obtain ⟨-, cells, hc, -, -, rfl⟩ := h
  rw [hhead] at hc
  cases hc
  rfl

/-- Adding to an empty list. -/
theorem listAddElement_isQueue_nil {heap : CellHeap XpmemSeg} (a : Nat) (x : XpmemSeg) :
    ∃ r, listAddElement ⟨heap, none, none⟩ (some a) x = some r ∧ r.Fine ∧
      IsQueue r.store [x] := by
  refine ⟨_, rfl, fine_mk _ (by decide), ?_⟩
  have hc : Chain (Function.update heap a (some ⟨x, none⟩)) (some a) [(a, x)] none :=
    .cons (Function.update_self _ _ _) (.nil none)
  exact isQueue_of_chain hc rfl rfl

/-- Adding behind a last node `t`. -/
theorem listAddElement_isQueue_concat {front : List (Nat × XpmemSeg)} {t a : Nat}
    {y x : XpmemSeg} (hempty : s.head = none ↔ s.tail = none)
    (hc : Chain s.heap s.head (front ++ [(t, y)]) none) (htail : s.tail = some t)
    (hfresh : s.heap a = none) :
    ∃ r, listAddElement s (some a) x = some r ∧ r.Fine ∧
      IsQueue r.store ((front ++ [(t, y)]).map Prod.snd ++ [x]) := by
  obtain ⟨n, ht⟩ := hc.live (List.mem_append_right _ List.mem_cons_self)
  have hne : t ≠ a := by
    rintro rfl
    rw [hfresh] at ht
    cases ht
  obtain ⟨head, hhead⟩ : ∃ head, s.head = some head := by
    refine Option.ne_none_iff_exists'.mp fun hnone => ?_
    rw [hempty.mp hnone] at htail
    cases htail
  have hcell : Function.update s.heap a (some ⟨x, none⟩) t = some ⟨y, n⟩ := by
    rw [Function.update_of_ne hne]
    exact ht
  refine ⟨⟨⟨Function.update (Function.update s.heap a (some ⟨x, none⟩)) t
    (some ⟨y, some a⟩), s.head, some a⟩, false, .silent⟩, ?_, fine_mk _ (by decide), ?_⟩
  · rw [listAddElement, hhead, htail]
    simp only [hcell]
  · refine isQueue_of_chain (hc.push hfresh) ?_ ?_
    · rw [List.getLast?_append]
      rfl
    · rw [List.map_append]
      rfl

theorem listAddElement_isQueue (h : IsQueue s l) {p : Option Nat} {x : XpmemSeg}
    (hp : (Op.add p x).Fresh s) : ∃ r, listAddElement s p x = some r ∧ r.Fine ∧
      IsQueue r.store (queueStep l (.add p x)) := by
  obtain ⟨hempty, cells, hc, -, htail, rfl⟩ := h
  cases p with
  | none =>
      refine ⟨_, rfl, fine_mk _ (by decide), ?_⟩
      exact isQueue_of_chain hc htail rfl
  | some a =>
      rcases List.eq_nil_or_concat cells with rfl | ⟨front, ⟨t, y⟩, rfl⟩
      · have hs : s = ⟨s.heap, none, none⟩ := by
          rw [List.getLast?_nil, Option.map_none] at htail
          obtain ⟨heap, head, tail⟩ := s
          obtain rfl : tail = none := htail
          obtain rfl : head = none := hempty.mpr rfl
          rfl
        rw [hs]
        exact listAddElement_isQueue_nil a x
      · rw [List.concat_eq_append] at hc htail ⊢
        have htail' : s.tail = some t := by
          rw [htail, List.getLast?_append]
          rfl
        exact listAddElement_isQueue_concat hempty hc htail' hp

theorem listRemoveElement_isQueue (h : IsQueue s l) : ∃ r, listRemoveElement s = some r ∧
    r.Fine ∧ IsQueue r.store l.tail := by
  obtain ⟨hempty, cells, hc, -, htail, rfl⟩ := h
  cases cells with
  | nil =>
      rw [List.getLast?_nil, Option.map_none] at htail
      have hhead := hempty.mpr htail
      refine ⟨⟨s, false, .empty⟩, ?_, fine_mk _ (by decide), isQueue_of_chain hc htail rfl⟩
      rw [listRemoveElement, hhead, htail]
  | cons c cells =>
      obtain ⟨a, x⟩ := c
      have hnodup := hc.nodup
      obtain ⟨n, hhead, ha, hrest⟩ : ∃ n, s.head = some a ∧ s.heap a = some ⟨x, n⟩ ∧
          Chain s.heap n cells none := by
        generalize s.head = head at hc
        cases hc with
        | cons hcell hrest => exact ⟨_, rfl, hcell, hrest⟩
      obtain ⟨t, htail'⟩ : ∃ t, s.tail = some t := by
        refine Option.ne_none_iff_exists'.mp fun hnone => ?_
        rw [hempty.mpr hnone] at hhead
        cases hhead
      refine ⟨⟨⟨Function.update s.heap a none, n, if n = none then n else some t⟩, false,
        .silent⟩, ?_, fine_mk _ (by decide), ?_⟩
      · rw [listRemoveElement, hhead, htail']
        simp only [ha]
      · have ha' : a ∉ cells.map Prod.fst := (List.nodup_cons.mp hnodup).1
        refine isQueue_of_chain (hrest.frame ha' none) ?_ rfl
        -- the last cell stays the last unless it was the only one
        cases cells with
        | nil =>
            cases hrest
            rfl
        | cons d cells =>
            have hn : n ≠ none := by
              rintro rfl
              cases hrest
            rw [if_neg hn, ← htail', htail, List.getLast?_cons_cons]

/-- One test of the loop for each element, and one more. -/
theorem listFree_isQueue (h : IsQueue s l) {fuel : Nat} (hfuel : l.length < fuel) :
    ∃ r, listFree fuel s = some r ∧ r.Fine ∧ IsQueue r.store [] := by
  induction fuel generalizing s l with
  | zero => exact absurd hfuel (Nat.not_lt_zero _)
  | succ fuel ih =>
      cases hhead : s.head with
      | none =>
          obtain rfl := h.head_eq_none hhead
          refine ⟨⟨s, false, .silent⟩, ?_, fine_mk _ (by decide), h⟩
          rw [listFree, hhead]
      | some a =>
          obtain ⟨r, hr, -, hq⟩ := listRemoveElement_isQueue h
          have hne : l ≠ [] := by
            rintro rfl
            obtain ⟨-, cells, hc, -, -, hnil⟩ := h
            obtain rfl := List.map_eq_nil_iff.mp hnil
            rw [hhead] at hc
            cases hc
          have hlen : l.tail.length < fuel := by
            have hpos := List.length_pos_iff.mpr hne
            rw [List.length_tail]
            omega
          obtain ⟨r', hr', hfine, hq'⟩ := ih hq hlen
          refine ⟨r', ?_, hfine, hq'⟩
          rw [listFree, hhead]
          simp only [hr, Option.bind_some]
          exact hr'

theorem step_isQueue (h : IsQueue s l) {fuel : Nat} (hfuel : l.length < fuel) {op : Op}
    (hop : op.Fresh s) :
    ∃ r, step fuel s op = some r ∧ r.Fine ∧ IsQueue r.store (queueStep l op) := by
  cases op with
  | add p x => exact listAddElement_isQueue h hop
  | remove => exact listRemoveElement_isQueue h
  | free => exact listFree_isQueue h hfuel

theorem findFrom_chain {heap : CellHeap XpmemSeg} {p : Option Nat}
    {cells : List (Nat × XpmemSeg)} (hc : Chain heap p cells none) (test : XpmemSeg → Bool)
    {fuel : Nat} (hfuel : cells.length < fuel) :
    findFrom heap test fuel p = some ((cells.map Prod.snd).find? test) := by
  induction fuel generalizing p cells with
  | zero => exact absurd hfuel (Nat.not_lt_zero _)
  | succ fuel ih =>
      cases hc with
      | nil => rfl
      | @cons a x n _ cells hcell hrest =>
          rw [findFrom, hcell, Option.bind_some, List.map_cons]
          by_cases hx : test x = true
          · rw [if_pos hx, List.find?_cons_of_pos hx]
          · rw [if_neg hx, List.find?_cons_of_neg hx]
            exact ih hrest (Nat.lt_of_succ_lt_succ hfuel)

/-- The lookups through the pointers are those on the sequence of entries. -/
theorem lookups_isQueue (h : IsQueue s l) {fuel : Nat} (hfuel : l.length < fuel) :
    (∀ addr, listFindSegidByVaddr fuel s addr = some (Nvl.listFindSegidByVaddr l addr)) ∧
      ∀ segid, listFindVaddrBySegid fuel s segid = some (Nvl.listFindVaddrBySegid l segid) := by
  obtain ⟨-, cells, hc, -, -, rfl⟩ := h
  rw [List.length_map] at hfuel
  constructor
  · intro addr
    rw [listFindSegidByVaddr, findFrom_chain hc _ hfuel, listFindSegidByVaddr_eq]
    rfl
  · intro segid
    rw [listFindVaddrBySegid, findFrom_chain hc _ hfuel, listFindVaddrBySegid_eq]
    rfl

/-! ### All calls -/

theorem length_queueStep_le (l : MemsegList) (op : Op) :
    (queueStep l op).length ≤ l.length + 1 := by
  cases op with
  | add p x => cases p <;> simp [queueStep, Nvl.listAddElement]
  | remove => simp only [queueStep, List.length_tail]; omega
  | free => exact Nat.zero_le _

theorem run_isQueue (h : IsQueue s l) {fuel : Nat} {ops : List Op}
    (hfuel : l.length + ops.length < fuel) (hm : AllFresh fuel s ops) :
    ∃ s' rs, run fuel s ops = some (s', rs) ∧ (∀ r ∈ rs, r.Fine) ∧
      IsQueue s' (ops.foldl queueStep l) := by
  induction ops generalizing s l with
  | nil => exact ⟨s, [], rfl, fun r hr => (nomatch hr), h⟩
  | cons op ops ih =>
      rw [List.length_cons] at hfuel
      obtain ⟨r, hr, hfine, hq⟩ := step_isQueue h (by omega : l.length < fuel) hm.1
      have hlen := length_queueStep_le l op
      obtain ⟨s', rs, hrs, hfines, hq'⟩ := ih hq (by omega) (hm.2 r hr)
      refine ⟨s', r :: rs, ?_, ?_, hq'⟩
      · simp only [run, hr, Option.bind_eq_bind, Option.bind_some, hrs]
        rfl
      · intro r' hr'
        rcases List.mem_cons.mp hr' with rfl | hr'
        · exact hfine
        · exact hfines r' hr'

end Calls

/-- **The list is a FIFO queue.**  After any sequence of calls on a new list, with any
answers of `malloc`, the list holds the queue of what was added and not yet removed.
No call met a node that was not allocated, found head and tail in disagreement or
returned NULL, and every loop of `list_free` has ended. -/
theorem fifo_run (heap : CellHeap XpmemSeg) {fuel : Nat} {ops : List Op}
    (hfuel : ops.length < fuel) (hm : AllFresh fuel (listNew heap) ops) :
    ∃ s rs, run fuel (listNew heap) ops = some (s, rs) ∧ (∀ r ∈ rs, r.Fine) ∧
      IsQueue s (queueOf ops) := by
  refine run_isQueue (isQueue_listNew heap) ?_ hm
  exact (Nat.zero_add _).symm ▸ hfuel

/-- Two entries are added, one is removed; the list is freed and used again, with a
node that it had before. -/
def useAgain : List Op :=
  [.add (some 1) ⟨5, 0x1000, 16⟩, .add none ⟨6, 0x2000, 16⟩, .add (some 2) ⟨7, 0x3000, 16⟩,
    .remove, .free, .remove, .add (some 1) ⟨8, 0x4000, 16⟩]

theorem fifo_run_useAgain : queueOf useAgain = [⟨8, 0x4000, 16⟩] ∧
    ∃ s rs, run 10 (listNew fun _ => none) useAgain = some (s, rs) ∧ (∀ r ∈ rs, r.Fine) ∧
      IsQueue s [⟨8, 0x4000, 16⟩] := by
  exact ⟨rfl, fifo_run (fun _ => none) (by decide) (by decide)⟩

end Nvl.Heap

/-
Nvl/Lib/Records.lean

Records that are lent out and used again.

Every request gets a ticket, `take`n with a record that nobody holds; the answer is
`put` into that record, and `free` gives the record back, for whoever takes it
next.  What a record holds is only worth something to the holder of its ticket:
`Answered q c` says that the record of `c` is still lent to `c` and holds the
answer to `c`.

The frame lemmas say that nothing done with one ticket disturbs another, because
two tickets never share a record (`Owned.record_ne`).
-/
import Mathlib.Logic.Function.Basic

namespace SysLib

/-- Records and tickets.  `owner` is the ticket a record is lent to, `record` the
record of a ticket, and `reply` keeps every answer that was given. -/
structure Records (α : Type) where
  next : Nat
  owner : Nat → Option Nat
  contents : Nat → α
  record : Nat → Nat
  reply : Nat → Option α

namespace Records

variable {α : Type} (q : Records α)

/-- A new ticket, with the record `slot`; what was in it is overwritten. -/
def take (slot : Nat) (x : α) : Records α where
  next := q.next + 1
  owner := Function.update q.owner slot (some q.next)
  contents := Function.update q.contents slot x
  record := Function.update q.record q.next slot
  reply := Function.update q.reply q.next none

/-- The answer to `c`. -/
def put (c : Nat) (x : α) : Records α :=
  { q with
    contents := Function.update q.contents (q.record c) x
    reply := Function.update q.reply c (some x) }

/-- The record of `c` is free again. -/
def free (c : Nat) : Records α :=
  { q with owner := Function.update q.owner (q.record c) none }

/-- The record of `c` is lent to `c`. -/
structure Owned (c : Nat) : Prop where
  owner : q.owner (q.record c) = some c
  old : c < q.next

/-- And it holds the answer to `c`. -/
structure Answered (c : Nat) : Prop extends Owned q c where
  reply : q.reply c = some (q.contents (q.record c))

variable {q} {c d slot : Nat} {x : α}

/-- Two tickets never share a record. -/
theorem Owned.record_ne (hc : q.Owned c) (hd : q.Owned d) (hne : c ≠ d) :
    q.record c ≠ q.record d := by
  intro hrec
  apply hne
  apply Option.some.inj
  rw [← hc.owner, hrec, hd.owner]

theorem Owned.ne_slot (hc : q.Owned c) (hslot : q.owner slot = none) : q.record c ≠ slot := by
  rintro rfl
  rw [hc.owner] at hslot
  cases hslot

theorem record_take (hc : c < q.next) : (q.take slot x).record c = q.record c :=
  Function.update_of_ne (Nat.ne_of_lt hc) _ _

theorem reply_take (hc : c < q.next) : (q.take slot x).reply c = q.reply c :=
  Function.update_of_ne (Nat.ne_of_lt hc) _ _

theorem reply_put (hne : c ≠ d) : (q.put d x).reply c = q.reply c :=
  Function.update_of_ne hne _ _

/-- A ticket that waits for its answer is none that has it. -/
theorem Answered.ne (hc : q.Answered c) (hd : q.reply d = none) : c ≠ d := by
  rintro rfl
  rw [hc.reply] at hd
  cases hd

theorem owned_take (slot : Nat) (x : α) : (q.take slot x).Owned q.next := by
  constructor
  · show Function.update q.owner slot (some q.next) (Function.update q.record q.next slot q.next)
      = some q.next
    rw [Function.update_self, Function.update_self]
  · exact Nat.lt_succ_self _

theorem Owned.take (hc : q.Owned c) (hslot : q.owner slot = none) : (q.take slot x).Owned c := by
  refine ⟨?_, Nat.lt_succ_of_lt hc.old⟩
  rw [record_take hc.old]
  exact (Function.update_of_ne (hc.ne_slot hslot) _ _).trans hc.owner

theorem Answered.take (hc : q.Answered c) (hslot : q.owner slot = none) :
    (q.take slot x).Answered c := by
  refine ⟨hc.toOwned.take hslot, ?_⟩
  rw [record_take hc.old]
  show Function.update q.reply q.next none c
    = some (Function.update q.contents slot x (q.record c))
  rw [Function.update_of_ne (Nat.ne_of_lt hc.old), Function.update_of_ne (hc.ne_slot hslot),
    hc.reply]

theorem Owned.put (hc : q.Owned c) : (q.put d x).Owned c := ⟨hc.owner, hc.old⟩

theorem answered_put (hc : q.Owned c) : (q.put c x).Answered c := by
  refine ⟨hc.put, ?_⟩
  show Function.update q.reply c (some x) c
    = some (Function.update q.contents (q.record c) x (q.record c))
  rw [Function.update_self, Function.update_self]

theorem Answered.put (hc : q.Answered c) (hd : q.Owned d) (hne : c ≠ d) :
    (q.put d x).Answered c := by
  refine ⟨hc.toOwned.put, ?_⟩
  show Function.update q.reply d (some x) c
    = some (Function.update q.contents (q.record d) x (q.record c))
  rw [Function.update_of_ne hne, Function.update_of_ne (hc.record_ne hd hne), hc.reply]

theorem Owned.free (hc : q.Owned c) (hd : q.Owned d) (hne : c ≠ d) : (q.free d).Owned c :=
  ⟨(Function.update_of_ne (hc.record_ne hd hne) _ _).trans hc.owner, hc.old⟩

theorem Answered.free (hc : q.Answered c) (hd : q.Owned d) (hne : c ≠ d) :
    (q.free d).Answered c := ⟨hc.toOwned.free hd hne, hc.reply⟩

end Records

end SysLib

/-
Nvl/Lib/Codec.lean

Fixed-size byte layouts.

A `Codec α` lays a value out in exactly `size` bytes and reads it back.  The
two round trips are fields, so a layout that loses a byte cannot be written
down: every byte of the block belongs to the value.  Structures are laid out
field by field with `prod` and named with `ofEquiv`; padding between fields is
a field of its own, since a block copy moves it with the rest.

`overlay n src dst` is the block copy of `n` bytes onto the front of `dst`.
-/
import Mathlib.Logic.Equiv.Basic
import Mathlib.Tactic.Ring

namespace SysLib

/-- Bytes in memory order. -/
abbrev Bytes : Type := List UInt8

/-! ### Little-endian naturals -/

/-- The low `n` bytes of `x`, least significant first. -/
def leBytes : Nat → Nat → Bytes
  | 0, _ => []
  | n + 1, x => UInt8.ofNat x :: leBytes n (x / 256)

/-- The number whose little-endian bytes are given. -/
def ofLeBytes : Bytes → Nat
  | [] => 0
  | b :: bs => b.toNat + 256 * ofLeBytes bs

@[simp] theorem length_leBytes (n x : Nat) : (leBytes n x).length = n := by
  induction n generalizing x with
  | zero => rfl
  | succ n ih => simp [leBytes, ih]

theorem ofLeBytes_leBytes (n x : Nat) : ofLeBytes (leBytes n x) = x % 256 ^ n := by
  induction n generalizing x with
  | zero => simp [leBytes, ofLeBytes, Nat.mod_one]
  | succ n ih =>
      simp only [leBytes, ofLeBytes, ih, UInt8.toNat_ofNat']
      have hpow : 256 ^ (n + 1) = 256 * 256 ^ n := by ring
      rw [hpow, Nat.mod_mul]

theorem ofLeBytes_lt (bs : Bytes) : ofLeBytes bs < 256 ^ bs.length := by
  induction bs with
  | nil => simp [ofLeBytes]
  | cons b bs ih =>
      have hb := b.toNat_lt
      have hpow : 256 ^ (bs.length + 1) = 256 * 256 ^ bs.length := by ring
      simp only [ofLeBytes, List.length_cons, hpow]
      omega

theorem leBytes_ofLeBytes (bs : Bytes) : leBytes bs.length (ofLeBytes bs) = bs := by
  induction bs with
  | nil => rfl
  | cons b bs ih =>
      have hb := b.toNat_lt
      have hdiv : (b.toNat + 256 * ofLeBytes bs) / 256 = ofLeBytes bs := by omega
      have hhead : UInt8.ofNat (b.toNat + 256 * ofLeBytes bs) = b := by
        apply UInt8.toNat_inj.mp
        simp only [UInt8.toNat_ofNat']
        omega
      simp only [List.length_cons, ofLeBytes, leBytes, hdiv, hhead, ih]

/-! ### Codecs -/

/-- A layout of `α` in exactly `size` bytes, with both round trips. -/
structure Codec (α : Type) where
  size : Nat
  encode : α → Bytes
  decode : Bytes → α
  length_encode : ∀ a, (encode a).length = size
  decode_encode : ∀ a, decode (encode a) = a
  encode_decode : ∀ bs, bs.length = size → encode (decode bs) = bs

attribute [simp] Codec.length_encode Codec.decode_encode

namespace Codec

variable {α β : Type}

/-- Two layouts one after the other. -/
def prod (c : Codec α) (d : Codec β) : Codec (α × β) where
  size := c.size + d.size
  encode := fun p => c.encode p.1 ++ d.encode p.2
  decode := fun bs => (c.decode (bs.take c.size), d.decode (bs.drop c.size))
  length_encode := by simp
  decode_encode := by
    rintro ⟨a, b⟩
    have hl : (c.encode a).length = c.size := c.length_encode a
    simp only [List.take_left' hl, List.drop_left' hl, decode_encode]
  encode_decode := by
    intro bs hbs
    have ht : (bs.take c.size).length = c.size := by
      rw [List.length_take]; omega
    have hd : (bs.drop c.size).length = d.size := by
      rw [List.length_drop]; omega
    simp only [c.encode_decode _ ht, d.encode_decode _ hd, List.take_append_drop]

/-- Rename the values of a layout. -/
def ofEquiv (c : Codec α) (e : β ≃ α) : Codec β where
  size := c.size
  encode := fun b => c.encode (e b)
  decode := fun bs => e.symm (c.decode bs)
  length_encode := by simp
  decode_encode := by simp
  encode_decode := by
    intro bs hbs
    simp only [Equiv.apply_symm_apply, c.encode_decode bs hbs]

/-- An unsigned word of `n` bytes, little-endian, given its two conversions. -/
def word (n : Nat) (toNat : α → Nat) (ofNat : Nat → α)
    (hlt : ∀ a, toNat a < 256 ^ n) (hof : ∀ a, ofNat (toNat a) = a)
    (hto : ∀ x, x < 256 ^ n → toNat (ofNat x) = x) : Codec α where
  size := n
  encode := fun a => leBytes n (toNat a)
  decode := fun bs => ofNat (ofLeBytes bs)
  length_encode := by simp
  decode_encode := by
    intro a
    rw [ofLeBytes_leBytes, Nat.mod_eq_of_lt (hlt a), hof]
  encode_decode := by
    intro bs hbs
    have hb := ofLeBytes_lt bs
    rw [hbs] at hb
    rw [hto _ hb, ← hbs, leBytes_ofLeBytes]

/-- One byte. -/
def u8 : Codec UInt8 :=
  word 1 UInt8.toNat UInt8.ofNat (fun a => a.toNat_lt) (fun a => by simp)
    (fun x hx => by rw [UInt8.toNat_ofNat']; exact Nat.mod_eq_of_lt hx)

/-- Two bytes, little-endian. -/
def u16 : Codec UInt16 :=
  word 2 UInt16.toNat UInt16.ofNat (fun a => a.toNat_lt) (fun a => by simp)
    (fun x hx => by rw [UInt16.toNat_ofNat']; exact Nat.mod_eq_of_lt hx)

/-- Four bytes, little-endian. -/
def u32 : Codec UInt32 :=
  word 4 UInt32.toNat UInt32.ofNat (fun a => a.toNat_lt) (fun a => by simp)
    (fun x hx => by rw [UInt32.toNat_ofNat']; exact Nat.mod_eq_of_lt hx)

/-- Eight bytes, little-endian. -/
def u64 : Codec UInt64 :=
  word 8 UInt64.toNat UInt64.ofNat (fun a => a.toNat_lt) (fun a => by simp)
    (fun x hx => by rw [UInt64.toNat_ofNat']; exact Nat.mod_eq_of_lt hx)

/-- Decoding reads only the first `size` bytes of an encoding and its rest. -/
theorem decode_take_append (c : Codec α) (a : α) (rest : Bytes) :
    c.decode ((c.encode a ++ rest).take c.size) = a := by
  rw [List.take_left' (c.length_encode a), c.decode_encode]

/-- The second of two encodings laid end to end. -/
theorem decode_drop_append (c : Codec α) (d : Codec β) (a : α) (b : β) :
    d.decode (((c.encode a ++ d.encode b).drop c.size).take d.size) = b := by
  rw [List.drop_left' (c.length_encode a), List.take_of_length_le (le_of_eq (d.length_encode b)),
    d.decode_encode]

end Codec

/-! ### Block copies -/

/-- Copy `n` bytes of `src` onto the front of `dst`. -/
def overlay (n : Nat) (src dst : Bytes) : Bytes :=
  src.take n ++ dst.drop n

end SysLib

/-
Nvl/Host/GuestCommand.lean

How a command word of the guest is told from a native one.

Palacios adds `IOCTL_CMD_PALACIOS` to the guest's word before it calls into the
driver (`os_debug.c`), and `kgni_ioctl` takes a word below `IOCTL_CMD_RANGE` for
one of these and subtracts the constant again (`kgni_main.c`).  Both constants
are negative `int`s and the driver's word is unsigned, so the comparison is with
`2^32 - 1200000000`.  The guest's words come back intact, but the direction bits
decide on which side of the limit a native word lies: only `_IOWR` words are
large enough.
-/
import Nvl.Gni.Ioctl

namespace Nvl.Host

/-- `IOCTL_CMD_PALACIOS`. -/
def ioctlCmdPalacios : Int32 := -1000000000

/-- `IOCTL_CMD_RANGE`. -/
def ioctlCmdRange : Int32 := -1200000000

/-- The word `handle_kgniioctl` hands to `kgni_ioctl`: `rdx` is cut to an `int`,
the constant is added, and the sum becomes the driver's `unsigned int`. -/
def guestWord (rdx : UInt64) : UInt32 :=
  (rdx.toUInt32.toInt32 + ioctlCmdPalacios).toUInt32

/-- The test at the top of `kgni_ioctl`: the word to dispatch on, and whether
the call is marked as one of the guest. -/
def detectGuest (cmd : UInt32) : UInt32 × Bool :=
  if cmd < ioctlCmdRange.toUInt32 then (cmd - ioctlCmdPalacios.toUInt32, true)
  else (cmd, false)

/-- A command word of the GNI family. -/
def gniWord (dir : IocDir) (nr : UInt8) (args : GniArgs) : UInt32 :=
  ioc dir.bits gniIocMagic nr.toUInt32 args.sizeof

/-- The part of a word below its direction bits. -/
def belowDir (nr : UInt8) (args : GniArgs) : Nat :=
  args.sizeof.toNat * 2 ^ 16 + (gniIocMagic.toNat * 2 ^ 8 + nr.toNat)

theorem toNat_gniWord (dir : IocDir) (nr : UInt8) (args : GniArgs) :
    (gniWord dir nr args).toNat = dir.bits.toNat * 2 ^ 30 + belowDir nr args := by
  have hd : dir.bits.toNat < 2 ^ 2 := by cases dir <;> decide
  have hs : args.sizeof.toNat < 2 ^ 14 := lt_of_le_of_lt args.sizeof_le (by decide)
  have hn : nr.toUInt32.toNat < 2 ^ 8 := by
    rw [UInt8.toNat_toUInt32]
    exact nr.toNat_lt
  have hword := toNat_ioc hd (show gniIocMagic.toNat < 2 ^ 8 by decide) hn hs
  rw [UInt8.toNat_toUInt32] at hword
  exact hword

/-- No argument structure is large enough to reach the direction bits. -/
theorem belowDir_lt (nr : UInt8) (args : GniArgs) : belowDir nr args < 2 ^ 25 := by
  have hn : nr.toNat ≤ 255 := Nat.le_of_lt_succ nr.toNat_lt
  calc belowDir nr args
      ≤ 416 * 2 ^ 16 + (gniIocMagic.toNat * 2 ^ 8 + 255) :=
        Nat.add_le_add (Nat.mul_le_mul_right _ args.sizeof_le) (Nat.add_le_add_left hn _)
    _ < 2 ^ 25 := by decide

/-- A word is marked exactly when it lies below the limit. -/
theorem detectGuest_snd (cmd : UInt32) :
    (detectGuest cmd).2 = true ↔ cmd.toNat < 3094967296 := by
  rw [show (3094967296 : Nat) = ioctlCmdRange.toUInt32.toNat from rfl, ← UInt32.lt_iff_toNat_lt,
    detectGuest]
  split <;> simp_all

/-- A native word keeps its meaning exactly when it is not below the limit. -/
theorem detectGuest_native_iff (cmd : UInt32) :
    detectGuest cmd = (cmd, false) ↔ 3094967296 ≤ cmd.toNat := by
  rw [← not_lt, ← detectGuest_snd]
  constructor
  · intro h
    rw [h]
    exact Bool.false_ne_true
  · intro h
    rw [detectGuest, if_neg]
    intro hlt
    rw [detectGuest, if_pos hlt] at h
    exact h rfl

theorem guestWord_eq (rdx : UInt64) :
    guestWord rdx = rdx.toUInt32 + ioctlCmdPalacios.toUInt32 := by
  simp [guestWord]

/-- A word of at least `10^9` comes out of the addition smaller by that much. -/
theorem toNat_guestWord {rdx : UInt64} (h : 1000000000 ≤ rdx.toUInt32.toNat) :
    (guestWord rdx).toNat = rdx.toUInt32.toNat - 1000000000 := by
  have hlt := rdx.toUInt32.toNat_lt
  rw [guestWord_eq, UInt32.toNat_add, show ioctlCmdPalacios.toUInt32.toNat = 3294967296 from rfl]
  omega

/-- A guest's word below the limit comes back as it was sent, marked. -/
theorem detectGuest_guestWord {rdx : UInt64} (h : (guestWord rdx).toNat < 3094967296) :
    detectGuest (guestWord rdx) = (rdx.toUInt32, true) := by
  rw [← detectGuest_snd] at h
  rw [detectGuest] at h ⊢
  split at h
  · rename_i hlt
    rw [if_pos hlt, guestWord_eq, UInt32.add_sub_cancel]
  · exact absurd h Bool.false_ne_true

/-- The guest's half: every GNI word makes the round trip. -/
theorem guest_roundTrip (dir : IocDir) (nr : UInt8) (args : GniArgs) {rdx : UInt64}
    (h : rdx.toUInt32 = gniWord dir nr args) :
    detectGuest (guestWord rdx) = (gniWord dir nr args, true) := by
  have hlow := belowDir_lt nr args
  have hbits : 1 ≤ dir.bits.toNat ∧ dir.bits.toNat ≤ 3 := by cases dir <;> decide
  have hword : rdx.toUInt32.toNat = dir.bits.toNat * 2 ^ 30 + belowDir nr args := by
    rw [h, toNat_gniWord]
  have hge : 1000000000 ≤ rdx.toUInt32.toNat := by omega
  rw [← h]
  refine detectGuest_guestWord ?_
  rw [toNat_guestWord hge]
  omega

/-- The host's half: only `_IOWR` words lie above the limit. -/
theorem native_kept_iff (dir : IocDir) (nr : UInt8) (args : GniArgs) :
    detectGuest (gniWord dir nr args) = (gniWord dir nr args, false) ↔ dir = .iowr := by
  have hlow := belowDir_lt nr args
  rw [detectGuest_native_iff, toNat_gniWord]
  cases dir with
  | iow => simpa [IocDir.bits] using (by omega : 2 ^ 30 + belowDir nr args < 3094967296)
  | ior => simpa [IocDir.bits] using (by omega : 2 * 2 ^ 30 + belowDir nr args < 3094967296)
  | iowr => simpa [IocDir.bits] using (by omega : 3094967296 ≤ 3 * 2 ^ 30 + belowDir nr args)

/-- **Round trip of command words.**  A GNI word is dispatched unchanged and
unmarked when a host process issues it, and unchanged and marked when the guest
does, exactly if it is an `_IOWR` word. -/
theorem gniWord_roundTrip_iff (dir : IocDir) (nr : UInt8) (args : GniArgs) :
    (detectGuest (gniWord dir nr args) = (gniWord dir nr args, false) ∧
      ∀ rdx : UInt64, rdx.toUInt32 = gniWord dir nr args →
        detectGuest (guestWord rdx) = (gniWord dir nr args, true)) ↔ dir = .iowr := by
  rw [← native_kept_iff dir nr args]
  constructor
  · rintro ⟨hnative, -⟩
    exact hnative
  · intro hnative
    exact ⟨hnative, fun rdx h => guest_roundTrip dir nr args h⟩

/-- The driver's own `_IOR` command, issued by a host process, is taken for one
of the guest and dispatched on another word. -/
theorem gniWord_roundTrip_epPostdataTest_fails :
    gniWord .ior 5 .epPostdataTest = gniIocEpPostdataTest ∧
      detectGuest gniIocEpPostdataTest = (0xbbcb1105, true) ∧
      ¬ detectGuest gniIocEpPostdataTest = (gniIocEpPostdataTest, false) := by
  decide

end Nvl.Host

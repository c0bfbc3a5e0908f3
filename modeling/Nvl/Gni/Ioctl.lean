/-
Nvl/Gni/Ioctl.lean

The ioctl command words: the `_IOC` packing of `linux/ioctl.h`, the sizes of
the argument structures of `gni_priv.h` (x86-64 layout, Gemini target), and the
command words `GNI_IOC_*` and `PMI_IOC_*` built from them.

A command word packs four fields into 32 bits: direction (2 bits), argument
size (14), type byte (8) and number (8).  `toNat_ioc` reads the word as the
sum of its shifted fields, which is how every later bound on it is obtained.
-/
import Nvl.Lib.Fields

namespace Nvl

open SysLib

/-! ### The `_IOC` packing -/

/-- `_IOC(dir, type, nr, size)`. -/
def ioc (dir type nr size : UInt32) : UInt32 :=
  (dir <<< 30) ||| (type <<< 8) ||| (nr <<< 0) ||| (size <<< 16)

/-- Direction bits of a command word: `_IOC_WRITE` is 1 and `_IOC_READ` is 2. -/
inductive IocDir
  | iow
  | ior
  | iowr
  deriving DecidableEq

/-- The two direction bits. -/
def IocDir.bits : IocDir → UInt32
  | .iow => 1
  | .ior => 2
  | .iowr => 3

/-- `_IOC_TYPE`. -/
def iocType (cmd : UInt32) : UInt32 := (cmd >>> 8) &&& 0xff

/-- `_IOC_SIZE`. -/
def iocSize (cmd : UInt32) : UInt32 := (cmd >>> 16) &&& 0x3fff

/-- A command word whose fields fit is the sum of its shifted fields. -/
theorem toNat_ioc {dir type nr size : UInt32} (hd : dir.toNat < 2 ^ 2) (ht : type.toNat < 2 ^ 8)
    (hn : nr.toNat < 2 ^ 8) (hs : size.toNat < 2 ^ 14) :
    (ioc dir type nr size).toNat
      = dir.toNat * 2 ^ 30 + (size.toNat * 2 ^ 16 + (type.toNat * 2 ^ 8 + nr.toNat)) := by
  have s1 : (dir <<< 30).toNat = dir.toNat <<< 30 := toNat_shiftLeft_of_lt rfl hd le_rfl
  have s2 : (type <<< 8).toNat = type.toNat <<< 8 := toNat_shiftLeft_of_lt rfl ht (by decide)
  have s3 : (nr <<< 0).toNat = nr.toNat <<< 0 := toNat_shiftLeft_of_lt rfl hn (by decide)
  have s4 : (size <<< 16).toNat = size.toNat <<< 16 := toNat_shiftLeft_of_lt rfl hs (by decide)
  have hlow : type.toNat * 2 ^ 8 + nr.toNat < 2 ^ 16 := field_lt ht hn
  have hmid : size.toNat * 2 ^ 16 + (type.toNat * 2 ^ 8 + nr.toNat) < 2 ^ 30 := field_lt hs hlow
  -- bring the fields into the order of their shifts, lowest first
  have reorder : ((dir.toNat <<< 30 ||| type.toNat <<< 8) ||| nr.toNat) ||| size.toNat <<< 16
      = ((nr.toNat ||| type.toNat <<< 8) ||| size.toNat <<< 16) ||| dir.toNat <<< 30 := by
    rw [Nat.or_assoc (dir.toNat <<< 30), Nat.or_assoc (dir.toNat <<< 30),
      Nat.or_comm (dir.toNat <<< 30), Nat.or_comm (type.toNat <<< 8)]
  rw [ioc, UInt32.toNat_or, UInt32.toNat_or, UInt32.toNat_or, s1, s2, s3, s4, Nat.shiftLeft_zero,
    reorder, or_shiftLeft_of_lt _ hn, or_shiftLeft_of_lt _ hlow, or_shiftLeft_of_lt _ hmid]

/-! ### Argument structures -/

/-- The argument structures of the GNI commands (`gni_priv.h`). -/
inductive GniArgs
  | nicSetattr
  | nicFmaconfig
  | epPostdata
  | epPostdataTest
  | epPostdataTerm
  | memRegister
  | memRegisterNoxargs
  | memDeregister
  | cqCreate
  | cqCreateNoInterrupt
  | cqCreateWithInterrupt
  | cqDestroy
  | cqWaitEvent
  | cqSingleWaitEvent
  | postRdma
  | nicVmdhconfig
  | nicNttconfig
  | nicJobconfig
  | fmaSetpriv
  | subscribeErrors
  | releaseErrors
  | setErrorMask
  | getErrorEvent
  | waitErrorEvents
  | setErrorPtag
  | cdmBarr
  | nicNttjobConfig
  | dlaSetattr
  | vceMgmt
  | vceConfig
  | flbteSetattr
  | fmaAssign
  | fmaUmap
  | memQueryHndls
  | srWaitEvent
  | compChanCreate
  | compChanAttach
  | compChanCqarm
  deriving DecidableEq

/-- `sizeof` of each argument structure, padding included. -/
def GniArgs.sizeof : GniArgs → UInt32
  | nicSetattr => 64
  | nicFmaconfig => 16
  | epPostdata => 40
  | epPostdataTest => 48
  | epPostdataTerm => 24
  | memRegister => 80
  | memRegisterNoxargs => 64
  | memDeregister => 16
  | cqCreate => 88
  | cqCreateNoInterrupt => 56
  | cqCreateWithInterrupt => 72
  | cqDestroy => 8
  | cqWaitEvent => 32
  | cqSingleWaitEvent => 24
  | postRdma => 40
  | nicVmdhconfig => 4
  | nicNttconfig => 24
  | nicJobconfig => 24
  | fmaSetpriv => 4
  | subscribeErrors => 12
  | releaseErrors => 4
  | setErrorMask => 8
  | getErrorEvent => 56
  | waitErrorEvents => 24
  | setErrorPtag => 8
  | cdmBarr => 8
  | nicNttjobConfig => 48
  | dlaSetattr => 56
  | vceMgmt => 8
  | vceConfig => 416
  | flbteSetattr => 32
  | fmaAssign => 88
  | fmaUmap => 40
  | memQueryHndls => 32
  | srWaitEvent => 24
  | compChanCreate => 4
  | compChanAttach => 24
  | compChanCqarm => 16

/-- No argument structure is larger than `gni_vce_config_args_t`. -/
theorem GniArgs.sizeof_le (a : GniArgs) : a.sizeof.toNat ≤ 416 := by
  cases a <;> decide

/-! ### The command words -/

/-- `GNI_IOC_MAGIC`, the letter G. -/
def gniIocMagic : UInt32 := 0x47

/-- `_IOWR(GNI_IOC_MAGIC, nr, args)`. -/
def gniIowr (nr : UInt32) (args : GniArgs) : UInt32 :=
  ioc IocDir.iowr.bits gniIocMagic nr args.sizeof

def gniIocNicSetattr : UInt32 := gniIowr 1 .nicSetattr
def gniIocNicFmaConfig : UInt32 := gniIowr 2 .nicFmaconfig
def gniIocEpPostdata : UInt32 := gniIowr 4 .epPostdata

/-- The one GNI command that is declared `_IOR`. -/
def gniIocEpPostdataTest : UInt32 :=
  ioc IocDir.ior.bits gniIocMagic 5 GniArgs.epPostdataTest.sizeof

def gniIocEpPostdataWait : UInt32 := gniIowr 6 .epPostdataTest
def gniIocEpPostdataTerminate : UInt32 := gniIowr 7 .epPostdataTerm
def gniIocMemRegister : UInt32 := gniIowr 8 .memRegister
def gniIocMemOldRegister : UInt32 := gniIowr 8 .memRegisterNoxargs
def gniIocMemDeregister : UInt32 := gniIowr 10 .memDeregister
def gniIocCqCreate : UInt32 := gniIowr 11 .cqCreate
def gniIocCqOldCreate : UInt32 := gniIowr 11 .cqCreateNoInterrupt
def gniIocCqDestroy : UInt32 := gniIowr 12 .cqDestroy
def gniIocCqWaitEvent : UInt32 := gniIowr 13 .cqWaitEvent
def gniIocCqOldWaitEvent : UInt32 := gniIowr 13 .cqSingleWaitEvent
def gniIocPostRdma : UInt32 := gniIowr 14 .postRdma
def gniIocNicVmdhConfig : UInt32 := gniIowr 15 .nicVmdhconfig
def gniIocNicNttConfig : UInt32 := gniIowr 16 .nicNttconfig
def gniIocNicJobconfig : UInt32 := gniIowr 17 .nicJobconfig
def gniIocCdmBarr : UInt32 := gniIowr 26 .cdmBarr
def gniIocNicNttjobConfig : UInt32 := gniIowr 27 .nicNttjobConfig
def gniIocDlaSetattr : UInt32 := gniIowr 28 .dlaSetattr
def gniIocFlbteSetattr : UInt32 := gniIowr 32 .flbteSetattr
def gniIocFmaAssign : UInt32 := gniIowr 33 .fmaAssign
def gniIocFmaUmap : UInt32 := gniIowr 34 .fmaUmap
def gniIocMemQueryHndls : UInt32 := gniIowr 36 .memQueryHndls

/-- `PMI_IOC_MAGIC`, the letter P. -/
def pmiIocMagic : UInt32 := 0x50

/-- `_IOWR(PMI_IOC_MAGIC, nr, t)` for an argument of `size` bytes. -/
def pmiIowr (nr size : UInt32) : UInt32 := ioc IocDir.iowr.bits pmiIocMagic nr size

def pmiIocAllgather : UInt32 := pmiIowr 1 32
def pmiIocGetsize : UInt32 := pmiIowr 2 4
def pmiIocGetrank : UInt32 := pmiIowr 3 4
def pmiIocFinalize : UInt32 := pmiIowr 4 8
def pmiIocBarrier : UInt32 := pmiIowr 5 8
def pmiIocMalloc : UInt32 := pmiIowr 6 8

example : gniIocNicSetattr = 0xc0404701 := by decide

end Nvl

import Mathlib.Data.Nat.Bitwise
import Kdump.Lib.Word

/-!
# Architecture — the constants of `calibrate.cc`

One block of macros for each architecture, the macros all architectures share, and
`align_memmap`.  All sizes are in KiB.
-/

namespace Kdump
namespace Calibrate

open Lib

/-- `MB(x)`: from MiB to KiB. -/
def MB (x : Nat) : Nat :=
  x * 1024

/-! ## Blocks -/

/-- The macros that one architecture defines, and its `sizeof(long)`. -/
structure Block where
  DEF_RESERVE_KB : Nat
  KERNEL_KB : Nat
  KERNEL_INIT_KB : Nat
  INIT_KB : Nat
  INIT_NET_KB : Nat
  SIZE_STRUCT_PAGE : Nat
  KDUMP_PHYS_LOAD : Nat
  CAN_REDUCE_CPUS : Bool
  PERCPU_KB : Nat
  sizeof_long : Nat

/-- The architectures, in the order of the source. -/
inductive Arch where
  | x86_64 | i386 | powerpc64 | powerpc | s390x | s390 | ia64 | aarch64 | arm
  deriving DecidableEq, Repr

def Arch.block : Arch → Block
  | .x86_64 =>
      { DEF_RESERVE_KB := MB 192
        KERNEL_KB := MB 38
        KERNEL_INIT_KB := MB 5
        INIT_KB := MB 51
        INIT_NET_KB := MB 3
        SIZE_STRUCT_PAGE := 64
        KDUMP_PHYS_LOAD := 0
        CAN_REDUCE_CPUS := true
        PERCPU_KB := 108
        sizeof_long := 8 }
  | .i386 =>
      { DEF_RESERVE_KB := MB 192
        KERNEL_KB := MB 34
        KERNEL_INIT_KB := MB 4
        INIT_KB := MB 44
        INIT_NET_KB := MB 2
        SIZE_STRUCT_PAGE := 36
        KDUMP_PHYS_LOAD := 0
        CAN_REDUCE_CPUS := true
        PERCPU_KB := 56
        sizeof_long := 4 }
  | .powerpc64 =>
      { DEF_RESERVE_KB := MB 384
        KERNEL_KB := MB 38
        KERNEL_INIT_KB := MB 5
        INIT_KB := MB 87
        INIT_NET_KB := MB 4
        SIZE_STRUCT_PAGE := 64
        KDUMP_PHYS_LOAD := MB 128
        CAN_REDUCE_CPUS := false
        PERCPU_KB := 172
        sizeof_long := 8 }
  | .powerpc =>
      { DEF_RESERVE_KB := MB 192
        KERNEL_KB := MB 29
        KERNEL_INIT_KB := MB 5
        INIT_KB := MB 51
        INIT_NET_KB := MB 2
        SIZE_STRUCT_PAGE := 36
        KDUMP_PHYS_LOAD := MB 128
        CAN_REDUCE_CPUS := false
        PERCPU_KB := 0
        sizeof_long := 4 }
  | .s390x =>
      { DEF_RESERVE_KB := MB 192
        KERNEL_KB := MB 31
        KERNEL_INIT_KB := 512
        INIT_KB := MB 51
        INIT_NET_KB := MB 2
        SIZE_STRUCT_PAGE := 64
        KDUMP_PHYS_LOAD := 0
        CAN_REDUCE_CPUS := true
        PERCPU_KB := 48
        sizeof_long := 8 }
  | .s390 =>
      { DEF_RESERVE_KB := MB 192
        KERNEL_KB := MB 29
        KERNEL_INIT_KB := 512
        INIT_KB := MB 44
        INIT_NET_KB := MB 2
        SIZE_STRUCT_PAGE := 36
        KDUMP_PHYS_LOAD := 0
        CAN_REDUCE_CPUS := true
        PERCPU_KB := 0
        sizeof_long := 4 }
  | .ia64 =>
      { DEF_RESERVE_KB := MB 768
        KERNEL_KB := MB 77
        KERNEL_INIT_KB := MB 3
        INIT_KB := MB 66
        INIT_NET_KB := MB 4
        SIZE_STRUCT_PAGE := 64
        KDUMP_PHYS_LOAD := 0
        CAN_REDUCE_CPUS := true
        PERCPU_KB := 0
        sizeof_long := 8 }
  | .aarch64 =>
      { DEF_RESERVE_KB := MB 192
        KERNEL_KB := MB 31
        KERNEL_INIT_KB := MB 1
        INIT_KB := MB 51
        INIT_NET_KB := MB 3
        SIZE_STRUCT_PAGE := 64
        KDUMP_PHYS_LOAD := 0
        CAN_REDUCE_CPUS := true
        PERCPU_KB := 0
        sizeof_long := 8 }
  | .arm =>
      { DEF_RESERVE_KB := MB 192
        KERNEL_KB := MB 29
        KERNEL_INIT_KB := MB 1
        INIT_KB := MB 44
        INIT_NET_KB := MB 2
        SIZE_STRUCT_PAGE := 36
        KDUMP_PHYS_LOAD := 0
        CAN_REDUCE_CPUS := true
        PERCPU_KB := 0
        sizeof_long := 4 }

/-- The architectures whose pages have 4 KiB (`PAGE_SHIFT: 12`) and which assume no framebuffer. -/
def Arch.isMainframe (a : Arch) : Bool :=
  a = .s390 ∨ a = .s390x

/-! ## Macros for all architectures -/

/-- Estimate of the compression ratio of the initrd, in percent. -/
def INITRD_COMPRESS : Nat := 50

def KERNEL_DYNAMIC_KB : Nat := MB 8

def DEF_FRAMEBUFFER_KB (a : Arch) : Nat :=
  if a.isMainframe then 0 else 768 * 4

def KERNEL_HASH_PER_MB (a : Arch) : Nat :=
  232 * a.block.sizeof_long

def BUF_PER_DIRTY_MB : Nat := 64

def DIRTY_RATIO : Nat := 20

def USER_BASE_KB : Nat := MB 56

def USER_NET_KB : Nat := MB 10

def MAX_BITMAP_KB : Nat := MB 32

def DEF_BOOTSIZE (a : Arch) : Nat :=
  a.block.KERNEL_KB + a.block.KERNEL_INIT_KB + a.block.INIT_KB + a.block.INIT_NET_KB +
    (a.block.INIT_KB + a.block.INIT_NET_KB) * INITRD_COMPRESS / 100

/-- `unsigned long` of the architecture, in bits. -/
def Arch.ulong (a : Arch) : Width :=
  some (8 * a.block.sizeof_long)

/-! ## `align_memmap` -/

variable {w : Width}

/-- `s390_align_memmap` -/
def s390_align_memmap (maxpfn : Word w) : Word w :=
  ((maxpfn - 1) ||| (((1 : Word w).shl (25 - 12 - 10)) - 1)) + 1

/-- `s390x_align_memmap` -/
def s390x_align_memmap (maxpfn : Word w) : Word w :=
  ((maxpfn - 1) ||| (((1 : Word w).shl (28 - 12 - 10)) - 1)) + 1

def align_memmap (a : Arch) (maxpfn : Word w) : Word w :=
  match a with
  | .s390x => s390x_align_memmap maxpfn
  | .s390 => s390_align_memmap maxpfn
  | _ => maxpfn

/-- The sections of the memory map, as a power of two in pages. -/
def Arch.sectionBits : Arch → Nat
  | .s390x => 6
  | .s390 => 3
  | _ => 0

/-- The least multiple of `2 ^ k` that is not below `n`. -/
def roundUp (k n : Nat) : Nat :=
  (n + (2 ^ k - 1)) / 2 ^ k * 2 ^ k

theorem or_mask (k x : Nat) : x ||| (2 ^ k - 1) = x / 2 ^ k * 2 ^ k + (2 ^ k - 1) := by
  have hlt : 2 ^ k - 1 < 2 ^ k := Nat.sub_lt (Nat.two_pow_pos k) Nat.one_pos
  refine Nat.eq_of_testBit_eq fun i => ?_
  rw [Nat.mul_comm, Nat.testBit_two_pow_mul_add _ hlt, Nat.testBit_or, Nat.testBit_two_pow_sub_one]
  by_cases hi : i < k
  · simp [hi]
  · have hle : k ≤ i := not_lt.1 hi
    simp [hi, Nat.testBit_div_two_pow, hle]

/-- What the expression of both functions computes. -/
theorem or_mask_succ {n : Nat} (hn : 1 ≤ n) (k : Nat) :
    ((n - 1) ||| (2 ^ k - 1)) + 1 = roundUp k n := by
  have hpos : 0 < 2 ^ k := Nat.two_pow_pos k
  have hshift : n + (2 ^ k - 1) = n - 1 + 2 ^ k := by omega
  calc
    ((n - 1) ||| (2 ^ k - 1)) + 1 = (n - 1) / 2 ^ k * 2 ^ k + 2 ^ k := by
      rw [or_mask]
      omega
    _ = ((n - 1) / 2 ^ k + 1) * 2 ^ k := by rw [Nat.add_mul, Nat.one_mul]
    _ = roundUp k n := by rw [roundUp, hshift, Nat.add_div_right _ hpos]

theorem roundUp_mono (k : Nat) {m n : Nat} (h : m ≤ n) : roundUp k m ≤ roundUp k n :=
  Nat.mul_le_mul_right _ (Nat.div_le_div_right (Nat.add_le_add_right h _))

theorem roundUp_zero (n : Nat) : roundUp 0 n = n := by
  simp [roundUp]

theorem roundUp_le (k n : Nat) : roundUp k n ≤ n + (2 ^ k - 1) :=
  Nat.div_mul_le_self _ _

end Calibrate
end Kdump

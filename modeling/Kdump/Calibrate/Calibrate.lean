import Kdump.Config.Needs
import Kdump.Calibrate.Architecture

/-!
# Calibrate — `Calibrate::execute`

The computation of the crash kernel reservation, from the memory map on.  Everything is written
over `Word w`: with `w = a.ulong` it is the arithmetic of the program, with `w = none` the same
formulas over unbounded integers.

* `Machine` — what the program reads from `/proc`, `/sys` and `cryptsetup`;
* `MemMap.total`, `MemMap.find` — sums and searches over the ranges of System RAM;
* `Account` — `required`, `bootsize` and `cpus` when all demands have been added;
* `execute` — the three scaling steps, the handler and the allowance for SWIOTLB.

The printed lines are left out, and so is the early return for an unprivileged Xen guest, which
reserves nothing.
-/

namespace Kdump
namespace Calibrate

open Lib Config

variable {w : Width}

/-! ## What the machine reports -/

/-- `MemRange`. -/
structure MemRange where
  m_start : Nat
  m_end : Nat
  start_le_end : m_start ≤ m_end

/-- A framebuffer: the height of `virtual_size`, and the stride. -/
structure Framebuffer where
  height : Nat
  stride : Nat

/-- The parts of a `SlabInfo` that are used. -/
structure SlabInfo where
  m_name : Str
  m_pages_per_slab : Nat
  m_num_slabs : Nat

/-- A value, or the message of the `KError` that is thrown instead. -/
abbrev OrKError (α : Type) := Except Str α

/-- The state of a machine of architecture `a`. -/
structure Machine (a : Arch) where
  /-- The System RAM of `/proc/iomem`. -/
  ranges : List MemRange
  pageShift : Nat
  pageShift_ge : 12 ≤ pageShift
  pageShift_le : pageShift ≤ 18
  pageShift_mainframe : a.isMainframe = true → pageShift = 12
  framebuffers : OrKError (List Framebuffer)
  /-- `CryptInfo::memory` of the LUKS devices below the targets. -/
  crypto : OrKError (List Nat)
  slabs : OrKError (List SlabInfo)
  numOnline : OrKError Nat
  numOffline : OrKError Nat

/-- `sysconf(_SC_PAGESIZE)` -/
def Machine.pagesize {a : Arch} (m : Machine a) : Nat :=
  2 ^ m.pageShift

/-- `shr_round_up` -/
def shr_round_up (n : Word w) (amt : Nat) : Word w :=
  (n + (1 : Word w).shl amt - 1).shr amt

/-- `unsigned long long`, where `unsigned long` has the range `w`. -/
def ulonglong (w : Width) : Width :=
  w.map fun _ => 64

namespace MemMap

/-- `MemRange::length` -/
def length (w : Width) (r : MemRange) : Word w :=
  (r.m_end : Word w) - r.m_start + 1

def total (w : Width) (ranges : List MemRange) : Word w :=
  ranges.foldl (fun ret r => ret + length w r) 0

/-- The loop of `find`, over the ranges in reverse order. -/
def findIn (size align : Word w) : List MemRange → Word w
  | [] => ((2 ^ 64 - 1 : Nat) : Word w)
  | r :: rs =>
      let base := (r.m_end : Word w) + 1
      if base < size then
        findIn size align rs
      else
        let base := base - size
        let base := base - base % align
        if (r.m_start : Word w) ≤ base then base else findIn size align rs

def find (ranges : List MemRange) (size align : Word w) : Word w :=
  findIn size align ranges.reverse

end MemMap

/-- `Framebuffers::size` -/
def framebuffersSize (w : Width) (fbs : List Framebuffer) : Word w :=
  fbs.foldl (fun ret fb => ret + (fb.stride : Word w) * fb.height) 0

/-- The largest of the memory requirements. -/
def cryptoMem (w : Width) (devices : List Nat) : Word w :=
  devices.foldl (fun mem (d : Nat) => if mem < (d : Word w) then (d : Word w) else mem) 0

/-- The slab caches that are taken into account. -/
def SlabInfo.isCounted (s : SlabInfo) : Bool :=
  (str "Acpi-").isPrefixOf s.m_name || (str "ftrace_").isPrefixOf s.m_name

/-- `slabsize` -/
def SlabInfo.size (w : Width) (pagesize : Nat) (s : SlabInfo) : Word w :=
  (s.m_num_slabs : Word w) * s.m_pages_per_slab * pagesize / 1024

/-! ## The demands -/

/-- The variables once every demand has been added. -/
structure Account (w : Width) where
  required : Word w
  bootsize : Word w
  cpus : Word w

section

variable (w : Width) (a : Arch)

def ramfs (needsnet : Bool) : Word w :=
  (a.block.INIT_KB : Word w) + if needsnet then (a.block.INIT_NET_KB : Word w) else 0

def bootsize (needsnet : Bool) : Word w :=
  let initrd := ramfs w a needsnet * (INITRD_COMPRESS : Word w) / 100
  (a.block.KERNEL_KB : Word w) + a.block.KERNEL_INIT_KB + initrd + ramfs w a needsnet

variable {a} (m : Machine a)

def framebufferDemand : Word w :=
  match m.framebuffers with
  | .ok fbs => 2 * framebuffersSize w fbs / 1024
  | .error _ => 2 * (DEF_FRAMEBUFFER_KB a : Word w)

def cryptoDemand : Word w :=
  match m.crypto with
  | .ok devices => cryptoMem w devices
  | .error _ => 0

/-- The loop over the slab caches, added to `required`. -/
def addSlabs (required : Word w) : Word w :=
  match m.slabs with
  | .ok info =>
      (info.filter SlabInfo.isCounted).foldl (fun req s => req + s.size w m.pagesize) required
  | .error _ => required

/-- `shr_round_up(mm.total(), 10)` -/
def memtotal : Word w :=
  (shr_round_up (MemMap.total (ulonglong w) m.ranges) 10).cast w

def bitmapsz : Word w :=
  let size := shr_round_up (memtotal w m / (m.pagesize : Word w)) 2
  if (MAX_BITMAP_KB : Word w) < size then (MAX_BITMAP_KB : Word w) else size

def user (needsnet needsMakedumpfile : Bool) : Word w :=
  let base := (USER_BASE_KB : Word w) + if needsnet then (USER_NET_KB : Word w) else 0
  if needsMakedumpfile then
    base + bitmapsz w m + 96 * shr_round_up (memtotal w m) (20 + 7)
  else
    base

/-- An `int` as an `unsigned long`. -/
def ofInt (a : Arch) (i : Int32) : Word w :=
  ((i.toInt % 2 ^ (8 * a.block.sizeof_long)).toNat : Word w)

/-- The CPU count, which is printed and not used any further. -/
def assumedCPUs (KDUMP_CPUS : Int32) : OrKError (Word w) :=
  let cpus : Word w := if a.block.CAN_REDUCE_CPUS then ofInt w a KDUMP_CPUS else 0
  if cpus.value ≠ 0 then
    .ok cpus
  else
    match m.numOnline, m.numOffline with
    | .ok online, .ok offline => .ok ((online : Word w) + offline)
    | .error e, _ => .error e
    | .ok _, .error e => .error e

/-- The first half of the `try` block. -/
def account {fadump : Bool} (c : Configuration fadump) : Except Thrown (Account w) :=
  match c.needsNetwork with
  | .error e => .error e
  | .ok needsnet =>
      let required := (a.block.KERNEL_KB : Word w) + ramfs w a needsnet + KERNEL_DYNAMIC_KB
      let required := required + framebufferDemand w m
      let required := required + cryptoDemand w m
      let required := addSlabs w m required
      match assumedCPUs w m (c.intValue "KDUMP_CPUS") with
      | .error message => .error (.KError message)
      | .ok cpus =>
          .ok { required := required + user w m needsnet c.needsMakedumpfile
                bootsize := bootsize w a needsnet
                cpus := cpus }

end

/-! ## Scaling -/

section

variable (a : Arch)

/-- Room for dirty pages and in-flight I/O. -/
def dirtyStep (required : Word w) : Word w :=
  required * (MB 100 : Nat) /
    ((MB 100 - MB DIRTY_RATIO - DIRTY_RATIO * BUF_PER_DIRTY_MB : Nat) : Word w)

/-- Room for the large hashes. -/
def hashStep (required : Word w) : Word w :=
  required * (MB 1024 : Nat) / ((MB 1024 - KERNEL_HASH_PER_MB a : Nat) : Word w)

/-- Room for the memory map. -/
def memmapStep (pagesize : Nat) (prev : Word w) : Word w :=
  let required := prev * pagesize / ((pagesize : Word w) - a.block.SIZE_STRUCT_PAGE)
  let maxpfn := (required - prev) / (a.block.SIZE_STRUCT_PAGE : Word w)
  prev + align_memmap a maxpfn * (a.block.SIZE_STRUCT_PAGE : Word w)

/-- The run-time size, from the accounted demands. -/
def scale (pagesize : Nat) (required : Word w) : Word w :=
  let required := dirtyStep required
  let required := required + a.block.KDUMP_PHYS_LOAD
  let required := memmapStep a pagesize (hashStep a required)
  required - a.block.KDUMP_PHYS_LOAD

end

/-! ## The whole computation -/

section

variable (w : Width) {a : Arch} (m : Machine a) {fadump : Bool} (c : Configuration fadump)

/-- The `try` block: `required` after the step that makes sure there is enough space at boot. -/
def reserve : Except Thrown (Account w) :=
  match account w m c with
  | .error e => .error e
  | .ok acc =>
      let required := scale a m.pagesize acc.required
      let required := if required < acc.bootsize then acc.bootsize else required
      .ok { acc with required := required }

/-- The `try` block with its handler. -/
def reserveOrDefault : Word w :=
  match reserve w m c with
  | .ok acc => acc.required
  | .error _ => a.block.DEF_RESERVE_KB

/-- The allowance for SWIOTLB, when the estimated area ends above 4 GiB. -/
def addSwiotlb (required : Word w) : Word w :=
  match a with
  | .x86_64 =>
      let bytes := (required.shl 10).cast (ulonglong w)
      let base := MemMap.find m.ranges bytes ((2 ^ 24 : Nat) : Word (ulonglong w))
      if ((2 ^ 32 : Nat) : Word (ulonglong w)) ≤ base + bytes then
        required + (MB 64 : Nat)
      else
        required
  | _ => required

/-- `Calibrate::execute`: the final value of `required`. -/
def execute : Word w :=
  addSwiotlb w m (reserveOrDefault w m c)

end

end Calibrate
end Kdump

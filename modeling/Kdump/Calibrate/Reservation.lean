import Kdump.Calibrate.Calibrate

/-!
# Reservation — the reservation as a sum

The demands and the rooms that `Calibrate::execute` makes for them, as plain numbers, and the proof
that the program computes these numbers as long as nothing overflows.

* `Machine.accountedKB` — the sum of the accounted demands;
* `dirtyPages`, `largeHashes`, `memoryMap` — what the three scaling steps add to it;
* `scale_exact` — the scaling steps, under the bounds that their products need;
* `exact_reserve` — the `try` block over unbounded integers.
-/

namespace Kdump
namespace Calibrate

open Lib Config

/-! ## The demands -/

def ramfsKB (a : Arch) (needsnet : Bool) : Nat :=
  a.block.INIT_KB + if needsnet then a.block.INIT_NET_KB else 0

def bootKB (a : Arch) (needsnet : Bool) : Nat :=
  a.block.KERNEL_KB + a.block.KERNEL_INIT_KB + ramfsKB a needsnet * INITRD_COMPRESS / 100 +
    ramfsKB a needsnet

namespace Machine

variable {a : Arch} (m : Machine a)

/-- System RAM in bytes. -/
def totalRAM : Nat :=
  (m.ranges.map fun r => r.m_end - r.m_start + 1).sum

def totalKB : Nat :=
  (m.totalRAM + 2 ^ 10 - 1) / 2 ^ 10

/-- Twice the size of all framebuffers, or twice the default. -/
def framebufferKB : Nat :=
  match m.framebuffers with
  | .ok fbs => 2 * (fbs.map fun fb => fb.stride * fb.height).sum / 1024
  | .error _ => 2 * DEF_FRAMEBUFFER_KB a

/-- The requirement of the most demanding LUKS device. -/
def cryptoKB : Nat :=
  match m.crypto with
  | .ok devices => devices.foldl max 0
  | .error _ => 0

def slabKB (pagesize : Nat) (s : SlabInfo) : Nat :=
  s.m_num_slabs * s.m_pages_per_slab * pagesize / 1024

/-- The counted slab caches. -/
def slabsKB : Nat :=
  match m.slabs with
  | .ok info => ((info.filter SlabInfo.isCounted).map (slabKB m.pagesize)).sum
  | .error _ => 0

def bitmapKB : Nat :=
  min ((m.totalKB / m.pagesize + 2 ^ 2 - 1) / 2 ^ 2) MAX_BITMAP_KB

def userKB (needsnet needsMakedumpfile : Bool) : Nat :=
  let base := USER_BASE_KB + if needsnet then USER_NET_KB else 0
  if needsMakedumpfile then
    base + m.bitmapKB + 96 * ((m.totalKB + 2 ^ 27 - 1) / 2 ^ 27)
  else
    base

/-- The kernel, the initramfs, the dynamic data, the framebuffers, the crypto memory, the constant
slabs and the user space. -/
def accountedKB (needsnet needsMakedumpfile : Bool) : Nat :=
  a.block.KERNEL_KB + ramfsKB a needsnet + KERNEL_DYNAMIC_KB + m.framebufferKB + m.cryptoKB +
    m.slabsKB + m.userKB needsnet needsMakedumpfile

/-- The variables can hold the numbers that are read into them. -/
structure Readable (w : Width) : Prop where
  wide : w.Fits (2 ^ 32 - 1)
  ranges : ∀ r ∈ m.ranges, (ulonglong w).Fits (r.m_end + 1)
  totalRAM : (ulonglong w).Fits (m.totalRAM + 2 ^ 10)
  totalKB : w.Fits (m.totalKB + 2 ^ 27)
  framebuffers : ∀ fbs, m.framebuffers = .ok fbs →
    ∀ fb ∈ fbs, w.Fits fb.stride ∧ w.Fits fb.height
  crypto : ∀ devices, m.crypto = .ok devices → ∀ d ∈ devices, w.Fits d
  slabs : ∀ info, m.slabs = .ok info →
    ∀ s ∈ info, w.Fits s.m_num_slabs ∧ w.Fits s.m_pages_per_slab

theorem readable_none : m.Readable none where
  wide := Width.fits_none _
  ranges _ _ := Width.fits_none _
  totalRAM := Width.fits_none _
  totalKB := Width.fits_none _
  framebuffers _ _ _ _ := ⟨Width.fits_none _, Width.fits_none _⟩
  crypto _ _ _ _ := Width.fits_none _
  slabs _ _ _ _ := ⟨Width.fits_none _, Width.fits_none _⟩

theorem pagesize_pos : 0 < m.pagesize :=
  Nat.two_pow_pos _

theorem le_pagesize : 2 ^ 12 ≤ m.pagesize :=
  Nat.pow_le_pow_right (by decide) m.pageShift_ge

theorem pagesize_le : m.pagesize ≤ 2 ^ 18 :=
  Nat.pow_le_pow_right (by decide) m.pageShift_le

theorem le_userKB (needsnet needsMakedumpfile : Bool) :
    USER_BASE_KB ≤ m.userKB needsnet needsMakedumpfile := by
  cases needsMakedumpfile with
  | false => exact Nat.le_add_right _ _
  | true => exact (Nat.le_add_right _ _).trans (le_add_right (Nat.le_add_right _ _))

end Machine

/-! ## Constants -/

section

variable {w : Width}

theorem ulonglong_wide (h : w.Fits (2 ^ 32 - 1)) : (ulonglong w).Fits (2 ^ 32 - 1) := by
  cases w with
  | none => exact Width.fits_none _
  | some b =>
      rw [ulonglong, Option.map_some, Width.fits_some]
      decide

theorem exact_lit (h : w.Fits (2 ^ 32 - 1)) {n : Nat} (hn : n ≤ 2 ^ 32 - 1) :
    Word.Exact (n : Word w) n :=
  Word.exact_natCast (h.mono hn)

/-- The bounds on the constants that the proofs need. -/
structure Block.Bounded (b : Block) : Prop where
  kernel : b.KERNEL_KB ≤ 2 ^ 17
  kernelInit : b.KERNEL_INIT_KB ≤ 2 ^ 13
  init : b.INIT_KB ≤ 2 ^ 17
  initNet : b.INIT_NET_KB ≤ 2 ^ 13
  load : b.KDUMP_PHYS_LOAD ≤ 2 ^ 17
  structPage : b.SIZE_STRUCT_PAGE ≤ 64
  structPage_pos : 1 ≤ b.SIZE_STRUCT_PAGE
  /-- The demands that are there on every machine. -/
  base : 140288 ≤ b.KERNEL_KB + b.INIT_KB + KERNEL_DYNAMIC_KB + USER_BASE_KB
  /-- They cover what is needed at boot. -/
  boot : b.KERNEL_INIT_KB + (b.INIT_KB + b.INIT_NET_KB) / 2 ≤ KERNEL_DYNAMIC_KB + USER_BASE_KB
  long : b.sizeof_long = 4 ∨ b.sizeof_long = 8

theorem bounded (a : Arch) : a.block.Bounded := by
  cases a <;> constructor <;> decide

/-! ## The demands, step by step -/

theorem exact_shr_round_up {n : Word w} {k : Nat} (amt : Nat) (hn : n.Exact k)
    (h : w.Fits (k + 2 ^ amt)) :
    Word.Exact (shr_round_up n amt) ((k + 2 ^ amt - 1) / 2 ^ amt) := by
  have hpow : w.Fits (1 * 2 ^ amt) := by
    rw [Nat.one_mul]
    exact h.mono (Nat.le_add_left _ _)
  have hone : Word.Exact (1 : Word w) 1 :=
    Word.exact_ofNat (hpow.mono (Nat.mul_le_mul_left 1 Nat.one_le_two_pow))
  have hshift : Word.Exact ((1 : Word w).shl amt) (2 ^ amt) := by
    have hshl := hone.shl hpow
    rwa [Nat.one_mul] at hshl
  have hle : 1 ≤ k + 2 ^ amt := le_add_left Nat.one_le_two_pow
  exact ((hn.add hshift h).sub hone hle).shr amt

variable {a : Arch} {m : Machine a}

theorem ramfsKB_le (a : Arch) (needsnet : Bool) : ramfsKB a needsnet ≤ 2 ^ 18 := by
  have hb := bounded a
  have hinit := hb.init
  have hnet := hb.initNet
  cases needsnet <;> simp only [ramfsKB, Bool.false_eq_true, if_false, if_true] <;> omega

theorem exact_ramfs (hw : w.Fits (2 ^ 32 - 1)) (needsnet : Bool) :
    Word.Exact (ramfs w a needsnet) (ramfsKB a needsnet) := by
  have hb := bounded a
  have hinit := hb.init
  have hnet := hb.initNet
  have hI : Word.Exact (a.block.INIT_KB : Word w) a.block.INIT_KB := exact_lit hw (by omega)
  have hN : Word.Exact (a.block.INIT_NET_KB : Word w) a.block.INIT_NET_KB :=
    exact_lit hw (by omega)
  cases needsnet with
  | true => exact hI.add hN (hw.mono ((ramfsKB_le a true).trans (by decide)))
  | false =>
      have hzero : Word.Exact (0 : Word w) 0 := Word.exact_ofNat (hw.mono (Nat.zero_le _))
      exact hI.add hzero (hw.mono ((ramfsKB_le a false).trans (by decide)))

theorem exact_bootsize (hw : w.Fits (2 ^ 32 - 1)) (needsnet : Bool) :
    Word.Exact (bootsize w a needsnet) (bootKB a needsnet) := by
  have hb := bounded a
  have hkernel := hb.kernel
  have hkernelInit := hb.kernelInit
  have hle := ramfsKB_le a needsnet
  have hramfs := exact_ramfs (a := a) hw needsnet
  have hK : Word.Exact (a.block.KERNEL_KB : Word w) a.block.KERNEL_KB := exact_lit hw (by omega)
  have hKI : Word.Exact (a.block.KERNEL_INIT_KB : Word w) a.block.KERNEL_INIT_KB :=
    exact_lit hw (by omega)
  have hC : Word.Exact (INITRD_COMPRESS : Word w) INITRD_COMPRESS := exact_lit hw (by decide)
  have hH : Word.Exact (100 : Word w) 100 := Word.exact_ofNat (hw.mono (by decide))
  have hmul : ramfsKB a needsnet * INITRD_COMPRESS ≤ 2 ^ 32 - 1 := by
    rw [INITRD_COMPRESS]
    omega
  have hdiv : ramfsKB a needsnet * INITRD_COMPRESS / 100 ≤ 2 ^ 18 := by
    rw [INITRD_COMPRESS]
    omega
  refine (((hK.add hKI ?_).add ((hramfs.mul hC (hw.mono hmul)).div hH) ?_).add hramfs ?_) <;>
    exact hw.mono (by omega)

theorem exact_memtotal (h : m.Readable w) : Word.Exact (memtotal w m) m.totalKB := by
  have hwide := ulonglong_wide h.wide
  have hlength : ∀ r ∈ m.ranges,
      Word.Exact (MemMap.length (ulonglong w) r) (r.m_end - r.m_start + 1) := by
    intro r hr
    have hend := h.ranges r hr
    have hle := r.start_le_end
    have hE : Word.Exact (r.m_end : Word (ulonglong w)) r.m_end :=
      Word.exact_natCast (hend.mono (Nat.le_succ _))
    have hS : Word.Exact (r.m_start : Word (ulonglong w)) r.m_start :=
      Word.exact_natCast (hend.mono (by omega))
    have hone : Word.Exact (1 : Word (ulonglong w)) 1 := Word.exact_ofNat (hwide.mono (by decide))
    exact (hE.sub hS hle).add hone (hend.mono (by omega))
  have hzero : Word.Exact (0 : Word (ulonglong w)) 0 :=
    Word.exact_ofNat (hwide.mono (Nat.zero_le _))
  have htotal : Word.Exact (MemMap.total (ulonglong w) m.ranges) m.totalRAM := by
    have hfits : (ulonglong w).Fits (0 + m.totalRAM) := by
      rw [Nat.zero_add]
      exact h.totalRAM.mono (Nat.le_add_right _ _)
    have hsum := Word.Exact.foldl_add hlength hzero hfits
    rwa [Nat.zero_add] at hsum
  exact (exact_shr_round_up _ htotal h.totalRAM).cast (h.totalKB.mono (Nat.le_add_right _ _))

theorem exact_bitmapsz (h : m.Readable w) : Word.Exact (bitmapsz w m) m.bitmapKB := by
  have hpage : Word.Exact (m.pagesize : Word w) m.pagesize :=
    exact_lit h.wide (m.pagesize_le.trans (by decide))
  have hmax : Word.Exact (MAX_BITMAP_KB : Word w) MAX_BITMAP_KB := exact_lit h.wide (by decide)
  have hdiv : m.totalKB / m.pagesize ≤ m.totalKB := Nat.div_le_self _ _
  have hsize := exact_shr_round_up 2 ((exact_memtotal h).div hpage)
    (h.totalKB.mono (by omega))
  exact hsize.min hmax

theorem exact_user (h : m.Readable w) (needsnet needsMakedumpfile : Bool) :
    Word.Exact (user w m needsnet needsMakedumpfile) (m.userKB needsnet needsMakedumpfile) := by
  have hB : Word.Exact (USER_BASE_KB : Word w) USER_BASE_KB := exact_lit h.wide (by decide)
  have hN : Word.Exact (USER_NET_KB : Word w) USER_NET_KB := exact_lit h.wide (by decide)
  have hzero : Word.Exact (0 : Word w) 0 := Word.exact_ofNat (h.wide.mono (Nat.zero_le _))
  have h96 : Word.Exact (96 : Word w) 96 := Word.exact_ofNat (h.wide.mono (by decide))
  have hbase : Word.Exact ((USER_BASE_KB : Word w) + if needsnet then (USER_NET_KB : Word w) else 0)
      (USER_BASE_KB + if needsnet then USER_NET_KB else 0) := by
    cases needsnet with
    | true => exact hB.add hN (h.wide.mono (by decide))
    | false => exact hB.add hzero (h.wide.mono (by decide))
  have hbase_le : (USER_BASE_KB + if needsnet then USER_NET_KB else 0) ≤ 2 ^ 17 := by
    cases needsnet <;> decide
  cases needsMakedumpfile with
  | false => exact hbase
  | true =>
      have hbitmap : m.bitmapKB ≤ 2 ^ 15 := min_le_right _ _
      have htables := exact_shr_round_up 27 (exact_memtotal h) h.totalKB
      refine (hbase.add (exact_bitmapsz h) ?_).add (h96.mul htables ?_) ?_ <;>
        exact h.totalKB.mono (by omega)

theorem exact_cryptoDemand (h : m.Readable w) : Word.Exact (cryptoDemand w m) m.cryptoKB := by
  have hzero : Word.Exact (0 : Word w) 0 := Word.exact_ofNat (h.wide.mono (Nat.zero_le _))
  cases hcrypto : m.crypto with
  | error e =>
      simp only [cryptoDemand, Machine.cryptoKB, hcrypto]
      exact hzero
  | ok devices =>
      simp only [cryptoDemand, Machine.cryptoKB, hcrypto]
      exact Word.Exact.foldl_max (h.crypto devices hcrypto) hzero

/-- Framebuffers and slab caches: the sum is tracked, and exact if its bytes fit. -/
theorem tracks_framebufferDemand : Word.Tracks (framebufferDemand w m) m.framebufferKB := by
  cases hfb : m.framebuffers with
  | error e =>
      simp only [framebufferDemand, Machine.framebufferKB, hfb]
      exact (Word.tracks_ofNat 2).mul (Word.tracks_natCast _)
  | ok fbs =>
      simp only [framebufferDemand, Machine.framebufferKB, hfb]
      have hsum := Word.Tracks.foldl_add (l := fbs)
        (fun fb _ => (Word.tracks_natCast (w := w) fb.stride).mul (Word.tracks_natCast fb.height))
        (Word.tracks_ofNat 0)
      rw [Nat.zero_add] at hsum
      exact ((Word.tracks_ofNat 2).mul hsum).div (Word.tracks_ofNat 1024)

theorem exact_framebufferDemand (h : m.Readable w)
    (hfits : w.Fits (1024 * m.framebufferKB + 1023)) :
    Word.Exact (framebufferDemand w m) m.framebufferKB := by
  have hlit : ∀ {n : Nat}, n ≤ 2 ^ 32 - 1 → Word.Exact (n : Word w) n := exact_lit h.wide
  cases hfb : m.framebuffers with
  | error e =>
      simp only [framebufferDemand, Machine.framebufferKB, hfb] at hfits ⊢
      have hdef : DEF_FRAMEBUFFER_KB a ≤ 768 * 4 := by
        rw [DEF_FRAMEBUFFER_KB]
        split_ifs <;> decide
      exact (hlit (n := 2) (by decide)).mul (hlit (by omega)) (hfits.mono (by omega))
  | ok fbs =>
      simp only [framebufferDemand, Machine.framebufferKB, hfb] at hfits ⊢
      have hone : ∀ fb ∈ fbs,
          Word.Exact ((fb.stride : Word w) * (fb.height : Word w)) (fb.stride * fb.height) := by
        intro fb hmem
        have hread := h.framebuffers fbs hfb fb hmem
        have hle := List.le_sum_of_mem
          (List.mem_map_of_mem (f := fun fb => fb.stride * fb.height) hmem)
        exact (Word.exact_natCast hread.1).mul (Word.exact_natCast hread.2)
          (hfits.mono (by omega))
      have hsum := Word.Exact.foldl_add hone (hlit (n := 0) (by decide)) (hfits.mono (by omega))
      rw [Nat.zero_add] at hsum
      exact ((hlit (n := 2) (by decide)).mul hsum (hfits.mono (by omega))).div
        (hlit (n := 1024) (by decide))

theorem tracks_addSlabs {required : Word w} {n : Nat} (hreq : required.Tracks n) :
    Word.Tracks (addSlabs w m required) (n + m.slabsKB) := by
  cases hslabs : m.slabs with
  | error e =>
      simp only [addSlabs, Machine.slabsKB, hslabs]
      exact hreq
  | ok info =>
      simp only [addSlabs, Machine.slabsKB, hslabs]
      refine Word.Tracks.foldl_add (fun s _ => ?_) hreq
      exact (((Word.tracks_natCast _).mul (Word.tracks_natCast _)).mul
        (Word.tracks_natCast _)).div (Word.tracks_ofNat 1024)

theorem exact_addSlabs (h : m.Readable w) {required : Word w} {n : Nat} (hreq : required.Exact n)
    (hfits : w.Fits (1024 * (n + m.slabsKB) + 1023)) :
    Word.Exact (addSlabs w m required) (n + m.slabsKB) := by
  cases hslabs : m.slabs with
  | error e =>
      simp only [addSlabs, Machine.slabsKB, hslabs]
      exact hreq
  | ok info =>
      simp only [addSlabs, Machine.slabsKB, hslabs] at hfits ⊢
      refine Word.Exact.foldl_add (fun s hs => ?_) hreq (hfits.mono (by omega))
      have hread := h.slabs info hslabs s (List.mem_filter.1 hs).1
      have hle := List.le_sum_of_mem
        (List.mem_map_of_mem (f := Machine.slabKB m.pagesize) hs)
      have hpos := m.pagesize_pos
      have hpages : s.m_num_slabs * s.m_pages_per_slab ≤
          s.m_num_slabs * s.m_pages_per_slab * m.pagesize := Nat.le_mul_of_pos_right _ hpos
      have hbytes : s.m_num_slabs * s.m_pages_per_slab * m.pagesize ≤
          1024 * Machine.slabKB m.pagesize s + 1023 := by
        rw [Machine.slabKB]
        omega
      have hpage : Word.Exact (m.pagesize : Word w) m.pagesize :=
        exact_lit h.wide (m.pagesize_le.trans (by decide))
      refine Word.Exact.div ?_ (exact_lit h.wide (n := 1024) (by decide))
      refine ((Word.exact_natCast hread.1).mul (Word.exact_natCast hread.2) ?_).mul hpage ?_ <;>
        exact hfits.mono (by omega)

/-- What `account` leaves when nothing is thrown. -/
def demands (w : Width) (m : Machine a) (needsnet needsMakedumpfile : Bool) : Word w :=
  addSlabs w m
      ((a.block.KERNEL_KB : Word w) + ramfs w a needsnet + KERNEL_DYNAMIC_KB +
        framebufferDemand w m + cryptoDemand w m) +
    user w m needsnet needsMakedumpfile

theorem account_eq {fadump : Bool} {c : Configuration fadump} {needsnet : Bool} {cpus : Word w}
    (hnet : c.needsNetwork = .ok needsnet)
    (hcpus : assumedCPUs w m (c.intValue "KDUMP_CPUS") = .ok cpus) :
    account w m c = .ok
      { required := demands w m needsnet c.needsMakedumpfile
        bootsize := bootsize w a needsnet
        cpus := cpus } := by
  simp only [account, hnet, hcpus, demands]

theorem tracks_demands (h : m.Readable w) (needsnet needsMakedumpfile : Bool) :
    Word.Tracks (demands w m needsnet needsMakedumpfile)
      (m.accountedKB needsnet needsMakedumpfile) := by
  have hramfs := (exact_ramfs (a := a) h.wide needsnet).tracks
  have hkernel := ((Word.tracks_natCast a.block.KERNEL_KB).add hramfs).add
    (Word.tracks_natCast KERNEL_DYNAMIC_KB)
  have hdevices := (hkernel.add (tracks_framebufferDemand (m := m))).add
    (exact_cryptoDemand h).tracks
  exact (tracks_addSlabs hdevices).add (exact_user h needsnet needsMakedumpfile).tracks

theorem exact_demands (h : m.Readable w) (needsnet needsMakedumpfile : Bool)
    (hfits : w.Fits (1024 * m.accountedKB needsnet needsMakedumpfile + 1023)) :
    Word.Exact (demands w m needsnet needsMakedumpfile)
      (m.accountedKB needsnet needsMakedumpfile) := by
  have hle {n : Nat} (hn : n ≤ m.accountedKB needsnet needsMakedumpfile) : w.Fits n :=
    hfits.mono (by omega)
  have hkernel := (bounded a).kernel
  have hK : Word.Exact (a.block.KERNEL_KB : Word w) a.block.KERNEL_KB :=
    exact_lit h.wide (by omega)
  have hD : Word.Exact (KERNEL_DYNAMIC_KB : Word w) KERNEL_DYNAMIC_KB :=
    exact_lit h.wide (by decide)
  rw [Machine.accountedKB] at hle hfits ⊢
  have hfb := exact_framebufferDemand h (hfits.mono (by omega))
  have hbase := (hK.add (exact_ramfs (a := a) h.wide needsnet) (hle (by omega))).add hD
    (hle (by omega))
  have hdevices := (hbase.add hfb (hle (by omega))).add (exact_cryptoDemand h) (hle (by omega))
  exact (exact_addSlabs h hdevices (hfits.mono (by omega))).add
    (exact_user h needsnet needsMakedumpfile) (hle (by omega))

theorem le_accountedKB (m : Machine a) (needsnet needsMakedumpfile : Bool) :
    140288 ≤ m.accountedKB needsnet needsMakedumpfile := by
  have hbase := (bounded a).base
  have huser := m.le_userKB needsnet needsMakedumpfile
  have hramfs : a.block.INIT_KB ≤ ramfsKB a needsnet := Nat.le_add_right _ _
  rw [Machine.accountedKB]
  omega

/-- What is needed at boot is less than the accounted demands. -/
theorem bootKB_le_accountedKB (m : Machine a) (needsnet needsMakedumpfile : Bool) :
    bootKB a needsnet ≤ m.accountedKB needsnet needsMakedumpfile := by
  have hboot := (bounded a).boot
  have huser := m.le_userKB needsnet needsMakedumpfile
  have hinitrd : ramfsKB a needsnet * INITRD_COMPRESS / 100 ≤
      (a.block.INIT_KB + a.block.INIT_NET_KB) / 2 := by
    cases needsnet <;>
      simp only [ramfsKB, INITRD_COMPRESS, Bool.false_eq_true, if_false, if_true] <;>
      omega
  rw [bootKB, Machine.accountedKB]
  omega

/-! ## The rooms -/

/-- Dirty pages and in-flight I/O: 17 parts in 63. -/
def dirtyPages (D : Nat) : Nat :=
  D * 17 / 63

/-- The hashes of the kernel, in a memory that has room for them. -/
def largeHashes (a : Arch) (r : Nat) : Nat :=
  r * KERNEL_HASH_PER_MB a / (2 ^ 20 - KERNEL_HASH_PER_MB a)

/-- The `struct page` of every page, those of the memory map included. -/
def memoryMap (a : Arch) (pagesize h : Nat) : Nat :=
  roundUp a.sectionBits (h / (pagesize - a.block.SIZE_STRUCT_PAGE)) * a.block.SIZE_STRUCT_PAGE

/-- The memory that the hashes are sized for. -/
def loadedKB (a : Arch) (D : Nat) : Nat :=
  D + dirtyPages D + a.block.KDUMP_PHYS_LOAD

/-- The memory that the memory map is sized for. -/
def mappedKB (a : Arch) (D : Nat) : Nat :=
  loadedKB a D + largeHashes a (loadedKB a D)

/-- What the scaling steps add to the demands `D`. -/
def room (a : Arch) (pagesize D : Nat) : Nat :=
  dirtyPages D + largeHashes a (loadedKB a D) + memoryMap a pagesize (mappedKB a D)

/-- A scaling `r * n / (n - k)` adds `r * k / (n - k)`. -/
theorem mul_div_sub (r : Nat) {n k : Nat} (h : k < n) :
    r * n / (n - k) = r + r * k / (n - k) := by
  have hsplit : r * n = r * k + r * (n - k) := by
    rw [← Nat.mul_add, Nat.add_sub_cancel' h.le]
  rw [hsplit, Nat.add_mul_div_right _ _ (Nat.sub_pos_of_lt h), Nat.add_comm]

theorem dirty_eq (D : Nat) :
    D * MB 100 / (MB 100 - MB DIRTY_RATIO - DIRTY_RATIO * BUF_PER_DIRTY_MB) = D + dirtyPages D := by
  calc
    D * MB 100 / (MB 100 - MB DIRTY_RATIO - DIRTY_RATIO * BUF_PER_DIRTY_MB)
        = D * 80 * 1280 / (63 * 1280) := by
          rw [Nat.mul_assoc]
          rfl
    _ = D * 80 / (80 - 17) := Nat.mul_div_mul_right _ _ (by decide)
    _ = D + dirtyPages D := mul_div_sub D (by decide)

/-! ## The scaling steps, step by step -/

theorem hashPerMB_le (a : Arch) : KERNEL_HASH_PER_MB a ≤ 1856 := by
  rcases (bounded a).long with h | h <;> simp [KERNEL_HASH_PER_MB, h]

theorem largeHashes_le (a : Arch) (r : Nat) : largeHashes a r ≤ r := by
  have hK := hashPerMB_le a
  refine Nat.div_le_of_le_mul ?_
  rw [Nat.mul_comm]
  exact Nat.mul_le_mul_right r (by omega)

theorem exact_dirtyStep (hw : w.Fits (2 ^ 32 - 1)) {d : Word w} {D : Nat} (hd : d.Exact D)
    (hfits : w.Fits (D * MB 100)) : Word.Exact (dirtyStep d) (D + dirtyPages D) := by
  rw [← dirty_eq]
  exact (hd.mul (exact_lit hw (by decide)) hfits).div (exact_lit hw (by decide))

theorem exact_hashStep (hw : w.Fits (2 ^ 32 - 1)) {x : Word w} {r : Nat} (hx : x.Exact r)
    (hfits : w.Fits (r * 2 ^ 20)) : Word.Exact (hashStep a x) (r + largeHashes a r) := by
  have hK := hashPerMB_le a
  have hdiv := (hx.mul (exact_lit hw (n := MB 1024) (by decide)) hfits).div
    (exact_lit hw (n := MB 1024 - KERNEL_HASH_PER_MB a) ((Nat.sub_le _ _).trans (by decide)))
  have heq : r * MB 1024 / (MB 1024 - KERNEL_HASH_PER_MB a) = r + largeHashes a r :=
    mul_div_sub r (lt_of_le_of_lt hK (by decide))
  rwa [heq] at hdiv

/-- On the mainframes the number of pages is rounded up. -/
theorem exact_align_memmap (hw : w.Fits (2 ^ 32 - 1)) {x : Word w} {n : Nat} (hx : x.Exact n)
    (hpos : a.isMainframe = true → 1 ≤ n) (hfits : w.Fits (n + 64)) :
    Word.Exact (align_memmap a x) (roundUp a.sectionBits n) := by
  have hone : Word.Exact (1 : Word w) 1 := Word.exact_ofNat (hw.mono (by decide))
  have hmask (k : Nat) (hk : k ≤ 6) (hn : 1 ≤ n) :
      Word.Exact (((x - 1) ||| (((1 : Word w).shl k) - 1)) + 1) (roundUp k n) := by
    have hpow : 2 ^ k ≤ 2 ^ 6 := Nat.pow_le_pow_right (by decide) hk
    have hshift : Word.Exact ((1 : Word w).shl k) (2 ^ k) := by
      have hshl := hone.shl (k := k) (hw.mono (by omega))
      rwa [Nat.one_mul] at hshl
    have hor := (hx.sub hone hn).or (hshift.sub hone Nat.one_le_two_pow)
    have hle := roundUp_le k n
    rw [← or_mask_succ hn k] at hle ⊢
    exact hor.add hone (hfits.mono (by omega))
  cases a with
  | s390x => exact hmask 6 (by decide) (hpos rfl)
  | s390 => exact hmask 3 (by decide) (hpos rfl)
  | _ => simpa only [align_memmap, Arch.sectionBits, roundUp_zero] using hx

/-- The division by `SIZE_STRUCT_PAGE` gives back the number of pages. -/
theorem maxpfn_eq {a : Arch} {pagesize : Nat} (h : 2 ^ 12 ≤ pagesize) (x : Nat) :
    (x * pagesize / (pagesize - a.block.SIZE_STRUCT_PAGE) - x) / a.block.SIZE_STRUCT_PAGE =
      x / (pagesize - a.block.SIZE_STRUCT_PAGE) := by
  have hpage := (bounded a).structPage
  have hpos := (bounded a).structPage_pos
  calc
    (x * pagesize / (pagesize - a.block.SIZE_STRUCT_PAGE) - x) / a.block.SIZE_STRUCT_PAGE
        = x * a.block.SIZE_STRUCT_PAGE / (pagesize - a.block.SIZE_STRUCT_PAGE) /
            a.block.SIZE_STRUCT_PAGE := by
          rw [mul_div_sub x (by omega), Nat.add_sub_cancel_left]
    _ = x * a.block.SIZE_STRUCT_PAGE /
          ((pagesize - a.block.SIZE_STRUCT_PAGE) * a.block.SIZE_STRUCT_PAGE) :=
          Nat.div_div_eq_div_mul _ _ _
    _ = x / (pagesize - a.block.SIZE_STRUCT_PAGE) := Nat.mul_div_mul_right _ _ hpos

/-- The memory map is not larger than the memory it is for, up to one section. -/
theorem memoryMap_le {pagesize : Nat} (h : 2 ^ 12 ≤ pagesize) (x : Nat) :
    memoryMap a pagesize x ≤ x + 2 ^ 12 := by
  have hpage := (bounded a).structPage
  have hbits : 2 ^ a.sectionBits - 1 ≤ 63 := by
    cases a <;> decide
  have hround := roundUp_le a.sectionBits (x / (pagesize - a.block.SIZE_STRUCT_PAGE))
  have hdiv : x / (pagesize - a.block.SIZE_STRUCT_PAGE) ≤ x / 64 :=
    Nat.div_le_div_left (by omega) (by decide)
  calc
    memoryMap a pagesize x ≤ (x / 64 + 63) * 64 :=
      Nat.mul_le_mul (by omega) hpage
    _ ≤ x + 2 ^ 12 := by omega

theorem exact_memmapStep (hw : w.Fits (2 ^ 32 - 1)) (m : Machine a) {x : Word w} {n : Nat}
    (hx : x.Exact n) (hn : 2 ^ 12 ≤ n) (hfits : w.Fits (n * m.pagesize)) :
    Word.Exact (memmapStep a m.pagesize x) (n + memoryMap a m.pagesize n) := by
  have hpage := (bounded a).structPage
  have hpos := (bounded a).structPage_pos
  have hle := m.le_pagesize
  have hP : Word.Exact (m.pagesize : Word w) m.pagesize :=
    exact_lit hw (m.pagesize_le.trans (by decide))
  have hS : Word.Exact (a.block.SIZE_STRUCT_PAGE : Word w) a.block.SIZE_STRUCT_PAGE :=
    exact_lit hw (by omega)
  have hreq := (hx.mul hP hfits).div (hP.sub hS (by omega))
  have hprev : n ≤ n * m.pagesize / (m.pagesize - a.block.SIZE_STRUCT_PAGE) := by
    rw [mul_div_sub n (by omega)]
    exact Nat.le_add_right _ _
  have hmaxpfn := (hreq.sub hx hprev).div hS
  rw [maxpfn_eq hle n] at hmaxpfn
  -- the bound on the product leaves room for every other value of the computation
  have hlarge : 2 * n + 2 ^ 13 ≤ n * m.pagesize := by
    calc
      2 * n + 2 ^ 13 ≤ n * 2 ^ 12 := by omega
      _ ≤ n * m.pagesize := Nat.mul_le_mul_left n hle
  have hdiv : n / (m.pagesize - a.block.SIZE_STRUCT_PAGE) ≤ n := Nat.div_le_self _ _
  have hmap := memoryMap_le (a := a) hle n
  have halign := exact_align_memmap hw hmaxpfn
    (fun hmain => by
      have hsize : m.pagesize = 2 ^ 12 := by
        rw [Machine.pagesize, m.pageShift_mainframe hmain]
      exact Nat.div_pos (by omega) (by omega))
    (hfits.mono (by omega))
  have hsum : n + memoryMap a m.pagesize n ≤ n * m.pagesize := by omega
  have hmapped := halign.mul hS (hfits.mono ((Nat.le_add_left _ n).trans hsum))
  exact hx.add hmapped (hfits.mono hsum)

/-- The run-time size, as long as the three products fit. -/
theorem exact_scale (hw : w.Fits (2 ^ 32 - 1)) (m : Machine a) {d : Word w} {D : Nat}
    (hd : d.Exact D) (hD : 140288 ≤ D) (hdirty : w.Fits (D * MB 100))
    (hhash : w.Fits (loadedKB a D * 2 ^ 20)) (hmap : w.Fits (mappedKB a D * m.pagesize)) :
    Word.Exact (scale a m.pagesize d) (D + room a m.pagesize D) := by
  have hload := (bounded a).load
  have hL : Word.Exact (a.block.KDUMP_PHYS_LOAD : Word w) a.block.KDUMP_PHYS_LOAD :=
    exact_lit hw (by omega)
  have hloaded : Word.Exact (dirtyStep d + (a.block.KDUMP_PHYS_LOAD : Word w)) (loadedKB a D) :=
    (exact_dirtyStep hw hd hdirty).add hL (hhash.mono (Nat.le_mul_of_pos_right _ (by decide)))
  have hmapped := exact_hashStep (a := a) hw hloaded hhash
  have hlarge : 2 ^ 12 ≤ mappedKB a D := by
    rw [mappedKB, loadedKB]
    omega
  have hsum := exact_memmapStep hw m hmapped hlarge hmap
  have hloadedKB : loadedKB a D = D + dirtyPages D + a.block.KDUMP_PHYS_LOAD := rfl
  have hmappedKB : mappedKB a D = loadedKB a D + largeHashes a (loadedKB a D) := rfl
  have heq : loadedKB a D + largeHashes a (loadedKB a D) +
      memoryMap a m.pagesize (mappedKB a D) - a.block.KDUMP_PHYS_LOAD =
        D + room a m.pagesize D := by
    rw [room]
    omega
  rw [← heq]
  exact hsum.sub hL (by omega)

/-! ## The `try` block -/

section

variable {fadump : Bool} {c : Configuration fadump} {needsnet : Bool}

/-- What `reserve` leaves when nothing is thrown. -/
theorem reserve_eq {cpus : Word w} (hnet : c.needsNetwork = .ok needsnet)
    (hcpus : assumedCPUs w m (c.intValue "KDUMP_CPUS") = .ok cpus) :
    reserve w m c = .ok
      { required :=
          if scale a m.pagesize (demands w m needsnet c.needsMakedumpfile) <
              bootsize w a needsnet then
            bootsize w a needsnet
          else
            scale a m.pagesize (demands w m needsnet c.needsMakedumpfile)
        bootsize := bootsize w a needsnet
        cpus := cpus } := by
  simp only [reserve, account_eq hnet hcpus]

theorem account_ok {acc : Account w} (h : account w m c = .ok acc) :
    ∃ needsnet, c.needsNetwork = .ok needsnet ∧
      assumedCPUs w m (c.intValue "KDUMP_CPUS") = .ok acc.cpus ∧
      acc.required = demands w m needsnet c.needsMakedumpfile := by
  cases hnet : c.needsNetwork with
  | error e =>
      simp only [account, hnet] at h
      cases h
  | ok needsnet =>
      cases hcpus : assumedCPUs w m (c.intValue "KDUMP_CPUS") with
      | error e =>
          simp only [account, hnet, hcpus] at h
          cases h
      | ok cpus =>
          rw [account_eq hnet hcpus] at h
          cases h
          exact ⟨needsnet, rfl, rfl, rfl⟩

theorem reserve_ok {acc : Account w} (h : reserve w m c = .ok acc) :
    ∃ needsnet, c.needsNetwork = .ok needsnet ∧
      assumedCPUs w m (c.intValue "KDUMP_CPUS") = .ok acc.cpus := by
  cases haccount : account w m c with
  | error e =>
      simp only [reserve, haccount] at h
      cases h
  | ok acc' =>
      obtain ⟨needsnet, hnet, hcpus, -⟩ := account_ok haccount
      simp only [reserve, haccount] at h
      cases h
      exact ⟨needsnet, hnet, hcpus⟩

/-- Over unbounded integers, the step that makes sure there is enough space at boot changes
nothing. -/
theorem exact_reserve {acc : Account none} (hnet : c.needsNetwork = .ok needsnet)
    (h : reserve none m c = .ok acc) :
    acc.required.Exact
      (m.accountedKB needsnet c.needsMakedumpfile +
        room a m.pagesize (m.accountedKB needsnet c.needsMakedumpfile)) := by
  have hw : Width.Fits none (2 ^ 32 - 1) := Width.fits_none _
  have hdemands := exact_demands m.readable_none needsnet c.needsMakedumpfile (Width.fits_none _)
  have hscale := exact_scale hw m hdemands (le_accountedKB m needsnet c.needsMakedumpfile)
    (Width.fits_none _) (Width.fits_none _) (Width.fits_none _)
  have hboot := exact_bootsize (a := a) hw needsnet
  have hle := bootKB_le_accountedKB m needsnet c.needsMakedumpfile
  obtain ⟨needsnet', hnet', hcpus⟩ := reserve_ok h
  rw [reserve_eq hnet hcpus] at h
  have hreq := congrArg Account.required (Except.ok.inj h)
  have hnot : ¬ scale a m.pagesize (demands none m needsnet c.needsMakedumpfile) <
      bootsize none a needsnet := by
    intro hlt
    have hlt' : (scale a m.pagesize (demands none m needsnet c.needsMakedumpfile)).value <
        (bootsize none a needsnet).value := hlt
    rw [hscale.value, hboot.value] at hlt'
    omega
  rw [← hreq]
  simp only [if_neg hnot]
  exact hscale

end

end

end Calibrate
end Kdump

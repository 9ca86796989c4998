import Kdump.Calibrate.Reservation

/-!
# Bounds — what the reservation covers, when it wraps, and that it is monotone

* `execute_covers_iff` — the accounted demands and the CPUs fit into the reservation;
* `scale_overflowed_iff` — the scaling steps stay inside `unsigned long`;
* `reserve_mono` — more memory in use leads to a reservation that is not smaller.
-/

namespace Kdump
namespace Calibrate

open Lib Config

variable {a : Arch} {fadump : Bool} {c : Configuration fadump} {needsnet : Bool}

/-! ## The allowance for SWIOTLB -/

namespace Machine

variable (m : Machine a)

/-- The end of the area that `MemMap::find` estimates for a reservation of `r` KiB. -/
def areaEnd (r : Nat) : Nat :=
  (MemMap.find m.ranges ((r * 2 ^ 10 : Nat) : Word none) ((2 ^ 24 : Nat) : Word none)).value +
    r * 2 ^ 10

def swiotlbKB (r : Nat) : Nat :=
  if a = .x86_64 ∧ 2 ^ 32 ≤ m.areaEnd r then MB 64 else 0

end Machine

theorem value_addSwiotlb (m : Machine a) {required : Word none} {r : Nat}
    (h : required.Exact r) : (addSwiotlb none m required).value = r + m.swiotlbKB r := by
  have hreq : required = (r : Word none) := h.eq_mk
  subst hreq
  cases a with
  | x86_64 =>
      by_cases hend : 2 ^ 32 ≤ m.areaEnd r
      · have hbranch : ((2 ^ 32 : Nat) : Word none) ≤
            MemMap.find m.ranges ((r * 2 ^ 10 : Nat) : Word none) ((2 ^ 24 : Nat) : Word none) +
              ((r * 2 ^ 10 : Nat) : Word none) := hend
        rw [Machine.swiotlbKB, if_pos ⟨rfl, hend⟩]
        exact congrArg Word.value (if_pos hbranch)
      · have hbranch : ¬ ((2 ^ 32 : Nat) : Word none) ≤
            MemMap.find m.ranges ((r * 2 ^ 10 : Nat) : Word none) ((2 ^ 24 : Nat) : Word none) +
              ((r * 2 ^ 10 : Nat) : Word none) := hend
        rw [Machine.swiotlbKB, if_neg fun h => hend h.2]
        exact congrArg Word.value (if_neg hbranch)
  | _ => rfl

/-! ## The reservation covers the demands -/

/-- The CPUs are counted and then forgotten; their demand is met only if it happens to fit into the
rooms for other things. -/
theorem execute_covers_iff (m : Machine a) {cpus : Word none}
    (hnet : c.needsNetwork = .ok needsnet)
    (hcpus : assumedCPUs none m (c.intValue "KDUMP_CPUS") = .ok cpus) :
    ((bootsize none a needsnet).value ≤ (execute none m c).value ∧
      m.accountedKB needsnet c.needsMakedumpfile + cpus.value * a.block.PERCPU_KB ≤
        (execute none m c).value) ↔
      cpus.value * a.block.PERCPU_KB ≤
        room a m.pagesize (m.accountedKB needsnet c.needsMakedumpfile) +
          m.swiotlbKB (m.accountedKB needsnet c.needsMakedumpfile +
            room a m.pagesize (m.accountedKB needsnet c.needsMakedumpfile)) := by
  have hrun := reserve_eq (m := m) hnet hcpus
  have hreserve := exact_reserve hnet hrun
  have hexecute : (execute none m c).value =
      m.accountedKB needsnet c.needsMakedumpfile +
        room a m.pagesize (m.accountedKB needsnet c.needsMakedumpfile) +
          m.swiotlbKB (m.accountedKB needsnet c.needsMakedumpfile +
            room a m.pagesize (m.accountedKB needsnet c.needsMakedumpfile)) := by
    rw [execute, reserveOrDefault, hrun]
    exact value_addSwiotlb m hreserve
  have hboot := (exact_bootsize (w := none) (a := a) (Width.fits_none _) needsnet).value
  have hle := bootKB_le_accountedKB m needsnet c.needsMakedumpfile
  rw [hexecute, hboot]
  constructor
  · intro h
    have hcover := h.2
    omega
  · intro h
    exact ⟨by omega, by omega⟩

/-! ## The default configuration -/

theorem needsNetwork_defaults : (Configuration.defaults true).needsNetwork = .ok false := by
  decide +kernel

theorem needsMakedumpfile_defaults : (Configuration.defaults true).needsMakedumpfile = true := by
  decide +kernel

theorem KDUMP_CPUS_defaults : (Configuration.defaults true).intValue "KDUMP_CPUS" = 1 := by
  decide +kernel

/-- 64 GiB in pages of 64 KiB, and some number of CPUs. -/
def powerMachine (cpus : Nat) : Machine .powerpc64 where
  ranges := [⟨0, 2 ^ 36 - 1, by decide⟩]
  pageShift := 16
  pageShift_ge := by decide
  pageShift_le := by decide
  pageShift_mainframe := by decide
  framebuffers := .ok []
  crypto := .ok []
  slabs := .ok []
  numOnline := .ok cpus
  numOffline := .ok 0

theorem execute_covers_few :
    (Configuration.defaults true).needsNetwork = .ok false ∧
      (powerMachine 16).accountedKB false true + 16 * 172 ≤
        (execute none (powerMachine 16) (Configuration.defaults true)).value := by
  have hcpus : assumedCPUs none (powerMachine 16)
      ((Configuration.defaults true).intValue "KDUMP_CPUS") = .ok ⟨16, false⟩ := by
    rw [KDUMP_CPUS_defaults]
    rfl
  have hcovers := execute_covers_iff (powerMachine 16) needsNetwork_defaults hcpus
  rw [needsMakedumpfile_defaults] at hcovers
  exact ⟨needsNetwork_defaults, (hcovers.2 (by decide)).2⟩

/-- With 1024 CPUs, 120 MiB are missing. -/
theorem execute_misses_many :
    (Configuration.defaults true).needsNetwork = .ok false ∧
      assumedCPUs none (powerMachine 1024)
        ((Configuration.defaults true).intValue "KDUMP_CPUS") = .ok ⟨1024, false⟩ ∧
      ¬ (powerMachine 1024).accountedKB false (Configuration.defaults true).needsMakedumpfile +
          1024 * Arch.powerpc64.block.PERCPU_KB ≤
        (execute none (powerMachine 1024) (Configuration.defaults true)).value := by
  rw [KDUMP_CPUS_defaults, needsMakedumpfile_defaults]
  exact ⟨needsNetwork_defaults, rfl, by decide⟩

/-! ## The scaling steps stay in range -/

theorem tracks_dirtyStep {w : Width} {d : Word w} {D : Nat} (hd : d.Tracks D) :
    (dirtyStep d).Tracks (D + dirtyPages D) := by
  rw [← dirty_eq]
  exact (hd.mul (Word.tracks_natCast _)).div (Word.tracks_natCast _)

/-- The product of the hash step is computed in a run without overflow. -/
theorem fits_of_scale {w : Width} (hw : w.Fits (2 ^ 32 - 1)) {d : Word w} {D pagesize : Nat}
    (hd : d.Tracks D) (h : (scale a pagesize d).overflowed = false) :
    w.Fits (loadedKB a D * 2 ^ 20) := by
  have hmemmap := ((Word.overflowed_sub _ _).1 h).1.1
  have hhash := ((Word.overflowed_add _ _).1 hmemmap).1.1
  have hmul := ((Word.overflowed_div _ _).1 hhash).1
  obtain ⟨⟨hloaded, -⟩, hfits⟩ := (Word.overflowed_mul _ _).1 hmul
  have hvalue : (dirtyStep d + (a.block.KDUMP_PHYS_LOAD : Word w)).value = loadedKB a D :=
    (tracks_dirtyStep hd).add (Word.tracks_natCast _) hloaded
  have hMB : ((MB 1024 : Nat) : Word w).value = 2 ^ 20 := (exact_lit hw (by decide)).value
  rwa [hvalue, hMB] at hfits

theorem le_loadedKB (a : Arch) (D : Nat) : D ≤ loadedKB a D :=
  (Nat.le_add_right _ _).trans (Nat.le_add_right _ _)

/-- The second of the three products is the one that decides. -/
theorem scale_overflowed_iff (m : Machine a) (hread : m.Readable a.ulong) {acc : Account a.ulong}
    (hnet : c.needsNetwork = .ok needsnet) (hrun : account a.ulong m c = .ok acc) :
    (scale a m.pagesize acc.required).overflowed = false ↔
      a.block.sizeof_long = 8 ∧
        loadedKB a (m.accountedKB needsnet c.needsMakedumpfile) < 2 ^ 44 := by
  obtain ⟨needsnet', hnet', -, hreq⟩ := account_ok hrun
  obtain rfl : needsnet = needsnet' := Except.ok.inj (hnet.symm.trans hnet')
  rw [hreq]
  have hD := le_accountedKB m needsnet c.needsMakedumpfile
  have hload := le_loadedKB a (m.accountedKB needsnet c.needsMakedumpfile)
  constructor
  · intro hov
    have hfits := fits_of_scale hread.wide (tracks_demands hread needsnet c.needsMakedumpfile) hov
    rcases (bounded a).long with hlong | hlong
    · rw [Arch.ulong, hlong, Width.fits_some] at hfits
      omega
    · rw [Arch.ulong, hlong, Width.fits_some] at hfits
      exact ⟨hlong, by omega⟩
  · intro h
    have hfits {n : Nat} (hn : n < 2 ^ 64) : a.ulong.Fits n := by
      rw [Arch.ulong, h.1, Width.fits_some]
      exact hn
    -- the hashes are no more than what is loaded, and the last product has room for both
    have hmapped : mappedKB a (m.accountedKB needsnet c.needsMakedumpfile) < 2 ^ 45 := by
      have hhash := largeHashes_le a (loadedKB a (m.accountedKB needsnet c.needsMakedumpfile))
      rw [mappedKB]
      omega
    have hpage : mappedKB a (m.accountedKB needsnet c.needsMakedumpfile) * m.pagesize < 2 ^ 64 := by
      calc
        mappedKB a (m.accountedKB needsnet c.needsMakedumpfile) * m.pagesize
            ≤ 2 ^ 45 * 2 ^ 18 := Nat.mul_le_mul hmapped.le m.pagesize_le
        _ < 2 ^ 64 := by decide
    have hdemands := exact_demands hread needsnet c.needsMakedumpfile (hfits (by omega))
    refine (exact_scale hread.wide m hdemands hD ?_ ?_ ?_).fits
    · rw [MB]
      exact hfits (by omega)
    · exact hfits (by omega)
    · exact hfits hpage

/-- A PC with some RAM, a screen of 8 MiB and one LUKS device. -/
def pcMachine (a : Arch) (ha : a.isMainframe = false) (gib luks : Nat) : Machine a where
  ranges := [⟨0, gib * 2 ^ 30 - 1, Nat.zero_le _⟩]
  pageShift := 12
  pageShift_ge := le_refl _
  pageShift_le := by decide
  pageShift_mainframe := by simp [ha]
  framebuffers := .ok [⟨1024, 8192⟩]
  crypto := .ok [luks]
  slabs := .ok []
  numOnline := .ok 4
  numOffline := .ok 0

theorem readable_pcMachine : (pcMachine .x86_64 (by decide) 16 0).Readable Arch.x86_64.ulong where
  wide := by decide
  ranges := by simp [pcMachine, ulonglong, Arch.ulong]
  totalRAM := by decide
  totalKB := by decide
  framebuffers fbs h := by
    cases h
    simp [Arch.ulong, Arch.block]
  crypto devices h := by
    cases h
    simp [Arch.ulong]
  slabs info h := by
    cases h
    simp

theorem scale_overflowed_pc :
    (Configuration.defaults true).needsNetwork = .ok false ∧
      ∃ acc, account Arch.x86_64.ulong (pcMachine .x86_64 (by decide) 16 0)
          (Configuration.defaults true) = .ok acc ∧
        (scale .x86_64 4096 acc.required).overflowed = false := by
  have hlt : loadedKB .x86_64 ((pcMachine .x86_64 (by decide) 16 0).accountedKB false
      (Configuration.defaults true).needsMakedumpfile) < 2 ^ 44 := by
    rw [needsMakedumpfile_defaults]
    decide
  have hcpus : assumedCPUs Arch.x86_64.ulong (pcMachine .x86_64 (by decide) 16 0)
      ((Configuration.defaults true).intValue "KDUMP_CPUS") = .ok ⟨1, false⟩ := by
    rw [KDUMP_CPUS_defaults]
    rfl
  have hrun := account_eq needsNetwork_defaults hcpus
  refine ⟨needsNetwork_defaults, _, hrun, ?_⟩
  exact (scale_overflowed_iff _ readable_pcMachine needsNetwork_defaults hrun).2 ⟨rfl, hlt⟩

/-- With 32 bits, already the first product is too large. -/
theorem scale_overflowed_i386 :
    (Configuration.defaults true).needsNetwork = .ok false ∧
      ∃ acc, account Arch.i386.ulong (pcMachine .i386 (by decide) 1 0)
          (Configuration.defaults true) = .ok acc ∧
        acc.required.overflowed = false ∧
        2 ^ 32 ≤ acc.required.value * MB 100 ∧
        (scale .i386 4096 acc.required).overflowed = true := by
  have hcpus : assumedCPUs Arch.i386.ulong (pcMachine .i386 (by decide) 1 0)
      ((Configuration.defaults true).intValue "KDUMP_CPUS") = .ok ⟨1, false⟩ := by
    rw [KDUMP_CPUS_defaults]
    rfl
  refine ⟨needsNetwork_defaults, _, account_eq needsNetwork_defaults hcpus, ?_⟩
  rw [needsMakedumpfile_defaults]
  decide +kernel

/-! ## Monotonicity -/

/-- Equal, or both there and related. -/
def LeOrEq {α : Type} (le : α → α → Prop) (x y : OrKError α) : Prop :=
  x = y ∨ ∃ u v, x = .ok u ∧ y = .ok v ∧ le u v

/-- One machine has not more System RAM, framebuffer memory, crypto memory and memory in any counted
slab cache than another, everything else being equal. -/
structure Machine.Le (m m' : Machine a) : Prop where
  totalRAM : m.totalRAM ≤ m'.totalRAM
  pageShift : m.pageShift = m'.pageShift
  framebuffers : LeOrEq
    (fun fbs fbs' => (fbs.map fun fb => fb.stride * fb.height).sum ≤
      (fbs'.map fun fb => fb.stride * fb.height).sum) m.framebuffers m'.framebuffers
  crypto : LeOrEq (fun devices devices' => devices.foldl max 0 ≤ devices'.foldl max 0)
    m.crypto m'.crypto
  slabs : LeOrEq
    (List.Forall₂ fun s s' => s.m_name = s'.m_name ∧
      (s.isCounted = true →
        s.m_num_slabs * s.m_pages_per_slab ≤ s'.m_num_slabs * s'.m_pages_per_slab))
    m.slabs m'.slabs
  numOnline : m.numOnline = m'.numOnline
  numOffline : m.numOffline = m'.numOffline

/-- Larger slab caches need more memory; those that are not counted do not matter. -/
theorem countedKB_mono (pagesize : Nat) {info info' : List SlabInfo}
    (h : List.Forall₂ (fun s s' => s.m_name = s'.m_name ∧
      (s.isCounted = true →
        s.m_num_slabs * s.m_pages_per_slab ≤ s'.m_num_slabs * s'.m_pages_per_slab)) info info') :
    ((info.filter SlabInfo.isCounted).map (Machine.slabKB pagesize)).sum ≤
      ((info'.filter SlabInfo.isCounted).map (Machine.slabKB pagesize)).sum := by
  induction h with
  | nil => exact le_refl _
  | @cons s s' info info' hs hrest ih =>
      have hcounted : s.isCounted = s'.isCounted := by
        rw [SlabInfo.isCounted, SlabInfo.isCounted, hs.1]
      cases hc : s.isCounted with
      | false =>
          rw [List.filter_cons_of_neg (by simp [hc]),
            List.filter_cons_of_neg (by simp [← hcounted, hc])]
          exact ih
      | true =>
          have hslab : Machine.slabKB pagesize s ≤ Machine.slabKB pagesize s' :=
            Nat.div_le_div_right (Nat.mul_le_mul_right _ (hs.2 hc))
          rw [List.filter_cons_of_pos hc, List.filter_cons_of_pos (hcounted ▸ hc)]
          simp only [List.map_cons, List.sum_cons]
          exact Nat.add_le_add hslab ih

namespace Machine.Le

variable {m m' : Machine a}

theorem pagesize (h : m.Le m') : m.pagesize = m'.pagesize := by
  rw [Machine.pagesize, Machine.pagesize, h.pageShift]

theorem framebufferKB (h : m.Le m') : m.framebufferKB ≤ m'.framebufferKB := by
  rcases h.framebuffers with heq | ⟨fbs, fbs', hfbs, hfbs', hle⟩
  · simp only [Machine.framebufferKB, heq, le_refl]
  · simp only [Machine.framebufferKB, hfbs, hfbs']
    exact Nat.div_le_div_right (Nat.mul_le_mul_left 2 hle)

theorem cryptoKB (h : m.Le m') : m.cryptoKB ≤ m'.cryptoKB := by
  rcases h.crypto with heq | ⟨devices, devices', hdevices, hdevices', hle⟩
  · simp only [Machine.cryptoKB, heq, le_refl]
  · simp only [Machine.cryptoKB, hdevices, hdevices']
    exact hle

theorem slabsKB (h : m.Le m') : m.slabsKB ≤ m'.slabsKB := by
  rcases h.slabs with heq | ⟨info, info', hinfo, hinfo', hle⟩
  · simp only [Machine.slabsKB, heq, h.pagesize, le_refl]
  · simp only [Machine.slabsKB, hinfo, hinfo', h.pagesize]
    exact countedKB_mono _ hle

theorem userKB (h : m.Le m') (needsnet needsMakedumpfile : Bool) :
    m.userKB needsnet needsMakedumpfile ≤ m'.userKB needsnet needsMakedumpfile := by
  have htotal : m.totalKB ≤ m'.totalKB := by
    have hram := h.totalRAM
    exact Nat.div_le_div_right (by omega)
  have hbitmap : m.bitmapKB ≤ m'.bitmapKB := by
    have hpages : m.totalKB / m.pagesize ≤ m'.totalKB / m'.pagesize := by
      rw [h.pagesize]
      exact Nat.div_le_div_right htotal
    exact min_le_min_right _ (Nat.div_le_div_right (by omega))
  cases needsMakedumpfile with
  | false => simp only [Machine.userKB, Bool.false_eq_true, if_false, le_refl]
  | true =>
      have htables : (m.totalKB + 2 ^ 27 - 1) / 2 ^ 27 ≤ (m'.totalKB + 2 ^ 27 - 1) / 2 ^ 27 :=
        Nat.div_le_div_right (by omega)
      simp only [Machine.userKB, if_true]
      exact Nat.add_le_add (Nat.add_le_add_left hbitmap _) (Nat.mul_le_mul_left 96 htables)

theorem accountedKB (h : m.Le m') (needsnet needsMakedumpfile : Bool) :
    m.accountedKB needsnet needsMakedumpfile ≤ m'.accountedKB needsnet needsMakedumpfile := by
  have hfb := h.framebufferKB
  have hcrypto := h.cryptoKB
  have hslabs := h.slabsKB
  have huser := h.userKB needsnet needsMakedumpfile
  rw [Machine.accountedKB, Machine.accountedKB]
  omega

end Machine.Le

theorem dirtyPages_mono {D D' : Nat} (h : D ≤ D') : dirtyPages D ≤ dirtyPages D' :=
  Nat.div_le_div_right (Nat.mul_le_mul_right 17 h)

theorem loadedKB_mono (a : Arch) {D D' : Nat} (h : D ≤ D') : loadedKB a D ≤ loadedKB a D' :=
  Nat.add_le_add_right (Nat.add_le_add h (dirtyPages_mono h)) _

theorem largeHashes_mono (a : Arch) {r r' : Nat} (h : r ≤ r') :
    largeHashes a r ≤ largeHashes a r' :=
  Nat.div_le_div_right (Nat.mul_le_mul_right _ h)

theorem mappedKB_mono (a : Arch) {D D' : Nat} (h : D ≤ D') : mappedKB a D ≤ mappedKB a D' :=
  Nat.add_le_add (loadedKB_mono a h) (largeHashes_mono a (loadedKB_mono a h))

theorem memoryMap_mono (a : Arch) (pagesize : Nat) {x x' : Nat} (h : x ≤ x') :
    memoryMap a pagesize x ≤ memoryMap a pagesize x' :=
  Nat.mul_le_mul_right _ (roundUp_mono _ (Nat.div_le_div_right h))

theorem room_mono (a : Arch) (pagesize : Nat) {D D' : Nat} (h : D ≤ D') :
    room a pagesize D ≤ room a pagesize D' :=
  Nat.add_le_add
    (Nat.add_le_add (dirtyPages_mono h) (largeHashes_mono a (loadedKB_mono a h)))
    (memoryMap_mono a pagesize (mappedKB_mono a h))

theorem assumedCPUs_congr {w : Width} {m m' : Machine a} (h : m.Le m') (KDUMP_CPUS : Int32) :
    assumedCPUs w m KDUMP_CPUS = assumedCPUs w m' KDUMP_CPUS := by
  rw [assumedCPUs, assumedCPUs, h.numOnline, h.numOffline]

/-- With more memory in use, the reservation is still computed, and it is not smaller. -/
theorem reserve_mono {m m' : Machine a} (h : m.Le m') {acc : Account none}
    (hrun : reserve none m c = .ok acc) :
    ∃ acc', reserve none m' c = .ok acc' ∧ acc.required.value ≤ acc'.required.value := by
  obtain ⟨needsnet, hnet, hcpus⟩ := reserve_ok hrun
  rw [assumedCPUs_congr h] at hcpus
  have hrun' := reserve_eq (m := m') hnet hcpus
  refine ⟨_, hrun', ?_⟩
  have hdemands := h.accountedKB needsnet c.needsMakedumpfile
  calc
    acc.required.value
        = m.accountedKB needsnet c.needsMakedumpfile +
            room a m.pagesize (m.accountedKB needsnet c.needsMakedumpfile) :=
          (exact_reserve hnet hrun).value
    _ ≤ m'.accountedKB needsnet c.needsMakedumpfile +
          room a m'.pagesize (m'.accountedKB needsnet c.needsMakedumpfile) := by
          rw [h.pagesize]
          exact Nat.add_le_add hdemands (room_mono a _ hdemands)
    _ = _ := (exact_reserve hnet hrun').value.symm

theorem pcMachine_le : (pcMachine .x86_64 (by decide) 8 1048576).Le
    (pcMachine .x86_64 (by decide) 16 2097152) where
  totalRAM := by decide
  pageShift := rfl
  framebuffers := Or.inl rfl
  crypto := Or.inr ⟨_, _, rfl, rfl, by decide⟩
  slabs := Or.inl rfl
  numOnline := rfl
  numOffline := rfl

theorem reserve_mono_pc :
    ∃ acc acc',
      reserve none (pcMachine .x86_64 (by decide) 8 1048576) (Configuration.defaults true) =
        .ok acc ∧
      reserve none (pcMachine .x86_64 (by decide) 16 2097152) (Configuration.defaults true) =
        .ok acc' ∧
      acc.required.value ≤ acc'.required.value := by
  have hcpus : assumedCPUs none (pcMachine .x86_64 (by decide) 8 1048576)
      ((Configuration.defaults true).intValue "KDUMP_CPUS") = .ok ⟨1, false⟩ := by
    rw [KDUMP_CPUS_defaults]
    rfl
  have hrun := reserve_eq needsNetwork_defaults hcpus
  obtain ⟨acc', hrun', hle⟩ := reserve_mono pcMachine_le hrun
  exact ⟨_, acc', hrun, hrun', hle⟩

end Calibrate
end Kdump

import Kdump.Calibrate.Reservation
import Kdump.Calibrate.Search

/-!
# LowHigh — the reservation below and above 4 GiB

On x86_64 the reservation is split in two: some memory below 4 GiB, where devices can reach it, and
the rest wherever there is room for it.

* `lowHigh` — the end of `Calibrate::execute` on x86_64;
* `lowHigh_enough` — both parts together are as large as the reservation;
* `lowHigh_covers_iff` — when the allowance for SWIOTLB is part of it.
-/

namespace Kdump
namespace Calibrate

open Lib Config

def MINLOW_KB : Nat :=
  MB (64 + 8)

/-- The variables behind the split. -/
structure Split (w : Width) where
  required : Word w
  low : Word w
  high : Word w

section

variable {w : Width}

/-- `base`: the estimated area for the crash kernel. -/
def crashBase (ranges : List MemRange) (required : Word w) : Word (ulonglong w) :=
  MemMap.find ranges ((required.shl 10).cast (ulonglong w)) ((2 ^ 24 : Nat) : Word (ulonglong w))

/-- With the allowance for SWIOTLB, if the area does not end below 4 GiB. -/
def withSwiotlb (ranges : List MemRange) (required : Word w) : Word w :=
  if ((2 ^ 32 : Nat) : Word (ulonglong w)) ≤
      crashBase ranges required + (required.shl 10).cast (ulonglong w) then
    required + (MB 64 : Nat)
  else
    required

/-- What there is above the low part, and never less than is needed at boot. -/
def highPart (required bootsize : Word w) : Word w :=
  let low : Word w := (MINLOW_KB : Nat)
  let high := if low < required then required - low else 0
  if high < bootsize then bootsize else high

def lowHigh (ranges : List MemRange) (required bootsize : Word w) : Split w :=
  let base := crashBase ranges required
  let required := withSwiotlb ranges required
  if base < ((2 ^ 32 : Nat) : Word (ulonglong w)) then
    { required := required, low := 0, high := required }
  else
    { required := required, low := (MINLOW_KB : Nat), high := highPart required bootsize }

/-- What is printed as `Low` and as `High`, in MiB. -/
def Split.printed (split : Split w) : Nat × Nat :=
  ((shr_round_up split.low 10).value, (shr_round_up split.high 10).value)

theorem required_lowHigh (ranges : List MemRange) (required bootsize : Word w) :
    (lowHigh ranges required bootsize).required = withSwiotlb ranges required := by
  unfold lowHigh
  dsimp only
  split_ifs <;> rfl

/-- The final value of `required` is that of `execute`. -/
theorem withSwiotlb_eq (m : Machine .x86_64) (required : Word w) :
    withSwiotlb m.ranges required = addSwiotlb w m required := rfl

/-- `bootsize` behind the `try` block. -/
def bootsizeOrDefault (w : Width) (a : Arch) {fadump : Bool} (c : Configuration fadump) : Word w :=
  match c.needsNetwork with
  | .ok needsnet => bootsize w a needsnet
  | .error _ => (DEF_BOOTSIZE a : Nat)

end

/-! ## Both parts together -/

section

variable {ranges : List MemRange} {required bootsize : Word ULL} {r b : Nat}

theorem exact_MINLOW : Word.Exact ((MINLOW_KB : Nat) : Word ULL) 73728 :=
  Word.exact_natCast (by decide)

theorem exact_highPart (hr : required.Exact r) (hb : bootsize.Exact b) :
    (highPart required bootsize).Exact (max (r - 73728) b) := by
  have hlow := exact_MINLOW
  have hiff : ((MINLOW_KB : Nat) : Word ULL) < required ↔ 73728 < r := by
    rw [← hlow.value, ← hr.value]
    rfl
  refine Word.Exact.max ?_ hb
  by_cases hless : 73728 < r
  · rw [if_pos (hiff.2 hless)]
    exact hr.sub hlow hless.le
  · rw [if_neg fun h => hless (hiff.1 h), Nat.sub_eq_zero_of_le (Nat.not_lt.1 hless)]
    exact Word.exact_ofNat (by decide)

theorem value_round {n : Word ULL} {k : Nat} (hn : n.Exact k) (hk : k < 2 ^ 55) :
    (shr_round_up n 10).value = (k + 1023) / 1024 := by
  have hfits : Width.Fits ULL (k + 2 ^ 10) := by
    rw [Width.fits_some]
    omega
  exact (exact_shr_round_up 10 hn hfits).value

/-- What is printed is as much as the reservation, rounded up. -/
theorem lowHigh_enough (hr : (withSwiotlb ranges required).Exact r) (hb : bootsize.Exact b)
    (hr' : r < 2 ^ 54) (hb' : b < 2 ^ 54) :
    (r + 1023) / 1024 ≤ (lowHigh ranges required bootsize).printed.1 +
      (lowHigh ranges required bootsize).printed.2 := by
  unfold lowHigh Split.printed
  dsimp only
  split_ifs
  · have hhigh := value_round hr (by omega)
    exact hhigh.symm.le.trans (Nat.le_add_left _ _)
  · have hlow := value_round exact_MINLOW (by decide)
    have hhigh := value_round (exact_highPart hr hb) (by omega)
    rw [hlow, hhigh]
    omega

/-! ## The allowance -/

/-- The estimated area reaches to 4 GiB, or there is none. -/
def EndsHigh (ranges : List MemRange) (r : Nat) : Prop :=
  (crashBase ranges (r : Word ULL)).value = notFound ∨
    2 ^ 32 ≤ (crashBase ranges (r : Word ULL)).value + r * 2 ^ 10

/-- What the split is for, with a reservation of `r` KiB. -/
structure Covers (ranges : List MemRange) (r : Nat) (split : Split ULL) : Prop where
  swiotlb : EndsHigh ranges r → split.required.value = r + MB 64
  enough : (split.required.value + 1023) / 1024 ≤ split.printed.1 + split.printed.2

theorem exact_bootsizeOrDefault {fadump : Bool} (c : Configuration fadump) :
    ∃ b < 2 ^ 54, (bootsizeOrDefault ULL .x86_64 c).Exact b := by
  unfold bootsizeOrDefault
  cases c.needsNetwork with
  | ok needsnet =>
      refine ⟨_, ?_, exact_bootsize (by decide) needsnet⟩
      cases needsnet <;> decide
  | error e => exact ⟨_, by decide, Word.exact_natCast (by decide)⟩

theorem exact_bytes (h : r * 2 ^ 10 < 2 ^ 63) :
    Word.Exact (((r : Word ULL).shl 10).cast (ulonglong ULL)) (r * 2 ^ 10) := by
  have hr : Word.Exact (r : Word ULL) r := by
    refine Word.exact_natCast ?_
    rw [Width.fits_some]
    omega
  have hfits : Width.Fits ULL (r * 2 ^ 10) := by
    rw [Width.fits_some]
    omega
  exact (hr.shl hfits).cast hfits

/-- The test of the program, with the sum as the machine computes it. -/
theorem test_iff (ranges : List MemRange) (h : r * 2 ^ 10 < 2 ^ 63) :
    ((2 ^ 32 : Nat) : Word (ulonglong ULL)) ≤
        crashBase ranges (r : Word ULL) + ((r : Word ULL).shl 10).cast (ulonglong ULL) ↔
      2 ^ 32 ≤ ((crashBase ranges (r : Word ULL)).value + r * 2 ^ 10) % 2 ^ 64 := by
  rw [← (exact_bytes h).value]
  rfl

/-- The sum wraps around exactly if nothing has been found: then its value is one less than the
size. -/
theorem endsHigh_imp_iff (hfits : ∀ range ∈ ranges, range.m_end < 2 ^ 64)
    (h : r * 2 ^ 10 < 2 ^ 63) :
    (EndsHigh ranges r →
        2 ^ 32 ≤ ((crashBase ranges (r : Word ULL)).value + r * 2 ^ 10) % 2 ^ 64) ↔
      r = 0 ∨ 2 ^ 32 < r * 2 ^ 10 ∨
        ∃ base, MemMap.HasBlock ranges (r * 2 ^ 10) (2 ^ 24) base := by
  have hbytes := (exact_bytes h).value
  have halign : ((2 ^ 24 : Nat) : Word (ulonglong ULL)).value = 2 ^ 24 := rfl
  have hnotFound : notFound = 2 ^ 64 - 1 := rfl
  unfold EndsHigh
  rcases Nat.eq_zero_or_pos r with rfl | hpos
  · have hlt : (crashBase ranges ((0 : Nat) : Word ULL)).value < 2 ^ 64 :=
      MemMap.find_value_lt _ _ _
    refine iff_of_true ?_ (.inl rfl)
    rw [Nat.zero_mul, Nat.add_zero, Nat.mod_eq_of_lt hlt, hnotFound]
    omega
  · have hsize : 0 < (((r : Word ULL).shl 10).cast (ulonglong ULL)).value := by
      rw [hbytes]
      omega
    have hnone := MemMap.find_eq_notFound_iff (a := ((2 ^ 24 : Nat) : Word (ulonglong ULL)))
      hsize hfits
    have hhas := MemMap.hasBlock_find (a := ((2 ^ 24 : Nat) : Word (ulonglong ULL))) hsize hfits
    rw [hbytes, halign] at hnone hhas
    by_cases hblock : ∃ base, MemMap.HasBlock ranges (r * 2 ^ 10) (2 ^ 24) base
    · -- the area is within the range
      refine iff_of_true ?_ (.inr (.inr hblock))
      have hfound : (crashBase ranges (r : Word ULL)).value ≠ notFound :=
        fun hnot => hblock.elim (hnone.1 hnot)
      obtain ⟨range, hmem, hlast, hhere⟩ := hhas hfound
      have hbelow := hhere.below
      have hend := hfits range hmem
      change (crashBase ranges (r : Word ULL)).value + r * 2 ^ 10 ≤ range.m_end + 1 at hbelow
      rintro (hnot | hhigh)
      · exact absurd hnot hfound
      · rwa [Nat.mod_eq_of_lt (by omega)]
    · -- nothing has been found, and the last address is where the area would begin
      have hnot : (crashBase ranges (r : Word ULL)).value = notFound :=
        hnone.2 (not_exists.1 hblock)
      rw [hnot, hnotFound, or_iff_left hblock]
      omega

/-- On x86_64 both parts are always as large as the reservation together; an area that ends above
4 GiB, or is not found, makes the allowance for SWIOTLB part of it if and only if an area is found,
or the reservation is larger than 4 GiB (or empty). -/
theorem lowHigh_covers_iff (ranges : List MemRange) (hfits : ∀ range ∈ ranges, range.m_end < 2 ^ 64)
    {fadump : Bool} (c : Configuration fadump) (r : Nat) (h : r * 2 ^ 10 < 2 ^ 63) :
    Covers ranges r (lowHigh ranges (r : Word ULL) (bootsizeOrDefault ULL .x86_64 c)) ↔
      r = 0 ∨ 2 ^ 32 < r * 2 ^ 10 ∨
        ∃ base, MemMap.HasBlock ranges (r * 2 ^ 10) (2 ^ 24) base := by
  have hr : Word.Exact (r : Word ULL) r := by
    refine Word.exact_natCast ?_
    rw [Width.fits_some]
    omega
  have hallowance : Word.Exact ((MB 64 : Nat) : Word ULL) (MB 64) :=
    Word.exact_natCast (by decide)
  have hMB : MB 64 = 65536 := rfl
  obtain ⟨b, hb', hb⟩ := exact_bootsizeOrDefault c
  have htest := test_iff ranges h
  rw [← endsHigh_imp_iff hfits h]
  by_cases hhigh : ((2 ^ 32 : Nat) : Word (ulonglong ULL)) ≤
      crashBase ranges (r : Word ULL) + ((r : Word ULL).shl 10).cast (ulonglong ULL)
  · -- the allowance is added
    have hwith : (withSwiotlb ranges (r : Word ULL)).Exact (r + MB 64) := by
      rw [withSwiotlb, if_pos hhigh]
      refine hr.add hallowance ?_
      rw [Width.fits_some]
      omega
    have henough := lowHigh_enough hwith hb (by omega) hb'
    refine iff_of_true ⟨fun _ => ?_, ?_⟩ fun _ => htest.1 hhigh
    · rw [required_lowHigh]
      exact hwith.value
    · rw [required_lowHigh, hwith.value]
      exact henough
  · -- the allowance is not added, so that the area must not end high
    have hwith : (withSwiotlb ranges (r : Word ULL)).Exact r := by
      rw [withSwiotlb, if_neg hhigh]
      exact hr
    have henough := lowHigh_enough hwith hb (by omega) hb'
    constructor
    · intro hcovers hends
      have hadded := hcovers.swiotlb hends
      rw [required_lowHigh, hwith.value] at hadded
      omega
    · intro himp
      refine ⟨fun hends => absurd (htest.2 (himp hends)) hhigh, ?_⟩
      rw [required_lowHigh, hwith.value]
      exact henough

end

/-- With 2 GiB of memory, 300 MiB are found below 4 GiB. -/
theorem lowHigh_lowRam : Covers MemMap.lowRam 307200 (lowHigh MemMap.lowRam
    ((307200 : Nat) : Word ULL) (bootsizeOrDefault ULL .x86_64 (Configuration.defaults true))) := by
  have hfits : ∀ range ∈ MemMap.lowRam, range.m_end < 2 ^ 64 :=
    List.forall_mem_cons.2 ⟨by decide, List.forall_mem_singleton.2 (by decide)⟩
  refine (lowHigh_covers_iff _ hfits _ 307200 (by decide)).2 (.inr (.inr ⟨1811939328, ?_⟩))
  exact ⟨_, List.mem_cons_of_mem _ List.mem_cons_self, by decide, by decide, by decide, by decide⟩

/-- The memory of a machine with 256 MiB. -/
def smallRam : List MemRange :=
  [⟨0x100000, 0xfffffff, by decide⟩]

/-- There is no room for 300 MiB, and yet the allowance is missing: `~0 + 300 MiB` wraps around. -/
theorem lowHigh_smallRam :
    (crashBase smallRam ((307200 : Nat) : Word ULL)).value = notFound ∧
      ¬ Covers smallRam 307200 (lowHigh smallRam ((307200 : Nat) : Word ULL)
        (bootsizeOrDefault ULL .x86_64 (Configuration.defaults true))) := by
  have hnot : (crashBase smallRam ((307200 : Nat) : Word ULL)).value = notFound := by decide
  refine ⟨hnot, fun hcovers => ?_⟩
  have hadded := hcovers.swiotlb (.inl hnot)
  rw [required_lowHigh] at hadded
  exact absurd hadded (by decide)

end Calibrate
end Kdump

import Kdump.Calibrate.Calibrate
import Kdump.Lib.Blocks

/-!
# Search — the block that `MemMap::find` finds

`find` goes through the ranges from the last one on and takes the highest aligned block of the first
one that has any.

* `MemRange.block` — the block it takes of a range;
* `find_value` — its result, in 64-bit arithmetic, is the first of these;
* `find_eq_notFound_iff` — when nothing is found;
* `find_highest` — the contract.
-/

namespace Kdump
namespace Calibrate

open Lib

/-- `unsigned long long`. -/
abbrev ULL : Width :=
  some 64

/-- `~0ULL`. -/
def notFound : Nat :=
  2 ^ 64 - 1

/-- An aligned block of the range. -/
def MemRange.HasBlock (size align : Nat) (r : MemRange) (base : Nat) : Prop :=
  IsBlock size align r.m_start r.m_end base

/-- What `find` takes of a range.  The address behind a range may be zero, as a 64-bit number; such
a range is passed over. -/
def MemRange.block (size align : Nat) (r : MemRange) : Option Nat :=
  if r.m_end + 1 = 2 ^ 64 then none else highestBlock size align r.m_start r.m_end

namespace MemMap

theorem value_sub {a b : Word ULL} (h : b.value ≤ a.value) : (a - b).value = a.value - b.value := by
  rw [Word.sub_eq, if_pos h]

theorem value_natCast {n : Nat} (h : n < 2 ^ 64) : ((n : Word ULL)).value = n :=
  Nat.mod_eq_of_lt h

/-- `base` at the beginning of a pass. -/
theorem value_behind {r : MemRange} (hr : r.m_end < 2 ^ 64) :
    ((r.m_end : Word ULL) + 1).value = if r.m_end + 1 = 2 ^ 64 then 0 else r.m_end + 1 := by
  have hvalue : ((r.m_end : Word ULL) + 1).value = (r.m_end + 1) % 2 ^ 64 := by
    have hend := value_natCast hr
    calc ((r.m_end : Word ULL) + 1).value
      _ = ((r.m_end : Word ULL).value + 1) % 2 ^ 64 := rfl
      _ = (r.m_end + 1) % 2 ^ 64 := by rw [hend]
  rw [hvalue]
  split_ifs with hlast
  · rw [hlast, Nat.mod_self]
  · exact Nat.mod_eq_of_lt (Nat.lt_of_le_of_ne hr hlast)

/-- One pass over a range that is not passed over, with room for a block. -/
theorem value_down {behind s a : Word ULL} (h : s.value ≤ behind.value) :
    (behind - s - (behind - s) % a).value =
      behind.value - s.value - (behind.value - s.value) % a.value := by
  have hbase := value_sub h
  have hmod : ((behind - s) % a).value = (behind.value - s.value) % a.value := by
    rw [← hbase]
    rfl
  rw [value_sub, hmod, hbase]
  rw [hmod, hbase]
  exact Nat.mod_le _ _

theorem findIn_value {s a : Word ULL} (hsize : 0 < s.value) (rs : List MemRange)
    (hfits : ∀ r ∈ rs, r.m_end < 2 ^ 64) :
    (findIn s a rs).value =
      (rs.findSome? (MemRange.block s.value a.value)).getD notFound := by
  induction rs with
  | nil => rfl
  | cons r rs ih =>
      obtain ⟨hr, hrest⟩ := List.forall_mem_cons.1 hfits
      have hbehind := value_behind hr
      have hstart := value_natCast (r.start_le_end.trans_lt hr)
      rw [findIn, List.findSome?_cons, MemRange.block, highestBlock]
      generalize (r.m_end : Word ULL) + 1 = behind at hbehind
      dsimp only
      by_cases hlast : r.m_end + 1 = 2 ^ 64
      · -- the address behind the range is zero
        rw [if_pos hlast] at hbehind ⊢
        have hshort : behind < s := hbehind.trans_lt hsize
        rw [if_pos hshort]
        exact ih hrest
      · rw [if_neg hlast] at hbehind ⊢
        by_cases hshort : r.m_end + 1 < s.value
        · have hshort' : behind < s := hbehind.trans_lt hshort
          rw [if_pos hshort', if_pos hshort]
          exact ih hrest
        · have hshort' : ¬ behind < s := fun h => hshort (hbehind.symm.trans_lt h)
          have hdown := @value_down behind s a (Nat.not_lt.1 hshort')
          rw [hbehind] at hdown
          rw [if_neg hshort', if_neg hshort]
          -- nothing overflows any more, so that the test is the one on natural numbers
          by_cases hfound : r.m_start ≤ r.m_end + 1 - s.value - (r.m_end + 1 - s.value) % a.value
          · have hfound' : (r.m_start : Word ULL) ≤ behind - s - (behind - s) % a :=
              hstart.le.trans (hfound.trans_eq hdown.symm)
            rw [if_pos hfound', if_pos hfound]
            exact hdown
          · have hfound' : ¬ (r.m_start : Word ULL) ≤ behind - s - (behind - s) % a := by
              intro h
              have hle : (r.m_start : Word ULL).value ≤ (behind - s - (behind - s) % a).value := h
              rw [hstart, hdown] at hle
              exact hfound hle
            rw [if_neg hfound', if_neg hfound]
            exact ih hrest

/-- The result of `find`, in 64-bit arithmetic. -/
theorem find_value {ranges : List MemRange} {s a : Word ULL} (hsize : 0 < s.value)
    (hfits : ∀ r ∈ ranges, r.m_end < 2 ^ 64) :
    (find ranges s a).value =
      (ranges.reverse.findSome? (MemRange.block s.value a.value)).getD notFound :=
  findIn_value hsize _ fun r hr => hfits r (List.mem_reverse.1 hr)

/-- Whatever the arguments are, the result is a 64-bit number. -/
theorem find_value_lt (ranges : List MemRange) (s a : Word ULL) :
    (find ranges s a).value < 2 ^ 64 := by
  unfold find
  induction ranges.reverse with
  | nil => exact Nat.mod_lt _ (by decide)
  | cons r rs ih =>
      rw [findIn]
      dsimp only
      split_ifs with hshort
      · exact ih
      · have hbehind : ((r.m_end : Word ULL) + 1).value < 2 ^ 64 := Nat.mod_lt _ (by decide)
        rw [value_down (Nat.not_lt.1 hshort)]
        exact (Nat.sub_le _ _).trans_lt ((Nat.sub_le _ _).trans_lt hbehind)
      · exact ih

/-! ## The contract -/

section

variable {ranges : List MemRange} {s a : Word ULL} {base : Nat}

/-- A block that `find` may come to: not in a range that ends at the very last address. -/
def HasBlock (ranges : List MemRange) (size align base : Nat) : Prop :=
  ∃ r ∈ ranges, r.m_end + 1 ≠ 2 ^ 64 ∧ r.HasBlock size align base

theorem block_eq_some {size align : Nat} {r : MemRange} (h : r.block size align = some base) :
    r.m_end + 1 ≠ 2 ^ 64 ∧ r.HasBlock size align base := by
  unfold MemRange.block at h
  split_ifs at h with hlast
  exact ⟨hlast, isBlock_of_highestBlock h⟩

theorem block_eq_none {size align : Nat} {r : MemRange} (h : r.block size align = none)
    (hlast : r.m_end + 1 ≠ 2 ^ 64) : ¬ r.HasBlock size align base := by
  rw [MemRange.block, if_neg hlast] at h
  exact highestBlock_eq_none_iff.1 h base

/-- What is found is a block, and not `~0`. -/
theorem hasBlock_of_find (hsize : 0 < s.value) (hfits : ∀ r ∈ ranges, r.m_end < 2 ^ 64)
    (h : ranges.reverse.findSome? (MemRange.block s.value a.value) = some base) :
    HasBlock ranges s.value a.value base ∧ base < notFound := by
  obtain ⟨r, hr, hblock⟩ := List.exists_of_findSome?_eq_some h
  obtain ⟨hlast, hhas⟩ := block_eq_some hblock
  have hmem := List.mem_reverse.1 hr
  have hlt := hfits r hmem
  have hbelow := hhas.below
  refine ⟨⟨r, hmem, hlast, hhas⟩, ?_⟩
  unfold notFound
  omega

theorem find_eq_notFound_iff (hsize : 0 < s.value) (hfits : ∀ r ∈ ranges, r.m_end < 2 ^ 64) :
    (find ranges s a).value = notFound ↔ ∀ base, ¬ HasBlock ranges s.value a.value base := by
  rw [find_value hsize hfits]
  constructor
  · rintro hnone base ⟨r, hr, hlast, hhas⟩
    cases hfound : ranges.reverse.findSome? (MemRange.block s.value a.value) with
    | some other =>
        rw [hfound] at hnone
        exact absurd hnone (hasBlock_of_find hsize hfits hfound).2.ne
    | none =>
        have hblock := List.findSome?_eq_none_iff.1 hfound r (List.mem_reverse.2 hr)
        exact block_eq_none hblock hlast hhas
  · intro hnot
    cases hfound : ranges.reverse.findSome? (MemRange.block s.value a.value) with
    | some other => exact absurd (hasBlock_of_find hsize hfits hfound).1 (hnot other)
    | none => rfl

theorem hasBlock_find (hsize : 0 < s.value) (hfits : ∀ r ∈ ranges, r.m_end < 2 ^ 64)
    (hfound : (find ranges s a).value ≠ notFound) :
    HasBlock ranges s.value a.value (find ranges s a).value := by
  rw [find_value hsize hfits] at hfound ⊢
  cases h : ranges.reverse.findSome? (MemRange.block s.value a.value) with
  | some base => exact (hasBlock_of_find hsize hfits h).1
  | none =>
      rw [h] at hfound
      exact absurd rfl hfound

/-- Ranges in ascending order, without an overlap. -/
def Ascending (ranges : List MemRange) : Prop :=
  ranges.Pairwise fun r r' => r.m_end < r'.m_start

/-- For ranges that do not reach to the last address: `find` gives an aligned block within one
range, `~0` exactly if there is none, and the highest one if the ranges ascend. -/
theorem find_highest (ranges : List MemRange) (hend : ∀ r ∈ ranges, r.m_end < 2 ^ 64 - 1)
    (size align : UInt64) (hsize : 1 ≤ size) {base : Nat}
    (hbase : (find ranges (size.toNat : Word ULL) (align.toNat : Word ULL)).value = base) :
    (base ≠ notFound → align.toNat ∣ base ∧
        ∃ r ∈ ranges, Set.Icc base (base + size.toNat - 1) ⊆ Set.Icc r.m_start r.m_end) ∧
      (base = notFound ↔ ∀ r ∈ ranges, ∀ b, ¬ r.HasBlock size.toNat align.toNat b) ∧
      (Ascending ranges → base ≠ notFound →
        IsGreatest {b | ∃ r ∈ ranges, r.HasBlock size.toNat align.toNat b} base) := by
  have hsizeValue : (size.toNat : Word ULL).value = size.toNat := value_natCast size.toNat_lt
  have halignValue : (align.toNat : Word ULL).value = align.toNat := value_natCast align.toNat_lt
  have hpos : 0 < size.toNat := UInt64.le_iff_toNat_le.1 hsize
  have hpos' : 0 < (size.toNat : Word ULL).value := hpos.trans_eq hsizeValue.symm
  have hfits : ∀ r ∈ ranges, r.m_end < 2 ^ 64 := fun r hr => (hend r hr).trans (by decide)
  have hlast : ∀ r ∈ ranges, r.m_end + 1 ≠ 2 ^ 64 := by
    intro r hr
    have hlt := hend r hr
    omega
  have hvalue := find_value (a := (align.toNat : Word ULL)) hpos' hfits
  have hnone := find_eq_notFound_iff (a := (align.toNat : Word ULL)) hpos' hfits
  have hhas := hasBlock_find (a := (align.toNat : Word ULL)) hpos' hfits
  rw [hsizeValue, halignValue, hbase] at hvalue hnone hhas
  refine ⟨fun hfound => ?_, ?_, fun hascending hfound => ?_⟩
  · obtain ⟨r, hr, _, hblock⟩ := hhas hfound
    refine ⟨hblock.aligned, r, hr, Set.Icc_subset_Icc hblock.above ?_⟩
    exact Nat.sub_le_of_le_add hblock.below
  · rw [hnone]
    constructor
    · intro h r hr b hblock
      exact h b ⟨r, hr, hlast r hr, hblock⟩
    · rintro h b ⟨r, hr, _, hblock⟩
      exact h r hr b hblock
  · -- the ranges are tried from the last one on: whatever comes later is lower
    obtain ⟨r, hr, _, hblock⟩ := hhas hfound
    refine ⟨⟨r, hr, hblock⟩, ?_⟩
    rintro b ⟨r', hr', hblock'⟩
    cases hfirst : ranges.reverse.findSome? (MemRange.block size.toNat align.toNat) with
    | none =>
        rw [hfirst] at hvalue
        exact absurd hvalue hfound
    | some found =>
        rw [hfirst] at hvalue
        have hsame : base = found := hvalue
        rw [hsame]
        obtain ⟨before, r₀, after, hsplit, hr₀, hbefore⟩ := List.findSome?_eq_some_iff.1 hfirst
        have hblocks : ∀ r ∈ ranges.reverse, r.block size.toNat align.toNat =
            highestBlock size.toNat align.toNat r.m_start r.m_end :=
          fun r hr => if_neg (hlast r (List.mem_reverse.1 hr))
        have hdescending := List.pairwise_reverse.2 hascending
        have hmem := List.mem_reverse.2 hr'
        rw [hsplit] at hblocks hdescending hmem
        refine le_of_first hdescending hpos ?_ ?_ hmem hblock'
        · intro r hr
          rw [← hblocks r (List.mem_append_left _ hr)]
          exact hbefore r hr
        · rw [← hblocks r₀ (List.mem_append_right _ List.mem_cons_self)]
          exact hr₀

end

/-- The low memory of a machine with 2 GiB. -/
def lowRam : List MemRange :=
  [⟨0x1000, 0x9efff, by decide⟩, ⟨0x100000, 0x7fffffff, by decide⟩]

theorem find_highest_lowRam :
    IsGreatest {b | ∃ r ∈ lowRam, r.HasBlock (16777216 : UInt64).toNat (16777216 : UInt64).toNat b}
      0x7f000000 := by
  have hend : ∀ r ∈ lowRam, r.m_end < 2 ^ 64 - 1 :=
    List.forall_mem_cons.2 ⟨by decide, List.forall_mem_singleton.2 (by decide)⟩
  have hascending : Ascending lowRam :=
    List.pairwise_pair.2 (by decide)
  exact (find_highest lowRam hend 16777216 16777216 (by decide) rfl).2.2 hascending (by decide)

end MemMap
end Calibrate
end Kdump

import Mathlib.Order.Bounds.Basic
import Mathlib.Tactic

/-!
# Blocks — aligned blocks of numbers between two bounds

* `IsBlock` — a block of a given size, at a multiple of a given number;
* `highestBlock` — the highest one in an interval, and what it means that there is none;
* `le_of_first` — in a list of intervals, each below the one before it, the first block that is
  found is the highest of all.
-/

namespace Lib

/-- A block of a size at an aligned base, between two bounds that are included. -/
structure IsBlock (size align lo hi base : Nat) : Prop where
  aligned : align ∣ base
  above : lo ≤ base
  below : base + size ≤ hi + 1

/-- The block that is as near to the upper bound as the alignment allows. -/
def highestBlock (size align lo hi : Nat) : Option Nat :=
  if hi + 1 < size then
    none
  else
    let base := hi + 1 - size - (hi + 1 - size) % align
    if lo ≤ base then some base else none

variable {size align lo hi base base' : Nat}

/-! ## One interval -/

theorem dvd_sub_mod_self (n align : Nat) : align ∣ n - n % align := by
  rw [← Nat.div_mul_self_eq_mod_sub_self]
  exact Nat.dvd_mul_left align (n / align)

/-- A multiple of a number is not above another number rounded down to a multiple. -/
theorem le_sub_mod_of_dvd {n m align : Nat} (h : align ∣ m) (hle : m ≤ n) : m ≤ n - n % align := by
  obtain ⟨k, rfl⟩ := h
  rcases Nat.eq_zero_or_pos align with rfl | hpos
  · rw [Nat.zero_mul]
    exact Nat.zero_le _
  · rw [← Nat.div_mul_self_eq_mod_sub_self, Nat.mul_comm align k]
    apply Nat.mul_le_mul_right
    rw [Nat.le_div_iff_mul_le hpos, Nat.mul_comm]
    exact hle

theorem isBlock_of_highestBlock (h : highestBlock size align lo hi = some base) :
    IsBlock size align lo hi base := by
  unfold highestBlock at h
  dsimp only at h
  split_ifs at h with hsize hlo
  cases h
  have hle := Nat.sub_le (hi + 1 - size) ((hi + 1 - size) % align)
  exact ⟨dvd_sub_mod_self _ align, hlo, by omega⟩

theorem IsBlock.le_highestBlock (h : IsBlock size align lo hi base')
    (hhighest : highestBlock size align lo hi = some base) : base' ≤ base := by
  have hbelow := h.below
  unfold highestBlock at hhighest
  dsimp only at hhighest
  split_ifs at hhighest with hsize hlo
  cases hhighest
  exact le_sub_mod_of_dvd h.aligned (by omega)

theorem highestBlock_eq_none_iff :
    highestBlock size align lo hi = none ↔ ∀ base, ¬ IsBlock size align lo hi base := by
  constructor
  · intro hnone base h
    have hbelow := h.below
    unfold highestBlock at hnone
    dsimp only at hnone
    split_ifs at hnone with hsize hlo
    · omega
    · exact hlo (h.above.trans (le_sub_mod_of_dvd h.aligned (by omega)))
  · intro hnot
    cases h : highestBlock size align lo hi with
    | none => rfl
    | some base => exact absurd (isBlock_of_highestBlock h) (hnot base)

/-! ## A list of intervals -/

section

variable {α : Type*} {lower upper : α → Nat} {l l' : List α} {a b : α}

/-- The intervals come from above: no block in any of them is higher than the one in the first that
has any. -/
theorem le_of_first (hdescending : (l ++ a :: l').Pairwise fun a b => upper b < lower a)
    (hsize : 0 < size) (hnone : ∀ b ∈ l, highestBlock size align (lower b) (upper b) = none)
    (hfirst : highestBlock size align (lower a) (upper a) = some base) (hb : b ∈ l ++ a :: l')
    (hblock : IsBlock size align (lower b) (upper b) base') : base' ≤ base := by
  rcases List.mem_append.1 hb with hb | hb
  · exact absurd hblock (highestBlock_eq_none_iff.1 (hnone b hb) base')
  rcases List.mem_cons.1 hb with rfl | hb
  · exact hblock.le_highestBlock hfirst
  · -- the other block is below this interval
    have hrest := (List.pairwise_append.1 hdescending).2.1
    have hlt := List.rel_of_pairwise_cons hrest hb
    have hbelow := hblock.below
    have habove := (isBlock_of_highestBlock hfirst).above
    omega

end

end Lib

import Mathlib.Tactic

/-!
# SparseFile — the content of a file with holes

A file is read as a list; what was never written reads as zero.  Writing behind the end leaves a
hole, and truncating to a greater length makes one.
-/

namespace Lib

variable {α : Type} [Zero α]

/-- The content with a hole up to `n`. -/
def padTo (n : Nat) (d : List α) : List α :=
  d ++ List.replicate (n - d.length) 0

/-- Write `b` at the offset `off`.  Writing nothing does not make a hole. -/
def writeAt (d : List α) (off : Nat) : List α → List α
  | [] => d
  | x :: b => padTo off (d.take off) ++ x :: b ++ d.drop (off + (b.length + 1))

/-- Set the length to `n`. -/
def truncateTo (n : Nat) (d : List α) : List α :=
  padTo n (d.take n)

variable {d b : List α} {n m off : Nat}

theorem length_padTo : (padTo n d).length = max n d.length := by
  unfold padTo
  rw [List.length_append, List.length_replicate]
  omega

theorem padTo_of_le (h : n ≤ d.length) : padTo n d = d := by
  rw [padTo, Nat.sub_eq_zero_of_le h, List.replicate_zero, List.append_nil]

/-- A hole behind a hole. -/
theorem padTo_add (h : d.length ≤ n) (k : Nat) :
    padTo (n + k) d = padTo n d ++ List.replicate k 0 := by
  have hsub : n + k - d.length = (n - d.length) + k := by omega
  rw [padTo, padTo, hsub, List.replicate_add, List.append_assoc]

@[simp] theorem writeAt_nil : writeAt d off [] = d := rfl

/-- Writing at or behind the end. -/
theorem writeAt_of_length_le (h : d.length ≤ off) (hb : b ≠ []) :
    writeAt d off b = padTo off d ++ b := by
  cases b with
  | nil => exact absurd rfl hb
  | cons x b =>
      have hdrop : d.drop (off + (b.length + 1)) = [] := List.drop_eq_nil_of_le (by omega)
      rw [writeAt, List.take_of_length_le h, hdrop, List.append_nil]

/-- Writing at the end appends. -/
theorem writeAt_length : writeAt d d.length b = d ++ b := by
  by_cases hb : b = []
  · rw [hb, writeAt_nil, List.append_nil]
  · rw [writeAt_of_length_le le_rfl hb, padTo_of_le le_rfl]

theorem truncateTo_of_length_le (h : d.length ≤ n) : truncateTo n d = padTo n d := by
  rw [truncateTo, List.take_of_length_le h]

theorem truncateTo_append : truncateTo d.length (d ++ b) = d := by
  rw [truncateTo, List.take_left, padTo_of_le le_rfl]

end Lib

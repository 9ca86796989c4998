import Mathlib.Tactic

/-!
# Cells — blocks of memory

A block from the allocator has cells that hold nothing until something is written to them.

* `Cells`, `malloc`, `realloc`, `put` — blocks, and what is done to them;
* `BlankFrom` — from some place on nothing has been written.
-/

namespace Lib

/-- A block of memory; a cell that nothing has been written to is `none`. -/
abbrev Cells (α : Type*) := List (Option α)

namespace Cells

variable {α : Type*}

def malloc (n : Nat) : Cells α :=
  List.replicate n none

/-- The cells that fit stay, the new ones hold nothing. -/
def realloc (cells : Cells α) (n : Nat) : Cells α :=
  cells.take n ++ malloc (n - cells.length)

/-- `as` is written from place `i` on. -/
def put (cells : Cells α) (i : Nat) (as : List α) : Cells α :=
  cells.take i ++ as.map some ++ cells.drop (i + as.length)

theorem realloc_of_le {cells : Cells α} {n : Nat} (h : cells.length ≤ n) :
    cells.realloc n = cells ++ malloc (n - cells.length) := by
  rw [realloc, List.take_of_length_le h]

@[simp] theorem length_realloc (cells : Cells α) (n : Nat) : (cells.realloc n).length = n := by
  simp only [realloc, malloc, List.length_append, List.length_take, List.length_replicate]
  omega

theorem put_zero (cells : Cells α) (as : List α) :
    cells.put 0 as = as.map some ++ cells.drop as.length := by
  rw [put, List.take_zero, List.nil_append, Nat.zero_add]

/-! ## Blank cells -/

/-- Nothing has been written at place `n` or behind it. -/
def BlankFrom (cells : Cells α) (n : Nat) : Prop :=
  ∀ i, n ≤ i → ∀ a, cells[i]? ≠ some (some a)

variable {cells : Cells α} {n : Nat}

theorem blankFrom_nil : BlankFrom ([] : Cells α) n := by
  intro i _ a h
  cases h

theorem blankFrom_malloc (m : Nat) : BlankFrom (malloc m : Cells α) n := by
  intro i _ a h
  have hmem := List.mem_of_getElem? h
  cases List.eq_of_mem_replicate hmem

theorem BlankFrom.realloc (h : BlankFrom cells n) (m : Nat) : BlankFrom (cells.realloc m) n := by
  intro i hi a hget
  rw [Cells.realloc, List.getElem?_append] at hget
  split at hget
  · rename_i hlt
    rw [List.length_take] at hlt
    rw [List.getElem?_take_of_lt (by omega)] at hget
    exact h i hi a hget
  · exact blankFrom_malloc (n := 0) _ _ (Nat.zero_le _) a hget

/-- What is written in front of the place does not matter. -/
theorem BlankFrom.put (h : BlankFrom cells n) {i : Nat} {as : List α} (hi : i ≤ cells.length)
    (hle : i + as.length ≤ n) : BlankFrom (cells.put i as) n := by
  intro j hj a hget
  have hfront : (cells.take i ++ as.map some).length = i + as.length := by
    rw [List.length_append, List.length_take, List.length_map, Nat.min_eq_left hi]
  rw [Cells.put, List.getElem?_append_right (by omega), hfront, List.getElem?_drop,
    Nat.add_sub_cancel' (by omega)] at hget
  exact h j hj a hget

end Cells

end Lib

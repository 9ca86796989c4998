import Kdump.Lib.Scan
import Mathlib.Tactic

/-!
# Joined — lists that are joined with one separator

Separators at the end of the first list and at the beginning of the second one are dropped, and one
separator is put between the two.

* `join` — the operation;
* `exists_core` — a list, with the separators around it taken off;
* `join_assoc` — it does not matter which of two joints is made first;
* `SingleAt` — a separator that stands alone;
* `singleAt_join`, `singleAt_join_join` — the joints of two and of three lists.
-/

namespace Lib

variable {α : Type*} [DecidableEq α] {sep : α}

/-- `xs` and `ys` with exactly one separator in between. -/
def join (sep : α) (xs ys : List α) : List α :=
  xs.rdropWhile (· == sep) ++ sep :: ys.dropWhile (· == sep)

/-- A list has nothing but separators, or it has a part that neither begins nor ends with one. -/
theorem exists_core (sep : α) (xs : List α) :
    (∀ x ∈ xs, (x == sep) = true) ∨
      ∃ front core back, xs = front ++ (core ++ back) ∧ core ≠ [] ∧
        (∀ x ∈ front, (x == sep) = true) ∧ (∀ x ∈ back, (x == sep) = true) ∧
        Stops (· == sep) core ∧ StopsBack (· == sep) core := by
  generalize hrest : xs.dropWhile (· == sep) = rest
  have hfront : xs = xs.takeWhile (· == sep) ++ rest := by
    rw [← hrest, List.takeWhile_append_dropWhile]
  have hall : ∀ x ∈ xs.takeWhile (· == sep), (x == sep) = true :=
    fun x hx => List.mem_takeWhile_imp (p := (· == sep)) hx
  cases rest with
  | nil =>
      left
      rw [hfront, List.append_nil]
      exact hall
  | cons y tail =>
      right
      have hstops : Stops (· == sep) (y :: tail) := hrest ▸ stops_dropWhile _ xs
      have hback : y :: tail =
          (y :: tail).rdropWhile (· == sep) ++ (y :: tail).rtakeWhile (· == sep) :=
        List.rdropWhile_append_rtakeWhile.symm
      have hne : (y :: tail).rdropWhile (· == sep) ≠ [] := by
        intro hnil
        have hy := List.rdropWhile_eq_nil_iff.1 hnil y List.mem_cons_self
        rw [stops_cons.1 hstops] at hy
        cases hy
      -- nothing is taken off the front by dropping from the back
      have hcore : Stops (· == sep) ((y :: tail).rdropWhile (· == sep)) := by
        rw [hback, stops_append hne] at hstops
        exact hstops
      exact ⟨_, _, _, hfront.trans (congrArg _ hback), hne, hall,
        fun x hx => List.mem_rtakeWhile_imp (p := (· == sep)) hx, hcore, stopsBack_rdropWhile _ _⟩

section

variable {ys front core back : List α}

/-- Nothing but separators: what has been joined goes on as if it had not been there. -/
theorem join_of_all (xs zs : List α) (hall : ∀ y ∈ ys, (y == sep) = true) :
    (join sep xs ys).rdropWhile (· == sep) = xs.rdropWhile (· == sep) ∧
      (join sep ys zs).dropWhile (· == sep) = zs.dropWhile (· == sep) := by
  have hleft : ys.dropWhile (· == sep) = [] := List.dropWhile_eq_nil_iff.2 hall
  have hright : ys.rdropWhile (· == sep) = [] := List.rdropWhile_eq_nil_iff.2 hall
  have hsep : ∀ y ∈ [sep], (y == sep) = true := by simp
  constructor
  · rw [join, hleft, rdropWhile_scan hsep (stopsBack_rdropWhile _ _)]
  · have hdrop := dropWhile_scan hsep (stops_dropWhile (· == sep) zs)
    rw [join, hright]
    exact hdrop

/-- Otherwise the core is what is left between the two joints. -/
theorem join_of_core (xs zs : List α) (hfront : ∀ x ∈ front, (x == sep) = true)
    (hback : ∀ x ∈ back, (x == sep) = true) (hne : core ≠ [])
    (hstops : Stops (· == sep) core) (hstopsBack : StopsBack (· == sep) core) :
    (join sep xs (front ++ (core ++ back))).rdropWhile (· == sep) =
        xs.rdropWhile (· == sep) ++ sep :: core ∧
      (join sep (front ++ (core ++ back)) zs).dropWhile (· == sep) =
        core ++ sep :: zs.dropWhile (· == sep) := by
  have hcoreBack : Stops (· == sep) (core ++ back) := (stops_append hne).2 hstops
  have hcoreZs : Stops (· == sep) (core ++ sep :: zs.dropWhile (· == sep)) :=
    (stops_append hne).2 hstops
  have hxs : StopsBack (· == sep) (xs.rdropWhile (· == sep) ++ sep :: core) := by
    rw [← List.singleton_append, ← List.append_assoc, stopsBack_append hne]
    exact hstopsBack
  have hfrontCore : StopsBack (· == sep) (front ++ core) := (stopsBack_append hne).2 hstopsBack
  constructor
  · rw [join, dropWhile_scan hfront hcoreBack, ← List.cons_append, ← List.append_assoc,
      rdropWhile_scan hback hxs]
  · rw [join, ← List.append_assoc front, rdropWhile_scan hback hfrontCore, List.append_assoc,
      dropWhile_scan hfront hcoreZs]

end

/-- Joining is associative. -/
theorem join_assoc (sep : α) (xs ys zs : List α) :
    join sep (join sep xs ys) zs = join sep xs (join sep ys zs) := by
  rw [join.eq_1 sep (join sep xs ys), join.eq_1 sep xs (join sep ys zs)]
  rcases exists_core sep ys with hall | ⟨front, core, back, rfl, hne, hfront, hback, hstops, hend⟩
  · obtain ⟨hleft, hright⟩ := join_of_all xs zs hall
    rw [hleft, hright]
  · obtain ⟨hleft, hright⟩ := join_of_core xs zs hfront hback hne hstops hend
    rw [hleft, hright, List.append_assoc]
    rfl

/-! ## Joints -/

/-- A separator with none beside it. -/
structure SingleAt (sep : α) (xs : List α) (i : Nat) : Prop where
  separator : xs[i]? = some sep
  before : ∀ k, k + 1 = i → xs[k]? ≠ some sep
  behind : xs[i + 1]? ≠ some sep

/-- The joint is behind the first list without the separators at its end. -/
theorem singleAt_join (sep : α) (xs ys : List α) :
    SingleAt sep (join sep xs ys) (xs.rdropWhile (· == sep)).length := by
  have hback := stopsBack_rdropWhile (· == sep) xs
  have hstops := stops_dropWhile (· == sep) ys
  unfold join
  generalize xs.rdropWhile (· == sep) = left at hback
  generalize ys.dropWhile (· == sep) = right at hstops
  refine ⟨by simp, ?_, ?_⟩
  · intro k hk hsep
    have hlt : k < left.length := by omega
    rw [List.getElem?_append_left hlt] at hsep
    have hlast : left.getLast? = some sep := by
      rw [List.getLast?_eq_getElem?, ← hk, Nat.add_sub_cancel, hsep]
    exact absurd (hback sep hlast) (by simp)
  · intro hsep
    rw [List.getElem?_append_right (Nat.le_add_right _ 1), Nat.add_sub_cancel_left,
      List.getElem?_cons_succ, ← List.head?_eq_getElem?] at hsep
    exact absurd (hstops sep hsep) (by simp)

/-- Both joints of three lists, also where they are the same place. -/
theorem singleAt_join_join (sep : α) (xs ys zs : List α) :
    SingleAt sep (join sep (join sep xs ys) zs) (xs.rdropWhile (· == sep)).length ∧
      SingleAt sep (join sep (join sep xs ys) zs)
        ((join sep xs ys).rdropWhile (· == sep)).length := by
  refine ⟨?_, singleAt_join sep _ zs⟩
  rw [join_assoc]
  exact singleAt_join sep xs _

end Lib

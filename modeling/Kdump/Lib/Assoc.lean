import Mathlib.Tactic

/-!
# Assoc — association lists

`List.lookup` finds the first pair with a key.  The lemmas tell what it finds after the pairs of one
key have been dropped or changed.
-/

namespace Lib

variable {α β : Type} [BEq α] [LawfulBEq α] [DecidableEq α]

theorem lookup_filter_ne (c d : α) (entries : List (α × β)) :
    (entries.filter (·.1 ≠ c)).lookup d = if d = c then none else entries.lookup d := by
  induction entries with
  | nil => simp
  | cons e entries ih =>
      by_cases hc : e.1 = c
      · rw [List.filter_cons_of_neg (by simpa using hc), ih, List.lookup_cons]
        by_cases hd : d = c
        · rw [if_pos hd, if_pos hd]
        · have hne : (d == e.1) = false := by simpa [hc] using hd
          simp only [hne]
      · rw [List.filter_cons_of_pos (by simpa using hc), List.lookup_cons, List.lookup_cons, ih]
        by_cases hd : d = c
        · have hne : (d == e.1) = false := by
            rw [hd]
            exact beq_false_of_ne fun h => hc h.symm
          simp only [hne, if_pos hd]
        · simp only [if_neg hd]

theorem lookup_map_at (c d : α) (f : β → β) (entries : List (α × β)) :
    (entries.map fun e => if e.1 = c then (e.1, f e.2) else e).lookup d =
      if d = c then (entries.lookup d).map f else entries.lookup d := by
  induction entries with
  | nil => simp
  | cons e entries ih =>
      have hkey : (if e.1 = c then (e.1, f e.2) else e).1 = e.1 := by split_ifs <;> rfl
      rw [List.map_cons, List.lookup_cons, List.lookup_cons, ih, hkey]
      cases hbeq : d == e.1 with
      | false => rfl
      | true =>
          obtain rfl : d = e.1 := by simpa using hbeq
          by_cases hc : e.1 = c
          · simp only [if_pos hc, Option.map_some]
          · simp only [if_neg hc]

end Lib

import Mathlib.Data.List.DropRight

/-!
# Scan — cutting a list where a predicate ends

A scan from the left takes elements while a predicate holds; a scan from the right does the same
from the end.  A scan that meets its own part of the list, and then the end of the list or an
element that stops it, gives exactly that part.
-/

namespace Lib

variable {α : Type*} {p : α → Bool}

/-! ## Where a scan stops -/

/-- A scan from the left does not get into this list. -/
def Stops (p : α → Bool) (ys : List α) : Prop :=
  ∀ y ∈ ys.head?, p y = false

/-- A scan from the right does not get into this list. -/
def StopsBack (p : α → Bool) (xs : List α) : Prop :=
  ∀ x ∈ xs.getLast?, p x = false

@[simp] theorem stops_nil : Stops p ([] : List α) := by
  simp [Stops]

@[simp] theorem stops_cons {y : α} {ys : List α} : Stops p (y :: ys) ↔ p y = false := by
  simp [Stops]

@[simp] theorem stopsBack_nil : StopsBack p ([] : List α) := by
  simp [StopsBack]

@[simp] theorem stopsBack_concat {x : α} {xs : List α} :
    StopsBack p (xs ++ [x]) ↔ p x = false := by
  simp [StopsBack]

theorem stopsBack_append {xs ys : List α} (hne : ys ≠ []) :
    StopsBack p (xs ++ ys) ↔ StopsBack p ys := by
  unfold StopsBack
  rw [List.getLast?_append_of_ne_nil _ hne]

theorem stops_append {xs ys : List α} (hne : xs ≠ []) : Stops p (xs ++ ys) ↔ Stops p xs := by
  unfold Stops
  rw [List.head?_append_of_ne_nil _ hne]

/-! ## From the left -/

theorem takeWhile_stops {ys : List α} (h : Stops p ys) : ys.takeWhile p = [] := by
  cases ys with
  | nil => rfl
  | cons y ys => simp [stops_cons.1 h]

theorem dropWhile_stops {ys : List α} (h : Stops p ys) : ys.dropWhile p = ys := by
  cases ys with
  | nil => rfl
  | cons y ys => simp [stops_cons.1 h]

theorem takeWhile_scan {xs ys : List α} (hxs : ∀ x ∈ xs, p x = true) (hys : Stops p ys) :
    (xs ++ ys).takeWhile p = xs := by
  rw [List.takeWhile_append_of_pos hxs, takeWhile_stops hys, List.append_nil]

theorem dropWhile_scan {xs ys : List α} (hxs : ∀ x ∈ xs, p x = true) (hys : Stops p ys) :
    (xs ++ ys).dropWhile p = ys := by
  rw [List.dropWhile_append_of_pos hxs, dropWhile_stops hys]

theorem stops_dropWhile (p : α → Bool) (xs : List α) : Stops p (xs.dropWhile p) := by
  induction xs with
  | nil => exact stops_nil
  | cons x xs ih =>
      cases hx : p x with
      | true => simpa [List.dropWhile_cons, hx] using ih
      | false => simp [hx]

/-! ## From the right -/

theorem stops_reverse {xs : List α} : Stops p xs.reverse ↔ StopsBack p xs := by
  unfold Stops StopsBack
  rw [List.head?_reverse]

theorem rtakeWhile_scan {xs ys : List α} (hys : ∀ y ∈ ys, p y = true) (hxs : StopsBack p xs) :
    (xs ++ ys).rtakeWhile p = ys := by
  have hall : ∀ y ∈ ys.reverse, p y = true := fun y hy => hys y (List.mem_reverse.1 hy)
  rw [List.rtakeWhile, List.reverse_append, takeWhile_scan hall (stops_reverse.2 hxs),
    List.reverse_reverse]

theorem rdropWhile_scan {xs ys : List α} (hys : ∀ y ∈ ys, p y = true) (hxs : StopsBack p xs) :
    (xs ++ ys).rdropWhile p = xs := by
  have hall : ∀ y ∈ ys.reverse, p y = true := fun y hy => hys y (List.mem_reverse.1 hy)
  rw [List.rdropWhile, List.reverse_append, dropWhile_scan hall (stops_reverse.2 hxs),
    List.reverse_reverse]

/-- A scan from the right that stops at once. -/
theorem rdropWhile_stops {xs : List α} (hxs : StopsBack p xs) : xs.rdropWhile p = xs := by
  have hscan := rdropWhile_scan (fun y hy => absurd hy List.not_mem_nil) hxs
  rwa [List.append_nil] at hscan

theorem stopsBack_rdropWhile (p : α → Bool) (xs : List α) : StopsBack p (xs.rdropWhile p) := by
  rw [← stops_reverse, List.rdropWhile, List.reverse_reverse]
  exact stops_dropWhile p xs.reverse

/-- A scan from the right gets into the front of a list only through all of the back. -/
theorem rdropWhile_append (p : α → Bool) (xs ys : List α) :
    (xs ++ ys).rdropWhile p =
      if ys.rdropWhile p = [] then xs.rdropWhile p else xs ++ ys.rdropWhile p := by
  simp only [List.rdropWhile, List.reverse_append, List.dropWhile_append, List.isEmpty_iff,
    List.reverse_eq_nil_iff]
  split
  · rfl
  · simp

theorem rdropWhile_append_stops {xs : List α} (h : StopsBack p xs) (ys : List α) :
    (xs ++ ys).rdropWhile p = xs ++ ys.rdropWhile p := by
  rw [rdropWhile_append]
  split
  · rename_i hys
    have hself : xs.rdropWhile p = xs :=
      List.rdropWhile_eq_self_iff.2 fun hne => by
        simp [h _ (List.getLast_mem_getLast? hne)]
    rw [hself, hys, List.append_nil]
  · rfl

/-! ## The first of one kind, or else the last of another -/

def firstOrLast (p q : α → Bool) (xs : List α) : Option α :=
  xs.find? p <|> (xs.filter q).getLast?

theorem firstOrLast_cons {q : α → Bool} {x : α} (hpq : q x = true → p x = false) (xs : List α) :
    firstOrLast p q (x :: xs) =
      if q x then firstOrLast p q xs <|> some x
      else if p x then some x
      else firstOrLast p q xs := by
  unfold firstOrLast
  split_ifs with hq hp
  · rw [List.find?_cons_of_neg (Bool.eq_false_iff.1 (hpq hq)), List.filter_cons_of_pos hq,
      List.getLast?_cons]
    cases xs.find? p with
    | some _ => rfl
    | none => cases (xs.filter q).getLast? <;> rfl
  · rw [List.find?_cons_of_pos hp]
    rfl
  · rw [List.find?_cons_of_neg hp, List.filter_cons_of_neg hq]

end Lib

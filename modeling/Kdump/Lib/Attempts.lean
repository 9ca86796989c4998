import Mathlib.Data.List.Basic

/-!
# Attempts — the first success of a list of attempts

The attempts are made in order.  Each of them succeeds, fails, or throws; the first one that does
not fail decides, and the ones behind it are not made.

* `firstResult` — the search;
* `firstResult_eq_some`, `firstResult_eq_none`, `firstResult_eq_error` — its three outcomes.
-/

namespace Lib

variable {α β ε : Type*}

/-- The result of the first attempt that does not fail. -/
def firstResult (attempt : α → Except ε (Option β)) : List α → Except ε (Option β)
  | [] => .ok none
  | x :: xs =>
      match attempt x with
      | .error e => .error e
      | .ok (some y) => .ok (some y)
      | .ok none => firstResult attempt xs

variable {attempt : α → Except ε (Option β)} {xs : List α}

@[simp]
theorem firstResult_nil : firstResult attempt [] = .ok none :=
  rfl

theorem firstResult_cons_of_fails {x : α} (h : attempt x = .ok none) :
    firstResult attempt (x :: xs) = firstResult attempt xs := by
  rw [firstResult, h]

theorem firstResult_cons_of_ne {x : α} (h : attempt x ≠ .ok none) :
    firstResult attempt (x :: xs) = attempt x := by
  rw [firstResult]
  cases hx : attempt x with
  | error e => rfl
  | ok y =>
      cases y with
      | none => exact absurd hx h
      | some y => rfl

/-- Every outcome but failure is the one of some attempt, and the ones before it fail. -/
theorem firstResult_eq_iff {r : Except ε (Option β)} (hr : r ≠ .ok none) :
    firstResult attempt xs = r ↔
      ∃ before x after, xs = before ++ x :: after ∧ (∀ y ∈ before, attempt y = .ok none) ∧
        attempt x = r := by
  induction xs with
  | nil =>
      constructor
      · intro h
        exact absurd h.symm hr
      · rintro ⟨before, x, after, hxs, -⟩
        cases before <;> cases hxs
  | cons z zs ih =>
      by_cases hz : attempt z = .ok none
      · rw [firstResult_cons_of_fails hz, ih]
        constructor
        · rintro ⟨before, x, after, rfl, hbefore, hx⟩
          exact ⟨z :: before, x, after, rfl, List.forall_mem_cons.2 ⟨hz, hbefore⟩, hx⟩
        · rintro ⟨before, x, after, hxs, hbefore, hx⟩
          cases before with
          | nil =>
              cases hxs
              exact absurd (hx.symm.trans hz) hr
          | cons y before =>
              cases hxs
              exact ⟨before, x, after, rfl, (List.forall_mem_cons.1 hbefore).2, hx⟩
      · rw [firstResult_cons_of_ne hz]
        constructor
        · intro h
          exact ⟨[], z, zs, rfl, List.forall_mem_nil _, h⟩
        · rintro ⟨before, x, after, hxs, hbefore, hx⟩
          cases before with
          | nil =>
              cases hxs
              exact hx
          | cons y before =>
              cases hxs
              exact absurd (hbefore z List.mem_cons_self) hz

theorem firstResult_eq_some {y : β} :
    firstResult attempt xs = .ok (some y) ↔
      ∃ before x after, xs = before ++ x :: after ∧ (∀ z ∈ before, attempt z = .ok none) ∧
        attempt x = .ok (some y) :=
  firstResult_eq_iff (by simp)

theorem firstResult_eq_error {e : ε} :
    firstResult attempt xs = .error e ↔
      ∃ before x after, xs = before ++ x :: after ∧ (∀ z ∈ before, attempt z = .ok none) ∧
        attempt x = .error e :=
  firstResult_eq_iff (by simp)

theorem firstResult_eq_none :
    firstResult attempt xs = .ok none ↔ ∀ x ∈ xs, attempt x = .ok none := by
  induction xs with
  | nil => simp
  | cons z zs ih =>
      by_cases hz : attempt z = .ok none
      · rw [firstResult_cons_of_fails hz, ih, List.forall_mem_cons]
        exact (and_iff_right hz).symm
      · rw [firstResult_cons_of_ne hz, List.forall_mem_cons]
        exact ⟨fun h => absurd h hz, fun h => h.1⟩

end Lib

import Mathlib.Order.Basic

/-!
# Ranked — recursion that goes down a rank

A recursive function that calls itself only for arguments of a lower rank can be run with as many
levels as its argument has.  It meets its equation, and more levels change nothing.

* `unroll` — a number of levels;
* `Descends` — the calls are for arguments of a lower rank;
* `rankedFix` — the function;
* `rankedFix_eq` — its equation.
-/

namespace Lib

variable {α : Type*} {β : α → Type*}

/-- The function with `n` levels of calls, the last of which are answered by `bottom`. -/
def unroll (body : ((x : α) → β x) → (x : α) → β x) (bottom : (x : α) → β x) :
    Nat → (x : α) → β x
  | 0 => bottom
  | n + 1 => body (unroll body bottom n)

/-- The calls made for `x` are for arguments of a lower rank. -/
def Descends (rank : α → Nat) (body : ((x : α) → β x) → (x : α) → β x) : Prop :=
  ∀ x f g, (∀ y, rank y < rank x → f y = g y) → body f x = body g x

/-- The function, with enough levels. -/
def rankedFix (rank : α → Nat) (body : ((x : α) → β x) → (x : α) → β x)
    (bottom : (x : α) → β x) (x : α) : β x :=
  unroll body bottom (rank x + 1) x

section

variable {rank : α → Nat} {body : ((x : α) → β x) → (x : α) → β x} {bottom : (x : α) → β x}

theorem unroll_eq (h : Descends rank body) {n m : Nat} {x : α} (hn : rank x < n)
    (hm : rank x < m) : unroll body bottom n x = unroll body bottom m x := by
  induction n generalizing m x with
  | zero => exact absurd hn (Nat.not_lt_zero _)
  | succ n ih =>
      cases m with
      | zero => exact absurd hm (Nat.not_lt_zero _)
      | succ m =>
          refine h x _ _ fun y hy => ih ?_ ?_
          · exact Nat.lt_of_lt_of_le hy (Nat.lt_succ_iff.1 hn)
          · exact Nat.lt_of_lt_of_le hy (Nat.lt_succ_iff.1 hm)

/-- It is the function with any number of levels that is large enough. -/
theorem rankedFix_eq_unroll (h : Descends rank body) {n : Nat} {x : α} (hn : rank x < n) :
    rankedFix rank body bottom x = unroll body bottom n x :=
  unroll_eq h (Nat.lt_succ_self _) hn

/-- The function calls itself. -/
theorem rankedFix_eq (h : Descends rank body) (x : α) :
    rankedFix rank body bottom x = body (rankedFix rank body bottom) x := by
  change body (unroll body bottom (rank x)) x = _
  exact h x _ _ fun y hy => (rankedFix_eq_unroll h hy).symm

end
end Lib

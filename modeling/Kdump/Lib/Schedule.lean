import Mathlib.Algebra.BigOperators.Group.List.Basic
import Mathlib.Tactic

/-!
# Schedule — systems that are driven by turns

A turn says which party moves next, and how the world answers it.  Whatever holds for all lists of
turns holds for all interleavings of the parties.

* `System` — a state to start from, and what a turn does;
* `System.run` — the state behind a list of turns;
* `run_invariant` — what every turn preserves holds behind every list of turns;
* `System.total` and `total_le` — costs along a run, paid for by what the turns bring in.
-/

namespace Lib

universe u v

/-- What starts where, and what a turn does. -/
structure System (σ : Type u) (τ : Type v) where
  start : σ
  turn : σ → τ → σ

namespace System

variable {σ : Type u} {τ : Type v} (S : System σ τ)

/-- The state behind some turns. -/
def runFrom (s : σ) (turns : List τ) : σ :=
  turns.foldl S.turn s

def run (turns : List τ) : σ :=
  S.runFrom S.start turns

@[simp] theorem runFrom_nil (s : σ) : S.runFrom s [] = s := rfl

@[simp] theorem runFrom_cons (s : σ) (t : τ) (turns : List τ) :
    S.runFrom s (t :: turns) = S.runFrom (S.turn s t) turns := rfl

theorem runFrom_append (s : σ) (turns turns' : List τ) :
    S.runFrom s (turns ++ turns') = S.runFrom (S.runFrom s turns) turns' :=
  List.foldl_append

variable {S}

/-! ## Invariants -/

/-- The turns of a run may all be of some kind. -/
theorem runFrom_invariant {I : σ → Prop} {A : τ → Prop}
    (hturn : ∀ s t, I s → A t → I (S.turn s t)) {s : σ} (hs : I s) {turns : List τ}
    (hturns : ∀ t ∈ turns, A t) : I (S.runFrom s turns) := by
  induction turns generalizing s with
  | nil => exact hs
  | cons t turns ih =>
      obtain ⟨ht, hrest⟩ := List.forall_mem_cons.1 hturns
      exact ih (hturn s t hs ht) hrest

theorem run_invariant_of {I : σ → Prop} {A : τ → Prop} (hstart : I S.start)
    (hturn : ∀ s t, I s → A t → I (S.turn s t)) {turns : List τ} (hturns : ∀ t ∈ turns, A t) :
    I (S.run turns) :=
  runFrom_invariant hturn hstart hturns

theorem run_invariant {I : σ → Prop} (hstart : I S.start)
    (hturn : ∀ s t, I s → I (S.turn s t)) (turns : List τ) : I (S.run turns) :=
  run_invariant_of (A := fun _ => True) hstart (fun s t hs _ => hturn s t hs) fun _ _ => trivial

/-! ## Costs -/

/-- The sum of what the turns of a run cost. -/
def total (S : System σ τ) (cost : σ → τ → Nat) : σ → List τ → Nat
  | _, [] => 0
  | s, t :: turns => cost s t + S.total cost (S.turn s t) turns

/-- A quantity that grows by a fixed amount with each turn of a kind counts these turns. -/
theorem total_eq {cost : σ → τ → Nat} {amount : σ → Nat}
    (h : ∀ s t, amount (S.turn s t) = amount s + cost s t) (s : σ) (turns : List τ) :
    amount (S.runFrom s turns) = amount s + S.total cost s turns := by
  induction turns generalizing s with
  | nil => rfl
  | cons t turns ih => rw [runFrom_cons, ih, h, total, Nat.add_assoc]

/-- If the reserve pays for each turn, apart from what the turn brings in, then the costs of a run
are covered by the first reserve and by what comes in. -/
theorem total_le {I : σ → Prop} {cost gain : σ → τ → Nat} {reserve : σ → Nat}
    (hturn : ∀ s t, I s → I (S.turn s t))
    (hpaid : ∀ s t, I s → cost s t + reserve (S.turn s t) ≤ reserve s + gain s t) {s : σ}
    (hs : I s) (turns : List τ) : S.total cost s turns ≤ reserve s + S.total gain s turns := by
  induction turns generalizing s with
  | nil => exact Nat.zero_le _
  | cons t turns ih =>
      have hrest := ih (hturn s t hs)
      have hfirst := hpaid s t hs
      rw [total, total]
      omega

end System

end Lib

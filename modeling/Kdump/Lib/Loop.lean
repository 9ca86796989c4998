import Mathlib.Logic.Relation
import Mathlib.Tactic

/-!
# Loop — `while` loops as step functions

A loop is given by what one pass through its body does to the loop state: go round again, or
leave with a result.  This file defines:

* `Loop σ ρ` — a step function together with a measure that falls on every pass, so that the
  structure itself carries the proof of termination;
* `Loop.eval` — the result of running the loop, structurally recursive and hence executable;
* `Loop.Reach` — the states met at the head of the loop;
* `Loop.heads` — the same states in the order in which they are met;
* the invariant rule `Loop.Reach.invariant`, and `Loop.Always`, which a pass takes apart;
* `Simulation`, which relates the runs of two loops pass by pass.
-/

namespace Lib

universe u v u' v'

/-- What one pass through a loop body does. -/
inductive Step (σ : Type u) (ρ : Type v) where
  | next (s : σ)
  | done (r : ρ)
  deriving DecidableEq, Repr

/-- A loop whose measure falls whenever it goes round again. -/
structure Loop (σ : Type u) (ρ : Type v) where
  step : σ → Step σ ρ
  measure : σ → Nat
  decreases : ∀ {s s' : σ}, step s = .next s' → measure s' < measure s

namespace Loop

variable {σ : Type u} {ρ : Type v} (L : Loop σ ρ)

/-! ## Running a loop -/

/-- Run the loop with a bound on the number of passes that the measure keeps from running out. -/
def evalBounded : (n : Nat) → (s : σ) → L.measure s < n → ρ
  | 0, _, h => absurd h (Nat.not_lt_zero _)
  | n + 1, s, h =>
      match hs : L.step s with
      | .done r => r
      | .next s' =>
          evalBounded n s' (Nat.lt_of_lt_of_le (L.decreases hs) (Nat.le_of_lt_succ h))

/-- The result of the loop started in `s`. -/
def eval (s : σ) : ρ :=
  L.evalBounded (L.measure s + 1) s (Nat.lt_succ_self _)

/-- The bound does not influence the result. -/
theorem evalBounded_irrel :
    ∀ (n m : Nat) (s : σ) (hn : L.measure s < n) (hm : L.measure s < m),
      L.evalBounded n s hn = L.evalBounded m s hm := by
  intro n
  induction n with
  | zero =>
      intro m s hn
      exact absurd hn (Nat.not_lt_zero _)
  | succ n ih =>
      intro m s hn hm
      cases m with
      | zero => exact absurd hm (Nat.not_lt_zero _)
      | succ m =>
          -- the two bounds go down together
          unfold evalBounded
          split
          · rfl
          · exact ih _ _ _ _

theorem eval_done {s : σ} {r : ρ} (h : L.step s = .done r) : L.eval s = r := by
  unfold eval evalBounded
  split
  · rename_i r' hs
    rw [hs] at h
    exact Step.done.inj h
  · rename_i s' hs
    rw [hs] at h
    cases h

theorem eval_next {s s' : σ} (h : L.step s = .next s') : L.eval s = L.eval s' := by
  have hlt : L.measure s' < L.measure s := L.decreases h
  rw [eval, evalBounded]
  split
  · rename_i r hs
    rw [hs] at h
    cases h
  · rename_i t hs
    rw [hs] at h
    cases h
    exact L.evalBounded_irrel _ _ _ _ _

/-! ## The states at the head of the loop -/

/-- `L.Reach s s'`: started in `s`, the loop comes to its head in state `s'`. -/
def Reach : σ → σ → Prop :=
  Relation.ReflTransGen (fun s s' => L.step s = .next s')

variable {L}

namespace Reach

theorem refl (s : σ) : L.Reach s s :=
  Relation.ReflTransGen.refl

theorem tail {s t u : σ} (h : L.Reach s t) (hs : L.step t = .next u) : L.Reach s u :=
  Relation.ReflTransGen.tail h hs

theorem head {s t u : σ} (hs : L.step s = .next t) (h : L.Reach t u) : L.Reach s u :=
  Relation.ReflTransGen.head hs h

/-- The invariant rule: what holds at the start and survives every pass holds at every head. -/
theorem invariant {I : σ → Prop} {s s' : σ} (h : L.Reach s s') (hs : I s)
    (hstep : ∀ t t', I t → L.step t = .next t' → I t') : I s' := by
  induction h with
  | refl => exact hs
  | tail _ hnext ih => exact hstep _ _ ih hnext

theorem eval_eq {s s' : σ} (h : L.Reach s s') : L.eval s = L.eval s' := by
  induction h with
  | refl => rfl
  | tail _ hnext ih => exact ih.trans (L.eval_next hnext)

end Reach

/-- Whatever holds at each head from `s` on. -/
def Always (L : Loop σ ρ) (P : σ → Prop) (s : σ) : Prop :=
  ∀ s', L.Reach s s' → P s'

/-- The last pass. -/
theorem always_done {P : σ → Prop} {s : σ} {r : ρ} (h : L.step s = .done r) :
    L.Always P s ↔ P s := by
  constructor
  · intro halways
    exact halways s (Reach.refl s)
  · intro hs s' hreach
    rcases Relation.ReflTransGen.cases_head hreach with rfl | ⟨t, hnext, _⟩
    · exact hs
    · rw [h] at hnext
      cases hnext

/-- Any other pass. -/
theorem always_next {P : σ → Prop} {s s' : σ} (h : L.step s = .next s') :
    L.Always P s ↔ P s ∧ L.Always P s' := by
  constructor
  · intro halways
    exact ⟨halways s (Reach.refl s), fun t ht => halways t (ht.head h)⟩
  · rintro ⟨hs, hrest⟩ t ht
    rcases Relation.ReflTransGen.cases_head ht with rfl | ⟨u, hnext, hreach⟩
    · exact hs
    · have hu : s' = u := Step.next.inj (h.symm.trans hnext)
      exact hrest t (hu ▸ hreach)

/-- Every loop comes to a last pass, and that pass gives the result. -/
theorem exists_last (s : σ) : ∃ s', L.Reach s s' ∧ L.step s' = .done (L.eval s) := by
  induction hn : L.measure s using Nat.strong_induction_on generalizing s with
  | _ n ih =>
      -- either this pass is the last one, or there is one behind it
      cases hs : L.step s with
      | done r => exact ⟨s, Reach.refl s, by rw [hs, L.eval_done hs]⟩
      | next t =>
          have hlt : L.measure t < n := hn ▸ L.decreases hs
          rcases ih _ hlt t rfl with ⟨s', hreach, hdone⟩
          exact ⟨s', hreach.head hs, by rw [hdone, L.eval_next hs]⟩

/-! ## The order of the states -/

/-- The states at the head of the loop, with a bound on the number of passes. -/
def headsBounded (L : Loop σ ρ) : (n : Nat) → (s : σ) → L.measure s < n → List σ
  | 0, _, h => absurd h (Nat.not_lt_zero _)
  | n + 1, s, h =>
      s :: match hs : L.step s with
        | .done _ => []
        | .next s' =>
            headsBounded L n s' (Nat.lt_of_lt_of_le (L.decreases hs) (Nat.le_of_lt_succ h))

/-- The states at the head of the loop started in `s`. -/
def heads (L : Loop σ ρ) (s : σ) : List σ :=
  L.headsBounded (L.measure s + 1) s (Nat.lt_succ_self _)

theorem headsBounded_irrel :
    ∀ (n m : Nat) (s : σ) (hn : L.measure s < n) (hm : L.measure s < m),
      L.headsBounded n s hn = L.headsBounded m s hm := by
  intro n
  induction n with
  | zero =>
      intro m s hn
      exact absurd hn (Nat.not_lt_zero _)
  | succ n ih =>
      intro m s hn hm
      cases m with
      | zero => exact absurd hm (Nat.not_lt_zero _)
      | succ m =>
          unfold headsBounded
          congr 1
          split
          · rfl
          · exact ih _ _ _ _

theorem heads_done {s : σ} {r : ρ} (h : L.step s = .done r) : L.heads s = [s] := by
  unfold heads headsBounded
  congr 1
  split
  · rfl
  · rename_i s' hs
    rw [hs] at h
    cases h

theorem heads_next {s s' : σ} (h : L.step s = .next s') : L.heads s = s :: L.heads s' := by
  rw [heads, headsBounded]
  congr 1
  split
  · rename_i r hs
    rw [hs] at h
    cases h
  · rename_i t hs
    rw [hs] at h
    cases h
    exact headsBounded_irrel _ _ _ _ _

end Loop

/-! ## Simulation between two loops -/

/-- The passes of `A` and `B` from related states stay related, or end with related results. -/
def Step.Rel {σ : Type u} {ρ : Type v} {τ : Type u'} {κ : Type v'}
    (R : σ → τ → Prop) (S : ρ → κ → Prop) : Step σ ρ → Step τ κ → Prop
  | .next s, .next t => R s t
  | .done r, .done k => S r k
  | _, _ => False

/-- A pass-by-pass simulation of `A` by `B`, as long as the states of `B` are good. -/
structure Simulation {σ : Type u} {ρ : Type v} {τ : Type u'} {κ : Type v'}
    (A : Loop σ ρ) (B : Loop τ κ) (Good : τ → Prop) (R : σ → τ → Prop) (S : ρ → κ → Prop) :
    Prop where
  step : ∀ {s : σ} {t : τ}, R s t → Good t → Step.Rel R S (A.step s) (B.step t)

namespace Simulation

variable {σ : Type u} {ρ : Type v} {τ : Type u'} {κ : Type v'}
variable {A : Loop σ ρ} {B : Loop τ κ} {Good : τ → Prop}
variable {R : σ → τ → Prop} {S : ρ → κ → Prop}

/-- While `B` only meets good states, every state `A` reaches is matched by one of `B`. -/
theorem reach (sim : Simulation A B Good R S) {s s' : σ} {t : τ} (h : A.Reach s s')
    (hst : R s t) (hgood : ∀ t', B.Reach t t' → Good t') : ∃ t', B.Reach t t' ∧ R s' t' := by
  induction h with
  | refl => exact ⟨t, Loop.Reach.refl t, hst⟩
  | tail _ hnext ih =>
      rcases ih with ⟨t', hreach, hR⟩
      have hrel := sim.step hR (hgood t' hreach)
      rw [hnext] at hrel
      -- as `A` goes round again, so does `B`
      cases hB : B.step t' with
      | done k => rw [hB] at hrel; exact hrel.elim
      | next t'' =>
          rw [hB] at hrel
          exact ⟨t'', hreach.tail hB, hrel⟩

/-- While `B` only meets good states, the two results are related. -/
theorem eval (sim : Simulation A B Good R S) {s : σ} {t : τ} (hst : R s t)
    (hgood : ∀ t', B.Reach t t' → Good t') : S (A.eval s) (B.eval t) := by
  rcases Loop.exists_last (L := A) s with ⟨s', hreach, hdone⟩
  -- the last pass of `A` is matched by the last pass of `B`
  rcases sim.reach hreach hst hgood with ⟨t', hreach', hR⟩
  have hrel := sim.step hR (hgood t' hreach')
  rw [hdone] at hrel
  cases hB : B.step t' with
  | next _ => rw [hB] at hrel; exact hrel.elim
  | done k =>
      rw [hB] at hrel
      rwa [hreach'.eval_eq, B.eval_done hB]

/-- If `B` comes to a bad state, then `A` comes to a state that matches the first bad one. -/
theorem reach_first_bad (sim : Simulation A B Good R S) {s : σ} {t t' : τ} (h : B.Reach t t')
    (hst : R s t) (hbad : ¬ Good t') : ∃ s' u, A.Reach s s' ∧ R s' u ∧ ¬ Good u := by
  -- along the run of `B`, either a bad state has been met or `A` is still matched
  have hmatch : (∃ s' u, A.Reach s s' ∧ R s' u ∧ ¬ Good u) ∨
      ∃ s', A.Reach s s' ∧ R s' t' := by
    clear hbad
    induction h with
    | refl => exact Or.inr ⟨s, Loop.Reach.refl s, hst⟩
    | @tail u v _ hnext ih =>
        rcases ih with hbad | ⟨s', hreach, hR⟩
        · exact Or.inl hbad
        · by_cases hu : Good u
          · have hrel := sim.step hR hu
            rw [hnext] at hrel
            cases hA : A.step s' with
            | done r => rw [hA] at hrel; exact hrel.elim
            | next s'' =>
                rw [hA] at hrel
                exact Or.inr ⟨s'', hreach.tail hA, hrel⟩
          · exact Or.inl ⟨s', u, hreach, hR, hu⟩
  rcases hmatch with hbad' | ⟨s', hreach, hR⟩
  · exact hbad'
  · exact ⟨s', t', hreach, hR, hbad⟩

end Simulation

end Lib

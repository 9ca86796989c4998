import Mathlib.Tactic

/-!
# Wp — weakest preconditions of programs with a state and exceptions

`EStateM ε σ` keeps the state when an exception is thrown, and a handler goes on in the state in
which it was thrown, as in C++.  `wp p Q E s` says that the program `p`, started in `s`, ends well:
if it returns, then with `Q`, and if it throws, then with `E`.

* one rule for every way of building a program, as equivalences to rewrite with;
* `wp_mono` for going from one specification to another;
* `wp_intro`, `wp_ok` and `wp_error` for going to and from the result of a run;
* `bind_ok` and `bind_error` for the run of a sequence, `map_ok` and `map_error` beside them;
* `Keeps` for what holds of the state throughout;
* `ReturnsOnlyIf` for a condition under which alone a program returns.
-/

namespace Lib

variable {ε σ α β : Type}

/-- The postcondition of the run of `p` from `s`. -/
def wp (p : EStateM ε σ α) (Q : α → σ → Prop) (E : ε → σ → Prop) (s : σ) : Prop :=
  match p s with
  | .ok a s' => Q a s'
  | .error e s' => E e s'

variable {p : EStateM ε σ α} {f : α → EStateM ε σ β} {Q Q' : α → σ → Prop} {E E' : ε → σ → Prop}
variable {R : β → σ → Prop} {s s' : σ}

/-! ## Runs -/

theorem wp_intro (hok : ∀ a s', p s = .ok a s' → Q a s')
    (herror : ∀ e s', p s = .error e s' → E e s') : wp p Q E s := by
  unfold wp
  cases h : p s with
  | ok a s' => exact hok a s' h
  | error e s' => exact herror e s' h

theorem wp_ok {a : α} (h : wp p Q E s) (hp : p s = .ok a s') : Q a s' := by
  unfold wp at h
  rwa [hp] at h

theorem wp_error {e : ε} (h : wp p Q E s) (hp : p s = .error e s') : E e s' := by
  unfold wp at h
  rwa [hp] at h

/-- The state in which a run ends, whether it returns or throws. -/
def endState : EStateM.Result ε σ α → σ
  | .ok _ s => s
  | .error _ s => s

theorem wp_endState {I : σ → Prop} : wp p (fun _ => I) (fun _ => I) s ↔ I (endState (p s)) := by
  unfold wp
  cases p s <;> rfl

theorem wp_mono (h : wp p Q E s) (hQ : ∀ a s', Q a s' → Q' a s') (hE : ∀ e s', E e s' → E' e s') :
    wp p Q' E' s :=
  wp_intro (fun a s' hp => hQ a s' (wp_ok h hp)) (fun e s' hp => hE e s' (wp_error h hp))

theorem bind_ok {a : α} (h : p s = .ok a s') : (p >>= f) s = f a s' := by
  change EStateM.bind p f s = _
  unfold EStateM.bind
  rw [h]

theorem bind_error {e : ε} (h : p s = .error e s') : (p >>= f) s = .error e s' := by
  change EStateM.bind p f s = _
  unfold EStateM.bind
  rw [h]

/-- A sequence returns if both of its parts do. -/
theorem bind_ok_iff {b : β} : (p >>= f) s = .ok b s' ↔ ∃ a t, p s = .ok a t ∧ f a t = .ok b s' := by
  constructor
  · intro h
    cases hp : p s with
    | ok a t => exact ⟨a, t, rfl, (bind_ok hp).symm.trans h⟩
    | error e t =>
        rw [bind_error hp] at h
        cases h
  · rintro ⟨a, t, hp, hf⟩
    exact (bind_ok hp).trans hf

theorem map_ok {g : α → β} {a : α} (h : p s = .ok a s') : (g <$> p) s = .ok (g a) s' :=
  bind_ok h

theorem map_error {g : α → β} {e : ε} (h : p s = .error e s') : (g <$> p) s = .error e s' :=
  bind_error h

/-! ## Rules -/

@[simp] theorem wp_pure (a : α) : wp (pure a) Q E s ↔ Q a s := Iff.rfl

@[simp] theorem wp_throw (e : ε) : wp (throw e) Q E s ↔ E e s := Iff.rfl

@[simp] theorem wp_get {Q : σ → σ → Prop} : wp get Q E s ↔ Q s s := Iff.rfl

@[simp] theorem wp_set {Q : PUnit → σ → Prop} (t : σ) : wp (set t) Q E s ↔ Q ⟨⟩ t := Iff.rfl

@[simp] theorem wp_modify {Q : PUnit → σ → Prop} (g : σ → σ) :
    wp (modify g) Q E s ↔ Q ⟨⟩ (g s) := Iff.rfl

@[simp] theorem wp_ofExcept (r : Except ε α) :
    wp (ofExcept r) Q E s ↔ match r with
      | .ok a => Q a s
      | .error e => E e s := by
  cases r <;> rfl

theorem error_ne_ok {e : ε} {a : α} : (Except.error e : Except ε α) ≠ .ok a := by
  intro h
  cases h

@[simp] theorem wp_bind : wp (p >>= f) R E s ↔ wp p (fun a s' => wp (f a) R E s') E s := by
  unfold wp
  cases h : p s with
  | ok a s' => rw [bind_ok h]
  | error e s' => rw [bind_error h]

theorem wp_map {g : α → β} : wp (g <$> p) R E s ↔ wp p (fun a => R (g a)) E s :=
  wp_bind

/-- A handler starts in the state in which the exception was thrown. -/
@[simp] theorem wp_tryCatch {h : ε → EStateM ε σ α} :
    wp (tryCatch p h) Q E s ↔ wp p Q (fun e s' => wp (h e) Q E s') s := by
  have htry : (tryCatch p h) s = EStateM.tryCatch p h s := rfl
  unfold wp
  rw [htry]
  unfold EStateM.tryCatch
  cases p s <;> rfl

/-! ## Invariants -/

/-- What holds of the state before the program holds behind it, whether it returns or throws. -/
def Keeps (p : EStateM ε σ α) (I : σ → Prop) : Prop :=
  ∀ s, I s → wp p (fun _ => I) (fun _ => I) s

namespace Keeps

variable {I : σ → Prop} {h : ε → EStateM ε σ α}

theorem pure (a : α) : Keeps (pure a : EStateM ε σ α) I :=
  fun _ hs => hs

theorem throw (e : ε) : Keeps (throw e : EStateM ε σ α) I :=
  fun _ hs => hs

theorem get : Keeps (get : EStateM ε σ σ) I :=
  fun _ hs => hs

theorem modify {g : σ → σ} (hg : ∀ s, I s → I (g s)) : Keeps (modify g : EStateM ε σ PUnit) I :=
  hg

theorem ofExcept (r : Except ε α) : Keeps (ofExcept r : EStateM ε σ α) I := by
  intro s hs
  rw [wp_ofExcept]
  cases r <;> exact hs

theorem bind (hp : Keeps p I) (hf : ∀ a, Keeps (f a) I) : Keeps (p >>= f) I := by
  intro s hs
  rw [wp_bind]
  exact wp_mono (hp s hs) (fun a s' => hf a s') (fun _ _ h => h)

theorem map {g : α → β} (hp : Keeps p I) : Keeps (g <$> p) I :=
  hp.bind fun _ => pure _

theorem tryCatch (hp : Keeps p I) (hh : ∀ e, Keeps (h e) I) : Keeps (tryCatch p h) I := by
  intro s hs
  rw [wp_tryCatch]
  exact wp_mono (hp s hs) (fun _ _ h => h) (fun e s' => hh e s')

end Keeps

/-! ## Conditions for a return -/

/-- The run of a program that returns. -/
inductive Returns : EStateM.Result ε σ α → Prop
  | ok (a : α) (s : σ) : Returns (.ok a s)

instance (r : EStateM.Result ε σ α) : Decidable (Returns r) :=
  match r with
  | .ok a s => .isTrue (.ok a s)
  | .error _ _ => .isFalse nofun

/-- The program returns only if `P` holds, from whatever state. -/
def ReturnsOnlyIf (p : EStateM ε σ α) (P : Prop) : Prop :=
  ∀ s, Returns (p s) → P

namespace ReturnsOnlyIf

variable {P : Prop} {g : α → EStateM ε σ β} {h : ε → EStateM ε σ α}

theorem of_wp (hp : ∀ s, wp p (fun _ _ => P) (fun _ _ => True) s) : ReturnsOnlyIf p P := by
  intro s hreturns
  cases hrun : p s with
  | ok a s' => exact wp_ok (hp s) hrun
  | error e s' =>
      rw [hrun] at hreturns
      cases hreturns

theorem wp (hp : ReturnsOnlyIf p P) (s : σ) : wp p (fun _ _ => P) (fun _ _ => True) s := by
  refine wp_intro (fun a s' hrun => hp s ?_) (fun _ _ _ => trivial)
  rw [hrun]
  exact .ok a s'

theorem throw (e : ε) : ReturnsOnlyIf (throw e : EStateM ε σ α) P :=
  of_wp fun _ => trivial

theorem bind_left (hp : ReturnsOnlyIf p P) : ReturnsOnlyIf (p >>= g) P := by
  refine of_wp fun s => ?_
  rw [wp_bind]
  refine wp_mono (hp.wp s) (fun a s' hP => ?_) (fun _ _ h => h)
  exact wp_intro (fun _ _ _ => hP) (fun _ _ _ => trivial)

theorem bind_right (hg : ∀ a, ReturnsOnlyIf (g a) P) : ReturnsOnlyIf (p >>= g) P := by
  refine of_wp fun s => ?_
  rw [wp_bind]
  exact wp_intro (fun a s' _ => (hg a).wp s') (fun _ _ _ => trivial)

/-- A handler that throws again, for instance. -/
theorem tryCatch (hp : ReturnsOnlyIf p P) (hh : ∀ e, ReturnsOnlyIf (h e) P) :
    ReturnsOnlyIf (tryCatch p h) P := by
  refine of_wp fun s => ?_
  rw [wp_tryCatch]
  exact wp_mono (hp.wp s) (fun _ _ hP => hP) (fun e s' _ => (hh e).wp s')

end ReturnsOnlyIf

end Lib

import Mathlib.Tactic

/-!
# Word — unsigned integers that remember an overflow

A program text in unsigned arithmetic can be read in two ways: with results modulo a power of two,
as the machine computes them, or over all natural numbers.  `Word w` carries both readings, so that
a computation is written down once.

* `Width` — the range of a type, `none` being all natural numbers;
* `Word` — a value, and whether some result on the way to it left the range;
* `Tracks a n` — unless something overflowed, `a` is `n`; every operation keeps this;
* `Exact a n` — nothing overflowed, and `a` is `n`.
-/

namespace Lib

/-- The number of bits of an unsigned type; `none` stands for unbounded integers. -/
abbrev Width := Option Nat

namespace Width

/-- A number is in the range of the type. -/
def Fits (w : Width) (n : Nat) : Prop :=
  ∀ b ∈ w, n < 2 ^ b

/-- A result brought back into the range of the type. -/
def wrap : Width → Nat → Nat
  | none, n => n
  | some b, n => n % 2 ^ b

instance (w : Width) (n : Nat) : Decidable (w.Fits n) :=
  match w with
  | none => isTrue (by simp [Fits])
  | some b => decidable_of_iff (n < 2 ^ b) (by simp [Fits])

@[simp] theorem fits_none (n : Nat) : Fits none n := by
  simp [Fits]

@[simp] theorem fits_some (b n : Nat) : Fits (some b) n ↔ n < 2 ^ b := by
  simp [Fits]

theorem Fits.mono {w : Width} {m n : Nat} (h : w.Fits n) (hle : m ≤ n) : w.Fits m :=
  fun b hb => lt_of_le_of_lt hle (h b hb)

theorem wrap_of_fits {w : Width} {n : Nat} (h : w.Fits n) : w.wrap n = n := by
  cases w with
  | none => rfl
  | some b => exact Nat.mod_eq_of_lt (h b rfl)

end Width

/-- A value of an unsigned type, with a mark that stays once a result has left the range. -/
structure Word (w : Width) where
  value : Nat
  overflowed : Bool
  deriving DecidableEq

namespace Word

variable {w : Width}

/-- The result `n` of an operation on operands with the marks collected in `before`. -/
def result (w : Width) (before : Bool) (n : Nat) : Word w :=
  ⟨w.wrap n, before || !decide (w.Fits n)⟩

instance : NatCast (Word w) := ⟨result w false⟩

instance (n : Nat) : OfNat (Word w) n := ⟨(n : Word w)⟩

instance : Add (Word w) :=
  ⟨fun a b => result w (a.overflowed || b.overflowed) (a.value + b.value)⟩

instance : Mul (Word w) :=
  ⟨fun a b => result w (a.overflowed || b.overflowed) (a.value * b.value)⟩

/-- A difference below zero wraps around; without a bound there is no such value. -/
instance : Sub (Word w) :=
  ⟨fun a b =>
    if b.value ≤ a.value then ⟨a.value - b.value, a.overflowed || b.overflowed⟩
    else ⟨w.elim 0 (fun bits => (a.value + 2 ^ bits - b.value) % 2 ^ bits), true⟩⟩

instance : Div (Word w) :=
  ⟨fun a b => ⟨a.value / b.value, a.overflowed || b.overflowed⟩⟩

instance : Mod (Word w) :=
  ⟨fun a b => ⟨a.value % b.value, a.overflowed || b.overflowed⟩⟩

instance : OrOp (Word w) :=
  ⟨fun a b => ⟨a.value ||| b.value, a.overflowed || b.overflowed⟩⟩

/-- `a >> k`. -/
def shr (a : Word w) (k : Nat) : Word w :=
  ⟨a.value / 2 ^ k, a.overflowed⟩

/-- `a << k`. -/
def shl (a : Word w) (k : Nat) : Word w :=
  result w a.overflowed (a.value * 2 ^ k)

/-- Conversion to another unsigned type. -/
def cast (w' : Width) (a : Word w) : Word w' :=
  result w' a.overflowed a.value

instance : LT (Word w) := ⟨fun a b => a.value < b.value⟩

instance : LE (Word w) := ⟨fun a b => a.value ≤ b.value⟩

instance (a b : Word w) : Decidable (a < b) := inferInstanceAs (Decidable (a.value < b.value))

instance (a b : Word w) : Decidable (a ≤ b) := inferInstanceAs (Decidable (a.value ≤ b.value))

/-! ## The operations in one view -/

theorem add_eq (a b : Word w) :
    a + b = result w (a.overflowed || b.overflowed) (a.value + b.value) := rfl

theorem mul_eq (a b : Word w) :
    a * b = result w (a.overflowed || b.overflowed) (a.value * b.value) := rfl

theorem sub_eq (a b : Word w) :
    a - b =
      if b.value ≤ a.value then ⟨a.value - b.value, a.overflowed || b.overflowed⟩
      else ⟨w.elim 0 (fun bits => (a.value + 2 ^ bits - b.value) % 2 ^ bits), true⟩ := rfl

theorem div_eq (a b : Word w) :
    a / b = ⟨a.value / b.value, a.overflowed || b.overflowed⟩ := rfl

theorem or_eq (a b : Word w) :
    a ||| b = ⟨a.value ||| b.value, a.overflowed || b.overflowed⟩ := rfl

/-! ## Values that are known -/

/-- Unless something overflowed, the value is `n`. -/
def Tracks (a : Word w) (n : Nat) : Prop :=
  a.overflowed = false → a.value = n

/-- Nothing overflowed, and the value is `n`. -/
structure Exact (a : Word w) (n : Nat) : Prop where
  fits : a.overflowed = false
  value : a.value = n

theorem Exact.tracks {a : Word w} {n : Nat} (h : Exact a n) : Tracks a n :=
  fun _ => h.value

theorem Tracks.exact {a : Word w} {n : Nat} (h : Tracks a n) (hfits : a.overflowed = false) :
    Exact a n :=
  ⟨hfits, h hfits⟩

theorem Exact.eq_mk {a : Word w} {n : Nat} (h : Exact a n) : a = ⟨n, false⟩ := by
  rcases a with ⟨value, overflowed⟩
  exact congrArg₂ Word.mk h.value h.fits

theorem overflowed_result (before : Bool) (n : Nat) :
    (result w before n).overflowed = false ↔ before = false ∧ w.Fits n := by
  simp [result]

theorem tracks_result (before : Bool) (n : Nat) : Tracks (result w before n) n :=
  fun h => Width.wrap_of_fits ((overflowed_result before n).1 h).2

theorem exact_result {n : Nat} (h : w.Fits n) : Exact (result w false n) n :=
  (tracks_result false n).exact ((overflowed_result false n).2 ⟨rfl, h⟩)

theorem exact_natCast {n : Nat} (h : w.Fits n) : Exact (n : Word w) n :=
  exact_result h

theorem tracks_natCast (n : Nat) : Tracks (n : Word w) n :=
  tracks_result false n

theorem tracks_ofNat (n : Nat) : Tracks (OfNat.ofNat n : Word w) n :=
  tracks_result false n

theorem exact_ofNat {n : Nat} (h : w.Fits n) : Exact (OfNat.ofNat n : Word w) n :=
  exact_result h

/-! ## Sums and products -/

theorem overflowed_add (a b : Word w) :
    (a + b).overflowed = false ↔
      (a.overflowed = false ∧ b.overflowed = false) ∧ w.Fits (a.value + b.value) := by
  rw [add_eq, overflowed_result, Bool.or_eq_false_iff]

theorem overflowed_mul (a b : Word w) :
    (a * b).overflowed = false ↔
      (a.overflowed = false ∧ b.overflowed = false) ∧ w.Fits (a.value * b.value) := by
  rw [mul_eq, overflowed_result, Bool.or_eq_false_iff]

section

variable {a b : Word w} {m n : Nat}

theorem Tracks.add (ha : Tracks a m) (hb : Tracks b n) : Tracks (a + b) (m + n) := by
  intro h
  have hmarks := ((overflowed_add a b).1 h).1
  calc
    (a + b).value = a.value + b.value := tracks_result _ _ h
    _ = m + n := by rw [ha hmarks.1, hb hmarks.2]

theorem Tracks.mul (ha : Tracks a m) (hb : Tracks b n) : Tracks (a * b) (m * n) := by
  intro h
  have hmarks := ((overflowed_mul a b).1 h).1
  calc
    (a * b).value = a.value * b.value := tracks_result _ _ h
    _ = m * n := by rw [ha hmarks.1, hb hmarks.2]

theorem Exact.add (ha : Exact a m) (hb : Exact b n) (h : w.Fits (m + n)) :
    Exact (a + b) (m + n) := by
  refine (ha.tracks.add hb.tracks).exact ?_
  rw [overflowed_add, ha.value, hb.value]
  exact ⟨⟨ha.fits, hb.fits⟩, h⟩

theorem Exact.mul (ha : Exact a m) (hb : Exact b n) (h : w.Fits (m * n)) :
    Exact (a * b) (m * n) := by
  refine (ha.tracks.mul hb.tracks).exact ?_
  rw [overflowed_mul, ha.value, hb.value]
  exact ⟨⟨ha.fits, hb.fits⟩, h⟩

/-! ## Operations that never leave the range -/

theorem overflowed_sub (a b : Word w) :
    (a - b).overflowed = false ↔
      (a.overflowed = false ∧ b.overflowed = false) ∧ b.value ≤ a.value := by
  rw [sub_eq]
  by_cases h : b.value ≤ a.value <;> simp [h]

theorem Tracks.sub (ha : Tracks a m) (hb : Tracks b n) : Tracks (a - b) (m - n) := by
  intro h
  obtain ⟨hmarks, hle⟩ := (overflowed_sub a b).1 h
  rw [sub_eq, if_pos hle]
  exact congrArg₂ _ (ha hmarks.1) (hb hmarks.2)

theorem Exact.sub (ha : Exact a m) (hb : Exact b n) (h : n ≤ m) : Exact (a - b) (m - n) := by
  refine (ha.tracks.sub hb.tracks).exact ?_
  rw [overflowed_sub, ha.value, hb.value]
  exact ⟨⟨ha.fits, hb.fits⟩, h⟩

theorem overflowed_div (a b : Word w) :
    (a / b).overflowed = false ↔ a.overflowed = false ∧ b.overflowed = false := by
  rw [div_eq, Bool.or_eq_false_iff]

theorem Tracks.div (ha : Tracks a m) (hb : Tracks b n) : Tracks (a / b) (m / n) := by
  intro h
  have hmarks := (overflowed_div a b).1 h
  exact congrArg₂ _ (ha hmarks.1) (hb hmarks.2)

theorem Exact.div (ha : Exact a m) (hb : Exact b n) : Exact (a / b) (m / n) :=
  (ha.tracks.div hb.tracks).exact ((overflowed_div a b).2 ⟨ha.fits, hb.fits⟩)

theorem overflowed_or (a b : Word w) :
    (a ||| b).overflowed = false ↔ a.overflowed = false ∧ b.overflowed = false := by
  rw [or_eq, Bool.or_eq_false_iff]

theorem Tracks.or (ha : Tracks a m) (hb : Tracks b n) : Tracks (a ||| b) (m ||| n) := by
  intro h
  have hmarks := (overflowed_or a b).1 h
  exact congrArg₂ _ (ha hmarks.1) (hb hmarks.2)

theorem Exact.or (ha : Exact a m) (hb : Exact b n) : Exact (a ||| b) (m ||| n) :=
  (ha.tracks.or hb.tracks).exact ((overflowed_or a b).2 ⟨ha.fits, hb.fits⟩)

theorem Tracks.shr (ha : Tracks a m) (k : Nat) : Tracks (a.shr k) (m / 2 ^ k) :=
  fun h => congrArg (· / 2 ^ k) (ha h)

theorem Exact.shr (ha : Exact a m) (k : Nat) : Exact (a.shr k) (m / 2 ^ k) :=
  ⟨ha.fits, congrArg (· / 2 ^ k) ha.value⟩

theorem Exact.shl (ha : Exact a m) {k : Nat} (h : w.Fits (m * 2 ^ k)) :
    Exact (a.shl k) (m * 2 ^ k) := by
  have hfits : (a.shl k).overflowed = false := by
    rw [Word.shl, overflowed_result, ha.value]
    exact ⟨ha.fits, h⟩
  refine ⟨hfits, ?_⟩
  rw [← ha.value]
  exact tracks_result _ _ hfits

theorem Tracks.cast (ha : Tracks a m) (w' : Width) : Tracks (a.cast w') m := by
  intro h
  have hmark := ((overflowed_result a.overflowed a.value).1 h).1
  exact (tracks_result _ _ h).trans (ha hmark)

theorem Exact.cast (ha : Exact a m) {w' : Width} (h : w'.Fits m) : Exact (a.cast w') m := by
  refine (ha.tracks.cast w').exact ((overflowed_result _ _).2 ⟨ha.fits, ?_⟩)
  rw [ha.value]
  exact h

end

/-! ## Sums over a list -/

section

variable {α : Type} {f : α → Word w} {g : α → Nat} {l : List α}

theorem Tracks.foldl_add (h : ∀ x ∈ l, Tracks (f x) (g x)) {a : Word w} {n : Nat}
    (ha : Tracks a n) : Tracks (l.foldl (fun acc x => acc + f x) a) (n + (l.map g).sum) := by
  induction l generalizing a n with
  | nil => exact ha
  | cons x l ih =>
      have hx := h x List.mem_cons_self
      have htail : ∀ y ∈ l, Tracks (f y) (g y) := fun y hy => h y (List.mem_cons_of_mem x hy)
      have hsum : n + ((x :: l).map g).sum = n + g x + (l.map g).sum := by
        rw [List.map_cons, List.sum_cons, Nat.add_assoc]
      rw [List.foldl_cons, hsum]
      exact ih htail (ha.add hx)

/-- A sum is exact if the whole of it fits: the partial sums are smaller. -/
theorem Exact.foldl_add (h : ∀ x ∈ l, Exact (f x) (g x)) {a : Word w} {n : Nat}
    (ha : Exact a n) (hfits : w.Fits (n + (l.map g).sum)) :
    Exact (l.foldl (fun acc x => acc + f x) a) (n + (l.map g).sum) := by
  induction l generalizing a n with
  | nil => exact ha
  | cons x l ih =>
      have hx := h x List.mem_cons_self
      have htail : ∀ y ∈ l, Exact (f y) (g y) := fun y hy => h y (List.mem_cons_of_mem x hy)
      have hsum : n + ((x :: l).map g).sum = n + g x + (l.map g).sum := by
        rw [List.map_cons, List.sum_cons, Nat.add_assoc]
      rw [hsum] at hfits ⊢
      rw [List.foldl_cons]
      exact ih htail (ha.add hx (hfits.mono (Nat.le_add_right _ _))) hfits

/-- The larger of two numbers. -/
theorem Exact.max {a b : Word w} {m n : Nat} (ha : Exact a m) (hb : Exact b n) :
    Exact (if a < b then b else a) (max m n) := by
  have hiff : a < b ↔ m < n := by
    rw [← ha.value, ← hb.value]
    rfl
  by_cases hlt : m < n
  · rw [if_pos (hiff.2 hlt), max_eq_right hlt.le]
    exact hb
  · rw [if_neg fun h => hlt (hiff.1 h), max_eq_left (not_lt.1 hlt)]
    exact ha

/-- A number cut off at a bound. -/
theorem Exact.min {a b : Word w} {m n : Nat} (ha : Exact a m) (hb : Exact b n) :
    Exact (if b < a then b else a) (min m n) := by
  have hiff : b < a ↔ n < m := by
    rw [← ha.value, ← hb.value]
    rfl
  by_cases hlt : n < m
  · rw [if_pos (hiff.2 hlt), min_eq_right hlt.le]
    exact hb
  · rw [if_neg fun h => hlt (hiff.1 h), min_eq_left (not_lt.1 hlt)]
    exact ha

theorem Exact.foldl_max {l : List Nat} (h : ∀ x ∈ l, w.Fits x) {a : Word w} {n : Nat}
    (ha : Exact a n) :
    Exact (l.foldl (fun acc (x : Nat) => if acc < (x : Word w) then (x : Word w) else acc) a)
      (l.foldl Max.max n) := by
  induction l generalizing a n with
  | nil => exact ha
  | cons x l ih =>
      have hx : Exact (x : Word w) x := exact_natCast (h x List.mem_cons_self)
      have htail : ∀ y ∈ l, w.Fits y := fun y hy => h y (List.mem_cons_of_mem x hy)
      exact ih htail (ha.max hx)

end

end Word
end Lib

import Mathlib.Tactic

/-!
# InPlace — rewriting a buffer from left to right

Two places in one buffer: the next element is read at one of them, the next element is written at
the other one.  As long as nothing is written behind the place that is read from, the writing does
not disturb the reading.

* `InPlace` — a buffer with the two places;
* `peek`, `write`, `writeAll`, `skip` — the operations;
* `At` — what has been written and what is still to be read;
* `At.rewrite` — the rule for reading some elements and writing others.
-/

namespace Lib

/-- A buffer that is read at `src` and written at `dst`. -/
structure InPlace (α : Type*) where
  buf : List α
  src : Nat
  dst : Nat
  deriving DecidableEq, Repr

namespace InPlace

variable {α : Type*}

/-- `src[n]`. -/
def peek (s : InPlace α) (n : Nat) : Option α :=
  s.buf[s.src + n]?

/-- `*dst++ = a`. -/
def write (s : InPlace α) (a : α) : InPlace α :=
  { s with buf := s.buf.set s.dst a, dst := s.dst + 1 }

def writeAll (s : InPlace α) (as : List α) : InPlace α :=
  as.foldl write s

/-- `src += k`. -/
def skip (s : InPlace α) (k : Nat) : InPlace α :=
  { s with src := s.src + k }

@[simp] theorem writeAll_nil (s : InPlace α) : s.writeAll [] = s := rfl

@[simp] theorem writeAll_cons (s : InPlace α) (a : α) (as : List α) :
    s.writeAll (a :: as) = (s.write a).writeAll as := rfl

theorem writeAll_append (s : InPlace α) (as bs : List α) :
    s.writeAll (as ++ bs) = (s.writeAll as).writeAll bs :=
  List.foldl_append

/-! ## What writing changes -/

@[simp] theorem src_writeAll (s : InPlace α) (as : List α) : (s.writeAll as).src = s.src := by
  induction as generalizing s with
  | nil => rfl
  | cons a as ih => exact ih _

@[simp] theorem dst_writeAll (s : InPlace α) (as : List α) :
    (s.writeAll as).dst = s.dst + as.length := by
  induction as generalizing s with
  | nil => rfl
  | cons a as ih =>
      rw [writeAll_cons, ih]
      simp only [write, List.length_cons]
      omega

@[simp] theorem length_writeAll (s : InPlace α) (as : List α) :
    (s.writeAll as).buf.length = s.buf.length := by
  induction as generalizing s with
  | nil => rfl
  | cons a as ih =>
      rw [writeAll_cons, ih]
      exact List.length_set

/-- What lies behind the last element that is written stays. -/
theorem drop_writeAll (s : InPlace α) (as : List α) {i : Nat} (h : s.dst + as.length ≤ i) :
    (s.writeAll as).buf.drop i = s.buf.drop i := by
  induction as generalizing s with
  | nil => rfl
  | cons a as ih =>
      rw [List.length_cons] at h
      rw [writeAll_cons, ih _ (by simp only [write]; omega)]
      exact List.drop_set_of_lt (by omega)

/-- The elements that are written come behind those that have been written. -/
theorem take_writeAll (s : InPlace α) (as : List α) (h : s.dst + as.length ≤ s.buf.length) :
    (s.writeAll as).buf.take (s.dst + as.length) = s.buf.take s.dst ++ as := by
  induction as generalizing s with
  | nil => simp
  | cons a as ih =>
      rw [List.length_cons] at h
      have hone : (s.write a).buf.take (s.write a).dst = s.buf.take s.dst ++ [a] := by
        have hlt : s.dst < s.buf.length := by omega
        simp only [write]
        rw [List.take_add_one, List.getElem?_set_self hlt, List.take_set_of_le (Nat.le_refl _)]
        rfl
      have hrest := ih (s.write a) (by simp only [write, List.length_set]; omega)
      have hdst : (s.write a).dst + as.length = s.dst + (a :: as).length := by
        simp only [write, List.length_cons]
        omega
      rw [writeAll_cons, ← hdst, hrest, hone, List.append_assoc]
      rfl

/-- What is written stands where it has been written. -/
theorem drop_dst_writeAll (s : InPlace α) (as : List α) (h : s.dst + as.length ≤ s.buf.length) :
    (s.writeAll as).buf.drop s.dst = as ++ s.buf.drop (s.dst + as.length) := by
  rw [← List.take_append_drop (s.dst + as.length) (s.writeAll as).buf, take_writeAll s as h,
    drop_writeAll s as (Nat.le_refl _), List.append_assoc]
  exact List.drop_left' (List.length_take_of_le (by omega))

/-! ## The invariant -/

/-- `out` has been written, and `rest` is still to be read. -/
structure At (s : InPlace α) (out rest : List α) : Prop where
  written : s.buf.take s.dst = out
  unread : s.buf.drop s.src = rest
  behind : s.dst ≤ s.src
  inside : s.src ≤ s.buf.length

variable {s : InPlace α} {out rest : List α}

theorem At.start (buf : List α) : At ⟨buf, 0, 0⟩ [] buf :=
  ⟨rfl, rfl, Nat.le_refl _, Nat.zero_le _⟩

theorem At.peek_eq (h : s.At out rest) (n : Nat) : s.peek n = rest[n]? := by
  rw [← h.unread, List.getElem?_drop]
  rfl

theorem At.length_eq (h : s.At out rest) : s.src + rest.length = s.buf.length := by
  have hlength := congrArg List.length h.unread
  have hinside := h.inside
  rw [List.length_drop] at hlength
  omega

/-- Some elements are read, and others are written that do not reach behind them. -/
theorem At.rewrite (h : s.At out rest) {as : List α} {k : Nat} (hk : k ≤ rest.length)
    (hroom : s.dst + as.length ≤ s.src + k) :
    ((s.writeAll as).skip k).At (out ++ as) (rest.drop k) := by
  have hlength := h.length_eq
  refine ⟨?_, ?_, ?_, ?_⟩
  · change (s.writeAll as).buf.take (s.writeAll as).dst = out ++ as
    rw [dst_writeAll, take_writeAll s as (by omega), h.written]
  · change (s.writeAll as).buf.drop ((s.writeAll as).src + k) = rest.drop k
    rw [src_writeAll, drop_writeAll s as hroom, ← h.unread, List.drop_drop]
  · change (s.writeAll as).dst ≤ (s.writeAll as).src + k
    rw [dst_writeAll, src_writeAll]
    exact hroom
  · change (s.writeAll as).src + k ≤ (s.writeAll as).buf.length
    rw [src_writeAll, length_writeAll]
    omega

end InPlace

end Lib

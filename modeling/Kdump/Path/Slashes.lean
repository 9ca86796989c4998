import Kdump.Lib.Scan
import Kdump.Path.FilePath

/-!
# Slashes — paths up to repeated slashes

The kernel takes a run of slashes for one.  `squeeze` writes every run as one slash, and two
paths with the same squeezed text are the same path.
-/

namespace Kdump
namespace Path

open Lib

/-- Every run of slashes becomes one slash. -/
def squeeze : Str → Str
  | [] => []
  | c :: path => if c = slash ∧ path.head? = some slash then squeeze path else c :: squeeze path

/-- Equality up to repeated slashes. -/
def SamePath (p q : Str) : Prop :=
  squeeze p = squeeze q

instance (p q : Str) : Decidable (SamePath p q) :=
  inferInstanceAs (Decidable (squeeze p = squeeze q))

@[simp] theorem SamePath.refl (p : Str) : SamePath p p := rfl

theorem squeeze_slash_slash (q : Str) : squeeze (slash :: slash :: q) = squeeze (slash :: q) := by
  rw [squeeze, if_pos ⟨rfl, rfl⟩]

/-- What is squeezed behind a path depends on its last byte only. -/
theorem squeeze_append_congr {q q' : Str} (hhead : q.head? = q'.head?)
    (h : squeeze q = squeeze q') (p : Str) : squeeze (p ++ q) = squeeze (p ++ q') := by
  induction p with
  | nil => exact h
  | cons c p ih =>
      have hnext : (p ++ q).head? = (p ++ q').head? := by
        rw [List.head?_append, List.head?_append, hhead]
      rw [List.cons_append, List.cons_append, squeeze, squeeze, hnext, ih]

/-- A run of slashes in front of a slash makes no difference. -/
theorem squeeze_append_slashes {run : Str} (hrun : ∀ c ∈ run, c = slash) (p q : Str) :
    squeeze (p ++ run ++ slash :: q) = squeeze (p ++ slash :: q) := by
  rw [List.append_assoc]
  refine squeeze_append_congr ?_ ?_ p
  · cases run with
    | nil => rfl
    | cons c run => simp [hrun c (by simp)]
  · induction run with
    | nil => rfl
    | cons c run ih =>
        have hc : c = slash := hrun c (by simp)
        have hrest : ∀ d ∈ run, d = slash := fun d hd => hrun d (List.mem_cons_of_mem _ hd)
        have hnext : (run ++ slash :: q).head? = some slash := by
          cases run with
          | nil => rfl
          | cons d run => simp [hrest d (by simp)]
        rw [List.cons_append, squeeze, if_pos ⟨hc, hnext⟩, ih hrest]

/-- Behind a slash, slashes make no difference. -/
theorem squeeze_slash_dropWhile (q : Str) :
    squeeze (slash :: q.dropWhile (· == slash)) = squeeze (slash :: q) := by
  induction q with
  | nil => rfl
  | cons c q ih =>
      by_cases hc : c = slash
      · subst hc
        rw [List.dropWhile_cons_of_pos (by simp), ih, squeeze_slash_slash]
      · rw [List.dropWhile_cons_of_neg (by simpa using hc)]

/-- The bytes of a path other than slashes stay. -/
theorem countP_squeeze (p : Str) :
    (squeeze p).countP (· != slash) = p.countP (· != slash) := by
  induction p with
  | nil => rfl
  | cons c p ih =>
      rw [squeeze]
      split
      · rename_i h
        rw [ih, h.1]
        rfl
      · rw [List.countP_cons, List.countP_cons, ih]

/-! ## Joining -/

theorem rtrimSlash_append_run (p : Str) :
    ∃ run, (∀ c ∈ run, c = slash) ∧ p = rtrimSlash p ++ run := by
  refine ⟨p.rtakeWhile (· == slash), ?_, List.rdropWhile_append_rtakeWhile.symm⟩
  intro c hc
  simpa using List.mem_rtakeWhile_imp hc

theorem rtrimSlash_head {path : Str} (h : rtrimSlash path ≠ []) :
    (rtrimSlash path).head? = path.head? := by
  rcases rtrimSlash_append_run path with ⟨run, _, hrun⟩
  conv_rhs => rw [hrun]
  rw [List.head?_append_of_ne_nil _ h]

/-- Appending to an absolute path gives an absolute path. -/
theorem appendPath_head {path : Str} (h : path.head? = some slash) (s : Str) :
    (appendPath path s).head? = some slash := by
  unfold appendPath
  by_cases hnil : rtrimSlash path = []
  · rw [hnil]
    rfl
  · rw [List.head?_append_of_ne_nil _ hnil, rtrimSlash_head hnil, h]

/-- Up to repeated slashes, `appendPath` puts a slash between its arguments. -/
theorem appendPath_samePath (p s : Str) : SamePath (appendPath p s) (p ++ slash :: s) := by
  rcases rtrimSlash_append_run p with ⟨run, hrun, hp⟩
  unfold SamePath appendPath
  calc
    squeeze (rtrimSlash p ++ slash :: s.dropWhile (· == slash))
        = squeeze (rtrimSlash p ++ run ++ slash :: s.dropWhile (· == slash)) :=
          (squeeze_append_slashes hrun _ _).symm
    _ = squeeze (p ++ slash :: s.dropWhile (· == slash)) := by rw [← hp]
    _ = squeeze (p ++ slash :: s) := squeeze_append_congr (by rfl) (squeeze_slash_dropWhile s) p

end Path
end Kdump

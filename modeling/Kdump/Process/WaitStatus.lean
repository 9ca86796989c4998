import Kdump.Global

/-!
# WaitStatus — how a process ends, and what its parent is told

`waitpid()`, `pclose()` and `system()` encode the end of a process in an `int`: the exit code in
the second byte, or the signal that killed it in the low seven bits.
-/

namespace Kdump
namespace Process

/-- The number of a signal that can kill a process. -/
abbrev Signal := { n : Nat // 0 < n ∧ n < 127 }

inductive Termination where
  | exited (code : Fin 256)
  | signaled (signal : Signal) (core : Bool)
  deriving DecidableEq

namespace Termination

/-- The wait status. -/
def status : Termination → Nat
  | .exited code => code.1 <<< 8
  | .signaled signal core => signal.1 + if core then 0x80 else 0

def success : Termination :=
  .exited 0

/-- Death by a signal. -/
def IsSignaled : Termination → Prop
  | .exited _ => False
  | .signaled _ _ => True

instance (t : Termination) : Decidable t.IsSignaled := by
  cases t <;> unfold IsSignaled <;> infer_instance

end Termination

def WEXITSTATUS (status : Nat) : Nat :=
  (status &&& 0xff00) >>> 8

theorem WEXITSTATUS_eq (status : Nat) : WEXITSTATUS status = (status >>> 8) % 256 := by
  have hmask : 0xff00 >>> 8 = 2 ^ 8 - 1 := by decide
  rw [WEXITSTATUS, Nat.shiftRight_and_distrib, hmask, Nat.and_two_pow_sub_one_eq_mod]

theorem WEXITSTATUS_lt (status : Nat) : WEXITSTATUS status < 256 := by
  rw [WEXITSTATUS_eq]
  exact Nat.mod_lt _ (by decide)

theorem WEXITSTATUS_exited (code : Fin 256) :
    WEXITSTATUS (Termination.exited code).status = code := by
  rw [WEXITSTATUS_eq, Termination.status, Nat.shiftLeft_shiftRight, Nat.mod_eq_of_lt code.2]

/-- Death by a signal has the same `WEXITSTATUS` as success. -/
theorem WEXITSTATUS_signaled (signal : Signal) (core : Bool) :
    WEXITSTATUS (Termination.signaled signal core).status = 0 := by
  have hlt := signal.2.2
  have hzero : (Termination.signaled signal core).status >>> 8 = 0 := by
    rw [Nat.shiftRight_eq_div_pow]
    refine Nat.div_eq_of_lt ?_
    cases core
    · change signal.1 + 0 < 256
      omega
    · change signal.1 + 0x80 < 256
      omega
  rw [WEXITSTATUS_eq, hzero]

theorem exited_eq_success (code : Fin 256) : Termination.exited code = .success ↔ code.1 = 0 := by
  constructor
  · intro h
    cases h
    rfl
  · intro h
    exact congrArg Termination.exited (Fin.ext h)

theorem WEXITSTATUS_status (t : Termination) :
    WEXITSTATUS t.status = 0 ↔ t = .success ∨ t.IsSignaled := by
  cases t with
  | exited code =>
      rw [WEXITSTATUS_exited, exited_eq_success]
      exact (or_iff_left id).symm
  | signaled signal core =>
      rw [WEXITSTATUS_signaled]
      exact iff_of_true rfl (Or.inr trivial)

/-- The status as a whole tells success from every other end. -/
theorem status_eq_zero (t : Termination) : t.status = 0 ↔ t = .success := by
  cases t with
  | exited code =>
      rw [exited_eq_success, Termination.status, Nat.shiftLeft_eq]
      omega
  | signaled signal core =>
      have hpos := signal.2.1
      refine iff_of_false ?_ (by rintro ⟨⟩)
      rw [Termination.status]
      omega

end Process
end Kdump

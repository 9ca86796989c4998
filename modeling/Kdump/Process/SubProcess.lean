import Kdump.Process.WaitStatus

/-!
# SubProcess — a child process, and the pipes to it

The parent's side of `SubProcess::spawn` and `SubProcess::wait`.

* `SubProcessPipe` — one pipe, of which the parent keeps one end;
* `System` — the answers of the system calls;
* `spawn` and `wait`.

What the child does between `fork` and `execvp` is not part of this module.
-/

namespace Kdump
namespace Process

/-! ## Pipes -/

/-- `ParentToChildPipe` or `ChildToParentPipe`. -/
inductive Direction where
  | parentToChild
  | childToParent
  deriving DecidableEq

/-- The two descriptors in `m_pipefd`; `none` stands for -1. -/
structure SubProcessPipe where
  direction : Direction
  readEnd : Option Nat
  writeEnd : Option Nat
  deriving DecidableEq

namespace SubProcessPipe

def close (self : SubProcessPipe) : SubProcessPipe :=
  { self with readEnd := none, writeEnd := none }

/-- A pipe that is still open is closed first. -/
def prepare (self : SubProcessPipe) (pipe2 : Except Errno (Nat × Nat)) :
    Except Thrown SubProcessPipe :=
  match pipe2 with
  | .error errno => .error (.KSystemError (str "Cannot create subprocess pipe") errno)
  | .ok (readEnd, writeEnd) =>
      .ok { self.close with readEnd := some readEnd, writeEnd := some writeEnd }

/-- The end of the child is closed. -/
def finalizeParent (self : SubProcessPipe) : SubProcessPipe :=
  match self.direction with
  | .parentToChild => { self with readEnd := none }
  | .childToParent => { self with writeEnd := none }

end SubProcessPipe

/-! ## The process -/

/-- What the system answers to the parent. -/
structure System where
  /-- for the pipe of each descriptor of the child, the ends for reading and for writing -/
  pipe2 : Nat → Except Errno (Nat × Nat)
  /-- the PID of the child -/
  fork : Except Errno Nat
  /-- a PID and its wait status -/
  waitpid : Nat → Except Errno (Nat × Nat)

/-- `SubProcess::m_fdmap`, in the order of the descriptors of the child. -/
abbrev FdMap := List (Nat × SubProcessPipe)

namespace SubProcess

def preparePipes (sys : System) : FdMap → Except Thrown FdMap
  | [] => .ok []
  | (fd, pipe) :: m_fdmap => do
      let pipe ← pipe.prepare (sys.pipe2 fd)
      let m_fdmap ← preparePipes sys m_fdmap
      pure ((fd, pipe) :: m_fdmap)

/-- The result is `m_pid`, with the pipes as the parent has them then. -/
def spawn (sys : System) (m_fdmap : FdMap) : Except Thrown (Nat × FdMap) := do
  let m_fdmap ← preparePipes sys m_fdmap
  match sys.fork with
  | .error errno => throw (.KSystemError (str "SubProcess::spawn(): fork failed") errno)
  | .ok child => pure (child, m_fdmap.map fun elem => (elem.1, elem.2.finalizeParent))

/-- For a process that has been spawned. -/
def wait (sys : System) (m_pid : Nat) : Except Thrown Nat :=
  match sys.waitpid m_pid with
  | .error errno =>
      .error (.KSystemError (str "SubProcess::wait(): cannot get state of PID " ++
        decimal m_pid) errno)
  | .ok (ret, status) =>
      if ret ≠ m_pid then
        .error (.KError (str "SubProcess::wait(): spawned PID " ++ decimal m_pid ++
          str " but PID " ++ decimal ret ++ str " exited."))
      else
        .ok status

end SubProcess

/-- `waitpid()` reports how the child has ended. -/
def System.Reaps (sys : System) (t : Termination) : Prop :=
  ∀ pid, sys.waitpid pid = .ok (pid, t.status)

theorem SubProcess.wait_reaped {sys : System} {t : Termination} (h : sys.Reaps t) (m_pid : Nat) :
    SubProcess.wait sys m_pid = .ok t.status := by
  unfold SubProcess.wait
  rw [h m_pid]
  exact if_neg (not_not.2 rfl)

end Process
end Kdump

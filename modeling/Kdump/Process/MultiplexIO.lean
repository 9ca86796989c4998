import Kdump.Global

/-!
# MultiplexIO — waiting for any of several descriptors

A table of descriptors for `poll()`.  A descriptor that is deactivated stays in the table as -1,
and `m_active` counts the others.
-/

namespace Kdump
namespace Process

/-- The bits of `poll()` that the program looks at. -/
structure Events where
  POLLIN : Bool := false
  POLLOUT : Bool := false
  POLLHUP : Bool := false
  deriving DecidableEq

/-- `struct pollfd`; the descriptor `none` stands for a negative one. -/
structure PollFd where
  fd : Option Nat
  events : Events
  revents : Events
  deriving DecidableEq

/-- An answer of `poll()`: what has happened to each descriptor of the table, or `errno`. -/
abbrev PollAnswer := Except Errno (List Events)

def EINTR : Errno := 4

/-- What keeps the program from going on. -/
inductive Stop where
  | thrown (e : Thrown)
  /-- `poll()` waits, and nothing happens -/
  | blocked
  deriving DecidableEq

theorem Stop.thrown_ne_blocked (e : Thrown) : Stop.thrown e ≠ .blocked := by
  intro h
  cases h

structure MultiplexIO where
  m_fds : List PollFd
  m_active : Int
  deriving DecidableEq

namespace MultiplexIO

def empty : MultiplexIO :=
  ⟨[], 0⟩

/-- The result is the index in the table. -/
def add (self : MultiplexIO) (fd : Option Nat) (events : Events) : Nat × MultiplexIO :=
  (self.m_fds.length,
    { m_fds := self.m_fds ++ [⟨fd, events, {}⟩]
      m_active := if fd.isSome = true then self.m_active + 1 else self.m_active })

def «at» (self : MultiplexIO) (idx : Nat) : Except Thrown PollFd :=
  match self.m_fds[idx]? with
  | some poll => .ok poll
  | none => .error .outOfRange

def deactivate (self : MultiplexIO) (idx : Nat) : MultiplexIO where
  m_fds := self.m_fds.modify idx fun poll => { poll with fd := none }
  m_active :=
    match self.m_fds[idx]? with
    | some ⟨some _, _, _⟩ => self.m_active - 1
    | _ => self.m_active

/-- `poll()` leaves out negative descriptors. -/
def report (self : MultiplexIO) (happened : List Events) : MultiplexIO :=
  { self with m_fds := self.m_fds.mapIdx fun idx poll =>
      { poll with revents := if poll.fd.isSome = true then happened.getD idx {} else {} } }

/-- `poll()` is called again after an interrupt.  The answers that are left come with the result;
behind the last one `poll()` waits forever. -/
def monitor (self : MultiplexIO) : List PollAnswer → Except Stop (List PollAnswer × MultiplexIO)
  | [] => .error .blocked
  | .error errno :: polls =>
      if errno = EINTR then
        self.monitor polls
      else
        .error (.thrown (.KSystemError (str "poll() failed") errno))
  | .ok happened :: polls => .ok (polls, self.report happened)

theorem monitor_length_lt {self io : MultiplexIO} {polls polls' : List PollAnswer}
    (h : self.monitor polls = .ok (polls', io)) : polls'.length < polls.length := by
  induction polls with
  | nil => cases h
  | cons answer polls ih =>
      cases answer with
      | ok happened =>
          cases h
          exact Nat.lt_succ_self _
      | error errno =>
          unfold monitor at h
          split_ifs at h
          exact (ih h).trans (Nat.lt_succ_self _)

end MultiplexIO

end Process
end Kdump

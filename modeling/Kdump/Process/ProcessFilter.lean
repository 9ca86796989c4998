import Kdump.Lib.Wp
import Kdump.Process.MultiplexIO
import Kdump.Process.SubProcess
import Kdump.Transfer.Descriptor

/-!
# ProcessFilter — running a process with streams at its descriptors

`ProcessFilter::execute` starts a process with a pipe at each of its descriptors, moves data
between the pipes and the streams as long as a pipe is open, and then waits for the process.

* `IStream` and `OStream` — a stream at one end of a pipe;
* `FilterIO` — either of them, `ProcessFilter::IO` in the source;
* `handleAll` and `ioLoop` — one pass of the loop, and the loop;
* `execute`.

The answers of `read()`, `write()` and `poll()` are part of the state, in the order in which they
are given.
-/

namespace Kdump
namespace Process

open Lib Transfer

/-! ## Input -/

/-- A `std::istream`. -/
structure InputStream where
  rest : ByteVector
  eof : Bool
  /-- whether reading goes wrong when so many bytes are left -/
  failure : Nat → Option Errno

/-- `clear()`, then `read(buf, n)`; fewer than `n` bytes are the end of the stream. -/
def InputStream.read (self : InputStream) (n : Nat) : Except Errno ByteVector × InputStream :=
  match self.failure self.rest.length with
  | some errno => (.error errno, { self with eof := false })
  | none =>
      (.ok (self.rest.take n),
        { self with rest := self.rest.drop n, eof := decide (self.rest.length < n) })

/-- A pipe that is fed from a stream. -/
structure IStream where
  m_pipe : SubProcessPipe
  m_input : InputStream
  pollidx : Nat
  /-- what lies between `bufptr` and `bufend` -/
  buf : ByteVector
  /-- what `write()` answers for this pipe, and the bytes it has taken -/
  answers : List WriteAnswer
  sent : ByteVector

namespace IStream

abbrev Prog := EStateM Thrown (IStream × MultiplexIO)

def setupIO (self : IStream) (io : MultiplexIO) : IStream × MultiplexIO :=
  let added := io.add self.m_pipe.writeEnd { POLLOUT := true }
  ({ self with pollidx := added.1 }, added.2)

/-- A buffer underflow. -/
def underflow : Prog Unit := do
  let (self, io) ← get
  let read := self.m_input.read BUFSIZ
  set ({ self with m_input := read.2 }, io)
  match read.1 with
  | .error errno => throw (.KSystemError (str "Cannot get data for input pipe") errno)
  | .ok bytes => set ({ self with m_input := read.2, buf := bytes }, io)

/-- One call of `write()`, which may take less than the buffer has. -/
def writeSome : Prog Unit := do
  let (self, io) ← get
  match self.answers with
  | [] => set ({ self with sent := self.sent ++ self.buf, buf := [] }, io)
  | .error errno :: answers =>
      set ({ self with answers := answers }, io)
      throw (.KSystemError (str "Cannot send data to input pipe") errno)
  | .ok cnt :: answers =>
      set ({ self with
        answers := answers
        sent := self.sent ++ self.buf.take cnt
        buf := self.buf.drop cnt }, io)

/-- At the end of the stream the pipe is closed. -/
def closeAtEnd : Prog Unit := do
  let (self, io) ← get
  if self.m_input.eof = true then
    set ({ self with m_pipe := self.m_pipe.close }, io.deactivate self.pollidx)

def handleEvents : Prog Unit := do
  let (self, io) ← get
  let poll ← ofExcept (io.«at» self.pollidx)
  if poll.revents.POLLOUT = true then
    if self.buf = [] then
      underflow
    writeSome
    closeAtEnd

end IStream

/-! ## Output -/

/-- A pipe that is emptied into a stream. -/
structure OStream where
  m_pipe : SubProcessPipe
  /-- what has been written to the stream -/
  m_output : ByteVector
  pollidx : Nat
  /-- what `read()` answers for this pipe; no bytes are the end of the file, also behind the last
  answer -/
  incoming : List (Except Errno ByteVector)

namespace OStream

abbrev Prog := EStateM Thrown (OStream × MultiplexIO)

def setupIO (self : OStream) (io : MultiplexIO) : OStream × MultiplexIO :=
  let added := io.add self.m_pipe.readEnd { POLLIN := true }
  ({ self with pollidx := added.1 }, added.2)

/-- One call of `read()`, for at most a buffer of bytes. -/
def readSome : Prog ByteVector := do
  let (self, io) ← get
  match self.incoming with
  | [] => pure []
  | .error errno :: incoming =>
      set ({ self with incoming := incoming }, io)
      throw (.KSystemError (str "Cannot get data from output pipe") errno)
  | .ok bytes :: incoming =>
      let more := if BUFSIZ < bytes.length then [.ok (bytes.drop BUFSIZ)] else []
      set ({ self with incoming := more ++ incoming }, io)
      pure (bytes.take BUFSIZ)

/-- At the end of the file the pipe is closed. -/
def deliver (bytes : ByteVector) : Prog Unit := do
  let (self, io) ← get
  if bytes = [] then
    set ({ self with m_pipe := self.m_pipe.close }, io.deactivate self.pollidx)
  else
    set ({ self with m_output := self.m_output ++ bytes }, io)

def handleEvents : Prog Unit := do
  let (self, io) ← get
  let poll ← ofExcept (io.«at» self.pollidx)
  if poll.revents.POLLIN = true then
    let bytes ← readSome
    deliver bytes
  else if poll.revents.POLLHUP = true then
    deliver []

end OStream

/-! ## Either -/

inductive FilterIO where
  | input (elem : IStream)
  | output (elem : OStream)

namespace FilterIO

def m_pipe : FilterIO → SubProcessPipe
  | .input elem => elem.m_pipe
  | .output elem => elem.m_pipe

/-- The pipe object is shared with the `SubProcess`, which changes it. -/
def setPipe (pipe : SubProcessPipe) : FilterIO → FilterIO
  | .input elem => .input { elem with m_pipe := pipe }
  | .output elem => .output { elem with m_pipe := pipe }

def setupIO : FilterIO → MultiplexIO → FilterIO × MultiplexIO
  | .input elem, io => Prod.map .input id (elem.setupIO io)
  | .output elem, io => Prod.map .output id (elem.setupIO io)

/-- How handling the events of an element ends, and what becomes of it. -/
structure Handled where
  result : Except Thrown Unit
  elem : FilterIO
  io : MultiplexIO

def handleEvents : FilterIO → MultiplexIO → Handled
  | .input elem, io =>
      match IStream.handleEvents (elem, io) with
      | .ok () (elem', io') => ⟨.ok (), .input elem', io'⟩
      | .error e (elem', io') => ⟨.error e, .input elem', io'⟩
  | .output elem, io =>
      match OStream.handleEvents (elem, io) with
      | .ok () (elem', io') => ⟨.ok (), .output elem', io'⟩
      | .error e (elem', io') => ⟨.error e, .output elem', io'⟩

end FilterIO

/-! ## Running a process -/

/-- `ProcessFilter::m_iomap`, in the order of the descriptors of the child. -/
abbrev IOMap := List (Nat × FilterIO)

/-- What `execute` has in hand while the child runs. -/
structure FilterState where
  m_iomap : IOMap
  io : MultiplexIO
  polls : List PollAnswer

namespace ProcessFilter

/-- `for (auto &elem : m_iomap) elem.second->setupIO(io)` -/
def setupAll : IOMap → MultiplexIO → IOMap × MultiplexIO
  | [], io => ([], io)
  | (fd, elem) :: m_iomap, io =>
      let here := elem.setupIO io
      let more := setupAll m_iomap here.2
      ((fd, here.1) :: more.1, more.2)

/-- `for (auto &elem : m_iomap) elem.second->handleEvents(io)`, up to the first exception. -/
def handleAll : IOMap → MultiplexIO → Except Thrown Unit × IOMap × MultiplexIO
  | [], io => (.ok (), [], io)
  | (fd, elem) :: m_iomap, io =>
      let here := elem.handleEvents io
      match here.result with
      | .error e => (.error e, (fd, here.elem) :: m_iomap, here.io)
      | .ok () =>
          let more := handleAll m_iomap here.io
          (more.1, (fd, here.elem) :: more.2.1, more.2.2)

/-- `while (io.active() > 0) { .. }` -/
def ioLoop (s : FilterState) : Except Stop Unit × FilterState :=
  if s.io.m_active ≤ 0 then
    (.ok (), s)
  else
    match _h : s.io.monitor s.polls with
    | .error stop => (.error stop, s)
    | .ok (polls, io) =>
        match handleAll s.m_iomap io with
        | (.error e, m_iomap, io) => (.error (.thrown e), ⟨m_iomap, io, polls⟩)
        | (.ok (), m_iomap, io) => ioLoop ⟨m_iomap, io, polls⟩
termination_by s.polls.length
decreasing_by exact MultiplexIO.monitor_length_lt _h

/-- The state behind `spawn`, when the pipes are set up for `poll()`. -/
def started (m_iomap : IOMap) (m_fdmap : FdMap) (polls : List PollAnswer) : FilterState :=
  let spawned := List.zipWith (fun elem pipe => (elem.1, elem.2.setPipe pipe.2)) m_iomap m_fdmap
  let setup := setupAll spawned .empty
  ⟨setup.1, setup.2, polls⟩

/-- The result is the exit code; the process is given by the answers of the system. -/
def execute (sys : System) (polls : List PollAnswer) (m_iomap : IOMap) : Except Stop UInt8 := do
  let (m_pid, m_fdmap) ← (SubProcess.spawn sys
    (m_iomap.map fun elem => (elem.1, elem.2.m_pipe))).mapError .thrown
  (ioLoop (started m_iomap m_fdmap polls)).1
  let status ← (SubProcess.wait sys m_pid).mapError .thrown
  pure (UInt8.ofNat (WEXITSTATUS status))

/-- What `execute` returns is the exit code of the process. -/
theorem execute_eq_ok {sys : System} {t : Termination} (hreaps : sys.Reaps t)
    {polls : List PollAnswer} {m_iomap : IOMap} {code : UInt8}
    (h : execute sys polls m_iomap = .ok code) :
    code.toNat = WEXITSTATUS t.status := by
  unfold execute at h
  cases hspawn : SubProcess.spawn sys (m_iomap.map fun elem => (elem.1, elem.2.m_pipe)) with
  | error e =>
      rw [hspawn] at h
      cases h
  | ok child =>
      rw [hspawn] at h
      cases hloop : (ioLoop (started m_iomap child.2 polls)).1 with
      | error stop =>
          change ((ioLoop (started m_iomap child.2 polls)).1 >>= _) = _ at h
          rw [hloop] at h
          cases h
      | ok _ =>
          change ((ioLoop (started m_iomap child.2 polls)).1 >>= _) = _ at h
          rw [hloop, SubProcess.wait_reaped hreaps] at h
          cases h
          rw [UInt8.toNat_ofNat', Nat.mod_eq_of_lt (WEXITSTATUS_lt _)]

end ProcessFilter

end Process
end Kdump

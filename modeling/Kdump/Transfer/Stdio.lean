import Kdump.Global
import Kdump.Lib.SparseFile

/-!
# Stdio — a buffered output stream on a file

What `fwrite` and `fputc` are given is pending until the C library writes it out: some of it in a
later call of these, all of it in `fseek`, `rewind` and `fclose`.  The device may take all of a
write-out, or refuse it after some bytes; what was pending is then lost.

* `Stdio` — how the C library and the system behave, call by call;
* `Stream` — a `FILE` that is open for writing, together with the file behind it;
* `fwrite`, `fputc`, `fseek`, `rewind`, `ftell`, `ftruncate`, `fclose`.
-/

namespace Kdump
namespace Transfer

open Lib

/-! ## The environment -/

/-- The behaviour of the C library and the system.  The calls on a stream are numbered; a call
makes one write-out at most. -/
structure Stdio where
  fopen : Except Errno Unit
  /-- how many of the pending bytes a call of `fwrite` or `fputc` writes out -/
  spill : Nat → Nat → Nat
  /-- the device refuses the write-out of a call after some bytes -/
  device : Nat → Option (Nat × Errno)
  lseek : Nat → Except Errno Unit
  ftruncate : Except Errno Unit
  /-- what a call of `fwrite` that fails returns, if that is less than it was given -/
  count : Nat → Nat

/-- The refusal of a write-out of `n` bytes, unless the device takes them all. -/
def Stdio.refusal (io : Stdio) (call n : Nat) : Option (Nat × Errno) :=
  match io.device call with
  | none => none
  | some (k, errno) => if k < n then some (k, errno) else none

/-- No call fails. -/
structure Stdio.NoErrors (io : Stdio) : Prop where
  fopen : io.fopen = .ok ()
  device : ∀ call, io.device call = none
  lseek : ∀ call, io.lseek call = .ok ()
  ftruncate : io.ftruncate = .ok ()

theorem Stdio.NoErrors.refusal {io : Stdio} (h : io.NoErrors) (call n : Nat) :
    io.refusal call n = none := by
  rw [Stdio.refusal, h.device]

theorem Stdio.lt_of_refusal {io : Stdio} {call n k : Nat} {errno : Errno}
    (h : io.refusal call n = some (k, errno)) : k < n := by
  unfold Stdio.refusal at h
  split at h
  · cases h
  · split_ifs at h with hlt
    cases h
    exact hlt

/-! ## Streams -/

structure Stream where
  /-- the content of the file -/
  data : ByteVector
  /-- the offset of the descriptor -/
  pos : Nat
  /-- the bytes that are pending -/
  buf : ByteVector
  calls : Nat
  deriving DecidableEq, Repr

/-- What a call on a stream answers, and leaves behind. -/
abbrev Answer := Except Errno Unit × Stream

/-- `fopen(.., "w")` empties the file. -/
def Stream.opened : Stream :=
  ⟨[], 0, [], 0⟩

/-- Write out the first `n` pending bytes. -/
def writeOut (io : Stdio) (n : Nat) (st : Stream) : Answer :=
  match io.refusal st.calls n with
  | some (k, errno) =>
      (.error errno,
        { data := writeAt st.data st.pos (st.buf.take k)
          pos := st.pos + k
          buf := []
          calls := st.calls + 1 })
  | none =>
      (.ok (),
        { data := writeAt st.data st.pos (st.buf.take n)
          pos := st.pos + n
          buf := st.buf.drop n
          calls := st.calls + 1 })

/-- Add to the pending bytes, and write out as many as the C library sees fit. -/
def putBytes (io : Stdio) (b : ByteVector) (st : Stream) : Answer :=
  let pending := st.buf ++ b
  writeOut io (min (io.spill st.calls pending.length) pending.length) { st with buf := pending }

/-- `fwrite`; a failure comes with the count it returns. -/
def fwrite (io : Stdio) (b : ByteVector) (st : Stream) : Except (Nat × Errno) Unit × Stream :=
  match putBytes io b st with
  | (.ok (), st') => (.ok (), st')
  | (.error errno, st') => (.error (min (io.count st.calls) (b.length - 1), errno), st')

def fputc (io : Stdio) (c : UInt8) (st : Stream) : Answer :=
  putBytes io [c] st

/-- `fseek(.., n, SEEK_CUR)`. -/
def fseek (io : Stdio) (n : Nat) (st : Stream) : Answer :=
  match writeOut io st.buf.length st with
  | (.error errno, st') => (.error errno, st')
  | (.ok (), st') =>
      match io.lseek st.calls with
      | .error errno => (.error errno, st')
      | .ok () => (.ok (), { st' with pos := st'.pos + n })

def ftell (st : Stream) : Nat :=
  st.pos + st.buf.length

/-- `rewind` does not tell about failures. -/
def rewind (io : Stdio) (st : Stream) : Stream :=
  let st' := (writeOut io st.buf.length st).2
  match io.lseek st.calls with
  | .error _ => st'
  | .ok () => { st' with pos := 0 }

/-- `ftruncate` goes past the stream. -/
def ftruncate (io : Stdio) (n : Nat) (st : Stream) : Answer :=
  match io.ftruncate with
  | .error errno => (.error errno, st)
  | .ok () => (.ok (), { st with data := truncateTo n st.data })

def fclose (io : Stdio) (st : Stream) : Answer :=
  writeOut io st.buf.length st

end Transfer
end Kdump

import Kdump.Path.FilePath
import Kdump.Transfer.DataProvider
import Kdump.Transfer.Stdio

/-!
# FileTransfer — saving to a file

`FileTransfer::perform` lets the provider save to a file by itself if it can, and else pipes the
data through a buffer into a stream.  Blocks of zeros are skipped by seeking, unless that is
switched off; a file that ends in such a block gets its length from `ftruncate`.
-/

namespace Kdump
namespace Transfer

open Lib Kdump.Path

/-- The object, with its environment. -/
structure FileTransfer where
  /-- the directories of the target URLs -/
  urls : List Str
  m_bufferSize : Nat
  /-- `KDUMPTOOL_FLAGS` contains `NOSPARSE` -/
  noSparse : Bool
  io : Stdio

/-- The state of `performPipe`. -/
structure FileState where
  fp : Stream
  prepared : Bool
  calls : List Call

instance : Observed FileState where
  record call s := { s with calls := s.calls ++ [call] }

abbrev FileProg := EStateM Thrown FileState

/-- `Util::isZero`. -/
def isZero (buffer : ByteVector) : Bool :=
  buffer.all (· == 0)

/-- A call on the stream. -/
def onStream {ε : Type} (call : Stream → Except ε Unit × Stream) : FileProg (Except ε Unit) :=
  fun s => .ok (call s.fp).1 { s with fp := (call s.fp).2 }

@[simp] theorem wp_onStream {ε : Type} {call : Stream → Except ε Unit × Stream}
    {Q : Except ε Unit → FileState → Prop} {E : Thrown → FileState → Prop} {s : FileState} :
    wp (onStream call) Q E s ↔ Q (call s.fp).1 { s with fp := (call s.fp).2 } := Iff.rfl

/-- A call on the stream that must not fail. -/
def orThrow (call : Stream → Answer) (message : Str) : FileProg Unit := do
  match ← onStream call with
  | .error errno => throw (.KSystemError message errno)
  | .ok () => pure ()

@[simp] theorem wp_orThrow {call : Stream → Answer} {message : Str} {Q : Unit → FileState → Prop}
    {E : Thrown → FileState → Prop} {s : FileState} :
    wp (orThrow call message) Q E s ↔ match (call s.fp).1 with
      | .ok () => Q () { s with fp := (call s.fp).2 }
      | .error errno => E (.KSystemError message errno) { s with fp := (call s.fp).2 } := by
  unfold orThrow
  rw [wp_bind, wp_onStream]
  cases (call s.fp).1 <;> rfl

namespace FileTransfer

variable (self : FileTransfer)

def «open» (target_file : Str) : FileProg Unit :=
  match self.io.fopen with
  | .error errno => throw (.KSystemError (str "Error in fopen for " ++ target_file) errno)
  | .ok () => modify fun s => { s with fp := .opened, prepared := false }

/-- What `fclose` returns is not looked at. -/
def close : FileProg Unit := do
  let _ ← onStream (fclose self.io)

/-- Zero blocks of the size of the buffer become holes. -/
def isHole (chunk : ByteVector) : Prop :=
  self.noSparse = false ∧ chunk.length = self.m_bufferSize ∧ isZero chunk = true

instance (chunk : ByteVector) : Decidable (self.isHole chunk) := by
  unfold isHole
  infer_instance

/-- The body of the loop behind `getData`; the result is `last_was_sparse`. -/
def saveChunk (chunk : ByteVector) : FileProg Bool := do
  if self.isHole chunk then
    orThrow (fseek self.io self.m_bufferSize) (str "FileTransfer::perform: fseek() failed.")
    pure true
  else
    match ← onStream (fwrite self.io chunk) with
    | .error (ret, errno) =>
        throw (.KSystemError (str "FileTransfer::perform: fwrite() failed with " ++ decimal ret ++
          str ".") errno)
    | .ok () => pure false

/-- The loop, by recursion on what the provider has left. -/
def pipeLoop : List (Except Thrown ByteVector) → Bool → FileProg Bool
  | [], last_was_sparse => do
      let _ ← callGetData self.m_bufferSize (.ok [])
      pure last_was_sparse
  | answer :: data, last_was_sparse => do
      let chunk ← callGetData self.m_bufferSize answer
      if chunk = [] then
        pure last_was_sparse
      else
        let last_was_sparse ← self.saveChunk chunk
        pipeLoop data last_was_sparse

/-- Give a file that ends in a hole its length. -/
def setLength : FileProg Unit := do
  let old_offset := ftell (← get).fp
  orThrow (fputc self.io 0) (str "Unable to write.")
  modify fun s => { s with fp := rewind self.io s.fp }
  orThrow (ftruncate self.io old_offset) (str "Unable to set the file position.")

/-- What stands inside the `try`. -/
def pipeBody (provider : DataProvider) : FileProg Unit := do
  provider.callPrepare
  modify fun s => { s with prepared := true }
  let last_was_sparse ← self.pipeLoop provider.data false
  if last_was_sparse = true then
    self.setLength

/-- The handler: close, and finish the provider if it was prepared. -/
def pipeHandler (provider : DataProvider) (e : Thrown) : FileProg Unit := do
  self.close
  if (← get).prepared = true then
    provider.callFinish
  throw e

/-- `FileTransfer::performPipe`; only the first target is used. -/
def performPipe (provider : DataProvider) (target_files : List Str) : FileProg Unit := do
  self.open (target_files.headD [])
  tryCatch (self.pipeBody provider) (self.pipeHandler provider)
  self.close
  provider.callFinish

def performFile (provider : DataProvider) (target_files : List Str) : FileProg Unit :=
  ofExcept (provider.saveToFile target_files)

/-- The targets are spread over the URLs. -/
def fullTargets (target_files : List Str) : List Str :=
  target_files.mapIdx fun i target =>
    appendPath (self.urls.getD (i % self.urls.length) []) target

/-- `FileTransfer::perform`; the result is what it stores in `*directSave`. -/
def perform (provider : DataProvider) (target_files : List Str) : FileProg Bool := do
  if provider.canSaveToFile = true then
    performFile provider (self.fullTargets target_files)
    pure true
  else
    self.performPipe provider (self.fullTargets target_files)
    pure false

/-- A normal return means that `finish` has returned. -/
theorem returnsOnlyIf_performPipe (provider : DataProvider) (target_files : List Str) :
    ReturnsOnlyIf (self.performPipe provider target_files) (provider.finish = .ok ()) :=
  .bind_right fun _ => .bind_right fun _ => .bind_right fun _ =>
    returnsOnlyIf_callFinish provider

end FileTransfer

end Transfer
end Kdump

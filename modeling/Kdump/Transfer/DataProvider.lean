import Kdump.Lib.Wp
import Kdump.Process.WaitStatus

/-!
# DataProvider — where a transfer gets its data from

A transfer calls `prepare()`, then `getData()` until it returns nothing, then `finish()`.

* `DataProvider` — the answers of a provider to these calls, in order;
* `Call` — one call with its answer, as a transfer records it in its state (`Observed`);
* `ProcessDataProvider` — the provider that reads the output of a process.

The progress bar of the providers is not part of the model.
-/

namespace Kdump
namespace Transfer

open Lib Process

/-! ## Providers -/

/-- A provider, given by its answers. -/
structure DataProvider where
  prepare : Except Thrown Unit
  /-- the answers of `getData`; behind the last one is the end of the data -/
  data : List (Except Thrown ByteVector)
  finish : Except Thrown Unit
  canSaveToFile : Bool := false
  saveToFile : List Str → Except Thrown Unit := fun _ =>
    .error (.KError (str "That DataProvider cannot save to a file."))

/-- What `getData` returns before the end of the data is not empty. -/
abbrev Chunk := { c : ByteVector // c ≠ [] }

def contents (chunks : List Chunk) : ByteVector :=
  chunks.flatMap Subtype.val

/-- A provider that delivers some chunks of data without any failure. -/
def DataProvider.ofChunks (chunks : List Chunk) : DataProvider where
  prepare := .ok ()
  data := chunks.map fun c => .ok c.1
  finish := .ok ()

/-- The provider delivers the chunks, and nothing fails. -/
structure DataProvider.Delivers (provider : DataProvider) (chunks : List Chunk) : Prop where
  prepare : provider.prepare = .ok ()
  data : provider.data = chunks.map fun c => .ok c.1
  finish : provider.finish = .ok ()

theorem DataProvider.Delivers.ofChunks (chunks : List Chunk) :
    (DataProvider.ofChunks chunks).Delivers chunks :=
  ⟨rfl, rfl, rfl⟩

/-- A call of a provider, with its answer; `size` is the size of the buffer offered. -/
inductive Call where
  | prepare (answer : Except Thrown Unit)
  | getData (size : Nat) (answer : Except Thrown ByteVector)
  | finish (answer : Except Thrown Unit)
  deriving DecidableEq

/-- The answer is an exception. -/
def Call.Failed : Call → Prop
  | .prepare (.error _) => True
  | .getData _ (.error _) => True
  | .finish (.error _) => True
  | _ => False

/-! ## Calling a provider -/

/-- States in which the calls of the provider are recorded. -/
class Observed (σ : Type) where
  record : Call → σ → σ

section Calling

variable {σ : Type} [Observed σ]

def DataProvider.callPrepare (provider : DataProvider) : EStateM Thrown σ Unit := do
  modify (Observed.record (.prepare provider.prepare))
  ofExcept provider.prepare

def callGetData (size : Nat) (answer : Except Thrown ByteVector) :
    EStateM Thrown σ ByteVector := do
  modify (Observed.record (.getData size answer))
  ofExcept answer

def DataProvider.callFinish (provider : DataProvider) : EStateM Thrown σ Unit := do
  modify (Observed.record (.finish provider.finish))
  ofExcept provider.finish

variable {provider : DataProvider} {s : σ} {E : Thrown → σ → Prop}

@[simp] theorem wp_callPrepare {Q : Unit → σ → Prop} :
    wp provider.callPrepare Q E s ↔ match provider.prepare with
      | .ok () => Q () (Observed.record (.prepare (.ok ())) s)
      | .error e => E e (Observed.record (.prepare (.error e)) s) := by
  unfold DataProvider.callPrepare
  cases h : provider.prepare <;> simp

@[simp] theorem wp_callGetData {Q : ByteVector → σ → Prop} {size : Nat}
    {answer : Except Thrown ByteVector} :
    wp (callGetData size answer) Q E s ↔ match answer with
      | .ok chunk => Q chunk (Observed.record (.getData size (.ok chunk)) s)
      | .error e => E e (Observed.record (.getData size (.error e)) s) := by
  unfold callGetData
  cases answer <;> simp

@[simp] theorem wp_callFinish {Q : Unit → σ → Prop} :
    wp provider.callFinish Q E s ↔ match provider.finish with
      | .ok () => Q () (Observed.record (.finish (.ok ())) s)
      | .error e => E e (Observed.record (.finish (.error e)) s) := by
  unfold DataProvider.callFinish
  cases h : provider.finish <;> simp

theorem returnsOnlyIf_callFinish (provider : DataProvider) :
    ReturnsOnlyIf (provider.callFinish : EStateM Thrown σ Unit) (provider.finish = .ok ()) := by
  refine .of_wp fun s => ?_
  rw [wp_callFinish]
  cases provider.finish with
  | ok _ => exact rfl
  | error e => trivial

end Calling

/-! ## The output of a process -/

/-- A `ProcessDataProvider`, with what the system answers to it. -/
structure ProcessDataProvider where
  m_pipeCmdline : Str
  m_directCmdline : Str
  /-- `popen` fails with this `errno` -/
  popen : Except Errno Unit
  /-- what each `fread` reads, and the `errno` it leaves behind -/
  fread : List (ByteVector × Errno)
  /-- how the process ends that `pclose` waits for -/
  pclose : Termination
  /-- how a command ends that `system` runs -/
  system : Str → Termination

namespace ProcessDataProvider

def prepare (self : ProcessDataProvider) : Except Thrown Unit :=
  match self.popen with
  | .ok () => .ok ()
  | .error errno =>
      .error (.KSystemError (str "Could not start process " ++ self.m_pipeCmdline) errno)

/-- `m_processFile` is null before `prepare` and after `finish`. -/
def getData (self : ProcessDataProvider) (m_processFile : Bool) (read : ByteVector × Errno) :
    Except Thrown ByteVector :=
  if m_processFile = false then
    .error (.KError (str "Process " ++ self.m_pipeCmdline ++ str " not started."))
  else if read.1 = [] ∧ read.2 ≠ 0 then
    .error (.KSystemError (str "Error reading from " ++ self.m_pipeCmdline) read.2)
  else
    .ok read.1

def finish (self : ProcessDataProvider) : Except Thrown Unit :=
  let err := self.pclose.status
  if WEXITSTATUS err ≠ 0 then
    .error (.KError (self.m_pipeCmdline ++ str " failed (" ++ decimal (WEXITSTATUS err) ++
      str ")."))
  else
    .ok ()

/-- The targets are appended to the command line, a space in front of each. -/
def saveToFile (self : ProcessDataProvider) (targets : List Str) : Except Thrown Unit :=
  let cmdline := self.m_directCmdline ++ targets.flatMap (space :: ·)
  let err := (self.system cmdline).status
  if WEXITSTATUS err ≠ 0 then
    .error (.KError (str "Running " ++ self.m_directCmdline ++ str " failed (" ++
      decimal (WEXITSTATUS err) ++ str ")."))
  else
    .ok ()

/-- The provider as the transfers see it; they read between `prepare` and `finish`. -/
def provider (self : ProcessDataProvider) : DataProvider where
  prepare := self.prepare
  data := self.fread.map (self.getData true)
  finish := self.finish
  canSaveToFile := true
  saveToFile := self.saveToFile

/-- A process that writes some chunks of data, and then ends in a way that `finish` accepts. -/
theorem delivers {self : ProcessDataProvider} {chunks : List Chunk} (hpopen : self.popen = .ok ())
    (hfread : self.fread = chunks.map fun c => (c.1, 0)) (hfinish : self.finish = .ok ()) :
    self.provider.Delivers chunks := by
  refine ⟨?_, ?_, hfinish⟩
  · unfold provider prepare
    rw [hpopen]
  · unfold provider
    dsimp only
    rw [hfread, List.map_map]
    refine List.map_congr_left fun c _ => ?_
    have hread : ¬ (c.1 = [] ∧ (0 : Errno) ≠ 0) := fun h => h.2 rfl
    exact if_neg hread

theorem finish_eq_ok (self : ProcessDataProvider) :
    self.finish = .ok () ↔ self.pclose = .success ∨ self.pclose.IsSignaled := by
  rw [← WEXITSTATUS_status]
  unfold finish
  simp

theorem saveToFile_eq_ok (self : ProcessDataProvider) (targets : List Str) :
    self.saveToFile targets = .ok () ↔
      self.system (self.m_directCmdline ++ targets.flatMap (space :: ·)) = .success ∨
        (self.system (self.m_directCmdline ++ targets.flatMap (space :: ·))).IsSignaled := by
  rw [← WEXITSTATUS_status]
  unfold saveToFile
  simp

end ProcessDataProvider

end Transfer
end Kdump

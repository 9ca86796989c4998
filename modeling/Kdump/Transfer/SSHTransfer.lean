import Kdump.Path.FilePath
import Kdump.Transfer.DataProvider
import Kdump.Transfer.Descriptor

/-!
# SSHTransfer — saving through `ssh .. dd`

`SSHTransfer::perform` starts `ssh`, writes the data to its standard input and waits for it.
-/

namespace Kdump
namespace Transfer

open Lib Kdump.Path Process

/-- The object, with its environment. -/
structure SSHTransfer where
  username : Str
  hostname : Str
  /-- the port of the target, unless it is -1 -/
  port : Option Nat
  /-- the path of the target -/
  path : Str
  /-- `SubProcess::spawn("ssh", args)` -/
  spawn : List Str → Except Thrown Unit
  /-- `SubProcess::wait()` -/
  wait : Except Thrown Nat

/-- The state of `perform`. -/
structure SSHState where
  prepared : Bool
  /-- the answers of the pipe, and the bytes written to it -/
  answers : List WriteAnswer
  sent : ByteVector
  calls : List Call

instance : Observed SSHState where
  record call s := { s with calls := s.calls ++ [call] }

abbrev SSHProg := EStateM Thrown SSHState

namespace SSHTransfer

variable (self : SSHTransfer)

def makeArgs (remote : Str) : List Str :=
  [str "-F", str "/kdump/.ssh/config", str "-l", self.username] ++
    (match self.port with
      | some port => [str "-p", decimal port]
      | none => []) ++
    [self.hostname, remote]

/-- The remote shell moves the file into place when it is complete. -/
def remoteCommand (fp : Str) : Str :=
  str "dd of=" ++ fp ++ str "-incomplete" ++ str " && mv " ++ fp ++ str "-incomplete " ++ fp

/-- The inner loop, which writes a chunk to the pipe. -/
def writeChunk (chunk : ByteVector) : SSHProg Unit := do
  let s ← get
  let w := writeFully s.answers chunk
  set { s with answers := w.answers, sent := s.sent ++ w.taken }
  match w.result with
  | .error errno => throw (.KSystemError (str "SSHTransfer::perform: write failed") errno)
  | .ok () => pure ()

/-- The outer loop, by recursion on what the provider has left. -/
def sendLoop : List (Except Thrown ByteVector) → SSHProg Unit
  | [] => do
      let _ ← callGetData BUFSIZ (.ok [])
  | answer :: data => do
      let chunk ← callGetData BUFSIZ answer
      if chunk = [] then
        pure ()
      else
        writeChunk chunk
        sendLoop data

def sendBody (provider : DataProvider) : SSHProg Unit := do
  provider.callPrepare
  modify fun s => { s with prepared := true }
  sendLoop provider.data

def sendHandler (provider : DataProvider) (e : Thrown) : SSHProg Unit := do
  if (← get).prepared = true then
    provider.callFinish
  throw e

/-- `SSHTransfer::perform`; the result is what it stores in `*directSave`. -/
def perform (provider : DataProvider) (target_files : List Str) : SSHProg Bool := do
  let fp := appendPath self.path (target_files.headD [])
  ofExcept (self.spawn (self.makeArgs (remoteCommand fp)))
  modify fun s => { s with prepared := false }
  tryCatch (sendBody provider) (sendHandler provider)
  provider.callFinish
  let status ← ofExcept self.wait
  if status ≠ 0 then
    throw (.KError (str "SSHTransfer::perform: ssh command failed with status " ++
      decimal status))
  pure false

/-! ## Runs -/

/-- A normal return means that `finish` has returned. -/
theorem returnsOnlyIf_perform (provider : DataProvider) (target_files : List Str) :
    ReturnsOnlyIf (self.perform provider target_files) (provider.finish = .ok ()) :=
  -- `wait` comes behind it
  .bind_right fun _ => .bind_right fun _ => .bind_right fun _ =>
    .bind_left (returnsOnlyIf_callFinish provider)

theorem wp_writeChunk {s : SSHState} {chunk : ByteVector} (h : NoErrors s.answers) :
    wp (writeChunk chunk) (fun _ s' => NoErrors s'.answers ∧ s'.sent = s.sent ++ chunk)
      (fun _ _ => False) s := by
  have hok := writeFully_ok s.answers chunk h
  unfold writeChunk
  simp only [wp_bind, wp_get, wp_set]
  rw [hok.1]
  exact ⟨hok.2, congrArg (s.sent ++ ·) (writeFully_taken _ _ hok.1)⟩

theorem wp_sendLoop : ∀ (chunks : List Chunk) (s : SSHState), NoErrors s.answers →
    wp (sendLoop (chunks.map fun c => .ok c.1)) (fun _ s' => s'.sent = s.sent ++ contents chunks)
      (fun _ _ => False) s := by
  intro chunks
  induction chunks with
  | nil =>
      intro s _
      simp only [List.map_nil, sendLoop, wp_bind, wp_callGetData, wp_pure]
      exact (List.append_nil _).symm
  | cons c chunks ih =>
      intro s hs
      simp only [List.map_cons, sendLoop, wp_bind, wp_callGetData]
      rw [if_neg c.2, wp_bind]
      refine wp_mono (wp_writeChunk hs) ?_ (fun _ _ h => h)
      rintro _ s₁ ⟨hs₁, hsent⟩
      refine wp_mono (ih s₁ hs₁) ?_ (fun _ _ h => h)
      intro _ s₂ hsent'
      rw [hsent', hsent]
      exact List.append_assoc _ _ _

/-- The status of `ssh` is looked at as a whole, and not only its exit code. -/
theorem returnsOnlyIf_ssh_success (provider : DataProvider) (target_files : List Str)
    {t : Termination} (hwait : self.wait = .ok t.status) :
    ReturnsOnlyIf (self.perform provider target_files) (t = .success) := by
  refine .bind_right fun _ => .bind_right fun _ => .bind_right fun _ => .bind_right fun _ => ?_
  rw [hwait]
  refine .of_wp fun s => ?_
  simp only [wp_bind, wp_ofExcept]
  by_cases hzero : t.status = 0
  · rw [if_neg (not_not.2 hzero)]
    exact (status_eq_zero t).1 hzero
  · rw [if_pos hzero]
    trivial

/-- If nothing fails, all the data is sent. -/
theorem perform_sends {provider : DataProvider} {chunks : List Chunk}
    (hp : provider.Delivers chunks) (hspawn : ∀ args, self.spawn args = .ok ())
    (hwait : self.wait = .ok 0) (target_files : List Str) {s : SSHState} (hs : NoErrors s.answers) :
    ∃ s', self.perform provider target_files s = .ok false s' ∧
      s'.sent = s.sent ++ contents chunks := by
  have hwp : wp (self.perform provider target_files)
      (fun direct s' => direct = false ∧ s'.sent = s.sent ++ contents chunks)
      (fun _ _ => False) s := by
    unfold perform sendBody
    simp only [wp_bind, wp_ofExcept, hspawn, wp_modify, wp_tryCatch, wp_callPrepare, hp.prepare,
      hp.data]
    refine wp_mono (wp_sendLoop chunks _ ?_) ?_ (fun _ _ h => h.elim)
    · exact hs
    · intro _ s₁ hsent
      simp only [wp_callFinish, hp.finish, hwait]
      exact ⟨rfl, hsent⟩
  cases hrun : self.perform provider target_files s with
  | error e s' => exact (wp_error hwp hrun).elim
  | ok direct s' =>
      rcases wp_ok hwp hrun with ⟨rfl, hsent⟩
      exact ⟨s', rfl, hsent⟩

end SSHTransfer

end Transfer
end Kdump

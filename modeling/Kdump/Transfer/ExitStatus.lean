import Kdump.Process.ProcessFilter
import Kdump.Sftp.SFTPTransfer
import Kdump.Transfer.SavedFile
import Kdump.Transfer.SSHTransfer

/-!
# ExitStatus — what becomes of the wait status of a process

`finish` and `saveToFile` of a `ProcessDataProvider` and `ProcessFilter::execute` look at
`WEXITSTATUS` of a wait status, without asking `WIFEXITED` first.  Every transfer hands on what
`finish` says, so that an exit code other than 0 is never taken for success; death by a signal
always can be.
-/

namespace Kdump
namespace Transfer

open Lib Kdump.Path Process

/-! ## A process and a place for its data -/

/-- A process that writes a byte and then ends like that. -/
def oneByteProcess (t : Termination) : ProcessDataProvider where
  m_pipeCmdline := str "makedumpfile"
  m_directCmdline := str "makedumpfile"
  popen := .ok ()
  fread := [([65], 0)]
  pclose := t
  system _ := t

def oneByte : List Chunk :=
  [⟨[65], by decide⟩]

theorem oneByteProcess_delivers {t : Termination} (h : t.IsSignaled) :
    (oneByteProcess t).provider.Delivers oneByte :=
  ProcessDataProvider.delivers rfl rfl
    ((ProcessDataProvider.finish_eq_ok (oneByteProcess t)).2 (Or.inr h))

/-- A file system on which nothing goes wrong. -/
def healthyFile : FileTransfer where
  urls := []
  m_bufferSize := BUFSIZ
  noSparse := false
  io :=
    { fopen := .ok ()
      spill := fun _ _ => 0
      device := fun _ => none
      lseek := fun _ => .ok ()
      ftruncate := .ok ()
      count := fun _ => 0 }

/-- A remote host on which nothing goes wrong. -/
def healthyHost : SSHTransfer where
  username := str "root"
  hostname := str "host"
  port := none
  path := str "/dump"
  spawn _ := .ok ()
  wait := .ok 0

/-- A server that grants one file, one write and its closing. -/
def healthyServer : Sftp.SFTPState where
  m_lastid := 0
  answers := []
  sent := []
  incoming :=
    [[0, 0, 0, 10, Sftp.SSH_FXP_HANDLE] ++ Sftp.bigEndian 4 1 ++ Sftp.bigEndian 4 1 ++ [104],
      [0, 0, 0, 9, Sftp.SSH_FXP_STATUS] ++ Sftp.bigEndian 4 2 ++ Sftp.bigEndian 4 Sftp.SSH_FX_OK,
      [0, 0, 0, 9, Sftp.SSH_FXP_STATUS] ++ Sftp.bigEndian 4 3 ++
        Sftp.bigEndian 4 Sftp.SSH_FX_OK].map .ok
  trace := []

/-- A system that starts a process and reports how it has ended. -/
def healthySystem (t : Termination) : System where
  pipe2 _ := .ok (3, 4)
  fork := .ok 2
  waitpid pid := .ok (pid, t.status)

/-! ## Death by a signal -/

theorem performPipe_of_signaled {t : Termination} (h : t.IsSignaled) (s : FileState) :
    Returns (healthyFile.performPipe (oneByteProcess t).provider [] s) := by
  have hio : healthyFile.io.NoErrors := ⟨rfl, fun _ => rfl, fun _ => rfl, rfl⟩
  rcases performPipe_data healthyFile hio (oneByteProcess_delivers h) [] s with ⟨s', hrun, _⟩
  rw [hrun]
  exact .ok _ s'

theorem sshPerform_of_signaled {t : Termination} (h : t.IsSignaled) {s : SSHState}
    (hs : NoErrors s.answers) :
    Returns (healthyHost.perform (oneByteProcess t).provider [] s) := by
  rcases SSHTransfer.perform_sends healthyHost (oneByteProcess_delivers h) (fun _ => rfl) rfl [] hs
    with ⟨s', hrun, _⟩
  rw [hrun]
  exact .ok _ s'

theorem sftpPerform_of_signaled {t : Termination} (h : t.IsSignaled) :
    Returns (Sftp.perform (str "/dump") (oneByteProcess t).provider [] healthyServer) := by
  have hp := oneByteProcess_delivers h
  have hchunks := DataProvider.Delivers.ofChunks oneByte
  -- the run is that of a provider without a process
  rw [Sftp.perform_congr (hp.prepare.trans hchunks.prepare.symm) (hp.data.trans hchunks.data.symm)
    (hp.finish.trans hchunks.finish.symm)]
  decide +kernel

/-- A filter for the standard output. -/
def oneOutput : IOMap :=
  [(1, .output ⟨⟨.childToParent, none, none⟩, [], 0, [.ok [65]]⟩)]

def oneBytePolls : List PollAnswer :=
  [.ok [{ POLLIN := true }], .error EINTR, .ok [{ POLLHUP := true }]]

theorem execute_of_signaled {t : Termination} (h : t.IsSignaled) :
    ProcessFilter.execute (healthySystem t) oneBytePolls oneOutput = .ok 0 := by
  have hloop : (ProcessFilter.ioLoop (ProcessFilter.started oneOutput
      [(1, ⟨.childToParent, some 3, none⟩)] oneBytePolls)).1 = .ok () := by
    decide +kernel
  have hstatus := (WEXITSTATUS_status t).2 (Or.inr h)
  change ((ProcessFilter.ioLoop (ProcessFilter.started oneOutput
      [(1, ⟨.childToParent, some 3, none⟩)] oneBytePolls)).1 >>= _) = _
  rw [hloop]
  change Except.ok (UInt8.ofNat (WEXITSTATUS t.status)) = _
  rw [hstatus]
  rfl

/-! ## Success only after success -/

theorem success_of_not_signaled {t : Termination} (h : t = .success ∨ t.IsSignaled)
    (hexited : ¬ t.IsSignaled) : t = .success :=
  h.resolve_right hexited

theorem not_success_of_signaled {t : Termination} (h : t.IsSignaled) : t ≠ .success := by
  rintro rfl
  exact h

/-- A transfer whose normal return needs that of `finish`. -/
theorem success_of_finish {self : ProcessDataProvider} {t : Termination} (ht : self.pclose = t)
    (hexited : ¬ t.IsSignaled) (hfinish : self.provider.finish = .ok ()) : t = .success :=
  success_of_not_signaled (ht ▸ (ProcessDataProvider.finish_eq_ok self).1 hfinish) hexited

theorem saveToFile_iff (t : Termination) :
    (∀ (self : ProcessDataProvider) (targets : List Str),
      self.system (self.m_directCmdline ++ targets.flatMap (space :: ·)) = t →
        self.saveToFile targets = .ok () → t = .success) ↔ ¬ t.IsSignaled := by
  constructor
  · intro h hsignaled
    have hok := (ProcessDataProvider.saveToFile_eq_ok (oneByteProcess t) []).2 (Or.inr hsignaled)
    exact not_success_of_signaled hsignaled (h (oneByteProcess t) [] rfl hok)
  · intro hexited self targets ht hok
    have hends := (ProcessDataProvider.saveToFile_eq_ok self targets).1 hok
    rw [ht] at hends
    exact success_of_not_signaled hends hexited

theorem performPipe_iff (t : Termination) :
    (∀ (transfer : FileTransfer) (self : ProcessDataProvider) (targets : List Str)
      (s : FileState), self.pclose = t →
        Returns (transfer.performPipe self.provider targets s) → t = .success) ↔
      ¬ t.IsSignaled := by
  constructor
  · intro h hsignaled
    exact not_success_of_signaled hsignaled
      (h _ _ _ ⟨.opened, false, []⟩ rfl (performPipe_of_signaled hsignaled _))
  · intro hexited transfer self targets s ht hreturns
    exact success_of_finish ht hexited
      (transfer.returnsOnlyIf_performPipe self.provider targets s hreturns)

theorem sshPerform_iff (t : Termination) :
    (∀ (transfer : SSHTransfer) (self : ProcessDataProvider) (targets : List Str)
      (s : SSHState), self.pclose = t →
        Returns (transfer.perform self.provider targets s) → t = .success) ↔
      ¬ t.IsSignaled := by
  constructor
  · intro h hsignaled
    have hanswers : NoErrors [] := fun _ => List.not_mem_nil
    exact not_success_of_signaled hsignaled
      (h _ _ _ ⟨false, [], [], []⟩ rfl (sshPerform_of_signaled hsignaled hanswers))
  · intro hexited transfer self targets s ht hreturns
    exact success_of_finish ht hexited
      (transfer.returnsOnlyIf_perform self.provider targets s hreturns)

theorem sftpPerform_iff (t : Termination) :
    (∀ (path : Str) (self : ProcessDataProvider) (targets : List Str) (s : Sftp.SFTPState),
      self.pclose = t → Returns (Sftp.perform path self.provider targets s) → t = .success) ↔
      ¬ t.IsSignaled := by
  constructor
  · intro h hsignaled
    exact not_success_of_signaled hsignaled
      (h _ _ _ healthyServer rfl (sftpPerform_of_signaled hsignaled))
  · intro hexited path self targets s ht hreturns
    exact success_of_finish ht hexited
      (Sftp.returnsOnlyIf_perform path self.provider targets s hreturns)

theorem execute_iff (t : Termination) :
    (∀ (sys : System) (polls : List PollAnswer) (m_iomap : IOMap), sys.Reaps t →
      ProcessFilter.execute sys polls m_iomap = .ok 0 → t = .success) ↔ ¬ t.IsSignaled := by
  constructor
  · intro h hsignaled
    exact not_success_of_signaled hsignaled
      (h (healthySystem t) _ _ (fun _ => rfl) (execute_of_signaled hsignaled))
  · intro hexited sys polls m_iomap hreaps hzero
    have hstatus : WEXITSTATUS t.status = 0 := (ProcessFilter.execute_eq_ok hreaps hzero).symm
    exact success_of_not_signaled ((WEXITSTATUS_status t).1 hstatus) hexited

/-- Whatever the data and whatever else happens, success is reported only for a process that has
exited with code 0: this holds of every function if and only if the process was not killed by a
signal. -/
theorem success_only_on_success_iff (t : Termination) :
    ((∀ (self : ProcessDataProvider) (targets : List Str),
        self.system (self.m_directCmdline ++ targets.flatMap (space :: ·)) = t →
          self.saveToFile targets = .ok () → t = .success) ↔ ¬ t.IsSignaled) ∧
      ((∀ (transfer : FileTransfer) (self : ProcessDataProvider) (targets : List Str)
        (s : FileState), self.pclose = t →
          Returns (transfer.performPipe self.provider targets s) → t = .success) ↔
        ¬ t.IsSignaled) ∧
      ((∀ (transfer : SSHTransfer) (self : ProcessDataProvider) (targets : List Str)
        (s : SSHState), self.pclose = t →
          Returns (transfer.perform self.provider targets s) → t = .success) ↔
        ¬ t.IsSignaled) ∧
      ((∀ (path : Str) (self : ProcessDataProvider) (targets : List Str) (s : Sftp.SFTPState),
        self.pclose = t → Returns (Sftp.perform path self.provider targets s) → t = .success) ↔
        ¬ t.IsSignaled) ∧
      ((∀ (sys : System) (polls : List PollAnswer) (m_iomap : IOMap), sys.Reaps t →
        ProcessFilter.execute sys polls m_iomap = .ok 0 → t = .success) ↔ ¬ t.IsSignaled) :=
  ⟨saveToFile_iff t, performPipe_iff t, sshPerform_iff t, sftpPerform_iff t, execute_iff t⟩

/-- A process is killed by `SIGKILL` after its first byte, and that byte is saved as a complete
dump. -/
theorem performPipe_after_kill :
    ¬ ∀ (transfer : FileTransfer) (self : ProcessDataProvider) (targets : List Str)
      (s : FileState), Returns (transfer.performPipe self.provider targets s) →
        self.pclose = .success := by
  intro h
  have hkilled := h healthyFile (oneByteProcess (.signaled ⟨9, by decide⟩ false)) []
    ⟨.opened, false, []⟩ (by decide)
  cases hkilled

end Transfer
end Kdump

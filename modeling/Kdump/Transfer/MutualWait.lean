import Kdump.Process.FilterLoop
import Kdump.Transfer.ExitStatus

/-!
# MutualWait — the pipe to a process that is waited for

Three users of `SubProcess` put a pipe on the standard input of the child: `SSHTransfer::perform`,
`SFTPTransfer` and `ProcessFilter`.  Only the second closes it in any case before it waits for the
child.

* `SSHTransfer.performIn` — `perform` with what becomes of its process;
* `SFTPTransfer.destroy` — the destructor, which closes the pipes first;
* `released_iff` — who has closed the pipe when.
-/

namespace Kdump
namespace Transfer

open Lib Process

/-- `STDIN_FILENO`. -/
def STDIN_FILENO : Nat := 0

def STDOUT_FILENO : Nat := 1

/-! ## SSHTransfer -/

abbrev SSHRun := EStateM Stop (SSHState × Parent)

/-- What is done with the process. -/
def onProcess {α : Type} (p : ParentProg α) : SSHRun α := fun s =>
  match p s.2 with
  | .ok a parent => .ok a (s.1, parent)
  | .error stop parent => .error stop (s.1, parent)

/-- What is done with the data. -/
def onData {α : Type} (p : SSHProg α) : SSHRun α := fun s =>
  match p s.1 with
  | .ok a data => .ok a (data, s.2)
  | .error e data => .error (.thrown e) (data, s.2)

@[simp] theorem wp_onProcess {α : Type} {p : ParentProg α} {Q : α → SSHState × Parent → Prop}
    {E : Stop → SSHState × Parent → Prop} {s : SSHState × Parent} :
    wp (onProcess p) Q E s ↔
      wp p (fun a parent => Q a (s.1, parent)) (fun stop parent => E stop (s.1, parent)) s.2 := by
  unfold wp onProcess
  cases p s.2 <;> rfl

@[simp] theorem wp_onData {α : Type} {p : SSHProg α} {Q : α → SSHState × Parent → Prop}
    {E : Stop → SSHState × Parent → Prop} {s : SSHState × Parent} :
    wp (onData p) Q E s ↔
      wp p (fun a data => Q a (data, s.2)) (fun e data => E (.thrown e) (data, s.2)) s.1 := by
  unfold wp onData
  cases p s.1 <;> rfl

/-- A `ParentToChildPipe` for the standard input. -/
def stdinPipe : FdMap :=
  [(STDIN_FILENO, ⟨.parentToChild, none, none⟩)]

namespace SSHTransfer

/-- What `perform` does between `spawn` and `wait`. -/
def transmit (provider : DataProvider) : SSHProg Unit := do
  modify fun s => { s with prepared := false }
  tryCatch (sendBody provider) (sendHandler provider)
  provider.callFinish

/-- Of the variables of `perform`, `pipe` is destroyed before `p`. -/
def leave (sys : System) : ParentProg Unit := do
  modify fun parent => parent.release STDIN_FILENO
  SubProcess.destroy sys

/-- `SSHTransfer::perform`, whatever `ssh` is told to do. -/
def performIn (sys : System) (provider : DataProvider) : SSHRun Bool :=
  scope (onProcess (leave sys)) do
    onProcess (SubProcess.callSpawn sys)
    onData (transmit provider)
    let status ← onProcess (SubProcess.callWait sys false)
    if status ≠ 0 then
      throw (.thrown (.KError (str "SSHTransfer::perform: ssh command failed with status " ++
        decimal status)))
    pure false

/-- The transfer, on that system. -/
def onSystem (self : SSHTransfer) (sys : System) : SSHTransfer :=
  { self with
    spawn := fun _ => (SubProcess.spawn sys stdinPipe).map fun _ => ()
    wait := do
      let child ← SubProcess.spawn sys stdinPipe
      SubProcess.wait sys child.1 }

end SSHTransfer

namespace SFTPTransfer

/-- `~SFTPTransfer`, and then the destructors of `m_resp`, `m_req` and `m_process`. -/
def destroy (sys : System) : ParentProg Unit := do
  if (← get).m_pid.isSome = true then
    modify fun s => { s with m_fdmap := closePipe STDIN_FILENO s.m_fdmap }
    modify fun s => { s with m_fdmap := closePipe STDOUT_FILENO s.m_fdmap }
    let status ← SubProcess.callWait sys false
    if status ≠ 0 then
      throw (.thrown (.KError (str "SFTPTransfer::~SFTPTransfer: ssh command failed" ++
        str " with status " ++ decimal status)))
  modify fun s => (s.release STDOUT_FILENO).release STDIN_FILENO
  SubProcess.destroy sys

end SFTPTransfer

/-! ## Calls of `wait` -/

section Waits

variable {sys : System}

theorem holds_of_spawned {m_fdmap : FdMap}
    (h : List.Forall₂ SubProcess.SpawnedPipe stdinPipe m_fdmap) :
    HoldsPipe STDIN_FILENO m_fdmap := by
  cases h with
  | cons hpipe hrest =>
      rcases hpipe with ⟨hfd, readEnd, writeEnd, heq⟩
      refine ⟨_, List.mem_cons_self, hfd, ?_⟩
      rw [heq]
      exact ⟨rfl, Option.some_ne_none writeEnd⟩

namespace SSHTransfer

/-- The local `pipe` is not the last `shared_ptr`, and a child that is still there is waited for
with the pipe open. -/
theorem wp_leave {parent : Parent} (hpid : parent.m_pid ≠ none)
    (howners : parent.owners STDIN_FILENO ≠ 1) :
    wp (leave sys) (fun _ parent' => parent'.waits = parent.waits ++ [⟨true, parent.m_fdmap⟩])
      (fun _ parent' => parent'.waits = parent.waits ++ [⟨true, parent.m_fdmap⟩]) parent := by
  unfold leave
  rw [wp_bind, wp_modify]
  have hrelease : (parent.release STDIN_FILENO).m_fdmap = parent.m_fdmap := if_neg howners
  have hdestroy := @SubProcess.wp_destroy_some sys (parent.release STDIN_FILENO) hpid
  rw [hrelease] at hdestroy
  exact hdestroy

theorem wp_leave_none {parent : Parent} (hpid : parent.m_pid = none) :
    wp (leave sys) (fun _ parent' => parent'.waits = parent.waits) (fun _ _ => False) parent := by
  unfold leave
  rw [wp_bind, wp_modify]
  exact SubProcess.wp_destroy_none hpid

/-- Whatever happens behind `spawn`, the child is waited for with the pipe open. -/
theorem sees_performIn {child : Nat × FdMap}
    (hspawn : SubProcess.spawn sys stdinPipe = .ok child) (provider : DataProvider)
    (s : SSHState) :
    Sees child.2 (endState (performIn sys provider (s, .ofPipes stdinPipe))).2.waits := by
  refine (wp_endState (I := fun s : SSHState × Parent => Sees child.2 s.2.waits)).1 ?_
  unfold performIn
  rw [wp_scope, wp_bind, wp_onProcess]
  refine wp_mono (SubProcess.wp_callSpawn_ok hspawn) ?_ (fun _ _ h => h.elim)
  rintro _ _ rfl
  rw [wp_bind, wp_onData]
  have hfirst : Sees child.2 ([] ++ [⟨false, child.2⟩]) := .single false child.2
  -- there are the local variable and the `SubProcess`
  have howners : 2 ≠ 1 := by decide
  refine wp_intro ?_ ?_
  · intro _ data _
    simp only [wp_bind, wp_onProcess]
    refine wp_mono (SubProcess.wp_callWait rfl false) ?_ ?_
    · rintro status _ ⟨_, rfl⟩
      have hgone : ∀ parent : Parent, parent.waits = _ → Sees child.2 parent.waits :=
        fun parent h => h ▸ hfirst
      by_cases hstatus : status ≠ 0
      · rw [if_pos hstatus, wp_bind, wp_throw, if_neg (Stop.thrown_ne_blocked _)]
        exact wp_mono (wp_leave_none rfl) (fun _ => hgone) (fun _ _ h => h.elim)
      · rw [if_neg hstatus, wp_pure]
        exact wp_mono (wp_leave_none rfl) (fun _ => hgone) (fun _ _ h => h.elim)
    · rintro stop _ ⟨_, rfl⟩
      split_ifs
      · exact hfirst
      · have hagain : ∀ parent : Parent, parent.waits = _ → Sees child.2 parent.waits :=
          fun parent h => h ▸ .append hfirst.same true
        exact wp_mono (wp_leave (Option.some_ne_none _) howners) (fun _ => hagain)
          (fun _ => hagain)
  · intro e data _
    rw [if_neg (Stop.thrown_ne_blocked _)]
    have hsees : ∀ parent : Parent, parent.waits = _ → Sees child.2 parent.waits :=
      fun parent h => h ▸ .single true child.2
    rw [wp_onProcess]
    exact wp_mono (wp_leave (Option.some_ne_none _) howners) (fun _ => hsees)
      (fun _ => hsees)

theorem performIn_not_spawned {e : Thrown} (hspawn : SubProcess.spawn sys stdinPipe = .error e)
    (provider : DataProvider) (s : SSHState) :
    (endState (performIn sys provider (s, .ofPipes stdinPipe))).2.waits = [] := by
  refine (wp_endState (I := fun s : SSHState × Parent => s.2.waits = [])).1 ?_
  unfold performIn
  rw [wp_scope, wp_bind, wp_onProcess]
  refine wp_mono (SubProcess.wp_callSpawn_error hspawn) (fun _ _ h => h.elim) ?_
  rintro _ _ ⟨rfl, rfl⟩
  rw [if_neg (Stop.thrown_ne_blocked _), wp_onProcess]
  exact wp_mono (wp_leave_none rfl) (fun _ _ h => h) (fun _ _ h => h.elim)

/-- `perform` never closes the pipe before it waits. -/
theorem released_performIn_iff (sys : System) (provider : DataProvider) (s : SSHState) :
    Released STDIN_FILENO (endState (performIn sys provider (s, .ofPipes stdinPipe))).2.waits ↔
      SubProcess.CannotSpawn sys stdinPipe := by
  cases hspawn : SubProcess.spawn sys stdinPipe with
  | error e =>
      rw [performIn_not_spawned hspawn]
      exact iff_of_true nofun (SubProcess.spawn_error hspawn)
  | ok child =>
      rcases SubProcess.spawn_ok hspawn with ⟨hcan, hspawned⟩
      refine iff_of_false ?_ hcan
      rw [(sees_performIn hspawn provider s).released]
      exact not_not.2 (holds_of_spawned hspawned)

/-- What `perform` makes of the answer of `wait`. -/
def conclude (status : Except Thrown Nat) : SSHProg Bool := do
  let status ← ofExcept status
  if status ≠ 0 then
    throw (.KError (str "SSHTransfer::perform: ssh command failed with status " ++
      decimal status))
  pure false

theorem conclude_nonzero {status : Nat} (h : status ≠ 0) (data : SSHState) :
    ∃ e, conclude (.ok status) data = .error e data := by
  have hstatus : (ofExcept (.ok status) : SSHProg Nat) data = .ok status data := rfl
  unfold conclude
  rw [bind_ok hstatus, if_pos h]
  exact ⟨_, rfl⟩

theorem conclude_zero (data : SSHState) : conclude (.ok 0) data = .ok false data := rfl

theorem conclude_error (e : Thrown) (data : SSHState) :
    conclude (.error e) data = .error e data := rfl

theorem perform_onSystem (self : SSHTransfer) (sys : System) (provider : DataProvider)
    (target_files : List Str) :
    (self.onSystem sys).perform provider target_files = (do
      ofExcept ((SubProcess.spawn sys stdinPipe).map fun _ => ())
      transmit provider
      conclude (do
        let child ← SubProcess.spawn sys stdinPipe
        SubProcess.wait sys child.1)) := by
  unfold perform transmit conclude
  simp only [bind_assoc]
  rfl

theorem perform_not_spawned (self : SSHTransfer) {e : Thrown}
    (hspawn : SubProcess.spawn sys stdinPipe = .error e) (provider : DataProvider)
    (target_files : List Str) (s : SSHState) :
    (self.onSystem sys).perform provider target_files s = .error e s := by
  rw [perform_onSystem, hspawn]
  rfl

theorem perform_spawned (self : SSHTransfer) {child : Nat × FdMap}
    (hspawn : SubProcess.spawn sys stdinPipe = .ok child) (provider : DataProvider)
    (target_files : List Str) (s : SSHState) :
    (self.onSystem sys).perform provider target_files s =
      (transmit provider >>= fun _ => conclude (SubProcess.wait sys child.1)) s := by
  rw [perform_onSystem, hspawn]
  rfl

/-- What becomes of the process makes no difference to the data. -/
theorem wp_performIn (self : SSHTransfer) (sys : System) (provider : DataProvider)
    (target_files : List Str) (s : SSHState) :
    wp (performIn sys provider)
      (fun direct s' => (self.onSystem sys).perform provider target_files s = .ok direct s'.1)
      (fun _ s' => ∃ e, (self.onSystem sys).perform provider target_files s = .error e s'.1)
      (s, .ofPipes stdinPipe) := by
  unfold performIn
  rw [wp_scope, wp_bind, wp_onProcess]
  -- follow the run through the scope: the process is started, fed, and waited for
  cases hspawn : SubProcess.spawn sys stdinPipe with
  | error e =>
      have hperform := self.perform_not_spawned hspawn provider target_files s
      refine wp_mono (SubProcess.wp_callSpawn_error hspawn) (fun _ _ h => h.elim) ?_
      rintro _ parent ⟨rfl, _⟩
      rw [if_neg (Stop.thrown_ne_blocked _), wp_onProcess]
      exact wp_intro (fun _ _ _ => ⟨e, hperform⟩) (fun _ _ _ => ⟨e, hperform⟩)
  | ok child =>
      rw [self.perform_spawned hspawn]
      refine wp_mono (SubProcess.wp_callSpawn_ok hspawn) ?_ (fun _ _ h => h.elim)
      rintro _ _ rfl
      rw [wp_bind, wp_onData]
      refine wp_intro ?_ ?_
      · intro _ data hdata
        rw [bind_ok hdata]
        simp only [wp_bind, wp_onProcess]
        refine wp_mono (SubProcess.wp_callWait rfl false) ?_ ?_
        · rintro status _ ⟨hstatus, rfl⟩
          rw [hstatus]
          by_cases hzero : status ≠ 0
          · have hthrows := conclude_nonzero hzero data
            rw [if_pos hzero, wp_bind, wp_throw, if_neg (Stop.thrown_ne_blocked _)]
            exact wp_intro (fun _ _ _ => hthrows) (fun _ _ _ => hthrows)
          · rw [if_neg hzero, wp_pure, not_not.1 hzero]
            exact wp_mono (wp_leave_none rfl) (fun _ _ _ => conclude_zero data)
              (fun _ _ h => h.elim)
        · -- `wait` fails, and so does the one of the destructor
          rintro stop parent ⟨hfailed, _⟩
          cases hstatus : SubProcess.wait sys child.1 with
          | ok status => exact (hfailed status hstatus).elim
          | error e =>
              have hthrows := conclude_error e data
              split_ifs
              · exact ⟨e, hthrows⟩
              · exact wp_intro (fun _ _ _ => ⟨e, hthrows⟩) (fun _ _ _ => ⟨e, hthrows⟩)
      · -- the data cannot be sent, and the destructor waits
        intro e data hdata
        have hthrows := bind_error (f := fun _ => conclude (SubProcess.wait sys child.1)) hdata
        rw [if_neg (Stop.thrown_ne_blocked _), wp_onProcess]
        exact wp_intro (fun _ _ _ => ⟨e, hthrows⟩) (fun _ _ _ => ⟨e, hthrows⟩)

end SSHTransfer

namespace SFTPTransfer

theorem not_holds_closePipe (fd : Nat) (m_fdmap : FdMap) :
    ¬ HoldsPipe fd (closePipe fd m_fdmap) := by
  rintro ⟨_, hmem, hfd, hfeeds⟩
  rcases List.mem_map.1 hmem with ⟨elem, _, rfl⟩
  split_ifs at hfd hfeeds with heq
  · exact elem.2.not_feeds_close hfeeds
  · exact heq hfd

theorem not_holds_closePipe_of_not {fd : Nat} {m_fdmap : FdMap} (h : ¬ HoldsPipe fd m_fdmap)
    (fd' : Nat) : ¬ HoldsPipe fd (closePipe fd' m_fdmap) := by
  rintro ⟨_, hmem, hfd, hfeeds⟩
  rcases List.mem_map.1 hmem with ⟨elem, helem, rfl⟩
  split_ifs at hfd hfeeds
  · exact elem.2.not_feeds_close hfeeds
  · exact h ⟨elem, helem, hfd, hfeeds⟩

/-- The destructor has closed the pipe when it waits. -/
theorem released_destroy (sys : System) (parent : Parent) (h : Released STDIN_FILENO parent.waits) :
    Released STDIN_FILENO (endState (destroy sys parent)).waits := by
  refine (wp_endState (I := fun s : Parent => Released STDIN_FILENO s.waits)).1 ?_
  have hmembers : ∀ s : Parent, s.m_pid = none → Released STDIN_FILENO s.waits →
      wp (do
          modify fun s => (s.release STDOUT_FILENO).release STDIN_FILENO
          SubProcess.destroy sys)
        (fun _ s' => Released STDIN_FILENO s'.waits) (fun _ s' => Released STDIN_FILENO s'.waits)
        s := by
    intro s hpid hreleased
    rw [wp_bind, wp_modify]
    refine wp_mono (SubProcess.wp_destroy_none hpid) (fun _ s' hs' => ?_) (fun _ _ h => h.elim)
    exact hs' ▸ hreleased
  unfold destroy
  rw [wp_bind, wp_get]
  cases hpid : parent.m_pid with
  | none => exact hmembers parent hpid h
  | some m_pid =>
      rw [if_pos Option.isSome_some]
      -- both ends are closed before the destructor waits, so that this wait is recorded without
      -- them
      have hclosed : ¬ HoldsPipe STDIN_FILENO
          (closePipe STDOUT_FILENO (closePipe STDIN_FILENO parent.m_fdmap)) :=
        not_holds_closePipe_of_not (not_holds_closePipe _ _) _
      have hwaits : Released STDIN_FILENO (parent.waits ++
          [⟨false, closePipe STDOUT_FILENO (closePipe STDIN_FILENO parent.m_fdmap)⟩]) :=
        List.forall_mem_append.2 ⟨h, List.forall_mem_singleton.2 hclosed⟩
      simp only [wp_bind, wp_modify]
      refine wp_mono (SubProcess.wp_callWait (s := { parent with
        m_fdmap := closePipe STDOUT_FILENO (closePipe STDIN_FILENO parent.m_fdmap) })
        hpid false) ?_ ?_
      · rintro status _ ⟨_, rfl⟩
        by_cases hstatus : status ≠ 0
        · rw [if_pos hstatus]
          exact hwaits
        · rw [if_neg hstatus]
          exact hmembers _ rfl hwaits
      · rintro stop _ ⟨_, rfl⟩
        exact hwaits

end SFTPTransfer

end Waits

/-- Whatever the data, `~SFTPTransfer` has closed the pipe to its child when it waits, and
`SSHTransfer::perform` never has, unless there is no child; `ProcessFilter::execute` has closed it,
unless something fails while the pipe is open. -/
theorem released_iff (sys : System) (provider : DataProvider) (s : SSHState) (parent : Parent)
    (hparent : parent.waits = []) (polls : List PollAnswer) (m_iomap : IOMap)
    (htyped : ∀ elem ∈ m_iomap, elem.2.Typed) (fd : Nat) :
    (Released STDIN_FILENO
        (endState (SSHTransfer.performIn sys provider (s, .ofPipes stdinPipe))).2.waits ↔
      SubProcess.CannotSpawn sys stdinPipe) ∧
    Released STDIN_FILENO (endState (SFTPTransfer.destroy sys parent)).waits ∧
    (Released fd (endState (ProcessFilter.executeIn sys polls m_iomap
        (.ofPipes (ProcessFilter.pipes m_iomap)))).waits ↔
      ∀ child, SubProcess.spawn sys (ProcessFilter.pipes m_iomap) = .ok child →
        ProcessFilter.Calm fd (ProcessFilter.started m_iomap child.2 polls)) := by
  have hnone : Released STDIN_FILENO parent.waits := by
    rw [hparent]
    exact nofun
  exact ⟨SSHTransfer.released_performIn_iff sys provider s,
    SFTPTransfer.released_destroy sys parent hnone,
    ProcessFilter.released_executeIn_iff sys polls m_iomap htyped fd⟩

/-- A system on which nothing goes wrong, and a filter for the standard output. -/
theorem released_iff_oneOutput : ∃ m_iomap : IOMap, (∀ elem ∈ m_iomap, elem.2.Typed) ∧
    ¬ Released STDIN_FILENO (endState (SSHTransfer.performIn (healthySystem .success)
      (oneByteProcess .success).provider (⟨false, [], [], []⟩, .ofPipes stdinPipe))).2.waits := by
  have htyped : ∀ elem ∈ oneOutput, elem.2.Typed := List.forall_mem_singleton.2 rfl
  have hcan : ¬ SubProcess.CannotSpawn (healthySystem .success) stdinPipe := by
    rintro (⟨_, _, errno, hpipe⟩ | ⟨errno, hfork⟩)
    · cases hpipe
    · cases hfork
  refine ⟨oneOutput, htyped, fun h => hcan ?_⟩
  exact (released_iff (healthySystem .success) (oneByteProcess .success).provider
    ⟨false, [], [], []⟩ (.ofPipes stdinPipe) rfl oneBytePolls oneOutput htyped 0).1.1 h

/-- One byte has been sent to `dd`, which reads on; the parent waits for it, with the pipe open. -/
theorem performIn_holding :
    ¬ ∀ w ∈ (endState (SSHTransfer.performIn (healthySystem .success)
        (oneByteProcess .success).provider (⟨false, [], [], []⟩, .ofPipes stdinPipe))).2.waits,
      w.killed = false → ¬ HoldsPipe STDIN_FILENO w.m_fdmap := by
  decide

end Transfer
end Kdump

import Kdump.Process.ProcessFilter

/-!
# Waiting — what the parent holds when it waits for a child

A child that reads its standard input up to the end does not end as long as the parent has the
other end of the pipe.  This file records what the parent has of the pipes at each call of
`SubProcess::wait`, that of `~SubProcess` included.

* `Parent` — a `SubProcess`, and the calls of `wait`;
* `callSpawn`, `callWait` and `destroy` — what a user of `SubProcess` does with it;
* `scope` — a block that destroys its variables when it is left;
* `HoldsPipe` — the parent has the end for writing of a pipe.
-/

namespace Kdump
namespace Process

open Lib

/-! ## The parent -/

/-- A call of `SubProcess::wait`. -/
structure Wait where
  /-- whether the child has been killed before, as `~SubProcess` does -/
  killed : Bool
  /-- the pipes as the parent has them then -/
  m_fdmap : FdMap
  deriving DecidableEq

/-- A `SubProcess`. -/
structure Parent where
  /-- `none` stands for -1 -/
  m_pid : Option Nat
  m_fdmap : FdMap
  /-- how many `shared_ptr`s there are to the pipe for a descriptor of the child -/
  owners : Nat → Nat
  waits : List Wait

/-- Behind `setChildFD` for each of the pipes.  It copies the `shared_ptr`, so that the caller still
has one, too. -/
def Parent.ofPipes (m_fdmap : FdMap) : Parent :=
  ⟨none, m_fdmap, fun _ => 2, []⟩

/-- `SubProcessPipe::close` for the pipe of a descriptor. -/
def closePipe (fd : Nat) (m_fdmap : FdMap) : FdMap :=
  m_fdmap.map fun elem => if elem.1 = fd then (elem.1, elem.2.close) else elem

/-- A `shared_ptr` to the pipe goes away; with the last one, the pipe is destroyed and closed. -/
def Parent.release (self : Parent) (fd : Nat) : Parent :=
  { self with
    owners := Function.update self.owners fd (self.owners fd - 1)
    m_fdmap := if self.owners fd = 1 then closePipe fd self.m_fdmap else self.m_fdmap }

abbrev ParentProg := EStateM Stop Parent

namespace SubProcess

/-- If there is no child, the pipes are of no interest any more. -/
def callSpawn (sys : System) : ParentProg Unit := do
  let s ← get
  let (m_pid, m_fdmap) ← ofExcept ((spawn sys s.m_fdmap).mapError .thrown)
  set { s with m_pid := some m_pid, m_fdmap := m_fdmap }

/-- `checkSpawned`, and `waitpid`. -/
def callWait (sys : System) (killed : Bool) : ParentProg Nat := do
  match (← get).m_pid with
  | none =>
      throw (.thrown (.KError (str "SubProcess::checkSpawned(): no subprocess spawned")))
  | some m_pid =>
      modify fun s => { s with waits := s.waits ++ [⟨killed, s.m_fdmap⟩] }
      let status ← ofExcept ((wait sys m_pid).mapError .thrown)
      modify fun s => { s with m_pid := none }
      pure status

/-- `~SubProcess`, and then that of `m_fdmap`.  The signal is `SIGKILL`; it can be sent to a child
that has not been waited for. -/
def destroy (sys : System) : ParentProg Unit := do
  if (← get).m_pid.isSome = true then
    let _ ← callWait sys true
  modify fun s => (s.m_fdmap.map Prod.fst).foldl Parent.release s

end SubProcess

/-- A block whose variables are destroyed when it is left.  A process that `poll()` blocks does not
leave it. -/
def scope {σ α : Type} (destroy : EStateM Stop σ Unit) (body : EStateM Stop σ α) :
    EStateM Stop σ α := do
  let a ← tryCatch body fun stop => do
    if stop ≠ .blocked then
      destroy
    throw stop
  destroy
  pure a

theorem wp_scope {σ α : Type} {destroy : EStateM Stop σ Unit} {body : EStateM Stop σ α}
    {Q : α → σ → Prop} {E : Stop → σ → Prop} {s : σ} :
    wp (scope destroy body) Q E s ↔ wp body (fun a s' => wp destroy (fun _ => Q a) E s')
      (fun stop s' => if stop = .blocked then E stop s'
        else wp destroy (fun _ => E stop) E s') s := by
  unfold scope
  simp only [wp_bind, wp_tryCatch, wp_pure]
  have herror : ∀ stop s', (wp (do
        if stop ≠ .blocked then
          destroy
        throw stop : EStateM Stop σ α) (fun a s' => wp destroy (fun _ => Q a) E s') E s' ↔
      if stop = .blocked then E stop s' else wp destroy (fun _ => E stop) E s') := by
    intro stop s'
    by_cases hblocked : stop = .blocked
    · rw [if_neg (not_not.2 hblocked), if_pos hblocked]
      rfl
    · rw [if_pos hblocked, if_neg hblocked, wp_bind]
      rfl
  simp only [herror]

namespace ProcessFilter

/-- The pipes of the streams. -/
def pipes (m_iomap : IOMap) : FdMap :=
  m_iomap.map fun elem => (elem.1, elem.2.m_pipe)

/-- `ProcessFilter::execute`, with what becomes of the process. -/
def executeIn (sys : System) (polls : List PollAnswer) (m_iomap : IOMap) : ParentProg UInt8 :=
  scope (SubProcess.destroy sys) do
    SubProcess.callSpawn sys
    let loop := ioLoop (started m_iomap (← get).m_fdmap polls)
    -- the streams close the pipes that the process has
    modify fun s => { s with m_fdmap := pipes loop.2.m_iomap }
    ofExcept loop.1
    let status ← SubProcess.callWait sys false
    pure (UInt8.ofNat (WEXITSTATUS status))

end ProcessFilter

/-! ## The end for writing -/

/-- The child may still get data from this pipe. -/
def SubProcessPipe.Feeds (self : SubProcessPipe) : Prop :=
  self.direction = .parentToChild ∧ self.writeEnd ≠ none

instance (self : SubProcessPipe) : Decidable self.Feeds :=
  inferInstanceAs (Decidable (_ ∧ _))

theorem SubProcessPipe.not_feeds_close (self : SubProcessPipe) : ¬ self.close.Feeds :=
  fun h => h.2 rfl

/-- The parent has the end for writing of a pipe to that descriptor of the child. -/
def HoldsPipe (fd : Nat) (m_fdmap : FdMap) : Prop :=
  ∃ elem ∈ m_fdmap, elem.1 = fd ∧ elem.2.Feeds

instance (fd : Nat) (m_fdmap : FdMap) : Decidable (HoldsPipe fd m_fdmap) :=
  List.decidableBEx _ m_fdmap

/-- No call of `wait` blocks a child that reads that descriptor up to the end. -/
def Released (fd : Nat) (waits : List Wait) : Prop :=
  ∀ w ∈ waits, ¬ HoldsPipe fd w.m_fdmap

instance (fd : Nat) (waits : List Wait) : Decidable (Released fd waits) :=
  List.decidableBAll _ waits

/-- The calls of `wait` have all found the same. -/
structure Sees (m_fdmap : FdMap) (waits : List Wait) : Prop where
  ne_nil : waits ≠ []
  same : ∀ w ∈ waits, w.m_fdmap = m_fdmap

theorem Sees.released {m_fdmap : FdMap} {waits : List Wait} (h : Sees m_fdmap waits)
    (fd : Nat) :
    Released fd waits ↔ ¬ HoldsPipe fd m_fdmap := by
  constructor
  · intro hreleased
    rcases List.exists_mem_of_ne_nil _ h.ne_nil with ⟨w, hw⟩
    have hnot := hreleased w hw
    rwa [h.same w hw] at hnot
  · intro hnot w hw
    rwa [h.same w hw]

theorem Sees.append {m_fdmap : FdMap} {waits : List Wait} (h : ∀ w ∈ waits, w.m_fdmap = m_fdmap)
    (killed : Bool) : Sees m_fdmap (waits ++ [⟨killed, m_fdmap⟩]) := by
  refine ⟨List.append_ne_nil_of_right_ne_nil _ (List.cons_ne_nil _ _), ?_⟩
  intro w hw
  rcases List.mem_append.1 hw with hw | hw
  · exact h w hw
  · rw [List.mem_singleton.1 hw]

theorem Sees.single (killed : Bool) (m_fdmap : FdMap) : Sees m_fdmap [⟨killed, m_fdmap⟩] :=
  .append (fun _ hw => absurd hw List.not_mem_nil) killed

/-! ## Steps of the parent -/

section Steps

variable {sys : System} {s : Parent}

theorem foldl_release_waits (fds : List Nat) (s : Parent) :
    (fds.foldl Parent.release s).waits = s.waits := by
  induction fds generalizing s with
  | nil => rfl
  | cons fd fds ih => exact ih (s.release fd)

namespace SubProcess

/-- The process cannot be started. -/
def CannotSpawn (sys : System) (m_fdmap : FdMap) : Prop :=
  (∃ elem ∈ m_fdmap, ∃ errno, sys.pipe2 elem.1 = .error errno) ∨ ∃ errno, sys.fork = .error errno

/-- The pipe has been opened, and the end of the child closed. -/
def SpawnedPipe (elem elem' : Nat × SubProcessPipe) : Prop :=
  elem'.1 = elem.1 ∧ ∃ readEnd writeEnd,
    elem'.2 = SubProcessPipe.finalizeParent ⟨elem.2.direction, some readEnd, some writeEnd⟩

theorem preparePipes_error {m_fdmap : FdMap} {e : Thrown}
    (h : preparePipes sys m_fdmap = .error e) :
    ∃ elem ∈ m_fdmap, ∃ errno, sys.pipe2 elem.1 = .error errno := by
  induction m_fdmap generalizing e with
  | nil => cases h
  | cons elem m_fdmap ih =>
      unfold preparePipes at h
      cases hpipe : sys.pipe2 elem.1 with
      | error errno => exact ⟨elem, List.mem_cons_self, errno, hpipe⟩
      | ok ends =>
          rw [hpipe] at h
          cases hrest : preparePipes sys m_fdmap with
          | error e' =>
              rcases ih hrest with ⟨elem', hmem, herrno⟩
              exact ⟨elem', List.mem_cons_of_mem _ hmem, herrno⟩
          | ok prepared =>
              rw [hrest] at h
              cases h

theorem preparePipes_ok {m_fdmap prepared : FdMap} (h : preparePipes sys m_fdmap = .ok prepared) :
    (∀ elem ∈ m_fdmap, ∀ errno, sys.pipe2 elem.1 ≠ .error errno) ∧
      List.Forall₂ SpawnedPipe m_fdmap
        (prepared.map fun elem => (elem.1, elem.2.finalizeParent)) := by
  induction m_fdmap generalizing prepared with
  | nil =>
      cases h
      exact ⟨nofun, .nil⟩
  | cons elem m_fdmap ih =>
      unfold preparePipes at h
      cases hpipe : sys.pipe2 elem.1 with
      | error errno =>
          rw [hpipe] at h
          cases h
      | ok ends =>
          rw [hpipe] at h
          -- a pipe that cannot be made later on is an error of the whole
          cases hrest : preparePipes sys m_fdmap with
          | error e' =>
              rw [hrest] at h
              cases h
          | ok prepared =>
              rw [hrest] at h
              cases h
              rcases ih hrest with ⟨hpipes, hspawned⟩
              refine ⟨List.forall_mem_cons.2 ⟨fun errno => ?_, hpipes⟩, .cons ?_ hspawned⟩
              · rw [hpipe]
                exact nofun
              · exact ⟨rfl, ends.1, ends.2, rfl⟩

theorem spawn_error {m_fdmap : FdMap} {e : Thrown} (h : spawn sys m_fdmap = .error e) :
    CannotSpawn sys m_fdmap := by
  unfold spawn at h
  cases hprepare : preparePipes sys m_fdmap with
  | error e' => exact .inl (preparePipes_error hprepare)
  | ok prepared =>
      rw [hprepare] at h
      cases hfork : sys.fork with
      | error errno => exact .inr ⟨errno, hfork⟩
      | ok child =>
          rw [hfork] at h
          cases h

theorem spawn_ok {m_fdmap m_fdmap' : FdMap} {m_pid : Nat}
    (h : spawn sys m_fdmap = .ok (m_pid, m_fdmap')) :
    ¬ CannotSpawn sys m_fdmap ∧ List.Forall₂ SpawnedPipe m_fdmap m_fdmap' := by
  unfold spawn at h
  cases hprepare : preparePipes sys m_fdmap with
  | error e =>
      rw [hprepare] at h
      cases h
  | ok prepared =>
      rw [hprepare] at h
      cases hfork : sys.fork with
      | error errno =>
          rw [hfork] at h
          cases h
      | ok child =>
          rw [hfork] at h
          cases h
          rcases preparePipes_ok hprepare with ⟨hpipes, hspawned⟩
          refine ⟨?_, hspawned⟩
          rintro (⟨elem, hmem, errno, hpipe⟩ | ⟨errno, herrno⟩)
          · exact hpipes elem hmem errno hpipe
          · rw [hfork] at herrno
            cases herrno

theorem wp_callSpawn_error {e : Thrown} (h : spawn sys s.m_fdmap = .error e) :
    wp (callSpawn sys) (fun _ _ => False) (fun stop s' => stop = .thrown e ∧ s' = s) s := by
  unfold callSpawn
  simp only [wp_bind, wp_get, wp_ofExcept]
  rw [h]
  exact ⟨rfl, trivial⟩

theorem wp_callSpawn_ok {m_pid : Nat} {m_fdmap : FdMap}
    (h : spawn sys s.m_fdmap = .ok (m_pid, m_fdmap)) :
    wp (callSpawn sys) (fun _ s' => s' = { s with m_pid := some m_pid, m_fdmap := m_fdmap })
      (fun _ _ => False) s := by
  unfold callSpawn
  simp only [wp_bind, wp_get, wp_ofExcept]
  rw [h]
  rfl

/-- The call is recorded, and the child is gone if `waitpid` has not failed. -/
theorem wp_callWait {m_pid : Nat} (hpid : s.m_pid = some m_pid) (killed : Bool) :
    wp (callWait sys killed)
      (fun status s' => wait sys m_pid = .ok status ∧
        s' = { s with m_pid := none, waits := s.waits ++ [⟨killed, s.m_fdmap⟩] })
      (fun _ s' => (∀ status, wait sys m_pid ≠ .ok status) ∧
        s' = { s with waits := s.waits ++ [⟨killed, s.m_fdmap⟩] }) s := by
  cases s
  cases hpid
  unfold callWait
  simp only [wp_bind, wp_get, wp_modify, wp_ofExcept]
  cases wait sys m_pid with
  | ok status => exact ⟨rfl, rfl⟩
  | error e => exact ⟨fun _ => error_ne_ok, trivial⟩

/-- A child that is still there is waited for. -/
theorem wp_destroy_some (hpid : s.m_pid ≠ none) :
    wp (destroy sys) (fun _ s' => s'.waits = s.waits ++ [⟨true, s.m_fdmap⟩])
      (fun _ s' => s'.waits = s.waits ++ [⟨true, s.m_fdmap⟩]) s := by
  rcases Option.ne_none_iff_exists'.1 hpid with ⟨m_pid, hpid⟩
  unfold destroy
  rw [wp_bind, wp_get, hpid, if_pos (Option.isSome_some)]
  simp only [wp_bind, wp_modify]
  refine wp_mono (wp_callWait hpid true) ?_ ?_
  · rintro status s' ⟨_, rfl⟩
    exact foldl_release_waits _ _
  · rintro _ s' ⟨_, rfl⟩
    rfl

theorem wp_destroy_none (hpid : s.m_pid = none) :
    wp (destroy sys) (fun _ s' => s'.waits = s.waits) (fun _ _ => False) s := by
  unfold destroy
  rw [wp_bind, wp_get, hpid, if_neg nofun]
  exact foldl_release_waits _ _

end SubProcess

end Steps

end Process
end Kdump

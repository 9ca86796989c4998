import Kdump.Lib.Wp
import Kdump.Process.SubProcess

/-!
# ChildSetup — the descriptors of a child process

Between `fork` and `execvp` the child moves its ends of the pipes to the numbers that were asked
for, one pipe after the other.

* `Table` — the descriptors of the child;
* `finalizeChild`, `finalizeChildren` — what the child does;
* `Wired` — which descriptors must refer to what when some of the pipes are done;
* `Clear` — the numbers that `pipe2` may choose for this to be so.
-/

namespace Kdump
namespace Process

open Lib

/-! ## Descriptors -/

/-- What a descriptor refers to: an end of the pipe for a descriptor of the child, or something
else. -/
inductive OpenFile where
  | readEnd (fd : Nat)
  | writeEnd (fd : Nat)
  | other (id : Nat)
  deriving DecidableEq

/-- The descriptors of a process that are open. -/
abbrev Table := Nat → Option OpenFile

abbrev ChildProg := EStateM Thrown Table

def EBADF : Errno := 9

/-- A descriptor in a message; `none` stands for -1. -/
def fdNumber : Option Nat → Str
  | some fd => decimal fd
  | none => str "-1"

/-- `::close(fd)`, which does nothing if there is no such descriptor. -/
def closeFd : Option Nat → ChildProg Unit
  | some fd => modify fun table => Function.update table fd none
  | none => pure ()

/-- `SubProcessFD::_move_fd`; `oldfd` is closed even if it is `newfd`. -/
def move_fd (oldfd : Option Nat) (newfd : Nat) : ChildProg Unit := do
  let table ← get
  match oldfd.bind table with
  | none =>
      throw (.KSystemError (str "Cannot duplicate fd " ++ fdNumber oldfd ++ str " to fd " ++
        decimal newfd) EBADF)
  | some file =>
      set (Function.update table newfd (some file))
      closeFd oldfd

namespace SubProcessPipe

/-- The end that the child keeps. -/
def childEnd (self : SubProcessPipe) : Option Nat :=
  match self.direction with
  | .parentToChild => self.readEnd
  | .childToParent => self.writeEnd

def parentEnd (self : SubProcessPipe) : Option Nat :=
  match self.direction with
  | .parentToChild => self.writeEnd
  | .childToParent => self.readEnd

/-- The pipe for `fd` has this at the end of the child. -/
def childFile (self : SubProcessPipe) (fd : Nat) : OpenFile :=
  match self.direction with
  | .parentToChild => .readEnd fd
  | .childToParent => .writeEnd fd

def parentFile (self : SubProcessPipe) (fd : Nat) : OpenFile :=
  match self.direction with
  | .parentToChild => .writeEnd fd
  | .childToParent => .readEnd fd

/-- The end of the parent is closed, and the other one moved. -/
def finalizeChild (self : SubProcessPipe) (fd : Nat) : ChildProg SubProcessPipe := do
  match self.direction with
  | .parentToChild =>
      closeFd self.writeEnd
      move_fd self.readEnd fd
  | .childToParent =>
      closeFd self.readEnd
      move_fd self.writeEnd fd
  pure self.close

theorem finalizeChild_eq (self : SubProcessPipe) (fd : Nat) :
    self.finalizeChild fd = (do
      closeFd self.parentEnd
      move_fd self.childEnd fd
      pure self.close) := by
  unfold finalizeChild parentEnd childEnd
  cases self.direction <;> rfl

end SubProcessPipe

/-- The loop of the child in `SubProcess::spawn`. -/
def SubProcess.finalizeChildren : FdMap → ChildProg FdMap
  | [] => pure []
  | (fd, pipe) :: m_fdmap => do
      let pipe ← pipe.finalizeChild fd
      let m_fdmap ← finalizeChildren m_fdmap
      pure ((fd, pipe) :: m_fdmap)

/-! ## One pipe -/

/-- The descriptors when one pipe is done. -/
def moved (table : Table) (parentEnd childEnd fd : Nat) : Table :=
  Function.update (Function.update (Function.update table parentEnd none) fd (table childEnd))
    childEnd none

theorem closeFd_some (fd : Nat) (table : Table) :
    closeFd (some fd) table = .ok () (Function.update table fd none) := rfl

theorem move_fd_run {c fd : Nat} {file : OpenFile} {table : Table} (h : table c = some file) :
    move_fd (some c) fd table =
      .ok () (Function.update (Function.update table fd (some file)) c none) := by
  have hget : (get : ChildProg Table) table = .ok table table := rfl
  have hset : (set (Function.update table fd (some file)) : ChildProg Unit) table =
      .ok () (Function.update table fd (some file)) := rfl
  refine bind_ok_iff.2 ⟨table, table, hget, ?_⟩
  rw [Option.bind_some, h]
  exact bind_ok_iff.2 ⟨(), _, hset, closeFd_some c _⟩

variable {pipe : SubProcessPipe} {fd p c : Nat} {table : Table}

theorem finalizeChild_run {file : OpenFile} (hp : pipe.parentEnd = some p)
    (hc : pipe.childEnd = some c) (hpc : c ≠ p) (hfile : table c = some file) :
    pipe.finalizeChild fd table = .ok pipe.close (moved table p c fd) := by
  have hfile' : Function.update table p none c = some file := by
    rw [Function.update_of_ne hpc, hfile]
  rw [pipe.finalizeChild_eq, hp, hc]
  refine bind_ok_iff.2 ⟨(), _, closeFd_some p table, ?_⟩
  refine bind_ok_iff.2 ⟨(), _, move_fd_run hfile', ?_⟩
  rw [moved, hfile]
  rfl

theorem moved_other {x : Nat} (hp : x ≠ p) (hfd : x ≠ fd) (hc : x ≠ c) :
    moved table p c fd x = table x := by
  rw [moved, Function.update_of_ne hc, Function.update_of_ne hfd, Function.update_of_ne hp]

theorem moved_fd (h : fd ≠ c) : moved table p c fd fd = table c := by
  rw [moved, Function.update_of_ne h, Function.update_self]

theorem moved_childEnd : moved table p c fd c = none := by
  rw [moved, Function.update_self]

theorem moved_parentEnd (h : p ≠ fd) : moved table p c fd p = none := by
  by_cases hpc : p = c
  · rw [hpc, moved_childEnd]
  · rw [moved, Function.update_of_ne hpc, Function.update_of_ne h, Function.update_self]

/-! ## All pipes -/

/-- The pipe that a descriptor belongs to. -/
def OpenFile.owner : OpenFile → Option Nat
  | .readEnd fd => some fd
  | .writeEnd fd => some fd
  | .other _ => none

theorem owner_childFile (pipe : SubProcessPipe) (fd : Nat) :
    (pipe.childFile fd).owner = some fd := by
  unfold SubProcessPipe.childFile
  cases pipe.direction <;> rfl

theorem owner_parentFile (pipe : SubProcessPipe) (fd : Nat) :
    (pipe.parentFile fd).owner = some fd := by
  unfold SubProcessPipe.parentFile
  cases pipe.direction <;> rfl

theorem childFile_ne_parentFile (pipe : SubProcessPipe) (fd : Nat) :
    pipe.childFile fd ≠ pipe.parentFile fd := by
  unfold SubProcessPipe.childFile SubProcessPipe.parentFile
  cases pipe.direction <;> exact nofun

/-- Behind `fork`, both ends of every pipe are open. -/
def Opened (m_fdmap : FdMap) (table : Table) : Prop :=
  ∀ elem ∈ m_fdmap, ∃ p c, elem.2.parentEnd = some p ∧ elem.2.childEnd = some c ∧
    table p = some (elem.2.parentFile elem.1) ∧ table c = some (elem.2.childFile elem.1)

/-- When the pipes `done` have been set up, they are where they should be, and the ends of the
child of those to do are still open. -/
structure Wired (done todo : FdMap) (table : Table) : Prop where
  done : ∀ elem ∈ done, table elem.1 = some (elem.2.childFile elem.1)
  todo : ∀ elem ∈ todo, ∀ c, elem.2.childEnd = some c →
    table c = some (elem.2.childFile elem.1)

/-- A number that was asked for is neither that of the pipe's own end of the child nor that of an
end of a later pipe. -/
structure Clear (m_fdmap : FdMap) : Prop where
  own : ∀ elem ∈ m_fdmap, elem.2.childEnd ≠ some elem.1
  later : m_fdmap.Pairwise fun elem elem' =>
    elem'.2.childEnd ≠ some elem.1 ∧ elem'.2.parentEnd ≠ some elem.1

/-- Different ends have different numbers, since they refer to different things. -/
theorem Opened.ends_ne {m_fdmap : FdMap} (h : Opened m_fdmap table)
    {elem elem' : Nat × SubProcessPipe} (helem : elem ∈ m_fdmap) (helem' : elem' ∈ m_fdmap)
    (hne : elem.1 ≠ elem'.1) {p c c' : Nat} (hp : elem.2.parentEnd = some p)
    (hc : elem.2.childEnd = some c) (hc' : elem'.2.childEnd = some c') : c' ≠ p ∧ c' ≠ c := by
  rcases h elem helem with ⟨p₁, c₁, hp₁, hc₁, hfp, hfc⟩
  rcases h elem' helem' with ⟨p₂, c₂, hp₂, hc₂, hfp', hfc'⟩
  cases hp.symm.trans hp₁
  cases hc.symm.trans hc₁
  cases hc'.symm.trans hc₂
  constructor
  · rintro rfl
    have howner := congrArg OpenFile.owner (Option.some.inj (hfp.symm.trans hfc'))
    rw [owner_childFile, owner_parentFile] at howner
    exact hne (Option.some.inj howner)
  · rintro rfl
    have howner := congrArg OpenFile.owner (Option.some.inj (hfc.symm.trans hfc'))
    rw [owner_childFile, owner_childFile] at howner
    exact hne (Option.some.inj howner)

theorem Opened.own_ne {m_fdmap : FdMap} (h : Opened m_fdmap table) {elem : Nat × SubProcessPipe}
    (helem : elem ∈ m_fdmap) {p c : Nat} (hp : elem.2.parentEnd = some p)
    (hc : elem.2.childEnd = some c) : c ≠ p := by
  rcases h elem helem with ⟨p₁, c₁, hp₁, hc₁, hfp, hfc⟩
  cases hp.symm.trans hp₁
  cases hc.symm.trans hc₁
  rintro rfl
  exact childFile_ne_parentFile _ _ (Option.some.inj (hfc.symm.trans hfp))

/-- The numbers that were asked for are different. -/
theorem fst_ne_of_split {before after : FdMap} {elem elem' : Nat × SubProcessPipe}
    (hnodup : ((before ++ elem :: after).map Prod.fst).Nodup)
    (h : elem' ∈ before ∨ elem' ∈ after) : elem.1 ≠ elem'.1 := by
  rw [List.map_append, List.map_cons, List.nodup_append, List.nodup_cons] at hnodup
  rcases h with h | h
  · intro heq
    exact hnodup.2.2 _ (List.mem_map_of_mem h) _ List.mem_cons_self heq.symm
  · intro heq
    exact hnodup.2.1.1 (heq ▸ List.mem_map_of_mem h)

/-- Setting up one more pipe. -/
theorem Wired.step {before after : FdMap} {elem : Nat × SubProcessPipe} {table₀ : Table}
    (hnodup : ((before ++ elem :: after).map Prod.fst).Nodup)
    (hopen : Opened (before ++ elem :: after) table₀) (hclear : Clear (before ++ elem :: after))
    (h : Wired before (elem :: after) table) :
    ∃ table', elem.2.finalizeChild elem.1 table = .ok elem.2.close table' ∧
      Wired (before ++ [elem]) after table' := by
  have helem : elem ∈ before ++ elem :: after := List.mem_append_right _ List.mem_cons_self
  rcases hopen elem helem with ⟨p, c, hp, hc, _, _⟩
  have hfile := h.todo elem List.mem_cons_self c hc
  have hown : elem.1 ≠ c :=
    fun heq => hclear.own elem helem (hc.trans (congrArg some heq.symm))
  have hlater := List.pairwise_append.1 hclear.later
  refine ⟨moved table p c elem.1,
    finalizeChild_run hp hc (hopen.own_ne helem hp hc) hfile, ?_, ?_⟩
  · intro elem' hmem
    rcases List.mem_append.1 hmem with hbefore | hself
    · -- this one comes later than those that are done
      rcases hlater.2.2 elem' hbefore elem List.mem_cons_self with ⟨hne, hne'⟩
      have hfst := fst_ne_of_split hnodup (.inl hbefore)
      have hp' : elem'.1 ≠ p := fun heq => hne' (hp.trans (congrArg some heq.symm))
      have hc' : elem'.1 ≠ c := fun heq => hne (hc.trans (congrArg some heq.symm))
      rw [moved_other hp' hfst.symm hc']
      exact h.done elem' hbefore
    · cases List.mem_singleton.1 hself
      rw [moved_fd hown, hfile]
  · intro elem' hafter c' hc'
    have helem' : elem' ∈ before ++ elem :: after :=
      List.mem_append_right _ (List.mem_cons_of_mem _ hafter)
    -- the target of this one is no end of those that come later
    have hne := (List.pairwise_cons.1 hlater.2.1).1 elem' hafter
    rcases hopen.ends_ne helem helem' (fst_ne_of_split hnodup (.inr hafter)) hp hc hc' with
      ⟨hnep, hnec⟩
    have hfd : c' ≠ elem.1 := fun heq => hne.1 (hc'.trans (congrArg some heq))
    rw [moved_other hnep hfd hnec]
    exact h.todo elem' (List.mem_cons_of_mem _ hafter) c' hc'

/-- The loop over one more pipe. -/
theorem finalizeChildren_concat {elem : Nat × SubProcessPipe} {table' : Table} :
    ∀ {before m : FdMap} {table : Table},
      SubProcess.finalizeChildren (before ++ [elem]) table = .ok m table' ↔
        ∃ m₁ table₁ pipe, SubProcess.finalizeChildren before table = .ok m₁ table₁ ∧
          elem.2.finalizeChild elem.1 table₁ = .ok pipe table' ∧ m = m₁ ++ [(elem.1, pipe)] := by
  intro before
  induction before with
  | nil =>
      intro m table
      constructor
      · intro hrun
        rcases bind_ok_iff.1 hrun with ⟨pipe, table₁, hpipe, hrun⟩
        rcases bind_ok_iff.1 hrun with ⟨m₁, table₂, hnil, hpure⟩
        cases hnil
        cases hpure
        exact ⟨[], table, pipe, rfl, hpipe, rfl⟩
      · rintro ⟨m₁, table₁, pipe, hnil, hpipe, rfl⟩
        cases hnil
        exact bind_ok_iff.2 ⟨pipe, table', hpipe, bind_ok_iff.2 ⟨[], table', rfl, rfl⟩⟩
  | cons elem₀ before ih =>
      intro m table
      constructor
      · -- the first pipe is set up, and the others by induction
        intro hrun
        rcases bind_ok_iff.1 hrun with ⟨pipe₀, table₁, hpipe₀, hrun⟩
        rcases bind_ok_iff.1 hrun with ⟨m₂, table₂, hrest, hpure⟩
        cases hpure
        rcases ih.1 hrest with ⟨m₁, table₃, pipe, hbefore, hpipe, rfl⟩
        exact ⟨(elem₀.1, pipe₀) :: m₁, table₃, pipe,
          bind_ok_iff.2 ⟨pipe₀, table₁, hpipe₀, bind_ok_iff.2 ⟨m₁, table₃, hbefore, rfl⟩⟩,
          hpipe, rfl⟩
      · rintro ⟨m₁, table₁, pipe, hbefore, hpipe, rfl⟩
        rcases bind_ok_iff.1 hbefore with ⟨pipe₀, table₂, hpipe₀, hrun⟩
        rcases bind_ok_iff.1 hrun with ⟨m₂, table₃, hrest, hpure⟩
        cases hpure
        exact bind_ok_iff.2 ⟨pipe₀, table₂, hpipe₀, bind_ok_iff.2 ⟨m₂ ++ [(elem.1, pipe)], table',
          ih.2 ⟨m₂, table₁, pipe, hrest, hpipe, rfl⟩, rfl⟩⟩

/-- The pipes that are done are where they should be, at every point of the loop. -/
def WiredThroughout (m_fdmap : FdMap) (table : Table) : Prop :=
  ∀ done todo, m_fdmap = done ++ todo → ∃ m table',
    SubProcess.finalizeChildren done table = .ok m table' ∧ Wired done todo table'

theorem Clear.wiredThroughout {m_fdmap : FdMap} (hclear : Clear m_fdmap)
    (hnodup : (m_fdmap.map Prod.fst).Nodup) (hopen : Opened m_fdmap table) :
    WiredThroughout m_fdmap table := by
  intro done
  induction done using List.reverseRecOn with
  | nil =>
      intro todo hsplit
      refine ⟨[], table, rfl, ⟨List.forall_mem_nil _, ?_⟩⟩
      intro elem helem c hc
      rcases hopen elem (hsplit ▸ helem) with ⟨p₁, c₁, _, hc₁, _, hfile⟩
      cases hc.symm.trans hc₁
      exact hfile
  | append_singleton done elem ih =>
      intro todo hsplit
      rw [List.append_assoc, List.singleton_append] at hsplit
      rcases ih (elem :: todo) hsplit with ⟨m₁, table₁, hrun, hwired⟩
      subst hsplit
      rcases hwired.step hnodup hopen hclear with ⟨table₂, hpipe, hwired'⟩
      exact ⟨_, table₂, finalizeChildren_concat.2 ⟨m₁, table₁, _, hrun, hpipe, rfl⟩, hwired'⟩

/-- What the pipe for `elem` does to the table, with the pipes before it done. -/
theorem WiredThroughout.moved {before after : FdMap} {elem : Nat × SubProcessPipe}
    (h : WiredThroughout (before ++ elem :: after) table)
    (hopen : Opened (before ++ elem :: after) table) :
    ∃ p c table₁, elem.2.parentEnd = some p ∧ elem.2.childEnd = some c ∧
      Wired before (elem :: after) table₁ ∧
      Wired (before ++ [elem]) after (moved table₁ p c elem.1) := by
  have helem : elem ∈ before ++ elem :: after := List.mem_append_right _ List.mem_cons_self
  rcases hopen elem helem with ⟨p, c, hp, hc, _, _⟩
  rcases h before (elem :: after) rfl with ⟨m₁, table₁, hrun, hwired⟩
  rcases h (before ++ [elem]) after (by rw [List.append_assoc, List.singleton_append]) with
    ⟨m₂, table₂, hrun', hwired'⟩
  rcases finalizeChildren_concat.1 hrun' with ⟨m₃, table₃, pipe, hrun₃, hpipe, _⟩
  cases hrun.symm.trans hrun₃
  have hmoved : elem.2.finalizeChild elem.1 table₁ =
      .ok elem.2.close (Process.moved table₁ p c elem.1) :=
    finalizeChild_run hp hc (hopen.own_ne helem hp hc)
      (hwired.todo elem List.mem_cons_self c hc)
  cases hmoved.symm.trans hpipe
  exact ⟨p, c, table₁, hp, hc, hwired, hwired'⟩

/-- A pipe is not in the way of itself, nor in the way of those before it. -/
theorem WiredThroughout.clear {before after : FdMap} {elem : Nat × SubProcessPipe}
    (h : WiredThroughout (before ++ elem :: after) table)
    (hnodup : ((before ++ elem :: after).map Prod.fst).Nodup)
    (hopen : Opened (before ++ elem :: after) table) :
    elem.2.childEnd ≠ some elem.1 ∧ ∀ elem' ∈ before,
      elem.2.childEnd ≠ some elem'.1 ∧ elem.2.parentEnd ≠ some elem'.1 := by
  rcases h.moved hopen with ⟨p, c, table₁, hp, hc, hwired, hwired'⟩
  refine ⟨fun heq => ?_, fun elem' hbefore => ⟨fun heq => ?_, fun heq => ?_⟩⟩
  · -- the number is closed when the end has been moved to it
    have hdone := hwired'.done elem (List.mem_append_right _ List.mem_cons_self)
    rw [← Option.some.inj (hc.symm.trans heq), moved_childEnd] at hdone
    cases hdone
  · -- one number cannot be the child's end of two pipes
    have hdone := hwired.done elem' hbefore
    have htodo := hwired.todo elem List.mem_cons_self elem'.1 heq
    have howner := congrArg OpenFile.owner (Option.some.inj (htodo.symm.trans hdone))
    rw [owner_childFile, owner_childFile] at howner
    exact fst_ne_of_split hnodup (.inl hbefore) (Option.some.inj howner)
  · -- the parent's end is closed although another end has been moved to its number
    have hfst := fst_ne_of_split hnodup (.inl hbefore)
    have hdone := hwired'.done elem' (List.mem_append_left _ hbefore)
    have hp' := Option.some.inj (hp.symm.trans heq)
    rw [← hp', moved_parentEnd (hp' ▸ hfst.symm)] at hdone
    cases hdone

/-- A relation holds between the elements of a list if it holds between each and those before. -/
theorem pairwise_of_splits {α : Type} {R : α → α → Prop} {l : List α}
    (h : ∀ before x after, l = before ++ x :: after → ∀ y ∈ before, R y x) : l.Pairwise R := by
  induction l using List.reverseRecOn with
  | nil => exact .nil
  | append_singleton l x ih =>
      refine List.pairwise_append.2 ⟨ih ?_, List.pairwise_singleton _ _, ?_⟩
      · intro before y after heq
        exact h before y (after ++ [x]) (by rw [heq, List.append_assoc, List.cons_append])
      · intro y hy z hz
        cases List.mem_singleton.1 hz
        exact h l x [] rfl y hy

/-- Every pipe is set up as it should be, and none is in the way of another, exactly if the numbers
that were asked for are clear of those that `pipe2` has chosen. -/
theorem wired_iff {m_fdmap : FdMap} (hnodup : (m_fdmap.map Prod.fst).Nodup)
    (hopen : Opened m_fdmap table) : WiredThroughout m_fdmap table ↔ Clear m_fdmap := by
  constructor
  · intro h
    have hclear : ∀ before elem after, m_fdmap = before ++ elem :: after →
        elem.2.childEnd ≠ some elem.1 ∧ ∀ elem' ∈ before,
          elem.2.childEnd ≠ some elem'.1 ∧ elem.2.parentEnd ≠ some elem'.1 := by
      rintro before elem after rfl
      exact h.clear hnodup hopen
    refine ⟨fun elem helem => ?_, pairwise_of_splits fun before elem after heq => ?_⟩
    · rcases List.append_of_mem helem with ⟨before, after, heq⟩
      exact (hclear before elem after heq).1
    · exact (hclear before elem after heq).2
  · intro hclear
    exact hclear.wiredThroughout hnodup hopen

/-- A filter whose standard descriptors were open when its pipes were made. -/
theorem wired_filter :
    WiredThroughout
      [(0, ⟨.parentToChild, some 3, some 4⟩), (1, ⟨.childToParent, some 5, some 6⟩)]
      fun fd =>
        [(3, .readEnd 0), (4, .writeEnd 0), (5, .readEnd 1), (6, .writeEnd 1)].lookup fd := by
  refine (wired_iff (by decide) ?_).2 ⟨?_, ?_⟩
  · exact List.forall_mem_cons.2 ⟨⟨4, 3, rfl, rfl, rfl, rfl⟩,
      List.forall_mem_singleton.2 ⟨5, 6, rfl, rfl, rfl, rfl⟩⟩
  · exact List.forall_mem_cons.2 ⟨by decide, List.forall_mem_singleton.2 (by decide)⟩
  · exact List.pairwise_cons.2 ⟨List.forall_mem_singleton.2 ⟨by decide, by decide⟩,
      List.pairwise_singleton _ _⟩

/-- The pipe for the standard input of the child, made when that of the parent was closed: the child
closes its end when it has moved it from 0 to 0. -/
theorem not_wired_stdin :
    ¬ WiredThroughout [(0, ⟨.parentToChild, some 0, some 3⟩)]
      fun fd => [(0, .readEnd 0), (3, .writeEnd 0)].lookup fd := by
  intro h
  have hopen : Opened [(0, ⟨.parentToChild, some 0, some 3⟩)]
      fun fd => [(0, .readEnd 0), (3, .writeEnd 0)].lookup fd :=
    List.forall_mem_singleton.2 ⟨3, 0, rfl, rfl, rfl, rfl⟩
  exact (@WiredThroughout.clear _ [] [] _ h (List.nodup_singleton 0) hopen).1 rfl

end Process
end Kdump

import Mathlib.Data.List.Perm.Basic
import Mathlib.Data.List.Nodup
import Mathlib.Logic.Function.Basic
import Kdump.Lib.Schedule

/-!
# LoadOnce — several instances of `load-once.sh`

Each instance writes a line into a file of jobs, and then one of them, which holds a lock, empties
the file and runs `load.sh`, as long as there are lines in the file.  An instance that does not get
the lock ends at once.

* `State` — the two files, where each instance is, and what has become of the jobs;
* `advance` — the next command of an instance;
* `once` — all instances together, in any order;
* `Accounted` — the invariant: the lock, and each job in one place;
* `Attended` — the invariant of runs in which no `truncate` fails.
-/

namespace Kdump
namespace Load
namespace LoadOnce

open Lib

variable {ι : Type}

/-! ## The instances -/

/-- Where an instance is. -/
inductive Control where
  /-- in front of `echo $$ >> "$JOBSFILE"` -/
  | start
  /-- in front of `> "$LOCKFILE"` -/
  | registered
  /-- in front of `flock -n` -/
  | created
  /-- in front of `[ -s "$JOBSFILE" ]` -/
  | testing
  | truncating
  /-- in front of `load.sh` -/
  | starting
  | loading
  /-- behind the loop, or at `exit 1`; `flock` still has to end -/
  | leaving
  | ended
  deriving DecidableEq

/-- The lock is held from `flock` on. -/
def Control.Holds : Control → Prop
  | .testing | .truncating | .starting | .loading | .leaving => True
  | .start | .registered | .created | .ended => False

/-- `load.sh` runs, or is about to. -/
def Control.Loads : Control → Prop
  | .starting | .loading => True
  | _ => False

/-- The file will be looked at again. -/
def Control.Attends : Control → Prop
  | .testing | .truncating | .starting | .loading => True
  | _ => False

/-- The lines of `JOBSFILE`, the owner of the lock on `LOCKFILE`, and the instances.  The other
fields are a history that no instance sees. -/
structure State (ι : Type) where
  jobs : List ι
  lock : Option ι
  control : ι → Control
  /-- who has written a line -/
  arrived : List ι
  /-- the jobs that the present run of `load.sh` is for -/
  taken : List ι
  /-- the jobs for which a run of `load.sh` has come to its end, begun after they were written -/
  served : List ι
  /-- who was not let in by an instance that had already seen the file empty, for a job that has
  been in the file since -/
  missed : List ι

def State.init : State ι where
  jobs := []
  lock := none
  control := fun _ => .start
  arrived := []
  taken := []
  served := []
  missed := []

/-- Each job is in one place, and who does something about the jobs holds the lock. -/
structure Accounted (s : State ι) : Prop where
  jobs : (s.served ++ s.taken ++ s.jobs).Perm s.arrived
  nodup : s.arrived.Nodup
  arrived : ∀ i, s.control i ≠ .start ↔ i ∈ s.arrived
  holds : ∀ i, (s.control i).Holds ↔ s.lock = some i
  taken : s.taken ≠ [] → ∃ i, (s.control i).Loads
  truncating : ∀ i, s.control i = .truncating → s.jobs ≠ []

theorem accounted_init : Accounted (State.init : State ι) where
  jobs := List.Perm.refl []
  nodup := List.nodup_nil
  arrived := fun _ => iff_of_false (fun h => h rfl) List.not_mem_nil
  holds := fun _ => iff_of_false id nofun
  taken := fun h => (h rfl).elim
  truncating := fun _ h => nomatch h

/-- Two instances do not hold the lock together. -/
theorem Accounted.holder_unique {s : State ι} (h : Accounted s) {i j : ι}
    (hi : (s.control i).Holds) (hj : (s.control j).Holds) : i = j :=
  Option.some.inj (((h.holds i).1 hi).symm.trans ((h.holds j).1 hj))

theorem Control.Loads.holds {c : Control} (h : c.Loads) : c.Holds := by
  cases c with
  | starting => trivial
  | loading => trivial
  | _ => exact h.elim

theorem Control.Holds.attends {c : Control} (h : c.Holds) (hleaving : c ≠ .leaving) :
    c.Attends := by
  cases c with
  | leaving => exact (hleaving rfl).elim
  | testing => trivial
  | truncating => trivial
  | starting => trivial
  | loading => trivial
  | _ => exact h.elim

/-- Somebody will come to each job in the file, if nobody has missed it. -/
structure Attended (s : State ι) : Prop where
  jobs : ∀ i ∈ s.jobs, (s.control i = .registered ∨ s.control i = .created) ∨
    (∃ j, (s.control j).Attends) ∨ i ∈ s.missed
  missed : ∀ i ∈ s.missed, i ∈ s.jobs

theorem attended_init : Attended (State.init : State ι) where
  jobs := fun _ h => nomatch h
  missed := fun _ h => nomatch h

/-- As long as one instance attends, no job needs more. -/
theorem attended_of_attends {s : State ι} {i : ι} (hi : (s.control i).Attends)
    (hmissed : ∀ j ∈ s.missed, j ∈ s.jobs) : Attended s where
  jobs := fun _ _ => .inr (.inl ⟨i, hi⟩)
  missed := hmissed

/-- All instances that have begun have ended. -/
def AtRest (s : State ι) : Prop :=
  ∀ i ∈ s.arrived, s.control i = .ended

instance (s : State ι) : Decidable (AtRest s) :=
  inferInstanceAs (Decidable (∀ i ∈ s.arrived, s.control i = .ended))

theorem AtRest.control {s : State ι} (h : AtRest s) (ha : Accounted s) (i : ι) :
    s.control i = .start ∨ s.control i = .ended := by
  by_cases hi : s.control i = .start
  · exact .inl hi
  · exact .inr (h i ((ha.arrived i).1 hi))

/-! ## Commands -/

variable [DecidableEq ι]

/-- It is the turn of an instance; if it comes to `truncate`, then this may fail. -/
structure Turn (ι : Type) where
  who : ι
  truncates : Bool

def State.goto (s : State ι) (i : ι) (c : Control) : State ι :=
  { s with control := Function.update s.control i c }

/-- The next command of an instance. -/
def advance (s : State ι) (t : Turn ι) : State ι :=
  match s.control t.who with
  | .start =>
      { s.goto t.who .registered with
        jobs := s.jobs ++ [t.who]
        arrived := s.arrived ++ [t.who] }
  | .registered => s.goto t.who .created
  | .created =>
      match s.lock with
      | none => { s.goto t.who .testing with lock := some t.who }
      | some j =>
          -- `flock -n` fails
          { s.goto t.who .ended with
            missed := if s.control j = .leaving ∧ t.who ∈ s.jobs then s.missed ++ [t.who]
              else s.missed }
  | .testing => if s.jobs = [] then s.goto t.who .leaving else s.goto t.who .truncating
  | .truncating =>
      if t.truncates then
        { s.goto t.who .starting with jobs := [], taken := s.taken ++ s.jobs, missed := [] }
      else
        s.goto t.who .leaving
  | .starting => s.goto t.who .loading
  | .loading => { s.goto t.who .testing with served := s.served ++ s.taken, taken := [] }
  | .leaving => { s.goto t.who .ended with lock := none }
  | .ended => s

/-- All instances, from an empty file on. -/
def once : System (State ι) (Turn ι) where
  start := .init
  turn := advance

/-! ## What a turn does -/

@[simp] theorem goto_self (s : State ι) (i : ι) (c : Control) : (s.goto i c).control i = c :=
  Function.update_self _ _ _

theorem goto_of_ne (s : State ι) {i j : ι} (c : Control) (h : j ≠ i) :
    (s.goto i c).control j = s.control j :=
  Function.update_of_ne h _ _

/-- A property of instances that a command does not touch. -/
theorem goto_iff {P : Control → Prop} {s : State ι} {i : ι} {c : Control}
    (h : P c ↔ P (s.control i)) (j : ι) : P ((s.goto i c).control j) ↔ P (s.control j) := by
  by_cases hj : j = i
  · subst hj
    rw [goto_self]
    exact h
  · rw [goto_of_ne s c hj]

/-- The commands, each with what it finds. -/
inductive Moves (s : State ι) (i : ι) : State ι → Prop where
  | register (h : s.control i = .start) :
      Moves s i { s.goto i .registered with jobs := s.jobs ++ [i], arrived := s.arrived ++ [i] }
  | create (h : s.control i = .registered) : Moves s i (s.goto i .created)
  | lock (h : s.control i = .created) (free : s.lock = none) :
      Moves s i { s.goto i .testing with lock := some i }
  | refuse (h : s.control i = .created) {j : ι} (held : s.lock = some j) :
      Moves s i { s.goto i .ended with
        missed := if s.control j = .leaving ∧ i ∈ s.jobs then s.missed ++ [i] else s.missed }
  | empty (h : s.control i = .testing) (jobs : s.jobs = []) : Moves s i (s.goto i .leaving)
  | found (h : s.control i = .testing) (jobs : s.jobs ≠ []) : Moves s i (s.goto i .truncating)
  | truncate (h : s.control i = .truncating) :
      Moves s i
        { s.goto i .starting with jobs := [], taken := s.taken ++ s.jobs, missed := [] }
  | begin (h : s.control i = .starting) : Moves s i (s.goto i .loading)
  | finish (h : s.control i = .loading) :
      Moves s i { s.goto i .testing with served := s.served ++ s.taken, taken := [] }
  | unlock (h : s.control i = .leaving) : Moves s i { s.goto i .ended with lock := none }
  | rest (h : s.control i = .ended) : Moves s i s

theorem advance_cases (s : State ι) (t : Turn ι) :
    Moves s t.who (advance s t) ∨
      s.control t.who = .truncating ∧ t.truncates = false ∧
        advance s t = s.goto t.who .leaving := by
  unfold advance
  cases hc : s.control t.who with
  | start => exact .inl (.register hc)
  | registered => exact .inl (.create hc)
  | created =>
      cases hlock : s.lock with
      | none => exact .inl (.lock hc hlock)
      | some j => exact .inl (.refuse hc hlock)
  | testing =>
      by_cases hjobs : s.jobs = []
      · simp only [if_pos hjobs]
        exact .inl (.empty hc hjobs)
      · simp only [if_neg hjobs]
        exact .inl (.found hc hjobs)
  | truncating =>
      cases ht : t.truncates with
      | true => exact .inl (.truncate hc)
      | false => exact .inr ⟨rfl, rfl, rfl⟩
  | starting => exact .inl (.begin hc)
  | loading => exact .inl (.finish hc)
  | leaving => exact .inl (.unlock hc)
  | ended => exact .inl (.rest hc)

/-! ## The lock and the jobs -/

section Goto

variable {s : State ι} {i : ι} {c : Control}

theorem Accounted.arrived_goto (h : Accounted s) (hc : c ≠ .start) (hi : s.control i ≠ .start)
    (j : ι) : (s.goto i c).control j ≠ .start ↔ j ∈ s.arrived :=
  (goto_iff (P := (· ≠ .start)) (iff_of_true hc hi) j).trans (h.arrived j)

theorem Accounted.holds_goto (h : Accounted s) (hc : c.Holds ↔ (s.control i).Holds) (j : ι) :
    ((s.goto i c).control j).Holds ↔ s.lock = some j :=
  (goto_iff hc j).trans (h.holds j)

theorem Accounted.taken_goto (h : Accounted s) (hc : c.Loads ↔ (s.control i).Loads)
    (hne : s.taken ≠ []) : ∃ j, ((s.goto i c).control j).Loads :=
  (h.taken hne).imp fun j => (goto_iff hc j).2

theorem Accounted.truncating_goto (h : Accounted s) (hc : c = .truncating → s.jobs ≠ []) (j : ι)
    (hj : (s.goto i c).control j = .truncating) : s.jobs ≠ [] := by
  by_cases hji : j = i
  · rw [hji, goto_self] at hj
    exact hc hj
  · rw [goto_of_ne s c hji] at hj
    exact h.truncating j hj

/-- A command that leaves the files and the history alone. -/
theorem Accounted.goto (h : Accounted s) (hstart : c ≠ .start) (hi : s.control i ≠ .start)
    (hholds : c.Holds ↔ (s.control i).Holds) (hloads : c.Loads ↔ (s.control i).Loads)
    (htruncating : c = .truncating → s.jobs ≠ []) : Accounted (s.goto i c) where
  jobs := h.jobs
  nodup := h.nodup
  arrived := h.arrived_goto hstart hi
  holds := h.holds_goto hholds
  taken := h.taken_goto hloads
  truncating := h.truncating_goto htruncating

end Goto

theorem Accounted.register {s : State ι} {i : ι} (h : Accounted s) (hc : s.control i = .start) :
    Accounted { s.goto i .registered with
      jobs := s.jobs ++ [i], arrived := s.arrived ++ [i] } where
  jobs := by
    rw [← List.append_assoc]
    exact h.jobs.append_right [i]
  nodup := by
    have hnew : i ∉ s.arrived := fun hmem => (h.arrived i).2 hmem hc
    refine List.nodup_append.2 ⟨h.nodup, List.nodup_singleton i, fun a ha b hb hab => hnew ?_⟩
    rwa [← List.mem_singleton.1 hb, ← hab]
  arrived := by
    intro j
    rw [List.mem_append, List.mem_singleton]
    by_cases hj : j = i
    · rw [hj, goto_self]
      exact iff_of_true (fun h => nomatch h) (.inr rfl)
    · rw [goto_of_ne s _ hj, or_iff_left hj]
      exact h.arrived j
  holds := h.holds_goto (by rw [hc]; rfl)
  taken := h.taken_goto (by rw [hc]; rfl)
  truncating := fun _ _ => List.append_ne_nil_of_right_ne_nil _ (List.cons_ne_nil i [])

theorem Accounted.acquire {s : State ι} {i : ι} (h : Accounted s) (hc : s.control i = .created)
    (free : s.lock = none) : Accounted { s.goto i .testing with lock := some i } where
  jobs := h.jobs
  nodup := h.nodup
  arrived := h.arrived_goto (by decide) (by rw [hc]; decide)
  holds := by
    intro j
    by_cases hj : j = i
    · rw [hj, goto_self]
      exact iff_of_true trivial rfl
    · -- nobody else holds it
      refine iff_of_false (fun hholds => ?_) fun heq => hj (Option.some.inj heq).symm
      rw [goto_of_ne s _ hj, h.holds j, free] at hholds
      cases hholds
  taken := h.taken_goto (by rw [hc]; rfl)
  truncating := h.truncating_goto fun h => nomatch h

theorem Accounted.truncate {s : State ι} {i : ι} (h : Accounted s)
    (hc : s.control i = .truncating) : Accounted
      { s.goto i .starting with jobs := [], taken := s.taken ++ s.jobs, missed := [] } where
  jobs := by
    rw [List.append_nil, ← List.append_assoc]
    exact h.jobs
  nodup := h.nodup
  arrived := h.arrived_goto (by decide) (by rw [hc]; decide)
  holds := h.holds_goto (by rw [hc]; rfl)
  taken := fun _ => ⟨i, by rw [goto_self]; trivial⟩
  truncating := by
    -- only the owner of the lock comes here, and it has gone on
    intro j hj
    by_cases hji : j = i
    · rw [hji, goto_self] at hj
      cases hj
    · rw [goto_of_ne s _ hji] at hj
      exact (hji (h.holder_unique (by rw [hj]; trivial) (by rw [hc]; trivial))).elim

theorem Accounted.finish {s : State ι} {i : ι} (h : Accounted s) (hc : s.control i = .loading) :
    Accounted { s.goto i .testing with served := s.served ++ s.taken, taken := [] } where
  jobs := by
    rw [List.append_nil]
    exact h.jobs
  nodup := h.nodup
  arrived := h.arrived_goto (by decide) (by rw [hc]; decide)
  holds := h.holds_goto (by rw [hc]; rfl)
  taken := fun hne => (hne rfl).elim
  truncating := h.truncating_goto fun h => nomatch h

theorem Accounted.unlock {s : State ι} {i : ι} (h : Accounted s) (hc : s.control i = .leaving) :
    Accounted { s.goto i .ended with lock := none } where
  jobs := h.jobs
  nodup := h.nodup
  arrived := h.arrived_goto (by decide) (by rw [hc]; decide)
  holds := by
    intro j
    refine iff_of_false ?_ nofun
    by_cases hj : j = i
    · rw [hj, goto_self]
      exact id
    · rw [goto_of_ne s _ hj]
      exact fun hother => hj (h.holder_unique hother (by rw [hc]; trivial))
  taken := h.taken_goto (by rw [hc]; rfl)
  truncating := h.truncating_goto fun h => nomatch h

theorem Accounted.moves {s s' : State ι} {i : ι} (h : Accounted s) (hmove : Moves s i s') :
    Accounted s' := by
  cases hmove with
  | register hc => exact h.register hc
  | create hc =>
      exact h.goto (by decide) (by rw [hc]; decide) (by rw [hc]; rfl) (by rw [hc]; rfl)
        fun h => nomatch h
  | lock hc free => exact h.acquire hc free
  | refuse hc held =>
      have hended : Accounted (s.goto i .ended) :=
        h.goto (by decide) (by rw [hc]; decide) (by rw [hc]; rfl) (by rw [hc]; rfl)
          fun h => nomatch h
      exact { hended with }
  | empty hc jobs =>
      exact h.goto (by decide) (by rw [hc]; decide) (by rw [hc]; rfl) (by rw [hc]; rfl)
        fun h => nomatch h
  | found hc jobs =>
      exact h.goto (by decide) (by rw [hc]; decide) (by rw [hc]; rfl) (by rw [hc]; rfl)
        fun _ => jobs
  | truncate hc => exact h.truncate hc
  | begin hc =>
      exact h.goto (by decide) (by rw [hc]; decide) (by rw [hc]; rfl) (by rw [hc]; rfl)
        fun h => nomatch h
  | finish hc => exact h.finish hc
  | unlock hc => exact h.unlock hc
  | rest hc => exact h

theorem Accounted.advance {s : State ι} (h : Accounted s) (t : Turn ι) :
    Accounted (advance s t) := by
  rcases advance_cases s t with hmove | ⟨hc, -, heq⟩
  · exact h.moves hmove
  · rw [heq]
    exact h.goto (by decide) (by rw [hc]; decide) (by rw [hc]; rfl) (by rw [hc]; rfl)
      fun h => nomatch h

theorem accounted_run (turns : List (Turn ι)) : Accounted (once.run turns) :=
  System.run_invariant accounted_init (fun _ t h => h.advance t) turns

/-- A command of an instance that attends before and behind it, or neither. -/
theorem Attended.goto {s : State ι} (h : Attended s) {i : ι} {c : Control}
    (hattends : c.Attends ↔ (s.control i).Attends)
    (hwaits : s.control i = .registered ∨ s.control i = .created →
      c = .registered ∨ c = .created) : Attended (s.goto i c) where
  jobs := by
    intro j hj
    rcases h.jobs j hj with hwaiting | hattended | hmissed
    · left
      by_cases hji : j = i
      · rw [hji] at hwaiting ⊢
        rw [goto_self]
        exact hwaits hwaiting
      · rwa [goto_of_ne s c hji]
    · exact .inr (.inl (hattended.imp fun k => (goto_iff hattends k).2))
    · exact .inr (.inr hmissed)
  missed := h.missed

theorem Attended.register {s : State ι} {i : ι} (h : Attended s) (hc : s.control i = .start) :
    Attended { s.goto i .registered with
      jobs := s.jobs ++ [i], arrived := s.arrived ++ [i] } where
  jobs := by
    intro j hj
    by_cases hji : j = i
    · exact .inl (.inl (by rw [hji, goto_self]))
    · have hmem : j ∈ s.jobs :=
        (List.mem_append.1 hj).resolve_right fun hlast => hji (List.mem_singleton.1 hlast)
      have hgoto : Attended (s.goto i .registered) :=
        h.goto (by rw [hc]; rfl) fun _ => .inl rfl
      exact hgoto.jobs j hmem
  missed := fun j hj => List.mem_append_left _ (h.missed j hj)

/-- The instance that is not let in has missed its job only if the owner of the lock is about to
leave. -/
theorem Attended.refuse {s : State ι} {i j : ι} (h : Attended s) (ha : Accounted s)
    (hc : s.control i = .created) (held : s.lock = some j) :
    Attended { s.goto i .ended with
      missed := if s.control j = .leaving ∧ i ∈ s.jobs then s.missed ++ [i] else s.missed } := by
  have hholds : (s.control j).Holds := (ha.holds j).2 held
  have hmissed : ∀ k ∈ if s.control j = .leaving ∧ i ∈ s.jobs then s.missed ++ [i] else s.missed,
      k ∈ s.jobs := by
    intro k hk
    split_ifs at hk with hmiss
    · rcases List.mem_append.1 hk with hk | hk
      · exact h.missed k hk
      · rw [List.mem_singleton.1 hk]
        exact hmiss.2
    · exact h.missed k hk
  by_cases hleaving : s.control j = .leaving
  · refine ⟨fun k hk => ?_, hmissed⟩
    by_cases hki : k = i
    · subst hki
      refine .inr (.inr ?_)
      rw [if_pos ⟨hleaving, hk⟩]
      exact List.mem_append_right _ (List.mem_singleton_self k)
    · rcases h.jobs k hk with hwaiting | hattended | hmem
      · exact .inl (by rwa [goto_of_ne s _ hki])
      · exact .inr (.inl (hattended.imp fun l =>
          (goto_iff (P := Control.Attends) (by rw [hc]; rfl) l).2))
      · refine .inr (.inr ?_)
        split_ifs
        · exact List.mem_append_left _ hmem
        · exact hmem
  · -- the owner looks at the file once more
    refine attended_of_attends (i := j) ?_ hmissed
    exact (goto_iff (P := Control.Attends) (by rw [hc]; rfl) j).2 (hholds.attends hleaving)

theorem Attended.moves {s s' : State ι} {i : ι} (h : Attended s) (ha : Accounted s)
    (hmove : Moves s i s') : Attended s' := by
  cases hmove with
  | register hc => exact h.register hc
  | create hc => exact h.goto (by rw [hc]; rfl) fun _ => .inr rfl
  | lock hc free => exact attended_of_attends (i := i) (by rw [goto_self]; trivial) h.missed
  | refuse hc held => exact h.refuse ha hc held
  | empty hc jobs =>
      refine ⟨fun j hj => ?_, h.missed⟩
      rw [show (s.goto i .leaving).jobs = [] from jobs] at hj
      cases hj
  | found hc jobs => exact attended_of_attends (i := i) (by rw [goto_self]; trivial) h.missed
  | truncate hc => exact ⟨fun _ hj => (nomatch hj), fun _ hj => (nomatch hj)⟩
  | begin hc => exact attended_of_attends (i := i) (by rw [goto_self]; trivial) h.missed
  | finish hc => exact attended_of_attends (i := i) (by rw [goto_self]; trivial) h.missed
  | unlock hc =>
      have hended : Attended (s.goto i .ended) :=
        h.goto (by rw [hc]; rfl) fun hwaits => by rw [hc] at hwaits; exact hwaits.elim nofun nofun
      exact { hended with }
  | rest hc => exact h

theorem attended_run {turns : List (Turn ι)} (hturns : ∀ t ∈ turns, t.truncates = true) :
    Attended (once.run turns) := by
  have hboth : Accounted (once.run turns) ∧ Attended (once.run turns) := by
    refine System.run_invariant_of (I := fun s => Accounted s ∧ Attended s)
      (A := fun t : Turn ι => t.truncates = true) ⟨accounted_init, attended_init⟩ ?_ hturns
    rintro s t ⟨ha, h⟩ ht
    rcases advance_cases s t with hmove | ⟨_, hfails, _⟩
    · exact ⟨ha.advance t, h.moves ha hmove⟩
    · rw [ht] at hfails
      cases hfails
  exact hboth.2

/-- The second instance asks for the lock while the first one leaves. -/
def contended : List (Turn Bool) :=
  [false, false, false, false, false, false, false, false, true, true, true, false].map
    fun i => ⟨i, true⟩

/-- How many commands an instance has in front of it, apart from those for jobs that are in the
file now. -/
def Control.steps : Control → Nat
  | .start => 0
  | .registered => 5
  | .created => 4
  | .testing => 3
  | .truncating => 2
  | .starting => 5
  | .loading => 4
  | .leaving => 1
  | .ended => 0

/-- One command, unless the instance has ended. -/
def effort (s : State ι) (t : Turn ι) : Nat :=
  if s.control t.who = .ended then 0 else 1

/-- What a new instance brings in. -/
def allowance (s : State ι) (t : Turn ι) : Nat :=
  if s.control t.who = .start then 10 else 0

/-- The commands that are still to come: the jobs in the file are good for one more round. -/
def reserve (s : State ι) : Nat :=
  (s.arrived.map fun i => (s.control i).steps).sum + if s.jobs = [] then 0 else 4

theorem sum_goto {s : State ι} (ha : Accounted s) {i : ι} (hi : s.control i ≠ .start)
    (c : Control) :
    (s.arrived.map fun j => ((s.goto i c).control j).steps).sum + (s.control i).steps =
      (s.arrived.map fun j => (s.control j).steps).sum + c.steps := by
  have hperm : s.arrived.Perm (i :: s.arrived.erase i) :=
    List.perm_cons_erase ((ha.arrived i).1 hi)
  have hothers : (s.arrived.erase i).map (fun j => ((s.goto i c).control j).steps) =
      (s.arrived.erase i).map fun j => (s.control j).steps := by
    refine List.map_congr_left fun j hj => ?_
    rw [goto_of_ne s c (ha.nodup.mem_erase_iff.1 hj).1]
  rw [(hperm.map _).sum_eq, (hperm.map fun j => (s.control j).steps).sum_eq, List.map_cons,
    List.map_cons, List.sum_cons, List.sum_cons, hothers, goto_self]
  omega

/-- A command of an instance that does not touch the file. -/
theorem reserve_goto {s : State ι} (ha : Accounted s) {i : ι} {c : Control}
    (hi : s.control i ≠ .start) (hc : c.steps < (s.control i).steps) :
    1 + reserve (s.goto i c) ≤ reserve s := by
  have hsum := sum_goto ha hi c
  unfold reserve
  change _ + ((s.arrived.map fun j => ((s.goto i c).control j).steps).sum +
    if s.jobs = [] then 0 else 4) ≤ _
  omega

theorem reserve_moves {s s' : State ι} {t : Turn ι} (ha : Accounted s)
    (hmove : Moves s t.who s') : effort s t + reserve s' ≤ reserve s + allowance s t := by
  unfold effort allowance
  generalize t.who = i at hmove
  cases hmove with
  | register hc =>
      have hothers : (s.arrived.map fun j => ((s.goto i .registered).control j).steps) =
          s.arrived.map fun j => (s.control j).steps := by
        refine List.map_congr_left fun j hj => ?_
        have hji : j ≠ i := fun hji => (ha.arrived j).2 hj (hji ▸ hc)
        rw [goto_of_ne s _ hji]
      have hnew : reserve { s.goto i .registered with
          jobs := s.jobs ++ [i], arrived := s.arrived ++ [i] } =
          (s.arrived.map fun j => (s.control j).steps).sum + 5 + 4 := by
        unfold reserve
        dsimp only
        rw [if_neg (List.append_ne_nil_of_right_ne_nil _ (List.cons_ne_nil i [])), List.map_append,
          List.sum_append, hothers, List.map_singleton, List.sum_singleton, goto_self]
        rfl
      rw [hc, hnew, reserve, if_neg (by decide), if_pos rfl]
      omega
  | create hc =>
      rw [hc]
      exact reserve_goto ha (by rw [hc]; decide) (by rw [hc]; decide)
  | lock hc free =>
      rw [hc]
      exact reserve_goto ha (by rw [hc]; decide) (by rw [hc]; decide)
  | refuse hc held =>
      rw [hc]
      exact reserve_goto ha (by rw [hc]; decide) (by rw [hc]; decide)
  | empty hc jobs =>
      rw [hc]
      exact reserve_goto ha (by rw [hc]; decide) (by rw [hc]; decide)
  | found hc jobs =>
      rw [hc]
      exact reserve_goto ha (by rw [hc]; decide) (by rw [hc]; decide)
  | truncate hc =>
      -- what was kept for the jobs pays for the round
      have hsum := sum_goto ha (i := i) (by rw [hc]; decide) .starting
      have hjobs := ha.truncating i hc
      have hnew : reserve { s.goto i .starting with
          jobs := [], taken := s.taken ++ s.jobs, missed := [] } =
          (s.arrived.map fun j => ((s.goto i .starting).control j).steps).sum := rfl
      rw [hc] at hsum ⊢
      rw [hnew, reserve, if_neg (by decide), if_neg hjobs, if_neg (by decide)]
      change _ + 2 = _ + 5 at hsum
      omega
  | begin hc =>
      rw [hc]
      exact reserve_goto ha (by rw [hc]; decide) (by rw [hc]; decide)
  | finish hc =>
      rw [hc]
      exact reserve_goto ha (by rw [hc]; decide) (by rw [hc]; decide)
  | unlock hc =>
      rw [hc]
      exact reserve_goto ha (by rw [hc]; decide) (by rw [hc]; decide)
  | rest hc =>
      rw [hc, if_pos rfl, if_neg (by decide), Nat.zero_add, Nat.add_zero]

theorem reserve_advance {s : State ι} (ha : Accounted s) (t : Turn ι) :
    effort s t + reserve (advance s t) ≤ reserve s + allowance s t := by
  rcases advance_cases s t with hmove | ⟨hc, -, heq⟩
  · exact reserve_moves ha hmove
  · unfold effort allowance
    rw [heq, hc]
    exact reserve_goto ha (by rw [hc]; decide) (by rw [hc]; decide)

theorem arrived_moves {s s' : State ι} {i : ι} (hmove : Moves s i s') :
    10 * s'.arrived.length = 10 * s.arrived.length + if s.control i = .start then 10 else 0 := by
  cases hmove with
  | register hc => rw [if_pos hc, List.length_append, List.length_singleton, Nat.mul_add]
  | _ hc => rw [hc]; rfl

theorem arrived_advance (s : State ι) (t : Turn ι) :
    10 * (advance s t).arrived.length = 10 * s.arrived.length + allowance s t := by
  rcases advance_cases s t with hmove | ⟨hc, -, heq⟩
  · exact arrived_moves hmove
  · rw [heq, allowance, hc]
    rfl

/-- Whatever the order, the instances come to rest: all together they have at most ten commands for
each of them. -/
theorem effort_le (turns : List (Turn ι)) :
    once.total effort (State.init : State ι) turns ≤ 10 * (once.run turns).arrived.length := by
  have htotal : once.total effort (State.init : State ι) turns ≤
      reserve (State.init : State ι) + once.total allowance State.init turns :=
    System.total_le (I := Accounted) (fun _ t h => h.advance t)
      (fun _ t h => reserve_advance h t) accounted_init turns
  have harrived : 10 * (once.run turns).arrived.length =
      0 + once.total allowance (State.init : State ι) turns :=
    @System.total_eq _ _ once allowance (fun s : State ι => 10 * s.arrived.length)
      arrived_advance State.init turns
  rw [harrived]
  exact htotal

end LoadOnce
end Load
end Kdump

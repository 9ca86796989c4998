import Kdump.Process.Waiting

/-!
# FilterLoop — the pipes that the I/O loop leaves open

`ProcessFilter::execute` waits for its process when no descriptor is polled any more.  By then
every pipe to the process is closed; an exception, however, leaves the loop before that.

* `FilterIO.Fails` — handling the events of an element throws;
* `Polled` — the invariant of the loop, by which an open pipe is always polled;
* `Undisturbed` and `Calm` — nothing fails before the pipe is closed;
* `calm_iff` — what the loop leaves open.
-/

namespace Kdump
namespace Process

open Lib Transfer

/-! ## The table of descriptors -/

namespace MultiplexIO

variable {io : MultiplexIO}

/-- `m_active` is the number of descriptors. -/
def Counted (io : MultiplexIO) : Prop :=
  io.m_active = (io.m_fds.countP fun poll => poll.fd.isSome : Nat)

/-- The descriptor at an index of the table, unless it has been deactivated. -/
def fdAt (io : MultiplexIO) (idx : Nat) : Option Nat :=
  io.m_fds[idx]?.bind PollFd.fd

theorem counted_empty : empty.Counted := rfl

theorem counted_add (h : io.Counted) (fd : Option Nat) (events : Events) :
    (io.add fd events).2.Counted := by
  unfold Counted add
  rw [List.countP_append, h]
  cases fd <;> rfl

theorem fdAt_add_self (fd : Option Nat) (events : Events) :
    (io.add fd events).2.fdAt (io.add fd events).1 = fd := by
  unfold fdAt add
  rw [List.getElem?_append_right le_rfl, Nat.sub_self]
  rfl

theorem fdAt_add_of_lt {idx : Nat} (h : idx < io.m_fds.length) (fd : Option Nat)
    (events : Events) : (io.add fd events).2.fdAt idx = io.fdAt idx := by
  unfold fdAt add
  rw [List.getElem?_append_left h]

theorem counted_deactivate (h : io.Counted) (idx : Nat) : (io.deactivate idx).Counted := by
  unfold Counted deactivate
  rw [h]
  by_cases hlt : idx < io.m_fds.length
  · have hsplit := congrArg (List.countP fun poll => poll.fd.isSome)
      (List.take_append_drop idx io.m_fds).symm
    rw [List.drop_eq_getElem_cons hlt, List.countP_append] at hsplit
    rw [List.getElem?_eq_getElem hlt, List.modify_eq_take_cons_drop hlt, hsplit]
    rcases io.m_fds[idx] with ⟨_ | fd, events, revents⟩
    · exact (congrArg Nat.cast List.countP_append).symm
    · rw [List.countP_append, List.countP_cons_of_pos rfl,
        List.countP_cons_of_neg Bool.false_ne_true]
      change ((_ + (_ + 1) : Nat) : Int) - 1 = _
      omega
  · rw [List.modify_eq_self (Nat.le_of_not_lt hlt), List.getElem?_eq_none (Nat.le_of_not_lt hlt)]

theorem fdAt_deactivate_of_ne {idx j : Nat} (h : j ≠ idx) :
    (io.deactivate idx).fdAt j = io.fdAt j :=
  congrArg (Option.bind · PollFd.fd) (List.getElem?_modify_ne _ _ h.symm)

theorem fdAt_deactivate_self (io : MultiplexIO) (idx : Nat) :
    (io.deactivate idx).fdAt idx = none := by
  unfold fdAt deactivate
  rw [List.getElem?_modify_eq]
  cases io.m_fds[idx]? <;> rfl

theorem counted_report (h : io.Counted) (happened : List Events) :
    (io.report happened).Counted := by
  have hfds : (io.report happened).m_fds.map PollFd.fd = io.m_fds.map PollFd.fd := by
    unfold report
    refine List.ext_getElem? fun idx => ?_
    rw [List.getElem?_map, List.getElem?_map, List.getElem?_mapIdx]
    cases io.m_fds[idx]? <;> rfl
  have hcount := congrArg (List.countP Option.isSome) hfds
  rw [List.countP_map, List.countP_map] at hcount
  unfold Counted
  exact h.trans (congrArg Int.ofNat hcount.symm)

theorem fdAt_report (happened : List Events) (idx : Nat) :
    (io.report happened).fdAt idx = io.fdAt idx := by
  unfold fdAt report
  rw [List.getElem?_mapIdx]
  cases io.m_fds[idx]? <;> rfl

/-- No descriptor is left. -/
theorem fdAt_of_inactive (h : io.Counted) (hactive : io.m_active ≤ 0) (idx : Nat) :
    io.fdAt idx = none := by
  rw [h] at hactive
  have hzero := List.countP_eq_zero.1 (Nat.le_zero.1 (Int.ofNat_le.1 hactive))
  unfold fdAt
  cases hpoll : io.m_fds[idx]? with
  | none => rfl
  | some poll =>
      have hnone := hzero poll (List.mem_of_getElem? hpoll)
      exact Option.not_isSome_iff_eq_none.1 hnone

/-- Some descriptor is left. -/
theorem exists_fdAt (h : io.Counted) (hactive : 0 < io.m_active) : ∃ idx, io.fdAt idx ≠ none := by
  rw [h] at hactive
  obtain ⟨poll, hmem, hsome⟩ := List.countP_pos_iff.1 (Int.natCast_pos.1 hactive)
  obtain ⟨idx, hidx⟩ := List.mem_iff_getElem?.1 hmem
  refine ⟨idx, fun hnone => ?_⟩
  rw [fdAt, hidx] at hnone
  exact Option.isSome_iff_ne_none.1 hsome hnone

end MultiplexIO

/-! ## Elements -/

namespace IStream

/-- Reading from the stream or writing to the pipe goes wrong. -/
def Fails (self : IStream) (revents : Events) : Prop :=
  revents.POLLOUT = true ∧
    ((self.buf = [] ∧ self.m_input.failure self.m_input.rest.length ≠ none) ∨
      ∃ errno, self.answers.head? = some (.error errno))

end IStream

namespace OStream

/-- Reading from the pipe goes wrong. -/
def Fails (self : OStream) (revents : Events) : Prop :=
  revents.POLLIN = true ∧ ∃ errno, self.incoming.head? = some (.error errno)

end OStream

namespace FilterIO

/-- The classes `Input` and `Output` make a pipe each. -/
def Typed : FilterIO → Prop
  | .input elem => elem.m_pipe.direction = .parentToChild
  | .output elem => elem.m_pipe.direction = .childToParent

def pollidx : FilterIO → Nat
  | .input elem => elem.pollidx
  | .output elem => elem.pollidx

/-- Handling the events of the element throws. -/
def Fails (self : FilterIO) (io : MultiplexIO) : Prop :=
  ∃ poll, io.m_fds[self.pollidx]? = some poll ∧
    match self with
    | .input elem => elem.Fails poll.revents
    | .output elem => elem.Fails poll.revents

/-- What may become of an element: either its pipe stays as it is, or it is closed and not polled
any more. -/
def Kept (pipe pipe' : SubProcessPipe) (pollidx pollidx' : Nat) (io io' : MultiplexIO) : Prop :=
  pollidx' = pollidx ∧
    ((pipe' = pipe ∧ io' = io) ∨ (pipe' = pipe.close ∧ io' = io.deactivate pollidx))

/-- Neither the pipe nor what is polled has changed. -/
structure Same (pipe pipe' : SubProcessPipe) (pollidx pollidx' : Nat) (io io' : MultiplexIO) :
    Prop where
  m_pipe : pipe' = pipe
  pollidx : pollidx' = pollidx
  io : io' = io

variable {pipe pipe₁ pipe' : SubProcessPipe} {pollidx pollidx₁ pollidx' : Nat}
  {io io₁ io' : MultiplexIO}

theorem Same.trans (h : Same pipe pipe₁ pollidx pollidx₁ io io₁)
    (h' : Same pipe₁ pipe' pollidx₁ pollidx' io₁ io') : Same pipe pipe' pollidx pollidx' io io' :=
  ⟨h'.m_pipe.trans h.m_pipe, h'.pollidx.trans h.pollidx, h'.io.trans h.io⟩

theorem Same.kept (h : Same pipe pipe₁ pollidx pollidx₁ io io₁)
    (hkept : Kept pipe₁ pipe' pollidx₁ pollidx' io₁ io') :
    Kept pipe pipe' pollidx pollidx' io io' := by
  rwa [h.m_pipe, h.pollidx, h.io] at hkept

end FilterIO

namespace IStream

abbrev SamePipe (s s' : IStream × MultiplexIO) : Prop :=
  FilterIO.Same s.1.m_pipe s'.1.m_pipe s.1.pollidx s'.1.pollidx s.2 s'.2

variable {s : IStream × MultiplexIO}

theorem wp_underflow : wp underflow
    (fun _ s' => s.1.m_input.failure s.1.m_input.rest.length = none ∧
      s'.1.answers = s.1.answers ∧ SamePipe s s')
    (fun _ s' => s.1.m_input.failure s.1.m_input.rest.length ≠ none ∧ SamePipe s s') s := by
  unfold underflow InputStream.read
  simp only [wp_bind, wp_get, wp_set]
  cases hfailure : s.1.m_input.failure s.1.m_input.rest.length with
  | none => exact ⟨rfl, rfl, rfl, rfl, rfl⟩
  | some errno => exact ⟨Option.some_ne_none errno, rfl, rfl, rfl⟩

theorem wp_writeSome : wp writeSome
    (fun _ s' => (¬ ∃ errno, s.1.answers.head? = some (.error errno)) ∧ SamePipe s s')
    (fun _ s' => (∃ errno, s.1.answers.head? = some (.error errno)) ∧ SamePipe s s') s := by
  unfold writeSome
  simp only [wp_bind, wp_get]
  rcases hanswers : s.1.answers with _ | ⟨errno | cnt, answers⟩
  · refine ⟨?_, rfl, rfl, rfl⟩
    rintro ⟨_, h⟩
    cases h
  · exact ⟨⟨errno, rfl⟩, rfl, rfl, rfl⟩
  · refine ⟨?_, rfl, rfl, rfl⟩
    rintro ⟨_, h⟩
    cases h

theorem wp_closeAtEnd : wp closeAtEnd
    (fun _ s' => FilterIO.Kept s.1.m_pipe s'.1.m_pipe s.1.pollidx s'.1.pollidx s.2 s'.2)
    (fun _ _ => False) s := by
  unfold closeAtEnd
  simp only [wp_bind, wp_get]
  split_ifs
  · exact ⟨rfl, .inr ⟨rfl, rfl⟩⟩
  · exact ⟨rfl, .inl ⟨rfl, rfl⟩⟩

/-- Behind the underflow. -/
theorem wp_writeSome_closeAtEnd : wp (do writeSome; closeAtEnd)
    (fun _ s' => (¬ ∃ errno, s.1.answers.head? = some (.error errno)) ∧
      FilterIO.Kept s.1.m_pipe s'.1.m_pipe s.1.pollidx s'.1.pollidx s.2 s'.2)
    (fun _ s' => (∃ errno, s.1.answers.head? = some (.error errno)) ∧ SamePipe s s') s := by
  rw [wp_bind]
  refine wp_mono wp_writeSome ?_ (fun _ _ h => h)
  rintro _ s₁ ⟨hanswers, hsame⟩
  refine wp_mono wp_closeAtEnd ?_ (fun _ _ h => h.elim)
  intro _ s₂ hkept
  exact ⟨hanswers, hsame.kept hkept⟩

theorem wp_handleEvents {poll : PollFd} (hpoll : s.2.m_fds[s.1.pollidx]? = some poll) :
    wp handleEvents
      (fun _ s' => ¬ s.1.Fails poll.revents ∧
        FilterIO.Kept s.1.m_pipe s'.1.m_pipe s.1.pollidx s'.1.pollidx s.2 s'.2)
      (fun _ s' => s.1.Fails poll.revents ∧ SamePipe s s') s := by
  unfold handleEvents MultiplexIO.«at» Fails
  simp only [wp_bind, wp_get, wp_ofExcept]
  rw [hpoll]
  dsimp only
  by_cases hout : poll.revents.POLLOUT = true
  · rw [if_pos hout]
    by_cases hbuf : s.1.buf = []
    · -- the buffer is empty, and is filled first
      rw [if_pos hbuf, wp_bind]
      refine wp_mono wp_underflow ?_ ?_
      · rintro _ s₁ ⟨hnone, hanswers, hsame⟩
        refine wp_mono wp_writeSome_closeAtEnd ?_ ?_
        · rintro _ s₂ ⟨hno, hkept⟩
          rw [hanswers] at hno
          exact ⟨fun h => h.2.elim (fun h => h.2 hnone) hno, hsame.kept hkept⟩
        · rintro _ s₂ ⟨herror, hsame'⟩
          rw [hanswers] at herror
          exact ⟨⟨hout, .inr herror⟩, hsame.trans hsame'⟩
      · rintro _ s₁ ⟨hsome, hsame⟩
        exact ⟨⟨hout, .inl ⟨hbuf, hsome⟩⟩, hsame⟩
    · -- there is something left from an earlier pass
      rw [if_neg hbuf]
      refine wp_mono wp_writeSome_closeAtEnd ?_ ?_
      · rintro _ s₂ ⟨hno, hkept⟩
        exact ⟨fun h => h.2.elim (fun h => hbuf h.1) hno, hkept⟩
      · rintro _ s₂ ⟨herror, hsame⟩
        exact ⟨⟨hout, .inr herror⟩, hsame⟩
  · rw [if_neg hout]
    exact ⟨fun h => hout h.1, rfl, .inl ⟨rfl, rfl⟩⟩

end IStream

namespace OStream

abbrev SamePipe (s s' : OStream × MultiplexIO) : Prop :=
  FilterIO.Same s.1.m_pipe s'.1.m_pipe s.1.pollidx s'.1.pollidx s.2 s'.2

variable {s : OStream × MultiplexIO}

theorem wp_readSome : wp readSome
    (fun _ s' => (¬ ∃ errno, s.1.incoming.head? = some (.error errno)) ∧ SamePipe s s')
    (fun _ s' => (∃ errno, s.1.incoming.head? = some (.error errno)) ∧ SamePipe s s') s := by
  unfold readSome
  simp only [wp_bind, wp_get]
  rcases hincoming : s.1.incoming with _ | ⟨errno | bytes, incoming⟩
  · refine ⟨?_, rfl, rfl, rfl⟩
    rintro ⟨_, h⟩
    cases h
  · exact ⟨⟨errno, rfl⟩, rfl, rfl, rfl⟩
  · refine ⟨?_, rfl, rfl, rfl⟩
    rintro ⟨_, h⟩
    cases h

theorem wp_deliver (bytes : ByteVector) : wp (deliver bytes)
    (fun _ s' => FilterIO.Kept s.1.m_pipe s'.1.m_pipe s.1.pollidx s'.1.pollidx s.2 s'.2)
    (fun _ _ => False) s := by
  unfold deliver
  simp only [wp_bind, wp_get]
  split_ifs
  · exact ⟨rfl, .inr ⟨rfl, rfl⟩⟩
  · exact ⟨rfl, .inl ⟨rfl, rfl⟩⟩

theorem wp_handleEvents {poll : PollFd} (hpoll : s.2.m_fds[s.1.pollidx]? = some poll) :
    wp handleEvents
      (fun _ s' => ¬ s.1.Fails poll.revents ∧
        FilterIO.Kept s.1.m_pipe s'.1.m_pipe s.1.pollidx s'.1.pollidx s.2 s'.2)
      (fun _ s' => s.1.Fails poll.revents ∧ SamePipe s s') s := by
  unfold handleEvents MultiplexIO.«at» Fails
  simp only [wp_bind, wp_get, wp_ofExcept]
  rw [hpoll]
  dsimp only
  by_cases hin : poll.revents.POLLIN = true
  · rw [if_pos hin, wp_bind]
    refine wp_mono wp_readSome ?_ ?_
    · rintro bytes s₁ ⟨hno, hsame⟩
      refine wp_mono (wp_deliver bytes) ?_ (fun _ _ h => h.elim)
      intro _ s₂ hkept
      exact ⟨fun h => hno h.2, hsame.kept hkept⟩
    · rintro _ s₁ ⟨herror, hsame⟩
      exact ⟨⟨hin, herror⟩, hsame⟩
  · rw [if_neg hin]
    -- the other end may have been closed
    split_ifs
    · refine wp_mono (wp_deliver []) ?_ (fun _ _ h => h.elim)
      intro _ s₂ hkept
      exact ⟨fun h => hin h.1, hkept⟩
    · exact ⟨fun h => hin h.1, rfl, .inl ⟨rfl, rfl⟩⟩

end OStream

namespace FilterIO

variable {self : FilterIO} {io : MultiplexIO}

section Runs

variable {e : Thrown}

theorem handleEvents_input_ok {elem : IStream} {s' : IStream × MultiplexIO}
    (h : IStream.handleEvents (elem, io) = .ok () s') :
    (input elem).handleEvents io = ⟨.ok (), .input s'.1, s'.2⟩ := by
  unfold handleEvents
  dsimp only
  rw [h]

theorem handleEvents_input_error {elem : IStream} {s' : IStream × MultiplexIO}
    (h : IStream.handleEvents (elem, io) = .error e s') :
    (input elem).handleEvents io = ⟨.error e, .input s'.1, s'.2⟩ := by
  unfold handleEvents
  dsimp only
  rw [h]

theorem handleEvents_output_ok {elem : OStream} {s' : OStream × MultiplexIO}
    (h : OStream.handleEvents (elem, io) = .ok () s') :
    (output elem).handleEvents io = ⟨.ok (), .output s'.1, s'.2⟩ := by
  unfold handleEvents
  dsimp only
  rw [h]

theorem handleEvents_output_error {elem : OStream} {s' : OStream × MultiplexIO}
    (h : OStream.handleEvents (elem, io) = .error e s') :
    (output elem).handleEvents io = ⟨.error e, .output s'.1, s'.2⟩ := by
  unfold handleEvents
  dsimp only
  rw [h]

end Runs

/-- An element that fails is left as it was. -/
theorem handleEvents_of_fails (hbound : self.pollidx < io.m_fds.length) (h : self.Fails io) :
    (∃ e, (self.handleEvents io).result = .error e) ∧
      (self.handleEvents io).elem.m_pipe = self.m_pipe ∧
      (self.handleEvents io).elem.pollidx = self.pollidx ∧ (self.handleEvents io).io = io := by
  have hpoll := List.getElem?_eq_getElem hbound
  rcases h with ⟨poll, hpoll', hfails⟩
  cases Option.some.inj (hpoll.symm.trans hpoll')
  cases self with
  | input elem =>
      have hwp := IStream.wp_handleEvents (s := (elem, io)) hpoll
      cases hrun : IStream.handleEvents (elem, io) with
      | ok _ s' => exact ((wp_ok hwp hrun).1 hfails).elim
      | error e s' =>
          rw [handleEvents_input_error hrun]
          have hsame := (wp_error hwp hrun).2
          exact ⟨⟨e, rfl⟩, hsame.m_pipe, hsame.pollidx, hsame.io⟩
  | output elem =>
      have hwp := OStream.wp_handleEvents (s := (elem, io)) hpoll
      cases hrun : OStream.handleEvents (elem, io) with
      | ok _ s' => exact ((wp_ok hwp hrun).1 hfails).elim
      | error e s' =>
          rw [handleEvents_output_error hrun]
          have hsame := (wp_error hwp hrun).2
          exact ⟨⟨e, rfl⟩, hsame.m_pipe, hsame.pollidx, hsame.io⟩

theorem handleEvents_of_not_fails (hbound : self.pollidx < io.m_fds.length)
    (h : ¬ self.Fails io) :
    (self.handleEvents io).result = .ok () ∧
      Kept self.m_pipe (self.handleEvents io).elem.m_pipe self.pollidx
        (self.handleEvents io).elem.pollidx io (self.handleEvents io).io := by
  have hpoll := List.getElem?_eq_getElem hbound
  cases self with
  | input elem =>
      have hwp := IStream.wp_handleEvents (s := (elem, io)) hpoll
      cases hrun : IStream.handleEvents (elem, io) with
      | ok _ s' =>
          rw [handleEvents_input_ok hrun]
          exact ⟨rfl, (wp_ok hwp hrun).2⟩
      | error e s' => exact (h ⟨_, hpoll, (wp_error hwp hrun).1⟩).elim
  | output elem =>
      have hwp := OStream.wp_handleEvents (s := (elem, io)) hpoll
      cases hrun : OStream.handleEvents (elem, io) with
      | ok _ s' =>
          rw [handleEvents_output_ok hrun]
          exact ⟨rfl, (wp_ok hwp hrun).2⟩
      | error e s' => exact (h ⟨_, hpoll, (wp_error hwp hrun).1⟩).elim

end FilterIO

/-! ## The invariant -/

/-- A pipe that may still feed the child is polled, each element has a place of its own in the
table, and the places in use are counted. -/
structure Polled (m_iomap : IOMap) (io : MultiplexIO) : Prop where
  counted : io.Counted
  distinct : (m_iomap.map fun elem => elem.2.pollidx).Nodup
  bound : ∀ elem ∈ m_iomap, elem.2.pollidx < io.m_fds.length
  polled : ∀ elem ∈ m_iomap, elem.2.m_pipe.Feeds → io.fdAt elem.2.pollidx ≠ none

namespace Polled

variable {before m_iomap : IOMap} {fd : Nat} {elem elem' : FilterIO} {io io' : MultiplexIO}

/-- If nothing is polled, every pipe to the child is closed. -/
theorem not_holds (h : Polled m_iomap io) (hactive : io.m_active ≤ 0) (fd : Nat) :
    ¬ HoldsPipe fd (ProcessFilter.pipes m_iomap) := by
  rintro ⟨_, hmem, _, hfeeds⟩
  rcases List.mem_map.1 hmem with ⟨elem, helem, rfl⟩
  exact h.polled elem helem hfeeds ( MultiplexIO.fdAt_of_inactive h.counted hactive _)

theorem report (h : Polled m_iomap io) (happened : List Events) :
    Polled m_iomap (io.report happened) := by
  refine ⟨ MultiplexIO.counted_report h.counted happened, h.distinct, ?_, ?_⟩
  · intro elem helem
    exact (h.bound elem helem).trans_eq (List.length_mapIdx).symm
  · intro elem helem hfeeds
    rw [ MultiplexIO.fdAt_report]
    exact h.polled elem helem hfeeds

/-- The other elements are at other places of the table. -/
theorem ne_pollidx (h : Polled (before ++ (fd, elem) :: m_iomap) io) {other : Nat × FilterIO}
    (hmem : other ∈ before ++ m_iomap) : other.2.pollidx ≠ elem.pollidx := by
  have hnodup := h.distinct
  rw [List.map_append, List.map_cons, List.nodup_middle, ← List.map_append] at hnodup
  intro heq
  exact (List.nodup_cons.1 hnodup).1 (heq ▸ List.mem_map_of_mem hmem)

/-- Handling the events of one element keeps the invariant. -/
theorem kept (h : Polled (before ++ (fd, elem) :: m_iomap) io)
    (hkept : FilterIO.Kept elem.m_pipe elem'.m_pipe elem.pollidx elem'.pollidx io io') :
    Polled (before ++ (fd, elem') :: m_iomap) io' := by
  have hmem : ∀ {elem : FilterIO} {other : Nat × FilterIO},
      other ∈ before ++ (fd, elem) :: m_iomap ↔ other = (fd, elem) ∨ other ∈ before ++ m_iomap :=
    fun {_ _} => List.perm_middle.mem_iff.trans List.mem_cons
  have hself := h.bound (fd, elem) (hmem.2 (.inl rfl))
  rcases hkept with ⟨hidx, hpipe⟩
  have hdistinct : ((before ++ (fd, elem') :: m_iomap).map fun elem => elem.2.pollidx).Nodup := by
    have hnodup := h.distinct
    rw [List.map_append, List.map_cons] at hnodup ⊢
    rwa [hidx]
  rcases hpipe with ⟨hpipe, rfl⟩ | ⟨hpipe, rfl⟩
  · -- the table is the same
    refine ⟨h.counted, hdistinct, ?_, ?_⟩
    · intro other hother
      rcases hmem.1 hother with rfl | hother
      · exact hidx ▸ hself
      · exact h.bound other (hmem.2 (.inr hother))
    · intro other hother hfeeds
      rcases hmem.1 hother with rfl | hother
      · have hpolled := h.polled (fd, elem) (hmem.2 (.inl rfl)) (hpipe ▸ hfeeds)
        rwa [← hidx] at hpolled
      · exact h.polled other (hmem.2 (.inr hother)) hfeeds
  · -- the place of the element in the table has been given up
    have hlength : (io.deactivate elem.pollidx).m_fds.length = io.m_fds.length :=
      List.length_modify ..
    refine ⟨ MultiplexIO.counted_deactivate h.counted _, hdistinct, ?_, ?_⟩
    · intro other hother
      rw [hlength]
      rcases hmem.1 hother with rfl | hother
      · exact hidx ▸ hself
      · exact h.bound other (hmem.2 (.inr hother))
    · intro other hother hfeeds
      rcases hmem.1 hother with rfl | hother
      · -- the pipe of this element has been closed
        rw [hpipe] at hfeeds
        exact (elem.m_pipe.not_feeds_close hfeeds).elim
      · rw [ MultiplexIO.fdAt_deactivate_of_ne (h.ne_pollidx hother)]
        exact h.polled other (hmem.2 (.inr hother)) hfeeds

end Polled

namespace ProcessFilter

variable {before m_iomap : IOMap} {elem : Nat × FilterIO} {io : MultiplexIO} {fd : Nat}

theorem handleAll_cons_error {e : Thrown} (h : (elem.2.handleEvents io).result = .error e) :
    handleAll (elem :: m_iomap) io =
      (.error e, (elem.1, (elem.2.handleEvents io).elem) :: m_iomap,
        (elem.2.handleEvents io).io) := by
  rw [handleAll]
  dsimp only
  rw [h]

theorem handleAll_cons_ok (h : (elem.2.handleEvents io).result = .ok ()) :
    handleAll (elem :: m_iomap) io =
      ((handleAll m_iomap (elem.2.handleEvents io).io).1,
        (elem.1, (elem.2.handleEvents io).elem) ::
          (handleAll m_iomap (elem.2.handleEvents io).io).2.1,
        (handleAll m_iomap (elem.2.handleEvents io).io).2.2) := by
  rw [handleAll]
  dsimp only
  rw [h]

/-- A pass keeps the invariant, also one that an exception ends. -/
theorem polled_handleAll (m_iomap before : IOMap) (io : MultiplexIO)
    (h : Polled (before ++ m_iomap) io) :
    Polled (before ++ (handleAll m_iomap io).2.1) (handleAll m_iomap io).2.2 := by
  induction m_iomap generalizing before io with
  | nil => exact h
  | cons elem m_iomap ih =>
      have hbound := h.bound elem (List.mem_append_right _ List.mem_cons_self)
      by_cases hfails : elem.2.Fails io
      · rcases FilterIO.handleEvents_of_fails hbound hfails with ⟨⟨e, he⟩, hpipe, hidx, hio⟩
        rw [handleAll_cons_error he]
        exact h.kept ⟨hidx, .inl ⟨hpipe, hio⟩⟩
      · rcases FilterIO.handleEvents_of_not_fails hbound hfails with ⟨hok, hkept⟩
        rw [handleAll_cons_ok hok]
        have hnext := h.kept hkept
        rw [List.append_cons] at hnext ⊢
        exact ih _ _ hnext

/-! ## What fails -/

/-- In a pass, no element fails as long as the pipe is open; `before` has been handled already. -/
def Undisturbed (fd : Nat) : IOMap → IOMap → MultiplexIO → Prop
  | _, [], _ => True
  | before, elem :: m_iomap, io =>
      (elem.2.Fails io → ¬ HoldsPipe fd (pipes (before ++ elem :: m_iomap))) ∧
        (¬ elem.2.Fails io → Undisturbed fd (before ++ [(elem.1, (elem.2.handleEvents io).elem)])
          m_iomap (elem.2.handleEvents io).io)

theorem undisturbed_iff (m_iomap before : IOMap) (io : MultiplexIO)
    (h : Polled (before ++ m_iomap) io) :
    Undisturbed fd before m_iomap io ↔
      ∀ e, (handleAll m_iomap io).1 = .error e →
        ¬ HoldsPipe fd (pipes (before ++ (handleAll m_iomap io).2.1)) := by
  induction m_iomap generalizing before io with
  | nil => exact iff_of_true trivial nofun
  | cons elem m_iomap ih =>
      have hbound := h.bound elem (List.mem_append_right _ List.mem_cons_self)
      rw [Undisturbed]
      by_cases hfails : elem.2.Fails io
      · -- the pass ends here, with the pipes as they are
        rcases FilterIO.handleEvents_of_fails hbound hfails with ⟨⟨e, he⟩, hpipe, hidx, hio⟩
        have hsame : pipes (before ++ (elem.1, (elem.2.handleEvents io).elem) :: m_iomap) =
            pipes (before ++ elem :: m_iomap) := by
          unfold pipes
          rw [List.map_append, List.map_append, List.map_cons, List.map_cons, hpipe]
        rw [handleAll_cons_error he, hsame]
        exact ⟨fun hcond _ _ => hcond.1 hfails,
          fun hnot => ⟨fun _ => hnot e rfl, fun hno => (hno hfails).elim⟩⟩
      · -- the pass goes on with the next element
        rcases FilterIO.handleEvents_of_not_fails hbound hfails with ⟨hok, hkept⟩
        have hnext := h.kept hkept
        rw [List.append_cons] at hnext
        have hrest := ih _ _ hnext
        rw [← List.append_cons] at hrest
        rw [handleAll_cons_ok hok]
        refine Iff.trans ?_ hrest
        exact ⟨fun hcond => hcond.2 hfails, fun h => ⟨fun hf => (hfails hf).elim, fun _ => h⟩⟩

/-- `poll()` fails, perhaps behind some interrupts. -/
def PollFails : List PollAnswer → Prop
  | [] => False
  | .error errno :: polls => errno ≠ EINTR ∨ PollFails polls
  | .ok _ :: _ => False

theorem pollFails_iff (io : MultiplexIO) (polls : List PollAnswer) :
    PollFails polls ↔ ∃ e, io.monitor polls = .error (.thrown e) := by
  induction polls with
  | nil =>
      refine iff_of_false (fun h => h) ?_
      rintro ⟨e, he⟩
      cases he
  | cons answer polls ih =>
      cases answer with
      | ok happened =>
          refine iff_of_false (fun h => h) ?_
          rintro ⟨e, he⟩
          cases he
      | error errno =>
          rw [PollFails, MultiplexIO.monitor]
          split_ifs with hintr
          · rw [← ih]
            exact or_iff_right (not_not.2 hintr)
          · exact iff_of_true (.inl hintr) ⟨_, rfl⟩

/-- One pass of the loop. -/
def Pass (s s' : FilterState) : Prop :=
  0 < s.io.m_active ∧ ∃ io, s.io.monitor s.polls = .ok (s'.polls, io) ∧
    handleAll s.m_iomap io = (.ok (), s'.m_iomap, s'.io)

/-- In the next pass, nothing fails as long as the pipe is open. -/
structure Sound (fd : Nat) (s : FilterState) : Prop where
  poll : PollFails s.polls → ¬ HoldsPipe fd (pipes s.m_iomap)
  handle : ∀ polls io, s.io.monitor s.polls = .ok (polls, io) → Undisturbed fd [] s.m_iomap io

/-- Nothing ever fails as long as the pipe is open. -/
def Calm (fd : Nat) (s : FilterState) : Prop :=
  ∀ s', Relation.ReflTransGen Pass s s' → 0 < s'.io.m_active → Sound fd s'

theorem calm_cons {s s' : FilterState} (hactive : 0 < s.io.m_active) (hpass : Pass s s') :
    Calm fd s ↔ Sound fd s ∧ Calm fd s' := by
  constructor
  · intro h
    exact ⟨h s .refl hactive, fun t ht => h t (.head hpass ht)⟩
  · rintro ⟨hsound, hcalm⟩ t ht hactive'
    rcases Relation.ReflTransGen.cases_head ht with rfl | ⟨u, hpass', hu⟩
    · exact hsound
    · have heq : u = s' := by
        rcases hpass with ⟨_, io, hmonitor, hall⟩
        rcases hpass' with ⟨_, io', hmonitor', hall'⟩
        cases s'
        cases u
        rw [hmonitor] at hmonitor'
        cases hmonitor'
        rw [hall] at hall'
        cases hall'
        rfl
      exact hcalm t (heq ▸ hu) hactive'

theorem calm_last {s : FilterState} (h : ∀ s', ¬ Pass s s') :
    Calm fd s ↔ (0 < s.io.m_active → Sound fd s) := by
  constructor
  · exact fun hcalm => hcalm s .refl
  · intro hsound t ht
    rcases Relation.ReflTransGen.cases_head ht with rfl | ⟨u, hpass, _⟩
    · exact hsound
    · exact (h u hpass).elim

theorem sound_of_monitor_error {s : FilterState} {stop : Stop}
    (h : s.io.monitor s.polls = .error stop) :
    Sound fd s ↔ ∀ e, stop = .thrown e → ¬ HoldsPipe fd (pipes s.m_iomap) := by
  constructor
  · rintro hsound e rfl
    exact hsound.poll ((pollFails_iff s.io s.polls).2 ⟨e, h⟩)
  · intro hnot
    refine ⟨fun hfails => ?_, fun polls io hok => ?_⟩
    · rcases (pollFails_iff s.io s.polls).1 hfails with ⟨e, he⟩
      exact hnot e (Except.error.inj (h.symm.trans he))
    · rw [h] at hok
      cases hok

theorem sound_of_monitor_ok {s : FilterState} {polls : List PollAnswer}
    (h : s.io.monitor s.polls = .ok (polls, io)) :
    Sound fd s ↔ Undisturbed fd [] s.m_iomap io := by
  constructor
  · exact fun hsound => hsound.handle polls io h
  · intro hundisturbed
    refine ⟨fun hfails => ?_, fun polls' io' hok => ?_⟩
    · rcases (pollFails_iff s.io s.polls).1 hfails with ⟨e, he⟩
      rw [h] at he
      cases he
    · rw [h] at hok
      cases hok
      exact hundisturbed

theorem monitor_ok {self io : MultiplexIO} {polls polls' : List PollAnswer}
    (h : self.monitor polls = .ok (polls', io)) : ∃ happened, io = self.report happened := by
  induction polls with
  | nil => cases h
  | cons answer polls ih =>
      cases answer with
      | ok happened =>
          cases h
          exact ⟨happened, rfl⟩
      | error errno =>
          rw [ MultiplexIO.monitor] at h
          split_ifs at h
          exact ih h

/-- A loop that ends normally leaves no pipe open, and one that throws leaves one open if and only
if something has failed with the pipe open. -/
theorem ioLoop_spec (s : FilterState) (h : Polled s.m_iomap s.io) :
    ((ioLoop s).1 = .ok () → ¬ HoldsPipe fd (pipes (ioLoop s).2.m_iomap)) ∧
      (Calm fd s ↔ ∀ e, (ioLoop s).1 = .error (.thrown e) →
        ¬ HoldsPipe fd (pipes (ioLoop s).2.m_iomap)) := by
  fun_induction ioLoop s with
  | case1 s hactive =>
      -- nothing is polled any more
      have hcalm : Calm fd s :=
        (calm_last fun s' hpass => absurd hpass.1 (Int.not_lt.2 hactive)).2
          fun hpos => absurd hpos (Int.not_lt.2 hactive)
      exact ⟨fun _ => h.not_holds hactive fd, iff_of_true hcalm nofun⟩
  | case2 s hactive stop hmonitor =>
      -- `poll()` fails, or nothing ever happens
      refine ⟨nofun, ?_⟩
      have hlast : ∀ s', ¬ Pass s s' := by
        rintro s' ⟨_, io, hok, _⟩
        rw [hmonitor] at hok
        cases hok
      rw [calm_last hlast, sound_of_monitor_error hmonitor,
        forall_prop_of_true (Int.not_le.1 hactive)]
      exact forall_congr' fun e => imp_congr_left ⟨congrArg _, Except.error.inj⟩
  | case3 s hactive polls io hmonitor e m_iomap io' hall =>
      -- an element fails
      refine ⟨nofun, ?_⟩
      have hlast : ∀ s', ¬ Pass s s' := by
        rintro s' ⟨_, io, hok, hall'⟩
        rw [hmonitor] at hok
        cases hok
        rw [hall] at hall'
        cases hall'
      rcases monitor_ok hmonitor with ⟨happened, rfl⟩
      rw [calm_last hlast, sound_of_monitor_ok hmonitor,
        forall_prop_of_true (Int.not_le.1 hactive),
        undisturbed_iff s.m_iomap [] _ (h.report happened), hall]
      exact ⟨fun hnot _ _ => hnot e rfl, fun hnot _ _ => hnot e rfl⟩
  | case4 s hactive polls io hmonitor m_iomap io' hall ih =>
      -- the loop goes on behind this pass
      rcases monitor_ok hmonitor with ⟨happened, rfl⟩
      have hpolled := polled_handleAll s.m_iomap [] _ (h.report happened)
      have hpass : Pass s ⟨m_iomap, io', polls⟩ :=
        ⟨Int.not_le.1 hactive, _, hmonitor, hall⟩
      have hsound : Sound fd s := by
        rw [sound_of_monitor_ok hmonitor, undisturbed_iff s.m_iomap [] _ (h.report happened), hall]
        exact nofun
      rw [hall] at hpolled
      rcases ih hpolled with ⟨hok, hcalm⟩
      refine ⟨hok, ?_⟩
      rw [calm_cons (Int.not_le.1 hactive) hpass, and_iff_right hsound]
      exact hcalm

/-! ## The beginning of the loop -/

/-- The place of an element is new, and the end of the parent is polled there. -/
theorem setupIO_spec (elem : FilterIO) (io : MultiplexIO) : ∃ fd events,
    (elem.setupIO io).1.m_pipe = elem.m_pipe ∧ (elem.setupIO io).1.pollidx = io.m_fds.length ∧
      (elem.setupIO io).2 = (io.add fd events).2 ∧
      (elem.Typed → elem.m_pipe.Feeds → fd ≠ none) := by
  cases elem with
  | input elem => exact ⟨elem.m_pipe.writeEnd, _, rfl, rfl, rfl, fun _ hfeeds => hfeeds.2⟩
  | output elem =>
      refine ⟨elem.m_pipe.readEnd, _, rfl, rfl, rfl, fun htyped hfeeds => ?_⟩
      cases htyped.symm.trans hfeeds.1

theorem polled_setupIO {elem : FilterIO} (h : Polled before io) (htyped : elem.Typed) :
    Polled (before ++ [(fd, (elem.setupIO io).1)]) (elem.setupIO io).2 := by
  rcases setupIO_spec elem io with ⟨polled, events, hpipe, hidx, hio, hpolled⟩
  have hlength : (elem.setupIO io).2.m_fds.length = io.m_fds.length + 1 := by
    rw [hio]
    exact List.length_append
  refine ⟨?_, ?_, ?_, ?_⟩
  · rw [hio]
    exact MultiplexIO.counted_add h.counted polled events
  · rw [List.map_append, List.map_singleton, hidx]
    refine List.nodup_append.2 ⟨h.distinct, List.nodup_singleton _, ?_⟩
    intro idx hmem idx' hmem'
    rcases List.mem_map.1 hmem with ⟨other, hother, rfl⟩
    rw [List.mem_singleton.1 hmem']
    exact (h.bound other hother).ne
  · intro other hmem
    rw [hlength]
    rcases List.mem_append.1 hmem with hother | hself
    · exact Nat.lt_succ_of_lt (h.bound other hother)
    · rw [List.mem_singleton.1 hself, hidx]
      exact Nat.lt_succ_self _
  · intro other hmem hfeeds
    rcases List.mem_append.1 hmem with hother | hself
    · rw [hio, MultiplexIO.fdAt_add_of_lt (h.bound other hother)]
      exact h.polled other hother hfeeds
    · rw [List.mem_singleton.1 hself] at hfeeds ⊢
      rw [hidx, hio]
      have hfd := @ MultiplexIO.fdAt_add_self io polled events
      exact fun hnone => hpolled htyped (hpipe ▸ hfeeds) (hfd.symm.trans hnone)

theorem polled_setupAll (m_iomap before : IOMap) (io : MultiplexIO) (h : Polled before io)
    (htyped : ∀ elem ∈ m_iomap, elem.2.Typed) :
    Polled (before ++ (setupAll m_iomap io).1) (setupAll m_iomap io).2 := by
  induction m_iomap generalizing before io with
  | nil => exact (List.append_nil before).symm ▸ h
  | cons elem m_iomap ih =>
      rcases elem with ⟨fd, elem⟩
      have hhere : Polled (before ++ [(fd, (elem.setupIO io).1)]) (elem.setupIO io).2 :=
        polled_setupIO h (htyped (fd, elem) List.mem_cons_self)
      have hmore := ih _ _ hhere fun elem' hmem => htyped elem' (List.mem_cons_of_mem _ hmem)
      rwa [← List.append_cons] at hmore

theorem typed_setPipe {elem : FilterIO} {pipe : SubProcessPipe} (htyped : elem.Typed)
    (h : pipe.direction = elem.m_pipe.direction) : (elem.setPipe pipe).Typed := by
  cases elem <;> exact h.trans htyped

theorem direction_finalizeParent (pipe : SubProcessPipe) :
    pipe.finalizeParent.direction = pipe.direction := by
  unfold SubProcessPipe.finalizeParent
  cases pipe.direction <;> rfl

/-- Behind `spawn`, the pipes are still those that the classes have made. -/
theorem typed_spawned {m_iomap : IOMap} {m_fdmap : FdMap}
    (h : List.Forall₂ SubProcess.SpawnedPipe (pipes m_iomap) m_fdmap)
    (htyped : ∀ elem ∈ m_iomap, elem.2.Typed) :
    ∀ elem ∈ List.zipWith (fun elem pipe => (elem.1, elem.2.setPipe pipe.2)) m_iomap m_fdmap,
      elem.2.Typed := by
  induction m_iomap generalizing m_fdmap with
  | nil => exact nofun
  | cons elem m_iomap ih =>
      cases h with
      | cons hpipe hrest =>
          rcases hpipe with ⟨_, readEnd, writeEnd, heq⟩
          rcases List.forall_mem_cons.1 htyped with ⟨hhere, hmore⟩
          refine List.forall_mem_cons.2 ⟨typed_setPipe hhere ?_, ih hrest hmore⟩
          rw [heq, direction_finalizeParent]

theorem polled_started {m_iomap : IOMap} {m_fdmap : FdMap}
    (h : List.Forall₂ SubProcess.SpawnedPipe (pipes m_iomap) m_fdmap)
    (htyped : ∀ elem ∈ m_iomap, elem.2.Typed) (polls : List PollAnswer) :
    Polled (started m_iomap m_fdmap polls).m_iomap (started m_iomap m_fdmap polls).io := by
  have hempty : Polled [] .empty := ⟨ MultiplexIO.counted_empty, List.nodup_nil, nofun, nofun⟩
  exact polled_setupAll _ [] .empty hempty (typed_spawned h htyped)

/-! ## Calls of `wait` -/

section Waits

variable {sys : System} {polls : List PollAnswer} {m_pid : Nat} {m_fdmap : FdMap}

/-- The calls of `wait`, by the way in which the loop ends. -/
structure Waited (loop : Except Stop Unit × FilterState) (waits : List Wait) : Prop where
  blocked : loop.1 = .error .blocked → waits = []
  thrown : ∀ e, loop.1 = .error (.thrown e) → waits = [⟨true, pipes loop.2.m_iomap⟩]
  ended : loop.1 = .ok () → Sees (pipes loop.2.m_iomap) waits

theorem Waited.of_thrown {e : Thrown} {s : FilterState} {waits : List Wait}
    (h : waits = [⟨true, pipes s.m_iomap⟩]) : Waited (.error (.thrown e), s) waits where
  blocked hloop := by cases hloop
  thrown _ _ := h
  ended hloop := by cases hloop

theorem Waited.of_blocked (s : FilterState) : Waited (.error .blocked, s) [] where
  blocked _ := rfl
  thrown _ hloop := by cases hloop
  ended hloop := by cases hloop

theorem Waited.of_ended {s : FilterState} {waits : List Wait} (h : Sees (pipes s.m_iomap) waits) :
    Waited (.ok (), s) waits where
  blocked hloop := by cases hloop
  thrown _ hloop := by cases hloop
  ended _ := h

theorem waited_executeIn (hspawn : SubProcess.spawn sys (pipes m_iomap) = .ok (m_pid, m_fdmap)) :
    Waited (ioLoop (started m_iomap m_fdmap polls))
      (endState (executeIn sys polls m_iomap (.ofPipes (pipes m_iomap)))).waits := by
  refine (wp_endState (I := fun s : Parent => Waited _ s.waits)).1 ?_
  unfold executeIn
  rw [wp_scope, wp_bind]
  refine wp_mono (SubProcess.wp_callSpawn_ok hspawn) ?_ (fun _ _ h => h.elim)
  rintro _ _ rfl
  simp only [wp_bind, wp_get, wp_modify, wp_ofExcept]
  generalize ioLoop (started m_iomap m_fdmap polls) = loop
  rcases loop with ⟨(e | _) | _, s⟩
  · -- the loop throws: the destructor kills the child and waits for it
    have hwaits : ∀ (_ : Unit) (s' : Parent), s'.waits = [⟨true, pipes s.m_iomap⟩] →
        Waited (.error (.thrown e), s) s'.waits :=
      fun _ s' h => .of_thrown h
    dsimp only
    rw [if_neg (Stop.thrown_ne_blocked e)]
    exact wp_mono (SubProcess.wp_destroy_some (Option.some_ne_none _)) hwaits fun _ => hwaits ()
  · -- nothing happens any more, and so nobody waits
    dsimp only
    rw [if_pos rfl]
    exact .of_blocked s
  · -- the loop has ended, and `execute` itself waits
    have hfirst : Sees (pipes s.m_iomap) ([] ++ [⟨false, pipes s.m_iomap⟩]) :=
      .single false _
    have hwaits : ∀ s' : Parent, Sees (pipes s.m_iomap) s'.waits → Waited (.ok (), s) s'.waits :=
      fun s' h => .of_ended h
    refine wp_mono (SubProcess.wp_callWait rfl false) ?_ ?_
    · rintro status _ ⟨_, rfl⟩
      rw [wp_pure]
      refine wp_mono (SubProcess.wp_destroy_none rfl) ?_ (fun _ _ h => h.elim)
      intro _ s' h
      exact hwaits s' (h ▸ hfirst)
    · rintro stop _ ⟨_, rfl⟩
      -- the child has not been reaped, and is waited for once more
      have hagain : ∀ (_ : Unit) (s' : Parent), s'.waits = _ → Waited (.ok (), s) s'.waits :=
        fun _ s' h => hwaits s' (h ▸ .append hfirst.same true)
      split_ifs
      · exact .of_ended hfirst
      · exact wp_mono (SubProcess.wp_destroy_some (Option.some_ne_none _)) hagain
          fun _ => hagain ()

theorem executeIn_not_spawned {e : Thrown} (h : SubProcess.spawn sys (pipes m_iomap) = .error e) :
    (endState (executeIn sys polls m_iomap (.ofPipes (pipes m_iomap)))).waits = [] := by
  refine (wp_endState (I := fun s : Parent => s.waits = [])).1 ?_
  unfold executeIn
  rw [wp_scope, wp_bind]
  refine wp_mono (SubProcess.wp_callSpawn_error h) (fun _ _ h => h.elim) ?_
  rintro _ _ ⟨rfl, rfl⟩
  rw [if_neg (Stop.thrown_ne_blocked e)]
  refine wp_mono (SubProcess.wp_destroy_none rfl) (fun _ _ h => h) (fun _ _ h => h.elim)

/-- `execute` waits with a pipe to the process closed, if and only if it is closed before anything
fails. -/
theorem released_executeIn_iff (sys : System) (polls : List PollAnswer) (m_iomap : IOMap)
    (htyped : ∀ elem ∈ m_iomap, elem.2.Typed) (fd : Nat) :
    Released fd (endState (executeIn sys polls m_iomap (.ofPipes (pipes m_iomap)))).waits ↔
      ∀ child, SubProcess.spawn sys (pipes m_iomap) = .ok child →
        Calm fd (started m_iomap child.2 polls) := by
  cases hspawn : SubProcess.spawn sys (pipes m_iomap) with
  | error e =>
      rw [executeIn_not_spawned hspawn]
      exact iff_of_true nofun nofun
  | ok child =>
      have hpolled := polled_started (SubProcess.spawn_ok hspawn).2 htyped polls
      have hwaited := @waited_executeIn m_iomap sys polls child.1 child.2 hspawn
      rcases @ioLoop_spec fd _ hpolled with ⟨hended, hcalm⟩
      simp only [Except.ok.injEq, forall_eq']
      rw [hcalm]
      cases hloop : (ioLoop (started m_iomap child.2 polls)).1 with
      | ok _ => exact iff_of_true ((hwaited.ended hloop).released fd |>.2 (hended hloop)) nofun
      | error stop =>
          cases stop with
          | blocked =>
              rw [hwaited.blocked hloop]
              exact iff_of_true nofun nofun
          | thrown e =>
              rw [hwaited.thrown e hloop]
              exact ((Sees.single true _).released fd).trans
                ⟨fun h _ _ => h, fun h => h e rfl⟩

/-- A child that has not been killed is waited for with all pipes to it closed. -/
theorem executeIn_alive (sys : System) (polls : List PollAnswer) (m_iomap : IOMap)
    (htyped : ∀ elem ∈ m_iomap, elem.2.Typed) (fd : Nat) :
    ∀ w ∈ (endState (executeIn sys polls m_iomap (.ofPipes (pipes m_iomap)))).waits,
      w.killed = false → ¬ HoldsPipe fd w.m_fdmap := by
  cases hspawn : SubProcess.spawn sys (pipes m_iomap) with
  | error e =>
      rw [executeIn_not_spawned hspawn]
      exact nofun
  | ok child =>
      have hpolled := polled_started (SubProcess.spawn_ok hspawn).2 htyped polls
      have hwaited := @waited_executeIn m_iomap sys polls child.1 child.2 hspawn
      intro w hw halive
      cases hloop : (ioLoop (started m_iomap child.2 polls)).1 with
      | ok _ =>
          rw [(hwaited.ended hloop).same w hw]
          exact (@ioLoop_spec fd _ hpolled).1 hloop
      | error stop =>
          cases stop with
          | blocked =>
              rw [hwaited.blocked hloop] at hw
              cases hw
          | thrown e =>
              rw [hwaited.thrown e hloop] at hw
              rw [List.mem_singleton.1 hw] at halive
              cases halive

theorem execute_of_spawn_error {e : Thrown}
    (h : SubProcess.spawn sys (pipes m_iomap) = .error e) :
    execute sys polls m_iomap = .error (.thrown e) := by
  unfold pipes at h
  unfold execute
  rw [h]
  rfl

theorem execute_of_spawn_ok {child : Nat × FdMap}
    (h : SubProcess.spawn sys (pipes m_iomap) = .ok child) :
    execute sys polls m_iomap = (do
      (ioLoop (started m_iomap child.2 polls)).1
      let status ← (SubProcess.wait sys child.1).mapError Stop.thrown
      pure (UInt8.ofNat (WEXITSTATUS status))) := by
  unfold pipes at h
  unfold execute
  rw [h]
  rfl

/-- What becomes of the process makes no difference to the result. -/
theorem wp_executeIn (sys : System) (polls : List PollAnswer) (m_iomap : IOMap) :
    wp (executeIn sys polls m_iomap) (fun code _ => execute sys polls m_iomap = .ok code)
      (fun _ _ => ∀ code, execute sys polls m_iomap ≠ .ok code) (.ofPipes (pipes m_iomap)) := by
  have hthrow : ∀ {P : Prop} (stop : Stop) (s : Parent), P →
      if stop = .blocked then P
      else wp (SubProcess.destroy sys) (fun _ _ => P) (fun _ _ => P) s := by
    intro P stop s h
    split_ifs
    · exact h
    · exact wp_intro (fun _ _ _ => h) (fun _ _ _ => h)
  -- the destructor runs on the way out, unless the parent blocks for ever
  unfold executeIn
  rw [wp_scope, wp_bind]
  cases hspawn : SubProcess.spawn sys (pipes m_iomap) with
  | error e =>
      rw [execute_of_spawn_error hspawn]
      refine wp_mono (SubProcess.wp_callSpawn_error hspawn) (fun _ _ h => h.elim) ?_
      exact fun stop s' _ => hthrow stop s' fun _ => error_ne_ok
  | ok child =>
      rw [execute_of_spawn_ok hspawn]
      refine wp_mono (SubProcess.wp_callSpawn_ok hspawn) ?_ (fun _ _ h => h.elim)
      rintro _ _ rfl
      simp only [wp_bind, wp_get, wp_modify, wp_ofExcept]
      rcases ioLoop (started m_iomap child.2 polls) with ⟨stop | _, s⟩
      · exact hthrow stop _ fun _ => error_ne_ok
      · refine wp_mono (SubProcess.wp_callWait rfl false) ?_ ?_
        · rintro status _ ⟨hstatus, rfl⟩
          rw [wp_pure, hstatus]
          exact wp_mono (SubProcess.wp_destroy_none rfl) (fun _ _ _ => rfl) (fun _ _ h => h.elim)
        · rintro stop s' ⟨hfailed, _⟩
          refine hthrow stop s' ?_
          cases hstatus : SubProcess.wait sys child.1 with
          | ok status => exact (hfailed status hstatus).elim
          | error e => exact fun _ => error_ne_ok

end Waits

end ProcessFilter

end Process
end Kdump

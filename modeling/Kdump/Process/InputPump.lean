import Kdump.Process.FilterLoop

/-!
# InputPump — what a child is sent from a stream

`IStream::handleEvents` moves a stream into a pipe, a buffer at a time.  `write()` may take less
than it is offered; the rest of the buffer is for the next calls.  At the end of the stream,
however, there is no next call.

* `IStream.Pass` — a call of `handleEvents`, with any table of descriptors;
* `IStream.Whole` — the invariant: what was sent, the buffer and the rest are the stream;
* `closing_pass` — a call that closes the pipe;
* `run_ioLoop` — the loop makes such calls;
* `ioLoop_sends` — the child gets the beginning of the stream, in order;
* `delivers_iff` — and when it gets all of it.
-/

namespace Kdump
namespace Process

open Lib Transfer

namespace IStream

/-- One call of `handleEvents`.  What the table says about the pipe is arbitrary. -/
def Pass (self self' : IStream) : Prop :=
  ∃ io io', handleEvents (self, io) = .ok () (self', io')

/-- Nothing has been read from the stream. -/
structure Fresh (input : ByteVector) (elem : IStream) : Prop where
  rest : elem.m_input.rest = input
  buf : elem.buf = []
  sent : elem.sent = []

/-- The parent can still write to the pipe. -/
def IsOpen (self : IStream) : Prop :=
  self.m_pipe.writeEnd ≠ none

instance (self : IStream) : Decidable self.IsOpen :=
  inferInstanceAs (Decidable (_ ≠ _))

/-- The next `write()` takes all of the bytes. -/
def TakesAll (answers : List WriteAnswer) (bytes : ByteVector) : Prop :=
  match answers with
  | .ok cnt :: _ => bytes.length ≤ cnt
  | .error _ :: _ => bytes = []
  | [] => True

/-! ## The invariant -/

/-- Every byte of the stream is in one place. -/
structure Whole (input : ByteVector) (elem : IStream) : Prop where
  whole : elem.sent ++ elem.buf ++ elem.m_input.rest = input
  /-- the end of the stream is seen in the call that closes the pipe -/
  buffered : elem.IsOpen → elem.buf ≠ [] → elem.m_input.eof = false

variable {input : ByteVector} {self self' : IStream}

theorem Fresh.whole (h : Fresh input self) : Whole input self where
  whole := by rw [h.sent, h.buf, h.rest, List.nil_append, List.nil_append]
  buffered _ hbuf := absurd h.buf hbuf

theorem Whole.sent_prefix (h : Whole input self) : self.sent <+: input := by
  rw [← h.whole, List.append_assoc]
  exact List.prefix_append _ _

/-! ## One call -/

/-- The bytes that a `write()` takes. -/
def taken (answers : List WriteAnswer) (bytes : ByteVector) : ByteVector :=
  match answers with
  | .ok cnt :: _ => bytes.take cnt
  | .error _ :: _ => []
  | [] => bytes

theorem taken_eq_self_iff (answers : List WriteAnswer) (bytes : ByteVector) :
    taken answers bytes = bytes ↔ TakesAll answers bytes := by
  match answers with
  | .ok cnt :: _ => exact List.take_eq_self_iff bytes
  | .error _ :: _ => exact eq_comm
  | [] => exact iff_of_true rfl trivial

variable {s : IStream × MultiplexIO}

/-- The stream behind a buffer underflow. -/
structure Filled (s s' : IStream × MultiplexIO) : Prop where
  whole : s'.1.buf ++ s'.1.m_input.rest = s.1.m_input.rest
  eof : s'.1.m_input.eof = true → s'.1.m_input.rest = []
  sent : s'.1.sent = s.1.sent
  answers : s'.1.answers = s.1.answers
  m_pipe : s'.1.m_pipe = s.1.m_pipe

theorem underflow_spec : wp underflow (fun _ s' => Filled s s') (fun _ _ => True) s := by
  unfold underflow InputStream.read
  simp only [wp_bind, wp_get, wp_set]
  cases s.1.m_input.failure s.1.m_input.rest.length with
  | some errno => trivial
  | none =>
      refine ⟨List.take_append_drop _ _, fun heof => ?_, rfl, rfl, rfl⟩
      exact List.drop_eq_nil_of_le (Nat.le_of_lt (of_decide_eq_true heof))

/-- The state behind a `write()`. -/
structure Written (s s' : IStream × MultiplexIO) : Prop where
  sent : s'.1.sent = s.1.sent ++ taken s.1.answers s.1.buf
  whole : taken s.1.answers s.1.buf ++ s'.1.buf = s.1.buf
  m_input : s'.1.m_input = s.1.m_input
  m_pipe : s'.1.m_pipe = s.1.m_pipe

theorem writeSome_spec : wp writeSome (fun _ s' => Written s s') (fun _ _ => True) s := by
  unfold writeSome
  simp only [wp_bind, wp_get]
  rcases hanswers : s.1.answers with _ | ⟨errno | cnt, answers⟩
  · have htaken : taken s.1.answers s.1.buf = s.1.buf := by rw [hanswers, taken]
    exact ⟨by rw [htaken], by rw [htaken, List.append_nil], rfl, rfl⟩
  · trivial
  · have htaken : taken s.1.answers s.1.buf = s.1.buf.take cnt := by rw [hanswers, taken]
    exact ⟨by rw [htaken], by rw [htaken]; exact List.take_append_drop cnt s.1.buf, rfl, rfl⟩

/-- The pipe is closed at the end of the stream, and nothing else changes. -/
structure Ended (s s' : IStream × MultiplexIO) : Prop where
  sent : s'.1.sent = s.1.sent
  buf : s'.1.buf = s.1.buf
  m_input : s'.1.m_input = s.1.m_input
  m_pipe : s'.1.m_pipe = if s.1.m_input.eof = true then s.1.m_pipe.close else s.1.m_pipe

theorem closeAtEnd_spec : wp closeAtEnd (fun _ s' => Ended s s') (fun _ _ => True) s := by
  unfold closeAtEnd
  simp only [wp_bind, wp_get]
  split_ifs with heof
  · exact ⟨rfl, rfl, rfl, (if_pos heof).symm⟩
  · exact ⟨rfl, rfl, rfl, (if_neg heof).symm⟩

/-- A call that closes the pipe gives the child no more than one `write()` takes. -/
def ClosesWith (input : ByteVector) (self self' : IStream) : Prop :=
  self.sent ++ self.m_input.rest = input ∧
    self'.sent = self.sent ++ taken self.answers self.m_input.rest

variable {s₁ s₂ s₃ : IStream × MultiplexIO}

/-- A `write()` keeps every byte in one place. -/
theorem whole_written (h : s₁.1.sent ++ s₁.1.buf ++ s₁.1.m_input.rest = input)
    (hwritten : Written s₁ s₂) (hended : Ended s₂ s₃) : Whole input s₃.1 := by
  refine ⟨?_, fun hopen _ => ?_⟩
  · calc s₃.1.sent ++ s₃.1.buf ++ s₃.1.m_input.rest
      _ = s₂.1.sent ++ s₂.1.buf ++ s₂.1.m_input.rest := by
          rw [hended.sent, hended.buf, hended.m_input]
      _ = s₁.1.sent ++ (taken s₁.1.answers s₁.1.buf ++ s₂.1.buf) ++ s₁.1.m_input.rest := by
          rw [hwritten.sent, hwritten.m_input, List.append_assoc s₁.1.sent]
      _ = input := by rw [hwritten.whole, h]
  · rw [hended.m_input]
    refine Bool.eq_false_iff.2 fun heof => hopen ?_
    rw [hended.m_pipe, if_pos heof]
    rfl

/-- The pipe is closed by the last of them only if the stream has ended. -/
theorem eof_of_closed (hwritten : Written s₁ s₂) (hended : Ended s₂ s₃) (hopen : s₁.1.IsOpen)
    (hclosed : ¬ s₃.1.IsOpen) : s₁.1.m_input.eof = true := by
  rw [← hwritten.m_input]
  by_contra heof
  rw [IsOpen, hended.m_pipe, if_neg heof, hwritten.m_pipe] at hclosed
  exact hclosed hopen

/-- What one call does. -/
theorem handleEvents_spec (h : Whole input s.1) :
    wp handleEvents
      (fun _ s' => Whole input s'.1 ∧
        (s.1.IsOpen → ¬ s'.1.IsOpen → ClosesWith input s.1 s'.1))
      (fun _ _ => True) s := by
  unfold handleEvents
  simp only [wp_bind, wp_get, wp_ofExcept]
  cases s.2.«at» s.1.pollidx with
  | error e => trivial
  | ok poll =>
      dsimp only
      by_cases hout : poll.revents.POLLOUT = true
      · rw [if_pos hout]
        by_cases hbuf : s.1.buf = []
        · -- the buffer is filled first
          rw [if_pos hbuf, wp_bind]
          refine wp_mono underflow_spec ?_ fun _ _ h => h
          intro _ s₁ hfilled
          rw [wp_bind]
          refine wp_mono writeSome_spec ?_ fun _ _ h => h
          intro _ s₂ hwritten
          refine wp_mono closeAtEnd_spec ?_ fun _ _ h => h
          intro _ s₃ hended
          have hstream : s.1.sent ++ s.1.m_input.rest = input := by
            have hwhole := h.whole
            rwa [hbuf, List.append_nil] at hwhole
          refine ⟨whole_written ?_ hwritten hended, fun hopen hclosed => ⟨hstream, ?_⟩⟩
          · rw [hfilled.sent, List.append_assoc, hfilled.whole, hstream]
          · -- the pipe is closed only at the end of the stream, which the refill has just seen
            have heof := eof_of_closed hwritten hended
              (by rw [IsOpen, hfilled.m_pipe]; exact hopen) hclosed
            have hrest := hfilled.whole
            rw [hfilled.eof heof, List.append_nil] at hrest
            rw [hended.sent, hwritten.sent, hfilled.sent, hfilled.answers, hrest]
        · -- something is left from an earlier call, which did not see the end of the stream
          rw [if_neg hbuf, wp_bind]
          refine wp_mono writeSome_spec ?_ fun _ _ h => h
          intro _ s₂ hwritten
          refine wp_mono closeAtEnd_spec ?_ fun _ _ h => h
          intro _ s₃ hended
          refine ⟨whole_written h.whole hwritten hended, fun hopen hclosed => ?_⟩
          have heof := eof_of_closed hwritten hended hopen hclosed
          exact Bool.noConfusion ((h.buffered hopen hbuf).symm.trans heof)
      · rw [if_neg hout]
        exact ⟨h, fun hopen hclosed => absurd hopen hclosed⟩

/-! ## Runs of calls -/

theorem Pass.whole (hpass : Pass self self') (h : Whole input self) : Whole input self' := by
  obtain ⟨io, io', hrun⟩ := hpass
  exact (wp_ok (@handleEvents_spec input (self, io) h) hrun).1

theorem Pass.closes (hpass : Pass self self') (h : Whole input self) (hopen : self.IsOpen)
    (hclosed : ¬ self'.IsOpen) : ClosesWith input self self' := by
  obtain ⟨io, io', hrun⟩ := hpass
  exact (wp_ok (@handleEvents_spec input (self, io) h) hrun).2 hopen hclosed

/-- The invariant holds throughout a run. -/
theorem whole_of_run (hrun : Relation.ReflTransGen Pass self self') (h : Whole input self) :
    Whole input self' := by
  induction hrun with
  | refl => exact h
  | tail _ hpass ih => exact hpass.whole ih

/-- The call that closes the pipe has sent the whole stream if its `write()` has taken all that was
left of it. -/
theorem closing_pass (h : Whole input self) (hopen : self.IsOpen) (hpass : Pass self self')
    (hclosed : ¬ self'.IsOpen) :
    self'.sent = input ↔ TakesAll self.answers self.m_input.rest := by
  obtain ⟨hstream, hsent⟩ := hpass.closes h hopen hclosed
  rw [hsent, ← hstream, List.append_right_inj, taken_eq_self_iff]

end IStream

/-! ## The loop -/

/-- A pass of the loop over an element. -/
def FilterIO.Pass : FilterIO → FilterIO → Prop
  | .input elem, .input elem' => elem.Pass elem'
  | .output _, .output _ => True
  | _, _ => False

theorem FilterIO.pass_handleEvents {elem : FilterIO} {io : MultiplexIO}
    (h : (elem.handleEvents io).result = .ok ()) : elem.Pass (elem.handleEvents io).elem := by
  cases elem with
  | input elem =>
      cases hrun : IStream.handleEvents (elem, io) with
      | ok _ s' =>
          rw [handleEvents_input_ok hrun]
          exact ⟨io, s'.2, hrun⟩
      | error e s' =>
          rw [handleEvents_input_error hrun] at h
          cases h
  | output elem =>
      cases hrun : OStream.handleEvents (elem, io) with
      | ok _ s' =>
          rw [handleEvents_output_ok hrun]
          trivial
      | error e s' =>
          rw [handleEvents_output_error hrun] at h
          cases h

namespace ProcessFilter

/-- The element of a descriptor, before and after. -/
abbrev Related (R : FilterIO → FilterIO → Prop) (a b : Nat × FilterIO) : Prop :=
  a.1 = b.1 ∧ R a.2 b.2

/-- A pass of the loop is a call for each stream. -/
theorem pass_handleAll {m_iomap : IOMap} {io : MultiplexIO}
    (h : (handleAll m_iomap io).1 = .ok ()) :
    List.Forall₂ (Related FilterIO.Pass) m_iomap (handleAll m_iomap io).2.1 := by
  induction m_iomap generalizing io with
  | nil => exact .nil
  | cons elem m_iomap ih =>
      obtain ⟨fd, elem⟩ := elem
      rw [handleAll] at h ⊢
      cases hresult : (elem.handleEvents io).result with
      | error e =>
          rw [hresult] at h
          cases h
      | ok _ =>
          rw [hresult] at h
          exact .cons ⟨rfl, FilterIO.pass_handleEvents hresult⟩ (ih h)

theorem related_refl (m_iomap : IOMap) :
    List.Forall₂ (Related (Relation.ReflTransGen FilterIO.Pass)) m_iomap m_iomap :=
  List.forall₂_same.2 fun _ _ => ⟨rfl, .refl⟩

theorem related_trans {m_iomap m_iomap₁ m_iomap' : IOMap}
    (h : List.Forall₂ (Related FilterIO.Pass) m_iomap m_iomap₁)
    (h' : List.Forall₂ (Related (Relation.ReflTransGen FilterIO.Pass)) m_iomap₁ m_iomap') :
    List.Forall₂ (Related (Relation.ReflTransGen FilterIO.Pass)) m_iomap m_iomap' := by
  induction h generalizing m_iomap' with
  | nil => exact h'
  | cons hhere _ ih =>
      cases h' with
      | cons hhere' hmore' =>
          exact .cons ⟨hhere.1.trans hhere'.1, .head hhere.2 hhere'.2⟩ (ih hmore')

/-- The loop, as far as it goes on, is a run of calls for each stream. -/
theorem run_ioLoop {s : FilterState} (h : (ioLoop s).1 = .ok ()) :
    List.Forall₂ (Related (Relation.ReflTransGen FilterIO.Pass)) s.m_iomap
      (ioLoop s).2.m_iomap := by
  fun_induction ioLoop s with
  | case1 s hactive => exact related_refl _
  | case2 s hactive stop hmonitor => cases h
  | case3 s hactive polls io hmonitor e m_iomap io' hall => cases h
  | case4 s hactive polls io hmonitor m_iomap io' hall ih =>
      have hpass := @pass_handleAll s.m_iomap io (by rw [hall])
      rw [hall] at hpass
      exact related_trans hpass (ih h)

end ProcessFilter

namespace IStream

variable {input : ByteVector} {elem elem' : FilterIO}

/-- An element whose stream is whole. -/
def WholeIO (input : ByteVector) : FilterIO → Prop
  | .input elem => Whole input elem
  | .output _ => False

theorem wholeIO_of_run (hrun : Relation.ReflTransGen FilterIO.Pass elem elem')
    (h : WholeIO input elem) : WholeIO input elem' := by
  induction hrun with
  | refl => exact h
  | @tail elem₁ elem₂ _ hpass ih =>
      cases elem₁ with
      | output _ => cases ih
      | input elem₁ =>
          cases elem₂ with
          | output _ => cases hpass
          | input elem₂ => exact hpass.whole ih

end IStream

/-! ## What the child gets -/

/-- Whatever `write()` answers, the child is sent the beginning of the stream, in order and every
byte once. -/
theorem ProcessFilter.ioLoop_sends {s : FilterState} (h : (ioLoop s).1 = .ok ()) :
    List.Forall₂ (fun a b => ∀ input self, a.2 = .input self → IStream.Fresh input self →
      ∃ self', b.2 = .input self' ∧ self'.sent <+: input) s.m_iomap (ioLoop s).2.m_iomap := by
  refine (run_ioLoop h).imp ?_
  rintro ⟨fd, a⟩ ⟨fd', b⟩ ⟨_, hrun⟩ input self hself hfresh
  have hself : a = .input self := hself
  have hwhole : IStream.WholeIO input b :=
    IStream.wholeIO_of_run hrun (by rw [hself]; exact hfresh.whole)
  cases b with
  | input self' => exact ⟨self', rfl, hwhole.sent_prefix⟩
  | output _ => cases hwhole

/-- When the pipe is closed, the child has been sent the whole stream, if and only if the last
`write()` has taken all that it was offered. -/
theorem delivers_iff {input : ByteVector} {start self self' : IStream}
    (hfresh : IStream.Fresh input start) (hrun : Relation.ReflTransGen IStream.Pass start self)
    (hopen : self.IsOpen) (hpass : IStream.Pass self self') (hclosed : ¬ self'.IsOpen) :
    self'.sent = input ↔ IStream.TakesAll self.answers self.m_input.rest :=
  IStream.closing_pass (IStream.whole_of_run hrun hfresh.whole) hopen hpass hclosed

/-- A stream of two bytes, and one answer of `write()`. -/
def twoBytes (cnt : Nat) : IStream where
  m_pipe := ⟨.parentToChild, none, some 5⟩
  m_input := ⟨[97, 98], false, fun _ => none⟩
  pollidx := 0
  buf := []
  answers := [.ok cnt]
  sent := []

/-- The pipe is ready. -/
def ready : MultiplexIO where
  m_fds := [⟨some 5, { POLLOUT := true }, { POLLOUT := true }⟩]
  m_active := 1

/-- What is left of it, when the pipe has been closed. -/
def afterwards (cnt : Nat) : IStream where
  m_pipe := ⟨.parentToChild, none, none⟩
  m_input := ⟨[], true, fun _ => none⟩
  pollidx := 0
  buf := [97, 98].drop cnt
  answers := []
  sent := [97, 98].take cnt

theorem pass_twoBytes (cnt : Nat) : (twoBytes cnt).Pass (afterwards cnt) :=
  ⟨ready, ready.deactivate 0, rfl⟩

theorem delivers_two : (afterwards 2).sent = [97, 98] ↔
    IStream.TakesAll (twoBytes 2).answers (twoBytes 2).m_input.rest :=
  delivers_iff ⟨rfl, rfl, rfl⟩ .refl (by decide) (pass_twoBytes 2) (by decide)

/-- The end of the stream closes the pipe, with a byte still in the buffer. -/
theorem last_byte_lost :
    IStream.Fresh [97, 98] (twoBytes 1) ∧ (twoBytes 1).IsOpen ∧
      (twoBytes 1).Pass (afterwards 1) ∧ ¬ (afterwards 1).IsOpen ∧
      (afterwards 1).sent = [97] ∧ (afterwards 1).sent ≠ [97, 98] :=
  ⟨⟨rfl, rfl, rfl⟩, by decide, pass_twoBytes 1, by decide, rfl, by decide⟩

end Process
end Kdump

import Kdump.Process.FilterLoop

/-!
# OutputPump — what the streams get from a child

`OStream::handleEvents` moves what is in a pipe into a stream.  The loop of `execute` goes on as
long as `m_active` is positive; so the pipes have to be counted right, whatever `poll()` reports and
however much each `read()` gives.

* `OStream.Effect` and `OStream.effect` — what a call of `handleEvents` does;
* `Run` — the passes of the loop, with the calls that are made;
* `Pumped` — the invariant for one stream, and `Pumping` for all of them;
* `pumping_run` — it holds throughout the loop;
* `outputs_pumped` — what the streams get, and when the loop ends.
-/

namespace Kdump
namespace Process

open Lib Transfer

namespace OStream

/-! ## One call -/

/-- What a call of `handleEvents` does. -/
inductive Effect where
  /-- nothing has happened -/
  | idle
  | wrote (bytes : ByteVector)
  /-- the pipe is closed and deactivated -/
  | ended
  deriving DecidableEq

/-- What the stream gets. -/
def Effect.bytes : Effect → ByteVector
  | .wrote bytes => bytes
  | _ => []

/-- What becomes of the table. -/
def Effect.table (idx : Nat) (io : MultiplexIO) : Effect → MultiplexIO
  | .ended => io.deactivate idx
  | _ => io

/-- What the next `read()` gives. -/
def nextRead : List (Except Errno ByteVector) → ByteVector
  | .ok bytes :: _ => bytes.take BUFSIZ
  | _ => []

/-- The answers that are left then. -/
def afterRead : List (Except Errno ByteVector) → List (Except Errno ByteVector)
  | .ok bytes :: incoming =>
      (if BUFSIZ < bytes.length then [.ok (bytes.drop BUFSIZ)] else []) ++ incoming
  | incoming => incoming

def effect (self : OStream) (revents : Events) : Effect :=
  if revents.POLLIN = true then
    if nextRead self.incoming = [] then .ended else .wrote (nextRead self.incoming)
  else if revents.POLLHUP = true then
    .ended
  else
    .idle

/-- What there is in the pipe, up to its end. -/
def content : List (Except Errno ByteVector) → ByteVector
  | [] => []
  | .error _ :: _ => []
  | .ok bytes :: incoming => if bytes = [] then [] else bytes ++ content incoming

/-- `poll()` does not report a mere hang-up for a pipe with something in it. -/
def Drained (self : OStream) (revents : Events) : Prop :=
  revents.POLLIN = false → revents.POLLHUP = true → content self.incoming = []

theorem nextRead_eq_nil_iff (bytes : ByteVector) (incoming : List (Except Errno ByteVector)) :
    nextRead (.ok bytes :: incoming) = [] ↔ bytes = [] := by
  have hbufsiz : BUFSIZ ≠ 0 := by decide
  rw [nextRead, List.take_eq_nil_iff]
  exact or_iff_right hbufsiz

theorem content_eq_nil {incoming : List (Except Errno ByteVector)} (h : nextRead incoming = []) :
    content incoming = [] := by
  match incoming with
  | [] => rfl
  | .error _ :: _ => rfl
  | .ok bytes :: incoming => exact if_pos ((nextRead_eq_nil_iff bytes incoming).1 h)

theorem content_read {incoming : List (Except Errno ByteVector)} (h : nextRead incoming ≠ []) :
    content incoming = nextRead incoming ++ content (afterRead incoming) := by
  match incoming with
  | [] => exact absurd rfl h
  | .error _ :: _ => exact absurd rfl h
  | .ok bytes :: incoming =>
      have hne : bytes ≠ [] := mt (nextRead_eq_nil_iff bytes incoming).2 h
      rw [content, if_neg hne, nextRead, afterRead]
      by_cases hlong : BUFSIZ < bytes.length
      · have hdrop : bytes.drop BUFSIZ ≠ [] :=
          mt List.drop_eq_nil_iff.1 (Nat.not_le_of_lt hlong)
        rw [if_pos hlong, List.singleton_append, content, if_neg hdrop, ← List.append_assoc,
          List.take_append_drop]
      · rw [if_neg hlong, List.nil_append, List.take_of_length_le (Nat.le_of_not_lt hlong)]

/-- A pipe is at its end when it is closed. -/
theorem content_of_ended {self : OStream} {revents : Events} (h : self.effect revents = .ended)
    (hdrained : self.Drained revents) : content self.incoming = [] := by
  unfold effect at h
  split_ifs at h with hin hread hhup
  · exact content_eq_nil hread
  · exact hdrained (Bool.eq_false_iff.2 hin) hhup

theorem effect_of_quiet (self : OStream) : self.effect {} = .idle := rfl

/-- A call has done what `effect` says. -/
structure Did (effect : Effect) (s s' : OStream × MultiplexIO) : Prop where
  pollidx : s'.1.pollidx = s.1.pollidx
  m_output : s'.1.m_output = s.1.m_output ++ effect.bytes
  io : s'.2 = effect.table s.1.pollidx s.2
  content : effect ≠ .ended → content s.1.incoming = effect.bytes ++ content s'.1.incoming

variable {s : OStream × MultiplexIO}

theorem readSome_spec : wp readSome
    (fun bytes s' => bytes = nextRead s.1.incoming ∧
      s' = ({ s.1 with incoming := afterRead s.1.incoming }, s.2))
    (fun _ _ => True) s := by
  unfold readSome
  simp only [wp_bind, wp_get]
  obtain ⟨⟨m_pipe, m_output, pollidx, incoming⟩, io⟩ := s
  rcases incoming with _ | ⟨errno | bytes, incoming⟩
  · exact ⟨rfl, rfl⟩
  · trivial
  · exact ⟨rfl, rfl⟩

theorem handleEvents_spec {poll : PollFd} (hpoll : s.2.m_fds[s.1.pollidx]? = some poll) :
    wp handleEvents (fun _ s' => Did (s.1.effect poll.revents) s s') (fun _ _ => True) s := by
  unfold handleEvents MultiplexIO.«at» effect
  simp only [wp_bind, wp_get, wp_ofExcept]
  rw [hpoll]
  dsimp only
  by_cases hin : poll.revents.POLLIN = true
  · rw [if_pos hin, if_pos hin, wp_bind]
    refine wp_mono readSome_spec ?_ fun _ _ h => h
    rintro _ _ ⟨rfl, rfl⟩
    unfold deliver
    simp only [wp_bind, wp_get]
    by_cases hread : nextRead s.1.incoming = []
    · rw [if_pos hread, if_pos hread]
      exact ⟨rfl, (List.append_nil _).symm, rfl, fun h => absurd rfl h⟩
    · rw [if_neg hread, if_neg hread]
      exact ⟨rfl, rfl, rfl, fun _ => content_read hread⟩
  · rw [if_neg hin, if_neg hin]
    by_cases hhup : poll.revents.POLLHUP = true
    · rw [if_pos hhup, if_pos hhup]
      exact ⟨rfl, (List.append_nil _).symm, rfl, fun h => absurd rfl h⟩
    · rw [if_neg hhup, if_neg hhup]
      exact ⟨rfl, (List.append_nil _).symm, rfl, fun _ => rfl⟩

/-! ## A stream -/

/-- What a stream gets from its calls. -/
def written (history : List Effect) : ByteVector :=
  history.flatMap Effect.bytes

theorem written_snoc (history : List Effect) (effect : Effect) :
    written (history ++ [effect]) = written history ++ effect.bytes := by
  rw [written, List.flatMap_append, List.flatMap_singleton]
  rfl

/-- The invariant for one stream: it has got what the pipe has given so far.  `truthful` is what is
known of `poll()`. -/
structure Pumped (truthful : Prop) (start elem : OStream) (history : List Effect)
    (io : MultiplexIO) : Prop where
  m_output : elem.m_output = start.m_output ++ written history
  /-- as long as the pipe is polled, what is left of it is to come -/
  live : io.fdAt elem.pollidx ≠ none →
    .ended ∉ history ∧ content start.incoming = written history ++ content elem.incoming
  /-- afterwards nothing is to come -/
  closed : io.fdAt elem.pollidx = none →
    history.count .ended = 1 ∧ written history <+: content start.incoming ∧
      (truthful → written history = content start.incoming)

namespace Pumped

variable {truthful : Prop} {start self self' : OStream} {history : List Effect}
  {io io' : MultiplexIO}

/-- The other places of the table do not matter. -/
theorem frame (h : Pumped truthful start self history io)
    (hsame : io'.fdAt self.pollidx = io.fdAt self.pollidx) :
    Pumped truthful start self history io' where
  m_output := h.m_output
  live hlive := h.live (hsame ▸ hlive)
  closed hclosed := h.closed (hsame ▸ hclosed)

/-- Before the first call. -/
theorem fresh (hout : self.m_output = start.m_output) (hin : self.incoming = start.incoming)
    (hpolled : io.fdAt self.pollidx ≠ none) : Pumped truthful start self [] io where
  m_output := hout.trans (List.append_nil _).symm
  live _ := ⟨List.not_mem_nil, congrArg content hin.symm⟩
  closed hclosed := absurd hclosed hpolled

/-- One call keeps the invariant. -/
theorem call {poll : PollFd} (h : Pumped truthful start self history io)
    (hpoll : io.m_fds[self.pollidx]? = some poll) (hquiet : poll.fd = none → poll.revents = {})
    (hdrained : truthful → self.Drained poll.revents)
    (hdid : Did (self.effect poll.revents) (self, io) (self', io')) :
    Pumped truthful start self' (history ++ [self.effect poll.revents]) io' := by
  have hidx : self'.pollidx = self.pollidx := hdid.pollidx
  have hio : io' = (self.effect poll.revents).table self.pollidx io := hdid.io
  have hout : self'.m_output = start.m_output ++ written (history ++ [self.effect poll.revents]) :=
    calc self'.m_output
      _ = self.m_output ++ (self.effect poll.revents).bytes := hdid.m_output
      _ = start.m_output ++ written history ++ (self.effect poll.revents).bytes := by
          rw [h.m_output]
      _ = start.m_output ++ written (history ++ [self.effect poll.revents]) := by
          rw [written_snoc, List.append_assoc]
  have hfd : io.fdAt self.pollidx = poll.fd := by
    rw [ MultiplexIO.fdAt, hpoll]
    rfl
  have hcontent : self.effect poll.revents ≠ .ended →
      content self.incoming = (self.effect poll.revents).bytes ++ content self'.incoming :=
    hdid.content
  -- only the end of the input takes the pipe off the table; anything else leaves the table alone
  by_cases hended : self.effect poll.revents = .ended
  · -- only a pipe that is polled comes to its end
    have hlive : io.fdAt self.pollidx ≠ none := by
      intro hnone
      rw [hquiet (hfd.symm.trans hnone), effect_of_quiet] at hended
      cases hended
    obtain ⟨hnot, hrest⟩ := h.live hlive
    have hgone : io'.fdAt self'.pollidx = none := by
      rw [hidx, hio, hended]
      exact MultiplexIO.fdAt_deactivate_self _ _
    have hwritten : written (history ++ [self.effect poll.revents]) = written history := by
      rw [written_snoc, hended]
      exact List.append_nil _
    refine ⟨hout, fun hlive' => absurd hgone hlive', fun _ => ⟨?_, ?_, ?_⟩⟩
    · rw [hended, List.count_append, List.count_eq_zero.2 hnot]
      rfl
    · rw [hwritten, hrest]
      exact List.prefix_append _ _
    · intro htruthful
      rw [hwritten, hrest, content_of_ended hended (hdrained htruthful), List.append_nil]
  · -- the table stays as it is
    have hsame : io' = io := by
      rw [hio]
      cases heffect : self.effect poll.revents with
      | idle => rfl
      | wrote bytes => rfl
      | ended => exact absurd heffect hended
    rw [hsame]
    refine ⟨hout, fun hlive => ?_, fun hclosed => ?_⟩
    · obtain ⟨hnot, hrest⟩ := h.live (hidx ▸ hlive)
      refine ⟨?_, ?_⟩
      · rw [List.mem_append, List.mem_singleton]
        exact not_or.2 ⟨hnot, fun heq => hended heq.symm⟩
      · rw [written_snoc, List.append_assoc, ← hcontent hended, hrest]
    · -- a pipe that is gone is not polled, and nothing is written for it
      rw [hidx] at hclosed
      have hidle : self.effect poll.revents = .idle := by
        rw [hquiet (hfd.symm.trans hclosed), effect_of_quiet]
      have hwritten : written (history ++ [self.effect poll.revents]) = written history := by
        rw [written_snoc, hidle]
        exact List.append_nil _
      have hcount : (history ++ [self.effect poll.revents]).count .ended =
          history.count .ended := by
        rw [hidle, List.count_append]
        rfl
      rw [hwritten, hcount]
      exact h.closed hclosed

end Pumped
end OStream

/-! ## An element -/

namespace FilterIO

open OStream

/-- What handling the events of an element does; of interest for a stream only. -/
def effect (self : FilterIO) (io : MultiplexIO) : Effect :=
  match self, io.m_fds[self.pollidx]? with
  | .output elem, some poll => elem.effect poll.revents
  | _, _ => .idle

def Drained (self : FilterIO) (io : MultiplexIO) : Prop :=
  ∀ elem poll, self = .output elem → io.m_fds[elem.pollidx]? = some poll →
    elem.Drained poll.revents

/-- What `poll()` has reported for an element whose turn is yet to come. -/
structure Reported (truthful : Prop) (elem : FilterIO) (io : MultiplexIO) : Prop where
  quiet : ∀ poll, io.m_fds[elem.pollidx]? = some poll → poll.fd = none → poll.revents = {}
  drained : truthful → elem.Drained io

/-- Two streams, the first of them before the loop. -/
def Pumped (truthful : Prop) (start self : FilterIO) (history : List Effect) (io : MultiplexIO) :
    Prop :=
  ∃ a b, start = .output a ∧ self = .output b ∧ OStream.Pumped truthful a b history io

variable {truthful : Prop} {start self : FilterIO} {history : List Effect} {io io' : MultiplexIO}

theorem Reported.frame (h : self.Reported truthful io)
    (hsame : io'.m_fds[self.pollidx]? = io.m_fds[self.pollidx]?) : self.Reported truthful io' where
  quiet poll hpoll := h.quiet poll (hsame.symm.trans hpoll)
  drained htruthful elem poll hself hpoll := by
    subst hself
    exact h.drained htruthful elem poll rfl (hsame.symm.trans hpoll)

theorem Pumped.frame (h : Pumped truthful start self history io)
    (hsame : io'.m_fds[self.pollidx]? = io.m_fds[self.pollidx]?) :
    Pumped truthful start self history io' := by
  obtain ⟨a, b, hstart, rfl, hpumped⟩ := h
  exact ⟨a, b, hstart, rfl, hpumped.frame (congrArg (Option.bind · PollFd.fd) hsame)⟩

/-- One call keeps the invariant. -/
theorem Pumped.call (h : Pumped truthful start self history io)
    (hbound : self.pollidx < io.m_fds.length) (hreported : self.Reported truthful io)
    (hok : (self.handleEvents io).result = .ok ()) :
    Pumped truthful start (self.handleEvents io).elem (history ++ [self.effect io])
      (self.handleEvents io).io := by
  obtain ⟨a, b, hstart, rfl, hpumped⟩ := h
  have hpoll := List.getElem?_eq_getElem hbound
  have heffect : (output b).effect io = b.effect io.m_fds[b.pollidx].revents := by
    unfold effect
    rw [hpoll]
    rfl
  cases hrun : OStream.handleEvents (b, io) with
  | error e s' =>
      rw [handleEvents_output_error hrun] at hok
      cases hok
  | ok _ s' =>
      have hdid := wp_ok (@handleEvents_spec (b, io) _ hpoll) hrun
      rw [handleEvents_output_ok hrun, heffect]
      exact ⟨a, s'.1, hstart, rfl, hpumped.call hpoll (hreported.quiet _ hpoll)
        (fun htruthful => hreported.drained htruthful b _ rfl hpoll) hdid⟩

/-- The other places of the table stay as they are. -/
theorem getElem?_of_kept {pipe pipe' : SubProcessPipe} {idx idx' j : Nat}
    (h : Kept pipe pipe' idx idx' io io') (hne : j ≠ idx) : io'.m_fds[j]? = io.m_fds[j]? := by
  rcases h.2 with ⟨_, rfl⟩ | ⟨_, rfl⟩
  · rfl
  · exact List.getElem?_modify_ne _ _ hne.symm

/-- No place of the table comes into use again. -/
theorem fdAt_of_kept {pipe pipe' : SubProcessPipe} {idx idx' j : Nat}
    (h : Kept pipe pipe' idx idx' io io') (hj : io'.fdAt j ≠ none) : io.fdAt j ≠ none := by
  rcases h.2 with ⟨_, rfl⟩ | ⟨_, rfl⟩
  · exact hj
  · have hne : j ≠ idx := by
      rintro rfl
      exact hj ( MultiplexIO.fdAt_deactivate_self io j)
    rwa [ MultiplexIO.fdAt_deactivate_of_ne hne] at hj

end FilterIO

/-! ## The loop -/

namespace ProcessFilter

open OStream

/-- The calls of a pass, by the descriptors of the child. -/
abbrev Trace := List (Nat × Effect)

def effects : IOMap → MultiplexIO → Trace
  | [], _ => []
  | elem :: m_iomap, io =>
      (elem.1, elem.2.effect io) :: effects m_iomap (elem.2.handleEvents io).io

/-- The calls for one descriptor. -/
def history (fd : Nat) (trace : Trace) : List Effect :=
  (trace.filter fun call => call.1 = fd).map Prod.snd

theorem history_snoc_self (fd : Nat) (trace : Trace) (effect : Effect) :
    history fd (trace ++ [(fd, effect)]) = history fd trace ++ [effect] := by
  unfold history
  rw [List.filter_append, List.filter_singleton, decide_eq_true rfl, List.map_append]
  rfl

theorem history_snoc_of_ne {fd other : Nat} (h : other ≠ fd) (trace : Trace) (effect : Effect) :
    history fd (trace ++ [(other, effect)]) = history fd trace := by
  unfold history
  rw [List.filter_append, List.filter_singleton, decide_eq_false h]
  exact congrArg _ (List.append_nil _)

/-- Passes of the loop, up to the head of the loop, with the calls that have been made. -/
inductive Run (s : FilterState) : Trace → FilterState → Prop
  | start : Run s [] s
  | pass {trace : Trace} {s₁ : FilterState} {polls : List PollAnswer} {io io' : MultiplexIO}
      {m_iomap : IOMap} (run : Run s trace s₁) (active : 0 < s₁.io.m_active)
      (monitor : s₁.io.monitor s₁.polls = .ok (polls, io))
      (all : handleAll s₁.m_iomap io = (.ok (), m_iomap, io')) :
      Run s (trace ++ effects s₁.m_iomap io) ⟨m_iomap, io', polls⟩

/-- `poll()` never reports a mere hang-up for a pipe with something in it. -/
def Truthful (s : FilterState) : Prop :=
  ∀ trace s₁ polls io, Run s trace s₁ → s₁.io.monitor s₁.polls = .ok (polls, io) →
    ∀ elem ∈ s₁.m_iomap, elem.2.Drained io

/-- The invariant for all streams. -/
structure Pumping (truthful : Prop) (starts m_iomap : IOMap) (trace : Trace) (io : MultiplexIO) :
    Prop where
  polled : Polled m_iomap io
  /-- every place of the table that is in use is that of a stream -/
  owned : ∀ idx, io.fdAt idx ≠ none → ∃ elem ∈ m_iomap, elem.2.pollidx = idx
  nodup : (m_iomap.map Prod.fst).Nodup
  fds : m_iomap.map Prod.fst = starts.map Prod.fst
  pumped : ∀ elem ∈ m_iomap, ∃ start ∈ starts, start.1 = elem.1 ∧
    FilterIO.Pumped truthful start.2 elem.2 (history elem.1 trace) io

variable {truthful : Prop} {starts before m_iomap : IOMap} {trace : Trace}
  {elem : Nat × FilterIO} {io : MultiplexIO}

/-- Handling the events of one stream keeps the invariant. -/
theorem Pumping.call (h : Pumping truthful starts (before ++ elem :: m_iomap) trace io)
    (hreported : elem.2.Reported truthful io) (hok : (elem.2.handleEvents io).result = .ok ())
    (hkept : FilterIO.Kept elem.2.m_pipe (elem.2.handleEvents io).elem.m_pipe elem.2.pollidx
      (elem.2.handleEvents io).elem.pollidx io (elem.2.handleEvents io).io) :
    Pumping truthful starts (before ++ (elem.1, (elem.2.handleEvents io).elem) :: m_iomap)
      (trace ++ [(elem.1, elem.2.effect io)]) (elem.2.handleEvents io).io := by
  have hmem : elem ∈ before ++ elem :: m_iomap :=
    List.mem_append_right _ List.mem_cons_self
  have hkeys : (before ++ (elem.1, (elem.2.handleEvents io).elem) :: m_iomap).map Prod.fst =
      (before ++ elem :: m_iomap).map Prod.fst := by
    rw [List.map_append, List.map_append, List.map_cons, List.map_cons]
  have hplaces :
      (before ++ (elem.1, (elem.2.handleEvents io).elem) :: m_iomap).map (fun a => a.2.pollidx) =
        (before ++ elem :: m_iomap).map fun a => a.2.pollidx := by
    rw [List.map_append, List.map_append, List.map_cons, List.map_cons, hkept.1]
  -- the keys and the places of the map stay as they are; only the stream itself changes
  refine ⟨h.polled.kept hkept, ?_, hkeys ▸ h.nodup, hkeys.trans h.fds, ?_⟩
  · intro idx hidx
    obtain ⟨other, hother, rfl⟩ := h.owned idx ( FilterIO.fdAt_of_kept hkept hidx)
    have hplace : other.2.pollidx ∈ (before ++ elem :: m_iomap).map fun a => a.2.pollidx :=
      List.mem_map_of_mem hother
    rw [← hplaces] at hplace
    exact List.mem_map.1 hplace
  intro other hother
  rcases List.mem_cons.1 (List.perm_middle.mem_iff.1 hother) with rfl | hother
  · -- the stream itself
    obtain ⟨start, hstart, hfd, hpumped⟩ := h.pumped elem hmem
    refine ⟨start, hstart, hfd, ?_⟩
    rw [history_snoc_self]
    exact hpumped.call (h.polled.bound elem hmem) hreported hok
  · -- one of the others
    have hmem' : other ∈ before ++ elem :: m_iomap :=
      List.perm_middle.mem_iff.2 (List.mem_cons_of_mem _ hother)
    have hne : elem.1 ≠ other.1 := by
      have hnodup := h.nodup
      rw [List.map_append, List.map_cons, List.nodup_middle, ← List.map_append] at hnodup
      intro heq
      exact (List.nodup_cons.1 hnodup).1 (heq ▸ List.mem_map_of_mem hother)
    obtain ⟨start, hstart, hfd, hpumped⟩ := h.pumped other hmem'
    refine ⟨start, hstart, hfd, ?_⟩
    rw [history_snoc_of_ne hne]
    exact hpumped.frame ( FilterIO.getElem?_of_kept hkept (h.polled.ne_pollidx hother))

/-- A pass keeps the invariant. -/
theorem pumping_handleAll (m_iomap before : IOMap) (trace : Trace) (io : MultiplexIO)
    (h : Pumping truthful starts (before ++ m_iomap) trace io)
    (hreported : ∀ elem ∈ m_iomap, elem.2.Reported truthful io)
    (hok : (handleAll m_iomap io).1 = .ok ()) :
    Pumping truthful starts (before ++ (handleAll m_iomap io).2.1) (trace ++ effects m_iomap io)
      (handleAll m_iomap io).2.2 := by
  induction m_iomap generalizing before trace io with
  | nil =>
      rw [effects, List.append_nil]
      exact h
  | cons elem m_iomap ih =>
      have hbound := h.polled.bound elem (List.mem_append_right _ List.mem_cons_self)
      by_cases hfails : elem.2.Fails io
      · rcases FilterIO.handleEvents_of_fails hbound hfails with ⟨⟨e, he⟩, _⟩
        rw [handleAll_cons_error he] at hok
        cases hok
      · rcases FilterIO.handleEvents_of_not_fails hbound hfails with ⟨hhere, hkept⟩
        rw [handleAll_cons_ok hhere] at hok ⊢
        have hnext := h.call (hreported elem List.mem_cons_self) hhere hkept
        have hmore : ∀ other ∈ m_iomap, other.2.Reported truthful (elem.2.handleEvents io).io := by
          intro other hother
          refine (hreported other (List.mem_cons_of_mem _ hother)).frame ?_
          exact FilterIO.getElem?_of_kept hkept
            (h.polled.ne_pollidx (List.mem_append_right _ hother))
        rw [List.append_cons] at hnext
        rw [effects, List.append_cons, List.append_cons trace]
        exact ih _ _ _ hnext hmore hok

/-- Before a pass, `poll()` is asked. -/
theorem Pumping.report (h : Pumping truthful starts m_iomap trace io) (happened : List Events) :
    Pumping truthful starts m_iomap trace (io.report happened) := by
  refine ⟨h.polled.report happened, ?_, h.nodup, h.fds, ?_⟩
  · intro idx hidx
    rw [ MultiplexIO.fdAt_report] at hidx
    exact h.owned idx hidx
  · intro elem helem
    obtain ⟨start, hstart, hfd, a, b, ha, hb, hpumped⟩ := h.pumped elem helem
    exact ⟨start, hstart, hfd, a, b, ha, hb, hpumped.frame ( MultiplexIO.fdAt_report _ _)⟩

theorem quiet_report (io : MultiplexIO) (happened : List Events) {idx : Nat} {poll : PollFd}
    (hpoll : (io.report happened).m_fds[idx]? = some poll) (hfd : poll.fd = none) :
    poll.revents = {} := by
  unfold MultiplexIO.report at hpoll
  rw [List.getElem?_mapIdx] at hpoll
  obtain ⟨before, _, rfl⟩ := Option.map_eq_some_iff.1 hpoll
  have hfd : before.fd = none := hfd
  dsimp only
  rw [hfd]
  rfl

variable {s s' : FilterState}

/-- The invariant holds at the head of the loop, in any run. -/
theorem pumping_run (hrun : Run s trace s') (h : Pumping truthful starts s.m_iomap [] s.io)
    (htruthful : truthful → Truthful s) : Pumping truthful starts s'.m_iomap trace s'.io := by
  induction hrun with
  | start => exact h
  | @pass trace s₁ polls io io' m_iomap run _ monitor all ih =>
      have hreported : ∀ elem ∈ s₁.m_iomap, elem.2.Reported truthful io := by
        intro elem helem
        refine ⟨?_, fun ht => htruthful ht trace s₁ polls io run monitor elem helem⟩
        obtain ⟨happened, rfl⟩ := monitor_ok monitor
        exact fun poll => quiet_report s₁.io happened
      obtain ⟨happened, rfl⟩ := monitor_ok monitor
      have hpass := pumping_handleAll s₁.m_iomap [] trace _ (ih.report happened) hreported
        (by rw [all])
      rwa [all] at hpass

/-- A pipe is at its end if and only if it has been deactivated. -/
theorem ended_iff {start self : OStream} {calls : List Effect}
    (h : Pumped truthful start self calls io) :
    .ended ∈ calls ↔ io.fdAt self.pollidx = none := by
  constructor
  · intro hmem
    by_contra hlive
    exact (h.live hlive).1 hmem
  · intro hclosed
    exact List.count_pos_iff.1 ((h.closed hclosed).1 ▸ Nat.one_pos)

/-- The streams whose pipes have come to their end. -/
def AllEnded (m_iomap : IOMap) (trace : Trace) : Prop :=
  ∀ elem ∈ m_iomap, .ended ∈ history elem.1 trace

/-- Nothing is polled any more if and only if all pipes have come to their end. -/
theorem Pumping.inactive_iff (h : Pumping truthful starts m_iomap trace io) :
    io.m_active ≤ 0 ↔ AllEnded starts trace := by
  have hall : AllEnded starts trace ↔ AllEnded m_iomap trace := by
    have hkeys : ∀ l : IOMap,
        AllEnded l trace ↔ ∀ fd ∈ l.map Prod.fst, .ended ∈ history fd trace := by
      intro l
      rw [List.forall_mem_map]
      rfl
    rw [hkeys, hkeys, h.fds]
  rw [hall]
  constructor
  · intro hactive elem helem
    obtain ⟨start, _, _, a, b, _, hb, hpumped⟩ := h.pumped elem helem
    exact (ended_iff hpumped).2 ( MultiplexIO.fdAt_of_inactive h.polled.counted hactive _)
  · intro hended
    by_contra hactive
    obtain ⟨idx, hidx⟩ := MultiplexIO.exists_fdAt h.polled.counted (Int.not_le.1 hactive)
    obtain ⟨elem, helem, rfl⟩ := h.owned idx hidx
    obtain ⟨start, _, _, a, b, _, hb, hpumped⟩ := h.pumped elem helem
    rw [hb] at hidx
    exact hidx ((ended_iff hpumped).1 (hended elem helem))

/-! ## The beginning and the end of the loop -/

theorem ioLoop_pass {polls : List PollAnswer} {io io' : MultiplexIO} {m_iomap : IOMap}
    (hactive : 0 < s.io.m_active) (hmonitor : s.io.monitor s.polls = .ok (polls, io))
    (hall : handleAll s.m_iomap io = (.ok (), m_iomap, io')) :
    ioLoop s = ioLoop ⟨m_iomap, io', polls⟩ := by
  rw [ioLoop, if_neg (Int.not_le.2 hactive)]
  split
  · next stop hstop =>
      rw [hmonitor] at hstop
      cases hstop
  · next polls' io₁ hok =>
      rw [hmonitor] at hok
      cases hok
      rw [hall]

theorem ioLoop_of_run (hrun : Run s trace s') : ioLoop s = ioLoop s' := by
  induction hrun with
  | start => rfl
  | pass _ active monitor all ih => exact ih.trans (ioLoop_pass active monitor all)

theorem Run.head {polls : List PollAnswer} {io io' : MultiplexIO} {m_iomap : IOMap}
    (hactive : 0 < s.io.m_active) (hmonitor : s.io.monitor s.polls = .ok (polls, io))
    (hall : handleAll s.m_iomap io = (.ok (), m_iomap, io'))
    (hrun : Run ⟨m_iomap, io', polls⟩ trace s') :
    Run s (effects s.m_iomap io ++ trace) s' := by
  induction hrun with
  | start =>
      rw [List.append_nil]
      exact .pass .start hactive hmonitor hall
  | pass _ active monitor all ih =>
      rw [← List.append_assoc]
      exact .pass ih active monitor all

/-- The loop ends normally when a run comes to a state in which nothing is polled. -/
theorem ioLoop_eq_ok_iff :
    ioLoop s = (.ok (), s') ↔ ∃ trace, Run s trace s' ∧ s'.io.m_active ≤ 0 := by
  constructor
  · intro h
    fun_induction ioLoop s with
    | case1 s hactive =>
        cases h
        exact ⟨[], .start, hactive⟩
    | case2 s hactive stop hmonitor => cases h
    | case3 s hactive polls io hmonitor e m_iomap io' hall => cases h
    | case4 s hactive polls io hmonitor m_iomap io' hall ih =>
        obtain ⟨trace, hrun, hlast⟩ := ih h
        exact ⟨_, .head (Int.not_le.1 hactive) hmonitor hall hrun, hlast⟩
  · rintro ⟨trace, hrun, hactive⟩
    rw [ioLoop_of_run hrun, ioLoop, if_pos hactive]

/-- A stream and its pipe, before and behind `spawn`. -/
def Opened (start elem : FilterIO) : Prop :=
  ∃ a b, start = .output a ∧ elem = .output b ∧ b.m_output = a.m_output ∧
    b.incoming = a.incoming ∧ b.m_pipe.readEnd ≠ none

theorem fdAt_setupAll (m_iomap : IOMap) (io : MultiplexIO) {idx : Nat}
    (h : idx < io.m_fds.length) : (setupAll m_iomap io).2.fdAt idx = io.fdAt idx := by
  induction m_iomap generalizing io with
  | nil => rfl
  | cons elem m_iomap ih =>
      obtain ⟨fd, events, _, _, hio, _⟩ := setupIO_spec elem.2 io
      rw [setupAll]
      dsimp only
      have hlength : (io.add fd events).2.m_fds.length = io.m_fds.length + 1 := List.length_append
      rw [hio, ih _ (hlength ▸ Nat.lt_succ_of_lt h), MultiplexIO.fdAt_add_of_lt h]

theorem fds_setupAll (m_iomap : IOMap) (io : MultiplexIO) :
    (setupAll m_iomap io).1.map Prod.fst = m_iomap.map Prod.fst := by
  induction m_iomap generalizing io with
  | nil => rfl
  | cons elem m_iomap ih =>
      rw [setupAll, List.map_cons, List.map_cons]
      exact congrArg _ (ih _)

theorem owned_setupAll (m_iomap : IOMap) (io : MultiplexIO) {idx : Nat}
    (h : (setupAll m_iomap io).2.fdAt idx ≠ none) :
    io.fdAt idx ≠ none ∨ ∃ elem ∈ (setupAll m_iomap io).1, elem.2.pollidx = idx := by
  induction m_iomap generalizing io with
  | nil => exact .inl h
  | cons elem m_iomap ih =>
      obtain ⟨fd, events, _, hidx, hio, _⟩ := setupIO_spec elem.2 io
      rw [setupAll] at h ⊢
      rcases ih _ h with hhere | ⟨other, hother, heq⟩
      · rw [hio] at hhere
        rcases Nat.lt_trichotomy idx io.m_fds.length with hlt | heq | hgt
        · exact .inl ( MultiplexIO.fdAt_add_of_lt hlt fd events ▸ hhere)
        · exact .inr ⟨_, List.mem_cons_self, hidx.trans heq.symm⟩
        · refine absurd ?_ hhere
          rw [ MultiplexIO.fdAt, List.getElem?_eq_none]
          · rfl
          · exact List.length_append.trans_le hgt
      · exact .inr ⟨other, List.mem_cons_of_mem _ hother, heq⟩

/-- Behind `setupIO`, every pipe is polled. -/
theorem pumped_setupAll (m_iomap : IOMap) (io : MultiplexIO)
    (h : ∀ elem ∈ m_iomap, ∃ start ∈ starts, start.1 = elem.1 ∧ Opened start.2 elem.2) :
    ∀ elem ∈ (setupAll m_iomap io).1, ∃ start ∈ starts, start.1 = elem.1 ∧
      FilterIO.Pumped truthful start.2 elem.2 [] (setupAll m_iomap io).2 := by
  induction m_iomap generalizing io with
  | nil => exact fun _ hmem => absurd hmem List.not_mem_nil
  | cons elem m_iomap ih =>
      obtain ⟨hhere, hmore⟩ := List.forall_mem_cons.1 h
      rw [setupAll]
      refine List.forall_mem_cons.2 ⟨?_, ih _ hmore⟩
      obtain ⟨start, hstart, hfd, a, b, ha, hb, hout, hin, hopen⟩ := hhere
      refine ⟨start, hstart, hfd, a, { b with pollidx := io.m_fds.length }, ha, ?_, ?_⟩
      · dsimp only
        rw [hb]
        rfl
      · refine .fresh hout hin ?_
        have hlt : io.m_fds.length < ( FilterIO.setupIO elem.2 io).2.m_fds.length := by
          obtain ⟨fd, events, _, _, hio, _⟩ := setupIO_spec elem.2 io
          have hlength : (io.add fd events).2.m_fds.length = io.m_fds.length + 1 :=
            List.length_append
          rw [hio, hlength]
          exact Nat.lt_succ_self _
        dsimp only
        rw [fdAt_setupAll _ _ hlt, hb]
        exact ( MultiplexIO.fdAt_add_self b.m_pipe.readEnd { POLLIN := true }).trans_ne hopen

/-- An element that `setOutput` has made. -/
def IsOutput (elem : FilterIO) : Prop :=
  elem.Typed ∧ ∃ self, elem = .output self

theorem opened_spawned {m_fdmap : FdMap}
    (h : List.Forall₂ SubProcess.SpawnedPipe (pipes m_iomap) m_fdmap)
    (houtput : ∀ elem ∈ m_iomap, IsOutput elem.2) :
    ∀ elem ∈ List.zipWith (fun elem pipe => (elem.1, elem.2.setPipe pipe.2)) m_iomap m_fdmap,
      ∃ start ∈ m_iomap, start.1 = elem.1 ∧ Opened start.2 elem.2 := by
  induction m_iomap generalizing m_fdmap with
  | nil => exact fun _ hmem => absurd hmem List.not_mem_nil
  | cons elem m_iomap ih =>
      cases h with
      | cons hpipe hrest =>
          obtain ⟨⟨htyped, self, hself⟩, hmore⟩ := List.forall_mem_cons.1 houtput
          obtain ⟨_, readEnd, writeEnd, heq⟩ := hpipe
          refine List.forall_mem_cons.2 ⟨⟨elem, List.mem_cons_self, rfl, ?_⟩, ?_⟩
          · dsimp only at heq ⊢
            rw [hself] at htyped heq ⊢
            refine ⟨self, _, rfl, rfl, rfl, rfl, ?_⟩
            have htyped : ( FilterIO.output self).m_pipe.direction = .childToParent := htyped
            rw [htyped] at heq
            dsimp only
            rw [heq]
            exact Option.some_ne_none readEnd
          · intro other hother
            obtain ⟨start, hstart, hfd, hopened⟩ := ih hrest hmore other hother
            exact ⟨start, List.mem_cons_of_mem _ hstart, hfd, hopened⟩

theorem fds_spawned {m_fdmap : FdMap}
    (h : List.Forall₂ SubProcess.SpawnedPipe (pipes m_iomap) m_fdmap) :
    (List.zipWith (fun elem pipe => (elem.1, elem.2.setPipe pipe.2)) m_iomap m_fdmap).map
      Prod.fst = m_iomap.map Prod.fst := by
  induction m_iomap generalizing m_fdmap with
  | nil => rfl
  | cons elem m_iomap ih =>
      cases h with
      | cons hpipe hrest =>
          rw [List.zipWith_cons_cons, List.map_cons, List.map_cons]
          exact congrArg _ (ih hrest)

/-- At the beginning of the loop. -/
theorem pumping_started {m_fdmap : FdMap}
    (h : List.Forall₂ SubProcess.SpawnedPipe (pipes m_iomap) m_fdmap)
    (houtput : ∀ elem ∈ m_iomap, IsOutput elem.2) (hfds : (m_iomap.map Prod.fst).Nodup)
    (polls : List PollAnswer) :
    Pumping truthful m_iomap (started m_iomap m_fdmap polls).m_iomap []
      (started m_iomap m_fdmap polls).io := by
  have hkeys : (started m_iomap m_fdmap polls).m_iomap.map Prod.fst = m_iomap.map Prod.fst :=
    (fds_setupAll _ _).trans (fds_spawned h)
  refine ⟨polled_started h (fun elem helem => (houtput elem helem).1) polls, ?_, hkeys ▸ hfds,
    hkeys, pumped_setupAll _ _ (opened_spawned h houtput)⟩
  intro idx hidx
  exact (owned_setupAll _ _ hidx).resolve_left fun hempty => hempty rfl

/-! ## What the streams get -/

/-- What has become of a stream that a list of calls has been made for. -/
structure Received (truthful : Prop) (start elem : OStream) (calls : List Effect)
    (io : MultiplexIO) : Prop where
  m_output : elem.m_output = start.m_output ++ written calls
  /-- what has been read is the beginning of what is in the pipe, in order -/
  delivered : written calls <+: content start.incoming
  /-- and all of it, when the pipe has been closed -/
  whole : truthful → .ended ∈ calls → written calls = content start.incoming
  once : calls.count .ended ≤ 1
  deactivated : .ended ∈ calls ↔ io.fdAt elem.pollidx = none

theorem received {start self : OStream} {calls : List Effect}
    (h : Pumped truthful start self calls io) : Received truthful start self calls io := by
  by_cases hlive : io.fdAt self.pollidx = none
  · obtain ⟨hcount, hprefix, hwhole⟩ := h.closed hlive
    exact ⟨h.m_output, hprefix, fun ht _ => hwhole ht, hcount.le, ended_iff h⟩
  · obtain ⟨hnot, hrest⟩ := h.live hlive
    refine ⟨h.m_output, ?_, fun _ hmem => absurd hmem hnot, ?_, ended_iff h⟩
    · rw [hrest]
      exact List.prefix_append _ _
    · rw [List.count_eq_zero.2 hnot]
      exact Nat.zero_le 1

/-- The places in use are counted throughout: at the head of the loop, and between two calls. -/
def CountedThroughout (s : FilterState) : Prop :=
  s.io.Counted ∧ ∀ polls io, s.io.monitor s.polls = .ok (polls, io) →
    ∀ k, (handleAll (s.m_iomap.take k) io).2.2.Counted

theorem countedThroughout (h : Polled s.m_iomap s.io) : CountedThroughout s := by
  refine ⟨h.counted, fun polls io hmonitor k => ?_⟩
  obtain ⟨happened, rfl⟩ := monitor_ok hmonitor
  have hreport := h.report happened
  have htake : Polled ([] ++ s.m_iomap.take k) (s.io.report happened) := by
    refine ⟨hreport.counted, ?_, ?_, ?_⟩
    · exact hreport.distinct.sublist ((List.take_sublist k _).map _)
    · exact fun elem helem => hreport.bound elem (List.mem_of_mem_take helem)
    · exact fun elem helem => hreport.polled elem (List.mem_of_mem_take helem)
  exact (polled_handleAll _ [] _ htake).counted

/-- Whatever `poll()` reports and however much each `read()` gives, every stream gets what has been
read from its pipe, each pipe is deactivated once, at its end, and the loop ends when all of them
have been. -/
theorem outputs_pumped {sys : System} {m_iomap : IOMap} {child : Nat × FdMap}
    (hspawn : SubProcess.spawn sys (pipes m_iomap) = .ok child)
    (houtput : ∀ elem ∈ m_iomap, IsOutput elem.2) (hfds : (m_iomap.map Prod.fst).Nodup)
    (polls : List PollAnswer) :
    (∀ trace s, Run (started m_iomap child.2 polls) trace s →
      CountedThroughout s ∧
      (∀ fd start, (fd, FilterIO.output start) ∈ m_iomap →
        ∃ self, (fd, FilterIO.output self) ∈ s.m_iomap ∧
          Received (Truthful (started m_iomap child.2 polls)) start self (history fd trace) s.io) ∧
      (s.io.m_active ≤ 0 ↔ AllEnded m_iomap trace)) ∧
    ∀ s, ioLoop (started m_iomap child.2 polls) = (.ok (), s) ↔
      ∃ trace, Run (started m_iomap child.2 polls) trace s ∧ AllEnded m_iomap trace := by
  have hstarted := fun truthful =>
    @pumping_started truthful m_iomap child.2 (SubProcess.spawn_ok hspawn).2 houtput hfds polls
  have hall : ∀ trace s, Run (started m_iomap child.2 polls) trace s →
      Pumping (Truthful (started m_iomap child.2 polls)) m_iomap s.m_iomap trace s.io :=
    fun trace s hrun => pumping_run hrun (hstarted _) id
  refine ⟨fun trace s hrun => ?_, fun s => ?_⟩
  · have hpumping := hall trace s hrun
    refine ⟨countedThroughout hpumping.polled, ?_, hpumping.inactive_iff⟩
    intro fd start hmem
    -- the descriptors are those of the beginning, and tell the streams apart
    have hfd : fd ∈ s.m_iomap.map Prod.fst := by
      rw [hpumping.fds]
      exact List.mem_map_of_mem hmem
    obtain ⟨⟨fd', elem⟩, helem, rfl⟩ := List.mem_map.1 hfd
    obtain ⟨start', hstart', heq, a, b, ha, hb, hpumped⟩ := hpumping.pumped _ helem
    have hsame : start' = (fd', .output start) :=
      List.inj_on_of_nodup_map hfds hstart' hmem heq
    rw [hsame] at ha
    cases ha
    have hb : elem = .output b := hb
    subst hb
    exact ⟨b, helem, received hpumped⟩
  · rw [ioLoop_eq_ok_iff]
    constructor
    · rintro ⟨trace, hrun, hactive⟩
      exact ⟨trace, hrun, (hall trace s hrun).inactive_iff.1 hactive⟩
    · rintro ⟨trace, hrun, hended⟩
      exact ⟨trace, hrun, (hall trace s hrun).inactive_iff.2 hended⟩

/-- The standard output of a child, which comes in two parts, and an empty error output. -/
def twoOutputs : IOMap :=
  [(1, .output ⟨⟨.childToParent, none, none⟩, [], 0, [.ok [97], .ok [98]]⟩),
    (2, .output ⟨⟨.childToParent, none, none⟩, [], 0, []⟩)]

def twoPipes : System where
  pipe2 fd := .ok (2 * fd + 1, 2 * fd + 2)
  fork := .ok 100
  waitpid pid := .ok (pid, 0)

def twoFds : FdMap :=
  [(1, ⟨.childToParent, some 3, none⟩), (2, ⟨.childToParent, some 5, none⟩)]

/-- The error output ends before the standard output. -/
def threePolls : List PollAnswer :=
  [.ok [{ POLLIN := true }, {}], .ok [{ POLLIN := true, POLLHUP := true }, { POLLHUP := true }],
    .ok [{ POLLHUP := true }, {}]]

theorem outputs_pumped_two : ∃ child s, SubProcess.spawn twoPipes (pipes twoOutputs) = .ok child ∧
    ioLoop (started twoOutputs child.2 threePolls) = (.ok (), s) ∧
    ∃ self, (1, FilterIO.output self) ∈ s.m_iomap ∧ self.m_output = [97, 98] := by
  have hspawn : SubProcess.spawn twoPipes (pipes twoOutputs) = .ok (100, twoFds) := rfl
  have houtput : ∀ elem ∈ twoOutputs, IsOutput elem.2 :=
    List.forall_mem_cons.2 ⟨⟨rfl, _, rfl⟩, List.forall_mem_singleton.2 ⟨rfl, _, rfl⟩⟩
  have hfirst := Run.pass (@Run.start (started twoOutputs twoFds threePolls)) (by decide) rfl rfl
  have hsecond := Run.pass hfirst (by decide) rfl rfl
  have hrun := Run.pass hsecond (by decide) rfl rfl
  have hpumped := outputs_pumped hspawn houtput (by decide) threePolls
  refine ⟨_, _, hspawn, (hpumped.2 _).2 ⟨_, hrun, ?_⟩, _, List.mem_cons_self, rfl⟩
  exact List.forall_mem_cons.2 ⟨by decide, List.forall_mem_singleton.2 (by decide)⟩

end ProcessFilter
end Process
end Kdump

import Mathlib.Data.List.Iterate
import Kdump.Sftp.Discipline

/-!
# Protocol — requests and replies over a whole session

A session is any sequence of operations on one object, where an operation that has thrown may be
followed by others.  The ids of the requests count up modulo 2^32, and at most one request waits
for its reply, apart from those whose exchange broke off.
-/

namespace Kdump
namespace Sftp

open Lib Kdump.Path Transfer

/-! ## Observations -/

def Event.sentId? : Event → Option UInt64
  | .send id _ => some id
  | _ => none

/-- The ids of the requests, in order. -/
def sentIds (events : List Event) : List UInt64 :=
  events.filterMap Event.sentId?

def Event.isReply : Event → Bool
  | .reply _ => true
  | _ => false

def Event.isFailure : Event → Bool
  | .failed _ => true
  | _ => false

/-- How often sending or receiving has failed. -/
def failures (events : List Event) : Nat :=
  events.countP Event.isFailure

/-- The requests for which no reply has been received. -/
def outstanding (events : List Event) : Nat :=
  (sentIds events).length - events.countP Event.isReply

/-- Behind a failure to send or to receive, the only request is `CLOSE`. -/
def OnlyCloseAfterFailure : List Event → Prop
  | [] => True
  | .failed _ :: events =>
      ∀ id request, .send id request ∈ events → ∃ handle, request = .close handle
  | _ :: events => OnlyCloseAfterFailure events

/-! ## The ids -/

theorem toNat_succId (id : UInt64) : (succId id).toNat = (id.toNat + 1) % 2 ^ 32 := by
  -- the mask keeps the low 32 bits
  have hmask : ((1 : UInt64) <<< (32 : UInt64) - 1).toNat = 2 ^ 32 - 1 := by decide
  have hone : (1 : UInt64).toNat = 1 := rfl
  unfold succId
  dsimp only
  rw [UInt64.toNat_and, hmask, Nat.and_two_pow_sub_one_eq_mod, UInt64.toNat_add, hone,
    Nat.mod_mod_of_dvd _ (by decide)]

theorem toNat_iterate_succId (id : UInt64) (n : Nat) :
    (succId^[n + 1] id).toNat = (id.toNat + n + 1) % 2 ^ 32 := by
  induction n with
  | zero => exact toNat_succId id
  | succ n ih =>
      rw [Function.iterate_succ_apply', toNat_succId, ih, Nat.mod_add_mod]
      congr 1

/-- The ids of any 2^32 consecutive requests are distinct. -/
theorem iterate_succId_ne (id : UInt64) {i j : Nat} (hij : i < j) (hj : j < i + 2 ^ 32) :
    succId^[i + 1] id ≠ succId^[j + 1] id := by
  intro h
  have hnat := congrArg UInt64.toNat h
  rw [toNat_iterate_succId, toNat_iterate_succId] at hnat
  omega

/-! ## Conduct -/

/-- Events that take `m_lastid` from `id` to `id'` as they should, with one request after the
other, and none waiting at the end. -/
structure Conduct (id : UInt64) (events : List Event) (id' : UInt64) : Prop where
  ids : sentIds events = List.iterate succId (succId id) (sentIds events).length
  last : id' = succId^[(sentIds events).length] id
  waiting : ∀ seen, seen <+: events →
    (sentIds seen).length ≤ seen.countP Event.isReply + failures seen + 1
  settled : (sentIds events).length = events.countP Event.isReply + failures events

namespace Conduct

theorem nil (id : UInt64) : Conduct id [] id where
  ids := rfl
  last := rfl
  waiting := by
    intro seen hseen
    rw [List.prefix_nil.1 hseen]
    exact Nat.zero_le _
  settled := rfl

theorem call (id : UInt64) (c : Call) : Conduct id [.call c] id where
  ids := rfl
  last := rfl
  waiting := by
    intro seen hseen
    rcases List.prefix_cons_iff.1 hseen with rfl | ⟨seen', rfl, hseen'⟩
    · exact Nat.zero_le _
    · rw [List.prefix_nil.1 hseen']
      exact Nat.zero_le _
  settled := rfl

theorem requested (id : UInt64) (request : Request) {outcome : Event}
    (h : outcome.IsOutcome) : Conduct id [.send (succId id) request, outcome] (succId id) := by
  have hsent : sentIds [.send (succId id) request, outcome] = [succId id] := by
    cases outcome with
    | call _ => exact h.elim
    | send _ _ => exact h.elim
    | reply _ => rfl
    | failed _ => rfl
  have hsettled : 1 = List.countP Event.isReply [.send (succId id) request, outcome] +
      failures [.send (succId id) request, outcome] := by
    cases outcome with
    | call _ => exact h.elim
    | send _ _ => exact h.elim
    | reply _ => rfl
    | failed _ => rfl
  constructor
  · rw [hsent]
    rfl
  · rw [hsent]
    rfl
  · intro seen hseen
    have hsub : (sentIds seen).length ≤ 1 := by
      have hle := (hseen.sublist.filterMap Event.sentId?).length_le
      change (sentIds seen).length ≤ (sentIds _).length at hle
      rwa [hsent] at hle
    omega
  · rw [hsent]
    exact hsettled

theorem append {id id₁ id₂ : UInt64} {events events' : List Event} (h : Conduct id events id₁)
    (h' : Conduct id₁ events' id₂) : Conduct id (events ++ events') id₂ := by
  have hsent : sentIds (events ++ events') = sentIds events ++ sentIds events' :=
    List.filterMap_append
  have hlast := h.last
  constructor
  · rw [hsent, List.length_append, List.iterate_add, ← h.ids, ← Function.iterate_succ_apply,
      Function.iterate_succ_apply', ← hlast, ← h'.ids]
  · rw [hsent, List.length_append, h'.last, hlast, ← Function.iterate_add_apply, Nat.add_comm]
  · intro seen hseen
    rcases hseen with ⟨rest, hrest⟩
    -- the prefix ends in the first part or in the second; behind the first part nothing waits
    rcases List.append_eq_append_iff.1 hrest with ⟨more, hmore, _⟩ | ⟨seen', rfl, hseen'⟩
    · exact h.waiting seen ⟨more, hmore.symm⟩
    · have hwaiting := h'.waiting seen' ⟨rest, hseen'.symm⟩
      have hsettled := h.settled
      have hsent' : sentIds (events ++ seen') = sentIds events ++ sentIds seen' :=
        List.filterMap_append
      unfold failures at *
      rw [hsent', List.length_append, List.countP_append, List.countP_append]
      omega
  · have hsettled := h.settled
    have hsettled' := h'.settled
    unfold failures at *
    rw [hsent, List.length_append, List.countP_append, List.countP_append]
    omega

theorem outstanding_le {id id' : UInt64} {events seen : List Event} (h : Conduct id events id')
    (hseen : seen <+: events) : outstanding seen ≤ failures seen + 1 := by
  have hwaiting := h.waiting seen hseen
  unfold outstanding
  omega

theorem ids_ne {id id' : UInt64} {events : List Event} (h : Conduct id events id') {i j : Nat}
    (hij : i < j) (hj : j < i + 2 ^ 32) (hlen : j < (sentIds events).length) :
    (sentIds events)[i]? ≠ (sentIds events)[j]? := by
  have hget : ∀ k, k < (sentIds events).length →
      (sentIds events)[k]? = some (succId^[k + 1] id) := by
    intro k hk
    rw [h.ids, List.getElem?_iterate _ _ _ _ hk, Function.iterate_succ_apply]
  rw [hget i (hij.trans hlen), hget j hlen]
  intro heq
  exact iterate_succId_ne id hij hj (Option.some.inj heq)

end Conduct

/-! ## Courses -/

theorem sends_of_outcome {outcome : Event} (h : outcome.IsOutcome) (id : UInt64)
    (request : Request) : Event.send id request ∉ [outcome] := by
  intro hmem
  rw [List.mem_singleton] at hmem
  rw [← hmem] at h
  exact h

/-- Nothing has failed in a flawless run. -/
theorem Flawless.not_failed {events : List Event} (h : Flawless events) (e : Thrown) :
    Event.failed e ∉ events := by
  refine h.induction (motive := fun events => Event.failed e ∉ events) List.not_mem_nil ?_ ?_
  · intro c events _ ih
    rw [List.mem_cons, not_or]
    exact ⟨Event.noConfusion, ih⟩
  · intro id request payload events _ ih
    rw [List.mem_cons, List.mem_cons, not_or, not_or]
    exact ⟨Event.noConfusion, Event.noConfusion, ih⟩

namespace OnlyCloseAfterFailure

theorem of_not_failed {events events' : List Event} (h : ∀ e, Event.failed e ∉ events)
    (h' : OnlyCloseAfterFailure events') : OnlyCloseAfterFailure (events ++ events') := by
  induction events with
  | nil => exact h'
  | cons event events ih =>
      have hrest : OnlyCloseAfterFailure (events ++ events') :=
        ih fun e hmem => h e (List.mem_cons_of_mem _ hmem)
      cases event with
      | call _ => exact hrest
      | send _ _ => exact hrest
      | reply _ => exact hrest
      | failed e => exact (h e List.mem_cons_self).elim

theorem append {events events' : List Event} (h : OnlyCloseAfterFailure events)
    (h' : OnlyCloseAfterFailure events')
    (hclose : ∀ id request, Event.send id request ∈ events' → ∃ handle, request = .close handle) :
    OnlyCloseAfterFailure (events ++ events') := by
  induction events with
  | nil => exact h'
  | cons event events ih =>
      cases event with
      | call _ => exact ih h
      | send _ _ => exact ih h
      | reply _ => exact ih h
      | failed _ =>
          intro id request hmem
          rcases List.mem_append.1 hmem with hmem | hmem
          · exact h id request hmem
          · exact hclose id request hmem

end OnlyCloseAfterFailure

/-- How an operation takes `m_lastid` from `id` to `id'`, when it returns and when it throws. -/
structure Course (returns : Bool) (id : UInt64) (events : List Event) (id' : UInt64) : Prop
    extends Conduct id events id' where
  flawless : returns = true → Flawless events
  cleanUp : OnlyCloseAfterFailure events

namespace Course

variable {id id₁ id₂ : UInt64} {events events' : List Event} {returns returns' : Bool}

theorem nil (id : UInt64) : Course true id [] id :=
  ⟨.nil id, fun _ => trivial, trivial⟩

theorem call (id : UInt64) {c : Call} (h : returns = true → ¬ c.Failed) :
    Course returns id [.call c] id :=
  ⟨.call id c, fun hreturns => ⟨h hreturns, trivial⟩, trivial⟩

theorem attempted (id : UInt64) (request : Request) {outcome : Event} (h : outcome.IsOutcome) :
    Course false id [.send (succId id) request, outcome] (succId id) := by
  refine ⟨.requested id request h, nofun, ?_⟩
  cases outcome with
  | call _ => exact h.elim
  | send _ _ => exact h.elim
  | reply _ => trivial
  | failed _ => exact fun _ _ hmem => (List.not_mem_nil hmem).elim

theorem granted {request : Request} {payload : ByteVector}
    (h : Accepts (succId id) request payload) :
    Course true id [.send (succId id) request, .reply payload] (succId id) :=
  ⟨.requested id request trivial, fun _ => ⟨h, trivial⟩, trivial⟩

theorem threw (h : Course returns id events id₁) : Course false id events id₁ :=
  ⟨h.toConduct, nofun, h.cleanUp⟩

/-- What returns may be followed by anything. -/
theorem andThen (h : Course true id events id₁) (h' : Course returns id₁ events' id₂) :
    Course returns id (events ++ events') id₂ where
  toConduct := h.toConduct.append h'.toConduct
  flawless hreturns := (h.flawless rfl).append (h'.flawless hreturns)
  cleanUp := .of_not_failed (h.flawless rfl).not_failed h'.cleanUp

/-- What may have thrown is followed by nothing but `CLOSE` requests. -/
theorem andCleanUp (h : Course returns id events id₁) (h' : Course returns' id₁ events' id₂)
    (hclose : ∀ id request, Event.send id request ∈ events' → ∃ handle, request = .close handle) :
    Course (returns && returns') id (events ++ events') id₂ where
  toConduct := h.toConduct.append h'.toConduct
  flawless hreturns := by
    rcases Bool.and_eq_true_iff.1 hreturns with ⟨hreturns, hreturns'⟩
    exact (h.flawless hreturns).append (h'.flawless hreturns')
  cleanUp := h.cleanUp.append h'.cleanUp hclose

end Course

theorem LoopRun.course {handle : Str} {data : List (Except Thrown ByteVector)} {off : Nat}
    {id id' : UInt64} {events : List Event} {returns : Bool}
    (h : LoopRun handle data off id events id' returns) : Course returns id events id' := by
  induction h with
  | finished _ _ => exact .call _ fun _ => not_false
  | dataFailed _ => exact .call _ nofun
  | writeFailed _ _ houtcome =>
      refine Course.andThen (.call _ ?_) (.attempted _ _ houtcome)
      exact fun _ => not_false
  | round _ _ haccepts _ ih =>
      refine Course.andThen (.call _ ?_) ((Course.granted haccepts).andThen ih)
      exact fun _ => not_false

theorem BodyRun.course {handle : Str} {provider : DataProvider} {id id' : UInt64}
    {events : List Event} {returns : Bool}
    (h : BodyRun handle provider id events id' returns) : Course returns id events id' := by
  cases h with
  | unprepared _ => exact .call _ nofun
  | @prepared events id' returns _ hloop =>
      have hfinish : Course provider.finish.isOk id' [.call (.finish provider.finish)] id' := by
        refine .call _ fun hok => ?_
        cases hans : provider.finish with
        | ok _ => exact not_false
        | error e =>
            rw [hans] at hok
            cases hok
      -- `finish` sends nothing, so that it may follow a loop that has thrown
      have hbody := hloop.course.andCleanUp hfinish fun id request hmem => by simp at hmem
      have hprepare : Course true id [.call (.prepare (.ok ()))] id :=
        .call id fun _ => not_false
      exact hprepare.andThen hbody

theorem HandleRun.course {handle : Str} {provider : DataProvider} {id id' : UInt64}
    {events : List Event} {returns : Bool}
    (h : HandleRun handle provider id events id' returns) : Course returns id events id' := by
  have hclose : ∀ {id : UInt64} {outcome : Event}, outcome.IsOutcome → ∀ id' request,
      Event.send id' request ∈ [Event.send id (.close handle), outcome] →
      ∃ handle, request = .close handle := by
    intro id outcome houtcome id' request hmem
    rcases List.mem_cons.1 hmem with hmem | hmem
    · cases hmem
      exact ⟨handle, rfl⟩
    · exact (sends_of_outcome houtcome _ _ hmem).elim
  cases h with
  | failed hbody houtcome =>
      exact hbody.course.threw.andCleanUp (.attempted _ _ houtcome) (hclose houtcome)
  | completed hbody haccepts =>
      exact hbody.course.andThen (.granted haccepts)

/-! ## Operations -/

/-- Every run of the program is a course. -/
def Orderly {α : Type} (p : SFTPProg α) : Prop :=
  ∀ s, wp p
    (fun _ s' => Traced s s' fun events => Course true s.m_lastid events s'.m_lastid)
    (fun _ s' => Traced s s' fun events => Course false s.m_lastid events s'.m_lastid) s

namespace Orderly

theorem pure {α : Type} (a : α) : Orderly (Pure.pure a) :=
  fun _ => ⟨[], (List.append_nil _).symm, .nil _⟩

theorem bind {α β : Type} {p : SFTPProg α} {f : α → SFTPProg β} (hp : Orderly p)
    (hf : ∀ a, Orderly (f a)) : Orderly (p >>= f) := by
  intro s
  rw [wp_bind]
  refine wp_mono (hp s) (fun a s₁ hbefore => ?_) (fun _ _ h => h)
  -- `p` has returned, whatever becomes of `f a`
  have hjoin : ∀ {returns : Bool} {s₂ : SFTPState},
      (Traced s₁ s₂ fun events => Course returns s₁.m_lastid events s₂.m_lastid) →
      Traced s s₂ fun events => Course returns s.m_lastid events s₂.m_lastid := by
    intro returns s₂ hbehind
    apply hbefore.append hbehind
    intro events events' hcourse hcourse'
    exact hcourse.andThen hcourse'
  exact wp_mono (hf a s₁) (fun _ _ h => hjoin h) (fun _ _ h => hjoin h)

/-- An operation that is one request and its reply. -/
theorem of_request {α : Type} {p : SFTPProg α} {request : Request}
    (h : ∀ s, wp p (fun _ s' => Granted s request s') (fun _ s' => Attempted s request s') s) :
    Orderly p := by
  intro s
  refine wp_mono (h s) ?_ ?_
  · rintro a s' ⟨payload, ⟨hid, htrace⟩, haccepts⟩
    refine ⟨_, htrace, ?_⟩
    rw [hid]
    exact .granted haccepts
  · rintro e s' ⟨outcome, houtcome, hid, htrace⟩
    refine ⟨_, htrace, ?_⟩
    rw [hid]
    exact .attempted _ _ houtcome

end Orderly

theorem mkpath_orderly (path : Str) : Orderly (mkpath path) := by
  have hmkdir : ∀ dir message, Orderly (requestOk (.mkdir dir) (str "SSH_FXP_MKDIR") message) :=
    fun dir message => .of_request fun s => wp_requestOk _ _ _ s fun _ => rfl
  induction path using mkpath.induct with
  | case1 path ih =>
      rw [mkpath]
      refine .bind (.of_request (wp_exists path)) fun found => ?_
      cases found with
      | true => exact .pure ()
      | false =>
          rw [if_pos rfl]
          -- the directories above it first
          cases hparent : parentDir path with
          | none => exact hmkdir _ _
          | some dir => exact .bind (ih dir hparent) fun _ => hmkdir _ _

theorem perform_orderly (path : Str) (provider : DataProvider) (target_files : List Str) :
    Orderly (perform path provider target_files) := by
  refine .bind (.of_request (wp_createfile _)) fun handle => .bind ?_ fun _ => .pure false
  intro s
  -- both ways out are runs with a `CLOSE` request at the end
  refine wp_mono (wp_performHandle handle provider s) ?_ ?_
  all_goals
    rintro _ s' ⟨events, htrace, hrun⟩
    exact ⟨events, htrace, hrun.course⟩

/-- The operations of the class. -/
inductive Operation where
  | exists (file : Str)
  | mkpath (path : Str)
  | createfile (file : Str)
  | closefile (handle : Str)
  | writefile (handle : Str) (off : Nat) (data : ByteVector)
  | perform (path : Str) (provider : DataProvider) (target_files : List Str)

/-- Their results do not matter here. -/
def Operation.run : Operation → SFTPProg Unit
  | .exists file => do
      let _ ← Sftp.exists file
  | .mkpath path => Sftp.mkpath path
  | .createfile file => do
      let _ ← Sftp.createfile file
  | .closefile handle => Sftp.closefile handle
  | .writefile handle off data => Sftp.writefile handle off data
  | .perform path provider target_files => do
      let _ ← Sftp.perform path provider target_files

theorem run_orderly (op : Operation) : Orderly op.run := by
  cases op with
  | «exists» file => exact .bind (.of_request (wp_exists file)) fun _ => .pure ()
  | mkpath path => exact mkpath_orderly path
  | createfile file => exact .bind (.of_request (wp_createfile file)) fun _ => .pure ()
  | closefile handle => exact .of_request (wp_closefile handle)
  | writefile handle off data => exact .of_request (wp_writefile handle off data)
  | perform path provider target_files =>
      exact .bind (perform_orderly path provider target_files) fun _ => .pure ()

/-! ## Sessions -/

/-- Operations one after the other; the caller goes on behind an exception. -/
def session : List Operation → SFTPProg Unit
  | [] => pure ()
  | op :: ops => do
      tryCatch op.run fun _ => pure ()
      session ops

theorem session_conduct (ops : List Operation) : ∀ s : SFTPState, wp (session ops)
    (fun _ s' => Traced s s' fun events => Conduct s.m_lastid events s'.m_lastid)
    (fun _ _ => False) s := by
  induction ops with
  | nil => exact fun s => ⟨[], (List.append_nil _).symm, .nil _⟩
  | cons op ops ih =>
      intro s
      simp only [session, wp_bind, wp_tryCatch, wp_pure]
      have hstep : ∀ {s₁ : SFTPState} {returns : Bool},
          (Traced s s₁ fun events => Course returns s.m_lastid events s₁.m_lastid) →
          wp (session ops)
            (fun _ s' => Traced s s' fun events => Conduct s.m_lastid events s'.m_lastid)
            (fun _ _ => False) s₁ := by
        intro s₁ returns hbefore
        refine wp_mono (ih s₁) (fun _ s₂ hbehind => ?_) (fun _ _ h => h)
        apply hbefore.append hbehind
        intro events events' hcourse hconduct
        exact hcourse.toConduct.append hconduct
      exact wp_mono (run_orderly op s) (fun _ _ h => hstep h) (fun _ _ h => hstep h)

/-- Over a whole session at most one request waits for its reply, apart from those for which
sending or receiving has failed, and the ids of any 2^32 consecutive requests are distinct.  An
operation returns only if every request of it has its accepting reply, and one in which sending or
receiving has failed sends nothing more but `CLOSE`. -/
theorem session_protocol (ops : List Operation) (s : SFTPState) :
    (∃ s' events, session ops s = .ok () s' ∧ s'.trace = s.trace ++ events ∧
      (∀ i j, i < j → j < i + 2 ^ 32 → j < (sentIds events).length →
        (sentIds events)[i]? ≠ (sentIds events)[j]?) ∧
      ∀ seen, seen <+: events → outstanding seen ≤ failures seen + 1) ∧
    ∀ (op : Operation) (s₁ : SFTPState), match op.run s₁ with
      | .ok _ s₂ => ∃ events, s₂.trace = s₁.trace ++ events ∧ Flawless events
      | .error _ s₂ => ∃ events, s₂.trace = s₁.trace ++ events ∧
          OnlyCloseAfterFailure events := by
  constructor
  · have hwp := session_conduct ops s
    cases hrun : session ops s with
    | error e s' => exact (wp_error hwp hrun).elim
    | ok _ s' =>
        rcases wp_ok hwp hrun with ⟨events, htrace, hconduct⟩
        exact ⟨s', events, rfl, htrace, fun i j => hconduct.ids_ne, fun seen hseen =>
          hconduct.outstanding_le hseen⟩
  · intro op s₁
    have hwp := run_orderly op s₁
    cases hrun : op.run s₁ with
    | ok _ s₂ =>
        rcases wp_ok hwp hrun with ⟨events, htrace, hcourse⟩
        exact ⟨events, htrace, hcourse.flawless rfl⟩
    | error e s₂ =>
        rcases wp_error hwp hrun with ⟨events, htrace, hcourse⟩
        exact ⟨events, htrace, hcourse.cleanUp⟩

/-- The state at the end, also of an exception. -/
def endState {α : Type} (p : SFTPProg α) (s : SFTPState) : SFTPState :=
  match p s with
  | .ok _ s' => s'
  | .error _ s' => s'

/-- The server opens the file and then closes the connection: the `CLOSE` request of the handler
is sent while the `WRITE` request still has no reply. -/
theorem not_outstanding_le_one :
    ¬ ∀ (op : Operation) (s : SFTPState), s.trace = [] →
      ∀ seen, seen <+: (endState op.run s).trace → outstanding seen ≤ 1 := by
  intro h
  have hle := h (.perform (str "/dump") (.ofChunks [⟨[1], by decide⟩]) [str "vmcore"])
    { m_lastid := 0
      answers := []
      sent := []
      incoming := [.ok ([0, 0, 0, 10, SSH_FXP_HANDLE] ++ bigEndian 4 1 ++ bigEndian 4 1 ++ [104])]
      trace := [] }
    rfl _ (List.take_prefix 8 _)
  revert hle
  decide

end Sftp
end Kdump

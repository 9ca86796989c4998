import Kdump.Sftp.RemoteFile

/-!
# Discipline — what `perform` does with the handle and the provider

Whatever fails, the handle is closed once, nothing is written behind that, and the provider is
finished if and only if it was prepared.  A run that returns is flawless.
-/

namespace Kdump
namespace Sftp

open Lib Kdump.Path Transfer

/-! ## Observations -/

/-- The handle of a `CLOSE` request. -/
def Event.close? : Event → Option Str
  | .send _ (.close handle) => some handle
  | _ => none

def closesOf (events : List Event) : List Str :=
  events.filterMap Event.close?

def Event.isFinish : Event → Bool
  | .call (.finish _) => true
  | _ => false

/-- How often `finish()` is called. -/
def finishes (events : List Event) : Nat :=
  events.countP Event.isFinish

/-- Exactly one `CLOSE` for the handle and no `WRITE` behind it, and `finish()` called once if
`prepare()` returns and never otherwise. -/
structure Disciplined (handle : Str) (provider : DataProvider) (events : List Event) : Prop where
  close : ∃ before id after, events = before ++ .send id (.close handle) :: after ∧
    closesOf before = [] ∧ closesOf after = [] ∧ writesOf after = []
  finish : finishes events = if provider.prepare.isOk = true then 1 else 0

/-- Every call of the provider has succeeded, and every request has its accepting reply. -/
def Flawless : List Event → Prop
  | [] => True
  | .call c :: events => ¬ c.Failed ∧ Flawless events
  | .send id request :: .reply payload :: events => Accepts id request payload ∧ Flawless events
  | _ => False

/-- The calls and the requests of a flawless run, one after the other. -/
theorem Flawless.induction {motive : List Event → Prop} {events : List Event}
    (h : Flawless events) (nil : motive [])
    (call : ∀ (c : Call) (events : List Event), ¬ c.Failed → motive events →
      motive (.call c :: events))
    (granted : ∀ (id : UInt64) (request : Request) (payload : ByteVector) (events : List Event),
      Accepts id request payload → motive events →
        motive (.send id request :: .reply payload :: events)) : motive events := by
  induction events using Flawless.induct with
  | case1 => exact nil
  | case2 c events ih => exact call c events h.1 (ih h.2)
  | case3 id request payload events ih => exact granted id request payload events h.1 (ih h.2)
  | case4 events hnil hcall hsend =>
      exfalso
      unfold Flawless at h
      split at h
      · exact hnil rfl
      · exact hcall _ _ rfl
      · exact hsend _ _ _ _ rfl
      · exact h

theorem Flawless.append {events events' : List Event} (h : Flawless events)
    (h' : Flawless events') : Flawless (events ++ events') := by
  refine h.induction (motive := fun events => Flawless (events ++ events')) h' ?_ ?_
  · exact fun c events hc ih => ⟨hc, ih⟩
  · exact fun id request payload events haccepts ih => ⟨haccepts, ih⟩

/-! ## The parts of a run -/

/-- No `CLOSE`, and no call of `finish`. -/
structure Open (events : List Event) : Prop where
  close : closesOf events = []
  finish : finishes events = 0

theorem Event.IsOutcome.quiet {outcome : Event} (h : outcome.IsOutcome) : Open [outcome] := by
  cases outcome with
  | call _ => exact h.elim
  | send _ _ => exact h.elim
  | reply _ => exact ⟨rfl, rfl⟩
  | failed _ => exact ⟨rfl, rfl⟩

theorem LoopRun.quiet {handle : Str} {data : List (Except Thrown ByteVector)} {off : Nat}
    {id id' : UInt64} {events : List Event} {returns : Bool}
    (h : LoopRun handle data off id events id' returns) : Open events := by
  induction h with
  | finished _ _ => exact ⟨rfl, rfl⟩
  | dataFailed _ => exact ⟨rfl, rfl⟩
  | writeFailed _ _ houtcome => exact ⟨houtcome.quiet.close, houtcome.quiet.finish⟩
  | round _ _ _ _ ih => exact ⟨ih.close, ih.finish⟩

theorem LoopRun.flawless {handle : Str} {data : List (Except Thrown ByteVector)} {off : Nat}
    {id id' : UInt64} {events : List Event} {returns : Bool}
    (h : LoopRun handle data off id events id' returns) : returns = true → Flawless events := by
  induction h with
  | finished _ _ => exact fun _ => ⟨not_false, trivial⟩
  | dataFailed _ => rintro ⟨⟩
  | writeFailed _ _ _ => rintro ⟨⟩
  | round _ _ haccepts _ ih => exact fun hreturns => ⟨not_false, haccepts, ih hreturns⟩

theorem BodyRun.finish {handle : Str} {provider : DataProvider} {id id' : UInt64}
    {events : List Event} {returns : Bool}
    (h : BodyRun handle provider id events id' returns) :
    closesOf events = [] ∧ finishes events = if provider.prepare.isOk = true then 1 else 0 := by
  cases h with
  | unprepared hprepare =>
      rw [hprepare]
      exact ⟨rfl, rfl⟩
  | @prepared events id' returns hprepare hloop =>
      have hquiet := hloop.quiet
      rw [hprepare]
      constructor
      · change closesOf (events ++ _) = []
        rw [closesOf, List.filterMap_append]
        change closesOf events ++ [] = []
        rw [hquiet.close, List.append_nil]
      · change List.countP Event.isFinish (_ :: (events ++ _)) = 1
        rw [List.countP_cons_of_neg (by decide), List.countP_append]
        change finishes events + 1 = 1
        rw [hquiet.finish]

theorem BodyRun.flawless {handle : Str} {provider : DataProvider} {id id' : UInt64}
    {events : List Event} {returns : Bool}
    (h : BodyRun handle provider id events id' returns) : returns = true → Flawless events := by
  cases h with
  | unprepared _ => rintro ⟨⟩
  | @prepared events id' returns hprepare hloop =>
      intro hreturns
      rcases Bool.and_eq_true_iff.1 hreturns with ⟨hreturns', hfinish⟩
      have hfinish' : ¬ (Call.finish provider.finish).Failed := by
        cases hans : provider.finish with
        | ok _ => exact not_false
        | error e =>
            rw [hans] at hfinish
            cases hfinish
      have hbefore : Flawless (.call (.prepare (.ok ())) :: events) :=
        ⟨not_false, hloop.flawless hreturns'⟩
      exact hbefore.append ⟨hfinish', trivial⟩

theorem HandleRun.disciplined {handle : Str} {provider : DataProvider} {id id' : UInt64}
    {events : List Event} {returns : Bool}
    (h : HandleRun handle provider id events id' returns) :
    Disciplined handle provider events := by
  -- what comes of the `CLOSE` request does not matter
  have hclosed : ∀ {events : List Event} {id' : UInt64} {returns : Bool} {outcome : Event},
      BodyRun handle provider id events id' returns → outcome.IsOutcome →
      Disciplined handle provider
        (events ++ [.send (succId id') (.close handle), outcome]) := by
    intro events id' returns outcome hbody houtcome
    refine ⟨⟨events, _, [outcome], rfl, hbody.finish.1, houtcome.quiet.close, ?_⟩, ?_⟩
    · exact writesOf_idle (by simpa using houtcome.idle)
    · rw [finishes, List.countP_append]
      change finishes events + finishes [outcome] = _
      rw [houtcome.quiet.finish, Nat.add_zero]
      exact hbody.finish.2
  cases h with
  | failed hbody houtcome => exact hclosed hbody houtcome
  | completed hbody _ => exact hclosed hbody trivial

theorem HandleRun.flawless {handle : Str} {provider : DataProvider} {id id' : UInt64}
    {events : List Event} (h : HandleRun handle provider id events id' true) :
    Flawless events := by
  cases h with
  | completed hbody haccepts => exact (hbody.flawless rfl).append ⟨haccepts, trivial⟩

/-! ## Whole runs -/

/-- Without a handle the provider is never called.  With a handle, the run is disciplined, and if
it returns, then nothing in it has failed. -/
theorem perform_discipline (path : Str) (provider : DataProvider) (target_files : List Str)
    (s : SFTPState) :
    match createfile (appendPath path (target_files.headD [])) s with
    | .error e s₁ => perform path provider target_files s = .error e s₁ ∧
        ∃ events, s₁.trace = s.trace ++ events ∧ ∀ c, Event.call c ∉ events
    | .ok handle s₁ => ∃ events s', s'.trace = s₁.trace ++ events ∧
        Disciplined handle provider events ∧
        ((perform path provider target_files s = .ok false s' ∧ Flawless events) ∨
          ∃ e, perform path provider target_files s = .error e s') := by
  have hcases := perform_cases path provider target_files s
  have hwp := wp_createfile (appendPath path (target_files.headD [])) s
  cases hcreate : createfile (appendPath path (target_files.headD [])) s with
  | error e s₁ =>
      rw [hcreate] at hcases
      rcases wp_error hwp hcreate with ⟨outcome, houtcome, _, htrace⟩
      refine ⟨hcases, _, htrace, fun c hmem => ?_⟩
      simp only [List.mem_cons, List.not_mem_nil, or_false] at hmem
      rcases hmem with hmem | rfl
      · cases hmem
      · exact houtcome
  | ok handle s₁ =>
      rw [hcreate] at hcases
      rcases hcases with ⟨events, s', htrace, ⟨hperform, hrun⟩ | ⟨e, hperform, hrun⟩⟩
      · exact ⟨events, s', htrace, hrun.disciplined, Or.inl ⟨hperform, hrun.flawless⟩⟩
      · exact ⟨events, s', htrace, hrun.disciplined, Or.inr ⟨e, hperform⟩⟩

end Sftp
end Kdump

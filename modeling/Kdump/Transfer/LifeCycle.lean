import Kdump.Transfer.FileTransfer
import Kdump.Transfer.FTPTransfer
import Kdump.Transfer.SSHTransfer

/-!
# LifeCycle — every provider that was prepared is finished once

`ProcessDataProvider::finish` closes a process that there is only between a successful `prepare`
and the first `finish`.  Three transfers pipe data through a buffer, and each places these calls in
another way.

* `LifeCycle` — the calls that a provider may see;
* `Unfinished` — what holds of the calls until `finish` is called, together with the variable by
  which a transfer remembers that `prepare` has returned;
* `FTPTransfer` has no such variable, and calls `finish` inside of its `try`.
-/

namespace Kdump
namespace Transfer

open Lib Kdump.Path

/-! ## Calls of a provider -/

def Call.isFinish : Call → Bool
  | .finish _ => true
  | _ => false

/-- `finish` is called once if `prepare` has returned, and never otherwise. -/
def LifeCycle (calls : List Call) : Prop :=
  calls.countP Call.isFinish = if .prepare (.ok ()) ∈ calls then 1 else 0

/-- Nothing has been finished, and `prepared` says whether there is something to be finished. -/
structure Unfinished (calls : List Call) (prepared : Bool) : Prop where
  finished : calls.countP Call.isFinish = 0
  prepared_iff : prepared = true ↔ .prepare (.ok ()) ∈ calls

namespace Unfinished

variable {calls : List Call}

theorem nil : Unfinished [] false :=
  ⟨rfl, ⟨nofun, nofun⟩⟩

theorem getData {prepared : Bool} (h : Unfinished calls prepared) (size : Nat)
    (answer : Except Thrown ByteVector) :
    Unfinished (calls ++ [.getData size answer]) prepared := by
  refine ⟨?_, h.prepared_iff.trans ?_⟩
  · rw [List.countP_append, h.finished]
    rfl
  · simp only [List.mem_append, List.mem_singleton, reduceCtorEq, or_false]

theorem prepare_ok {prepared : Bool} (h : Unfinished calls prepared) :
    Unfinished (calls ++ [.prepare (.ok ())]) true := by
  refine ⟨?_, iff_of_true rfl (List.mem_append_right _ (List.mem_singleton.2 rfl))⟩
  rw [List.countP_append, h.finished]
  rfl

theorem prepare_error {prepared : Bool} (h : Unfinished calls prepared) (e : Thrown) :
    Unfinished (calls ++ [.prepare (.error e)]) prepared := by
  refine ⟨?_, h.prepared_iff.trans ?_⟩
  · rw [List.countP_append, h.finished]
    rfl
  · simp only [List.mem_append, List.mem_singleton, Call.prepare.injEq, reduceCtorEq, or_false]

/-- There was nothing to be finished. -/
theorem lifeCycle (h : Unfinished calls false) : LifeCycle calls := by
  have hmem : .prepare (.ok ()) ∉ calls := fun hmem => absurd (h.prepared_iff.2 hmem) nofun
  rw [LifeCycle, h.finished, if_neg hmem]

theorem count_finish {prepared : Bool} (h : Unfinished calls prepared)
    (answer : Except Thrown Unit) :
    (calls ++ [Call.finish answer]).countP Call.isFinish = 1 := by
  rw [List.countP_append, h.finished]
  rfl

theorem finish (h : Unfinished calls true) (answer : Except Thrown Unit) :
    LifeCycle (calls ++ [.finish answer]) := by
  have hmem : .prepare (.ok ()) ∈ calls ++ [.finish answer] :=
    List.mem_append_left _ (h.prepared_iff.1 rfl)
  rw [LifeCycle, h.count_finish, if_pos hmem]

end Unfinished

theorem keeps_callGetData {σ : Type} [Observed σ] {I : σ → Prop} (size : Nat)
    (answer : Except Thrown ByteVector)
    (h : ∀ s answer, I s → I (Observed.record (.getData size answer) s)) :
    Keeps (callGetData size answer) I := by
  intro s hs
  rw [wp_callGetData]
  cases answer with
  | ok chunk => exact h s _ hs
  | error e => exact h s _ hs

/-! ## FileTransfer -/

namespace FileTransfer

variable (self : FileTransfer)

/-- The provider has been prepared, and not yet finished. -/
def Prepared (s : FileState) : Prop :=
  s.prepared = true ∧ Unfinished s.calls true

theorem keeps_onStream {ε : Type} (call : Stream → Except ε Unit × Stream) :
    Keeps (onStream call) Prepared :=
  fun _ h => h

theorem keeps_orThrow (call : Stream → Answer) (message : Str) :
    Keeps (orThrow call message) Prepared := by
  intro s h
  rw [wp_orThrow]
  cases (call s.fp).1 <;> exact h

theorem keeps_saveChunk (chunk : ByteVector) : Keeps (self.saveChunk chunk) Prepared := by
  unfold saveChunk
  split
  · exact .bind (keeps_orThrow _ _) fun _ => .pure true
  · apply Keeps.bind (keeps_onStream _)
    intro answer
    cases answer with
    | error e => exact .throw _
    | ok _ => exact .pure false

theorem keeps_pipeLoop (data : List (Except Thrown ByteVector)) (last_was_sparse : Bool) :
    Keeps (self.pipeLoop data last_was_sparse) Prepared := by
  have hget : ∀ answer, Keeps (callGetData self.m_bufferSize answer) Prepared :=
    fun answer => keeps_callGetData _ answer fun _ answer h => ⟨h.1, h.2.getData _ answer⟩
  induction data generalizing last_was_sparse with
  | nil => exact .bind (hget _) fun _ => .pure last_was_sparse
  | cons answer data ih =>
      apply Keeps.bind (hget answer)
      intro chunk
      split
      · exact .pure last_was_sparse
      · exact .bind (self.keeps_saveChunk chunk) fun last_was_sparse => ih last_was_sparse

theorem keeps_setLength : Keeps self.setLength Prepared :=
  .bind .get fun _ => .bind (keeps_orThrow _ _) fun _ =>
    .bind (.modify fun _ h => h) fun _ => keeps_orThrow _ _

theorem wp_pipeBody (provider : DataProvider) {s : FileState}
    (h : Unfinished s.calls s.prepared) :
    wp (self.pipeBody provider) (fun _ => Prepared)
      (fun _ s' => Unfinished s'.calls s'.prepared) s := by
  unfold pipeBody
  rw [wp_bind, wp_callPrepare]
  cases provider.prepare with
  | error e => exact h.prepare_error e
  | ok _ =>
      rw [wp_bind, wp_modify]
      -- from here on, nothing but `getData` is called
      have hrest : Keeps (do
          let last_was_sparse ← self.pipeLoop provider.data false
          if last_was_sparse = true then
            self.setLength) Prepared := by
        apply Keeps.bind (self.keeps_pipeLoop _ _)
        intro last_was_sparse
        split
        · exact self.keeps_setLength
        · exact .pure _
      refine wp_mono (hrest _ ⟨rfl, h.prepare_ok⟩) (fun _ _ h => h) (fun _ s' h => ?_)
      rw [h.1]
      exact h.2

theorem wp_pipeHandler (provider : DataProvider) (e : Thrown) {s : FileState}
    (h : Unfinished s.calls s.prepared) :
    wp (self.pipeHandler provider e) (fun _ _ => False) (fun _ s' => LifeCycle s'.calls) s := by
  unfold pipeHandler close
  simp only [wp_bind, wp_onStream, wp_pure, wp_get]
  split
  · rename_i hprepared
    rw [hprepared] at h
    rw [wp_bind, wp_callFinish]
    cases provider.finish <;> exact h.finish _
  · rename_i hprepared
    have hfalse : s.prepared = false := Bool.eq_false_iff.2 hprepared
    rw [hfalse] at h
    exact h.lifeCycle

/-- The provider of a pipe is finished once if it was prepared, whatever fails. -/
theorem lifeCycle_performPipe (provider : DataProvider) (target_files : List Str) (s : FileState) :
    LifeCycle (endState (self.performPipe provider target_files { s with calls := [] })).calls := by
  refine (wp_endState (I := fun s : FileState => LifeCycle s.calls)).1 ?_
  unfold performPipe
  rw [wp_bind]
  unfold FileTransfer.open
  cases self.io.fopen with
  | error errno => exact Unfinished.nil.lifeCycle
  | ok _ =>
      simp only [wp_modify, wp_bind, wp_tryCatch]
      refine wp_mono (self.wp_pipeBody provider Unfinished.nil) ?_ ?_
      · intro _ s₁ h
        -- `finish` is called outside of the `try`, so that the handler does not see it fail
        simp only [close, wp_bind, wp_onStream, wp_pure, wp_callFinish]
        cases provider.finish <;> exact h.2.finish _
      · intro e s₁ h
        exact wp_mono (self.wp_pipeHandler provider e h) (fun _ _ h => h.elim) (fun _ _ h => h)

end FileTransfer

/-! ## SSHTransfer -/

namespace SSHTransfer

variable (self : SSHTransfer)

def Prepared (s : SSHState) : Prop :=
  s.prepared = true ∧ Unfinished s.calls true

theorem keeps_writeChunk (chunk : ByteVector) : Keeps (writeChunk chunk) Prepared := by
  intro s h
  unfold writeChunk
  simp only [wp_bind, wp_get, wp_set]
  cases (writeFully s.answers chunk).result <;> exact h

theorem keeps_sendLoop (data : List (Except Thrown ByteVector)) :
    Keeps (sendLoop data) Prepared := by
  have hget : ∀ answer, Keeps (callGetData BUFSIZ answer) Prepared :=
    fun answer => keeps_callGetData _ answer fun _ answer h => ⟨h.1, h.2.getData _ answer⟩
  induction data with
  | nil => exact .bind (hget _) fun _ => .pure _
  | cons answer data ih =>
      apply Keeps.bind (hget answer)
      intro chunk
      split
      · exact .pure _
      · exact .bind (keeps_writeChunk chunk) fun _ => ih

theorem wp_sendBody (provider : DataProvider) {s : SSHState} (h : Unfinished s.calls s.prepared) :
    wp (sendBody provider) (fun _ => Prepared)
      (fun _ s' => Unfinished s'.calls s'.prepared) s := by
  unfold sendBody
  rw [wp_bind, wp_callPrepare]
  cases provider.prepare with
  | error e => exact h.prepare_error e
  | ok _ =>
      rw [wp_bind, wp_modify]
      refine wp_mono (keeps_sendLoop provider.data _ ⟨rfl, h.prepare_ok⟩) (fun _ _ h => h)
        (fun _ s' h => ?_)
      rw [h.1]
      exact h.2

theorem wp_sendHandler (provider : DataProvider) (e : Thrown) {s : SSHState}
    (h : Unfinished s.calls s.prepared) :
    wp (sendHandler provider e) (fun _ _ => False) (fun _ s' => LifeCycle s'.calls) s := by
  unfold sendHandler
  simp only [wp_bind, wp_get]
  split
  · rename_i hprepared
    rw [hprepared] at h
    rw [wp_bind, wp_callFinish]
    cases provider.finish <;> exact h.finish _
  · rename_i hprepared
    have hfalse : s.prepared = false := Bool.eq_false_iff.2 hprepared
    rw [hfalse] at h
    exact h.lifeCycle

/-- What comes behind `finish` does not call the provider. -/
theorem lifeCycle_perform (provider : DataProvider) (target_files : List Str) (s : SSHState) :
    LifeCycle (endState (self.perform provider target_files { s with calls := [] })).calls := by
  refine (wp_endState (I := fun s : SSHState => LifeCycle s.calls)).1 ?_
  unfold perform
  simp only [wp_bind, wp_ofExcept]
  cases self.spawn (self.makeArgs
      (remoteCommand (appendPath self.path (target_files.headD [])))) with
  | error e => exact Unfinished.nil.lifeCycle
  | ok _ =>
      simp only [wp_modify, wp_tryCatch]
      refine wp_mono (wp_sendBody provider Unfinished.nil) ?_ ?_
      · intro _ s₁ h
        rw [wp_callFinish]
        cases provider.finish with
        | error e => exact h.2.finish _
        | ok _ =>
            -- whatever the status is, `finish` is not called again
            cases self.wait with
            | error e => exact h.2.finish _
            | ok status =>
                dsimp only
                split <;> exact h.2.finish _
      · intro e s₁ h
        exact wp_mono (wp_sendHandler provider e h) (fun _ _ h => h.elim) (fun _ _ h => h)

end SSHTransfer

/-! ## FTPTransfer -/

namespace FTPTransfer

variable (self : FTPTransfer)

/-- `open` returns. -/
def Opens (target_files : List Str) : Prop :=
  (∃ reachable, self.routable = .ok reachable) ∧
    self.setURL (appendPath self.url (target_files.headD [])) = 0 ∧ self.setReadData = 0

/-- `curl_easy_perform` is successful with the data of the provider. -/
def Uploads (provider : DataProvider) : Prop :=
  self.engine.result provider.data = .ok 0

theorem wp_orThrow {err : CURLcode} {Q : Unit → FTPState → Prop} {E : Thrown → FTPState → Prop}
    {s : FTPState} (hQ : err = 0 → Q () s) (hE : ∀ e, err ≠ 0 → E e s) :
    wp (self.orThrow err) Q E s := by
  unfold orThrow
  split
  · rename_i herr
    exact hE _ herr
  · rename_i herr
    exact hQ (not_not.1 herr)

theorem wp_open {target_files : List Str} {Q : Unit → FTPState → Prop}
    {E : Thrown → FTPState → Prop} {s : FTPState} (hQ : self.Opens target_files → Q () s)
    (hE : ∀ e, ¬ self.Opens target_files → E e s) :
    wp (self.open (target_files.headD [])) Q E s := by
  unfold FTPTransfer.open
  rw [wp_bind, wp_ofExcept]
  cases hroutable : self.routable with
  | error e =>
      apply hE
      rintro ⟨⟨reachable, hok⟩, _⟩
      rw [hroutable] at hok
      cases hok
  | ok reachable =>
      dsimp only
      rw [wp_bind]
      refine self.wp_orThrow (fun hurl => self.wp_orThrow (fun hdata => ?_) fun e hdata => ?_)
        fun e hurl => ?_
      · exact hQ ⟨⟨reachable, hroutable⟩, hurl, hdata⟩
      · exact hE e fun h => hdata h.2.2
      · exact hE e fun h => hurl h.2.1

/-- The engine ends as its result says, and calls nothing but `getData`. -/
theorem wp_easyPerform (engine : Engine) : ∀ (data : List (Except Thrown ByteVector))
    {s : FTPState}, Unfinished s.calls true →
      wp (easyPerform engine data)
        (fun err s' => engine.result data = .ok err ∧ Unfinished s'.calls true)
        (fun e s' => engine.result data = .error e ∧ Unfinished s'.calls true) s := by
  induction engine with
  | done err => exact fun data s h => ⟨rfl, h⟩
  | read size more ih =>
      intro data s h
      cases data with
      | nil =>
          -- behind the end of the data, `getData` gives nothing
          rw [easyPerform, wp_bind, wp_callGetData]
          exact ih [] [] (h.getData _ _)
      | cons answer data =>
          rw [easyPerform, wp_bind, wp_callGetData]
          cases answer with
          | error e => exact ⟨rfl, h.getData _ _⟩
          | ok chunk => exact ih chunk data (h.getData _ _)

/-- What must hold for `finish` to be called as it should be. -/
def FinishesOnce (provider : DataProvider) (target_files : List Str) : Prop :=
  self.Opens target_files → provider.prepare = .ok () ∧
    (self.Uploads provider → provider.finish = .ok ())

theorem wp_performHandler (provider : DataProvider) (e : Thrown) (s : FTPState) :
    wp (performHandler provider e) (fun _ _ => False)
      (fun _ s' => s'.calls = s.calls ++ [.finish provider.finish]) s := by
  unfold performHandler
  rw [wp_bind, wp_modify, wp_bind, wp_callFinish]
  cases provider.finish <;> exact rfl

/-- A provider that could not be prepared must not be finished. -/
theorem not_lifeCycle_prepare (e : Thrown) (answer : Except Thrown Unit) :
    ¬ LifeCycle [.prepare (.error e), .finish answer] := by
  have hmem : Call.prepare (.ok ()) ∉ [.prepare (.error e), .finish answer] := by
    simp only [List.mem_cons, Call.prepare.injEq, reduceCtorEq, List.not_mem_nil, or_self,
      not_false_eq_true]
  rw [LifeCycle, if_neg hmem]
  exact Nat.one_ne_zero

/-- Nor may it be finished a second time. -/
theorem not_lifeCycle_finish {calls : List Call} (h : Unfinished calls true)
    (answer answer' : Except Thrown Unit) :
    ¬ LifeCycle (calls ++ [.finish answer] ++ [.finish answer']) := by
  have hcount :
      (calls ++ [Call.finish answer] ++ [Call.finish answer']).countP Call.isFinish = 2 := by
    rw [List.countP_append, h.count_finish]
    rfl
  rw [LifeCycle, hcount]
  split <;> decide

/-- What may throw inside of the `try`, and the calls up to there. -/
inductive BodyFails (provider : DataProvider) : List Call → Prop
  | prepare (e : Thrown) : provider.prepare = .error e →
      BodyFails provider [.prepare (.error e)]
  | upload {calls : List Call} : provider.prepare = .ok () → ¬ self.Uploads provider →
      Unfinished calls true → BodyFails provider calls
  | finish {calls : List Call} (e : Thrown) : self.Uploads provider →
      provider.finish = .error e → Unfinished calls true →
      BodyFails provider (calls ++ [.finish (.error e)])

theorem wp_performBody (provider : DataProvider) (error : Bool) :
    wp (self.performBody provider)
      (fun _ s' => provider.prepare = .ok () ∧ provider.finish = .ok () ∧ LifeCycle s'.calls)
      (fun _ s' => self.BodyFails provider s'.calls) ⟨error, []⟩ := by
  unfold performBody
  rw [wp_bind, wp_callPrepare]
  cases hprepare : provider.prepare with
  | error e => exact .prepare e hprepare
  | ok _ =>
      have hprepared : Unfinished [.prepare (.ok ())] true := Unfinished.nil.prepare_ok
      rw [wp_bind]
      refine wp_mono (wp_easyPerform self.engine provider.data hprepared) ?_ ?_
      · rintro err s₁ ⟨hresult, h⟩
        rw [wp_bind]
        refine self.wp_orThrow (fun herr => ?_) fun e herr => ?_
        · subst herr
          rw [wp_callFinish]
          -- `finish` is called inside of the `try`
          cases hfinish : provider.finish with
          | ok _ => exact ⟨rfl, rfl, h.finish _⟩
          | error e => exact .finish e hresult hfinish h
        · refine .upload hprepare (fun hup => ?_) h
          exact herr (Except.ok.inj (hresult.symm.trans hup))
      · rintro e s₁ ⟨hresult, h⟩
        refine .upload hprepare (fun hup => ?_) h
        cases hresult.symm.trans hup

/-- `finish` is also called if `prepare` throws, and again if `finish` throws. -/
theorem lifeCycle_perform_iff (provider : DataProvider) (target_files : List Str) (s : FTPState) :
    LifeCycle (endState (self.perform provider target_files { s with calls := [] })).calls ↔
      self.FinishesOnce provider target_files := by
  refine (wp_endState
    (I := fun s : FTPState => LifeCycle s.calls ↔ self.FinishesOnce provider target_files)).1 ?_
  unfold perform
  rw [wp_bind]
  refine self.wp_open (fun hopens => ?_) fun e hopens => ?_
  · rw [wp_bind, wp_tryCatch]
    refine wp_mono (self.wp_performBody provider s.error) ?_ ?_
    · rintro _ s₁ ⟨hprepare, hfinish, h⟩
      exact iff_of_true h fun _ => ⟨hprepare, fun _ => hfinish⟩
    · intro e s₁ hfails
      -- the handler always calls `finish`
      refine wp_mono (wp_performHandler provider e s₁) (fun _ _ h => h.elim) fun _ s₂ hcalls => ?_
      rw [hcalls]
      generalize s₁.calls = calls at hfails
      cases hfails with
      | prepare e hprepare =>
          refine iff_of_false (not_lifeCycle_prepare e _) fun honce => ?_
          cases hprepare.symm.trans (honce hopens).1
      | upload hprepare hup h =>
          exact iff_of_true (h.finish _) fun _ => ⟨hprepare, fun hup' => absurd hup' hup⟩
      | finish e hup hfinish h =>
          refine iff_of_false (not_lifeCycle_finish h _ _) fun honce => ?_
          cases hfinish.symm.trans ((honce hopens).2 hup)
  · exact iff_of_true Unfinished.nil.lifeCycle fun h => absurd h hopens

end FTPTransfer

/-- A provider is finished once if it was prepared, and never otherwise: always through a file or
`ssh`, and through libcurl exactly as long as `prepare` does not throw, and `finish` does not behind
a successful upload. -/
theorem lifeCycle_iff (provider : DataProvider) (target_files : List Str) :
    (∀ (self : FileTransfer) (s : FileState),
      LifeCycle (endState (self.performPipe provider target_files { s with calls := [] })).calls) ∧
    (∀ (self : SSHTransfer) (s : SSHState),
      LifeCycle (endState (self.perform provider target_files { s with calls := [] })).calls) ∧
    ∀ (self : FTPTransfer) (s : FTPState),
      LifeCycle (endState (self.perform provider target_files { s with calls := [] })).calls ↔
        self.FinishesOnce provider target_files :=
  ⟨fun self s => self.lifeCycle_performPipe provider target_files s,
    fun self s => self.lifeCycle_perform provider target_files s,
    fun self s => self.lifeCycle_perform_iff provider target_files s⟩

/-- A process that cannot be started is finished, which closes a null pointer. -/
theorem lifeCycle_popen :
    ¬ LifeCycle (endState (FTPTransfer.perform
      ⟨[], [], .ok true, fun _ => 0, 0, .done 0⟩
      ⟨.error (.KSystemError (str "Could not start process makedumpfile") 2), [], .ok (), false,
        fun _ => .ok ()⟩ [] ⟨false, []⟩)).calls := by
  unfold LifeCycle
  decide

end Transfer
end Kdump

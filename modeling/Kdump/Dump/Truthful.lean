import Kdump.Dump.Notification

/-!
# Truthful — what the notifications of a run say

* `Quiet` — programs that do not show in the trace;
* `Sends` — when a notification goes out;
* `GoesOn` — a run that goes on behind a failure and ends with a second mail;
* `truthful_iff` — the mails tell the truth in all other runs.
-/

namespace Kdump
namespace Dump

open Lib Config Kdump.Path Kdump.Mount

section

variable {W α β : Type} {fadump : Bool}

/-! ## Programs that do not show in the trace -/

/-- The trace stays as it is. -/
def Quiet (p : Exec W α) : Prop :=
  ∀ trace, Keeps p fun r => r.trace = trace

theorem isKError_KError (message : Str) : isKError (.KError message) = true :=
  rfl

theorem wp_tryKError {σ : Type} {body : EStateM Thrown σ Unit}
    {handler : Thrown → EStateM Thrown σ Unit} {Q : Unit → σ → Prop} {E : Thrown → σ → Prop}
    {s : σ} : wp (tryKError body handler) Q E s ↔
      wp body Q (fun e s' => if isKError e then wp (handler e) Q E s' else E e s') s := by
  rw [wp, wp, tryKError]
  cases body s with
  | ok a s' => exact Iff.rfl
  | error e s' =>
      dsimp only
      split_ifs <;> exact Iff.rfl

namespace Quiet

theorem trace_ok {p : Exec W α} (h : Quiet p) {r r' : Run W} {a : α} (hp : p r = .ok a r') :
    r'.trace = r.trace := by
  have hkeeps := h r.trace r rfl
  rwa [wp, hp] at hkeeps

theorem trace_error {p : Exec W α} (h : Quiet p) {r r' : Run W} {e : Thrown}
    (hp : p r = .error e r') : r'.trace = r.trace := by
  have hkeeps := h r.trace r rfl
  rwa [wp, hp] at hkeeps

theorem call (p : StepProg W α) : Quiet (call p) := by
  intro trace r hr
  rw [wp, Dump.call]
  cases p (r.obj, r.world) <;> exact hr

theorem onObject (p : SaveProg α) : Quiet (onObject p : Exec W α) := by
  intro trace r hr
  rw [wp, Dump.onObject]
  cases p r.obj <;> exact hr

theorem modifyObject (f : SaveDump → SaveDump) : Quiet (modifyObject f : Exec W Unit) :=
  fun _ => Keeps.modify fun _ hr => hr

theorem pure (a : α) : Quiet (pure a : Exec W α) :=
  fun _ => Keeps.pure a

theorem throw (e : Thrown) : Quiet (throw e : Exec W α) :=
  fun _ => Keeps.throw e

theorem get : Quiet (get : Exec W (Run W)) :=
  fun _ => Keeps.get

theorem ofExcept (r : Except Thrown α) : Quiet (ofExcept r : Exec W α) :=
  fun _ => Keeps.ofExcept r

theorem bind {p : Exec W α} {f : α → Exec W β} (hp : Quiet p) (hf : ∀ a, Quiet (f a)) :
    Quiet (p >>= f) :=
  fun trace => (hp trace).bind fun a => hf a trace

theorem ite {P : Prop} [Decidable P] {p q : Exec W α} (hp : Quiet p) (hq : Quiet q) :
    Quiet (if P then p else q) := by
  split_ifs
  · exact hp
  · exact hq

theorem tryKError {p : Exec W Unit} {h : Thrown → Exec W Unit} (hp : Quiet p)
    (hh : ∀ e, Quiet (h e)) : Quiet (tryKError p h) := by
  intro trace r hr
  rw [wp_tryKError]
  refine wp_mono (hp trace r hr) (fun _ _ h => h) ?_
  intro e r' hr'
  split_ifs
  · exact hh e trace r' hr'
  · exact hr'

theorem mapM {f : β → Exec W α} (hf : ∀ b, Quiet (f b)) (l : List β) : Quiet (l.mapM f) := by
  induction l with
  | nil => exact Quiet.pure []
  | cons b l ih =>
      rw [List.mapM_cons]
      exact (hf b).bind fun _ => ih.bind fun _ => Quiet.pure _

end Quiet

variable (c : Configuration fadump) (t : Steps W)

theorem quiet_prepare : Quiet (prepare c t) := by
  refine (Quiet.call _).bind fun _ => Quiet.get.bind fun _ => Quiet.ite (Quiet.throw _) ?_
  refine (Quiet.onObject _).bind fun _ => Quiet.get.bind fun _ => ?_
  refine (Quiet.mapM ?_ _).bind fun _ => (Quiet.call _).bind fun _ => Quiet.pure _
  intro elem
  refine Quiet.get.bind fun _ => (Quiet.ofExcept _).bind fun url => ?_
  refine Quiet.bind ?_ fun _ => Quiet.get.bind fun _ => Quiet.ofExcept _
  refine Quiet.ite ((Quiet.call _).bind fun _ => ?_) (Quiet.pure _)
  exact Quiet.ite (Quiet.pure _) (Quiet.pure _)

theorem quiet_orContinue (error : Thrown) : Quiet (orContinue c error : Exec W Unit) :=
  Quiet.ite (Quiet.pure _) (Quiet.throw _)

theorem Quiet.tryStep {body : Exec W Unit} (h : Quiet body) : Quiet (tryStep c body) :=
  h.tryKError fun _ => (Quiet.modifyObject _).bind fun _ => quiet_orContinue c _

theorem quiet_finish (urlv : List RootDirURL) : Quiet (finish c t urlv) := by
  refine (Quiet.tryStep c (Quiet.call _)).bind fun _ => ?_
  refine (Quiet.tryStep c ?_).bind fun _ => ?_
  · exact Quiet.get.bind fun _ => Quiet.ite (Quiet.call _) (Quiet.pure _)
  refine (Quiet.tryKError ?_ fun _ => Quiet.pure _).bind fun _ => ?_
  · refine Quiet.get.bind fun _ => Quiet.ite ?_ (Quiet.pure _)
    exact (Quiet.call _).bind fun _ => Quiet.modifyObject _
  refine (Quiet.tryStep c (Quiet.call _)).bind fun _ => Quiet.get.bind fun _ => ?_
  exact Quiet.ite (Quiet.tryStep c (Quiet.ite (Quiet.call _) (Quiet.pure _))) (Quiet.pure _)

theorem quiet_fillHostname : Quiet (fillHostname t) :=
  Quiet.get.bind fun _ => Quiet.ite ((Quiet.call _).bind fun _ => Quiet.modifyObject _)
    (Quiet.pure _)

/-! ## When a notification goes out -/

variable (HAVE_LIBESMTP failure : Bool) (urlv : List RootDirURL)

/-- There is somebody to send a mail to, and a server that takes it. -/
def Configured (r : Run W) : Prop :=
  HAVE_LIBESMTP = true ∧ r.obj.m_nomail = false ∧ c.stringValue "KDUMP_SMTP_SERVER" ≠ [] ∧
    c.stringValue "KDUMP_NOTIFICATION_TO" ≠ []

/-- The host name is known, and the mail is sent without an exception. -/
def Sends (r : Run W) : Prop :=
  Configured c HAVE_LIBESMTP r ∧ ∃ r1 r2, fillHostname t r = .ok () r1 ∧
    call (t.send (notification c r1.obj.m_hostname failure urlv)) r1 = .ok () r2

/-- What a notification adds to the trace. -/
structure Notified (r r' : Run W) : Prop where
  sent : Sends c t HAVE_LIBESMTP failure urlv r →
    ∃ email, r'.trace = r.trace ++ [.sent failure email]
  silent : ¬ Sends c t HAVE_LIBESMTP failure urlv r → r'.trace = r.trace

variable {c t HAVE_LIBESMTP failure urlv}

theorem Notified.of_not_sends {r r' : Run W} (hnot : ¬ Sends c t HAVE_LIBESMTP failure urlv r)
    (htrace : r'.trace = r.trace) : Notified c t HAVE_LIBESMTP failure urlv r r' :=
  ⟨fun h => absurd h hnot, fun _ => htrace⟩

theorem wp_mail {r : Run W} (hconf : Configured c HAVE_LIBESMTP r) :
    wp (mail c t failure urlv) (fun _ => Notified c t HAVE_LIBESMTP failure urlv r)
      (fun _ => Notified c t HAVE_LIBESMTP failure urlv r) r := by
  rw [mail, wp_bind]
  refine wp_intro ?_ ?_
  · intro _ r1 hfill
    have htrace1 := (quiet_fillHostname t).trace_ok hfill
    rw [wp_bind, wp_get, wp_bind]
    refine wp_intro ?_ ?_
    · intro _ r2 hsend
      have htrace2 := ((Quiet.call _).trace_ok hsend).trans htrace1
      have hsends : Sends c t HAVE_LIBESMTP failure urlv r := ⟨hconf, r1, r2, hfill, hsend⟩
      refine ⟨fun _ => ⟨notification c r1.obj.m_hostname failure urlv, ?_⟩,
        fun hnot => absurd hsends hnot⟩
      exact congrArg (· ++ _) htrace2
    · intro e r2 hsend
      refine Notified.of_not_sends ?_ (((Quiet.call _).trace_error hsend).trans htrace1)
      rintro ⟨_, r1', r2', hfill', hsend'⟩
      cases hfill.symm.trans hfill'
      cases hsend.symm.trans hsend'
  · intro e r1 hfill
    refine Notified.of_not_sends ?_ ((quiet_fillHostname t).trace_error hfill)
    rintro ⟨_, r1', _, hfill', _⟩
    cases hfill.symm.trans hfill'

theorem wp_sendNotification (r : Run W) :
    wp (sendNotification c HAVE_LIBESMTP t failure urlv)
      (fun _ => Notified c t HAVE_LIBESMTP failure urlv r)
      (fun _ => Notified c t HAVE_LIBESMTP failure urlv r) r := by
  rw [sendNotification]
  split_ifs with hlib
  · rw [wp_bind, wp_get]
    dsimp only
    split_ifs with hnomail hnone hserver hto
    · exact Notified.of_not_sends (fun h => by simp [h.1.2.1] at hnomail) rfl
    · exact Notified.of_not_sends (fun h => h.1.2.2.1 hnone.1) rfl
    · rw [wp_tryKError, wp_throw, if_pos (isKError_KError _)]
      exact Notified.of_not_sends (fun h => h.1.2.2.1 hserver) rfl
    · rw [wp_tryKError, wp_throw, if_pos (isKError_KError _)]
      exact Notified.of_not_sends (fun h => h.1.2.2.2 hto) rfl
    · have hconf : Configured c HAVE_LIBESMTP r :=
        ⟨hlib, by simpa using hnomail, hserver, hto⟩
      rw [wp_tryKError]
      refine wp_mono (wp_mail hconf) (fun _ _ h => h) ?_
      intro e r' h
      split_ifs <;> exact h
  · exact Notified.of_not_sends (fun h => hlib h.1.1) rfl

/-! ## Traces that tell the truth -/

/-- A success notification comes behind a `saveDump` that has returned, and there is one
notification at most. -/
structure Truthful (trace : List Event) : Prop where
  success : ∀ before email behind,
    trace = before ++ .sent false email :: behind → .saved ∈ before
  once : (trace.filter Event.isSent).length ≤ 1

theorem truthful_nil : Truthful [] :=
  ⟨fun before email behind h => by simp at h, Nat.zero_le _⟩

theorem truthful_saved : Truthful [.saved] := by
  refine ⟨?_, Nat.zero_le _⟩
  intro before email behind h
  cases before with
  | nil => cases h
  | cons event before => simp at h

theorem truthful_success (email : Email) : Truthful [.saved, .sent false email] := by
  refine ⟨?_, Nat.le_refl 1⟩
  intro before email' behind h
  cases before with
  | nil => cases h
  | cons event before =>
      rw [List.cons_append, List.cons.injEq] at h
      exact h.1 ▸ List.mem_cons_self

theorem truthful_failure (email : Email) : Truthful [.sent true email] := by
  refine ⟨?_, Nat.le_refl 1⟩
  intro before email' behind h
  cases before with
  | nil => cases h
  | cons event before => simp at h

/-- Behind a failure there must not be a success notification. -/
theorem not_truthful_of_no_saved {trace : List Event} (h : Event.saved ∉ trace) (email : Email) :
    ¬ Truthful (trace ++ [.sent false email]) :=
  fun htruthful => h (htruthful.success trace email [] rfl)

/-! ## The runs -/

/-- The trace of a run without a saved dump, before the success notification. -/
def Unsaved (trace : List Event) : Prop :=
  trace = [] ∨ ∃ email, trace = [.sent true email]

theorem Unsaved.truthful {trace : List Event} (h : Unsaved trace) : Truthful trace := by
  rcases h with rfl | ⟨email, rfl⟩
  · exact truthful_nil
  · exact truthful_failure email

theorem Unsaved.saved_not_mem {trace : List Event} (h : Unsaved trace) :
    Event.saved ∉ trace := by
  rcases h with rfl | ⟨email, rfl⟩
  · exact List.not_mem_nil
  · intro hmem
    cases List.mem_singleton.1 hmem

theorem unsaved_reportFailure {r : Run W} (hr : r.trace = []) :
    Unsaved (endState (reportFailure c HAVE_LIBESMTP t urlv r)).trace := by
  have hnotified : ∀ r1 r' : Run W, Notified c t HAVE_LIBESMTP true urlv r1 r' →
      r1.trace = [] → Unsaved r'.trace := by
    intro r1 r' h hr1
    by_cases hsends : Sends c t HAVE_LIBESMTP true urlv r1
    · obtain ⟨email, htrace⟩ := h.sent hsends
      exact Or.inr ⟨email, by rw [htrace, hr1]; rfl⟩
    · exact Or.inl ((h.silent hsends).trans hr1)
  refine wp_endState (I := fun r' : Run W => Unsaved r'.trace) |>.1 ?_
  rw [reportFailure, wp_bind, setErrorCode, modifyObject, wp_modify, wp_bind]
  refine wp_mono (wp_sendNotification _) ?_ fun _ r' h => hnotified _ r' h hr
  intro _ r2 hnot
  have hquiet : Quiet (tryKError (call (t.checkAndDelete urlv)) fun _ => pure ()) :=
    (Quiet.call _).tryKError fun _ => Quiet.pure ()
  have hunsaved := hnotified _ r2 hnot hr
  exact wp_mono (hquiet r2.trace r2 rfl) (fun _ r3 htrace => htrace ▸ hunsaved)
    (fun _ r3 htrace => htrace ▸ hunsaved)

/-- The end of a run, from the success notification on. -/
theorem wp_rest (r : Run W) :
    wp (do sendNotification c HAVE_LIBESMTP t false urlv; finish c t urlv)
      (fun _ => Notified c t HAVE_LIBESMTP false urlv r)
      (fun _ => Notified c t HAVE_LIBESMTP false urlv r) r := by
  rw [wp_bind]
  refine wp_mono (wp_sendNotification r) ?_ (fun _ _ h => h)
  intro _ r1 hnot
  have hkeep : ∀ r2 : Run W, r2.trace = r1.trace →
      Notified c t HAVE_LIBESMTP false urlv r r2 := by
    intro r2 htrace
    exact ⟨fun h => htrace ▸ hnot.sent h, fun h => htrace.trans (hnot.silent h)⟩
  exact wp_mono (quiet_finish c t urlv r1.trace r1 rfl) (fun _ r2 => hkeep r2)
    (fun _ r2 => hkeep r2)

variable (c t HAVE_LIBESMTP)

/-- `saveDump` throws, the handler gets to its end, the run goes on, and a second mail goes out. -/
def GoesOn (r : Run W) : Prop :=
  ∃ urlv r1 e r2 r3, prepare c t r = .ok urlv r1 ∧ call (t.saveDump urlv) r1 = .error e r2 ∧
    isKError e = true ∧ c.boolValue "KDUMP_CONTINUE_ON_ERROR" = true ∧
    reportFailure c HAVE_LIBESMTP t urlv r2 = .ok () r3 ∧ Sends c t HAVE_LIBESMTP false urlv r3

variable {c t HAVE_LIBESMTP}

/-- The `try` block of `saveDump`, by what `saveDump` does. -/
theorem save_ok {urlv : List RootDirURL} {r r' : Run W} (h : call (t.saveDump urlv) r = .ok () r') :
    save c HAVE_LIBESMTP t urlv r = .ok () { r' with trace := r'.trace ++ [.saved] } := by
  have hbody : (do call (t.saveDump urlv); record .saved : Exec W Unit) r =
      .ok () { r' with trace := r'.trace ++ [.saved] } := bind_ok h
  rw [save, tryKError, hbody]

theorem save_error {urlv : List RootDirURL} {r r' : Run W} {e : Thrown}
    (h : call (t.saveDump urlv) r = .error e r') :
    save c HAVE_LIBESMTP t urlv r =
      if isKError e then
        (do reportFailure c HAVE_LIBESMTP t urlv; orContinue c e : Exec W Unit) r'
      else
        .error e r' := by
  have hbody : (do call (t.saveDump urlv); record .saved : Exec W Unit) r = .error e r' :=
    bind_error h
  rw [save, tryKError, hbody]

/-- A run that stops before the success notification. -/
theorem execute_stops {urlv : List RootDirURL} {r r1 r2 : Run W} {e : Thrown}
    (hprepare : prepare c t r = .ok urlv r1)
    (hsave : save c HAVE_LIBESMTP t urlv r1 = .error e r2) :
    execute c HAVE_LIBESMTP t r = .error e r2 :=
  (bind_ok hprepare).trans (bind_error hsave)

/-- A run that comes to the success notification. -/
theorem execute_goes_on {urlv : List RootDirURL} {r r1 r2 : Run W}
    (hprepare : prepare c t r = .ok urlv r1)
    (hsave : save c HAVE_LIBESMTP t urlv r1 = .ok () r2) :
    Notified c t HAVE_LIBESMTP false urlv r2 (endState (execute c HAVE_LIBESMTP t r)) := by
  have hrun : execute c HAVE_LIBESMTP t r =
      (do sendNotification c HAVE_LIBESMTP t false urlv; finish c t urlv : Exec W Unit) r2 :=
    (bind_ok hprepare).trans (bind_ok hsave)
  rw [hrun]
  exact wp_endState.1 (wp_rest r2)

/-- A run in which `saveDump` throws. -/
theorem truthful_of_error {urlv : List RootDirURL} {r r1 r2 : Run W} {e : Thrown}
    (hprepare : prepare c t r = .ok urlv r1)
    (hthrown : call (t.saveDump urlv) r1 = .error e r2) (hr2 : r2.trace = []) :
    Truthful (endState (execute c HAVE_LIBESMTP t r)).trace ↔
      ¬ (isKError e = true ∧ c.boolValue "KDUMP_CONTINUE_ON_ERROR" = true ∧
        ∃ r3, reportFailure c HAVE_LIBESMTP t urlv r2 = .ok () r3 ∧
          Sends c t HAVE_LIBESMTP false urlv r3) := by
  have hsave := @save_error W fadump c t HAVE_LIBESMTP urlv r1 r2 e hthrown
  cases hkind : isKError e with
  | false =>
      rw [hkind, if_neg Bool.false_ne_true] at hsave
      rw [execute_stops hprepare hsave]
      refine iff_of_true ?_ fun h => Bool.false_ne_true h.1
      exact hr2 ▸ truthful_nil
  | true =>
      rw [hkind, if_pos rfl] at hsave
      have hreported := @unsaved_reportFailure W fadump c t HAVE_LIBESMTP urlv r2 hr2
      -- only a `KError` is caught; then the run goes on if reporting it does not throw
      cases hreport : reportFailure c HAVE_LIBESMTP t urlv r2 with
      | error e' r3 =>
          have hunsaved : Unsaved r3.trace := by rwa [hreport] at hreported
          rw [execute_stops hprepare (hsave.trans (bind_error hreport))]
          refine iff_of_true hunsaved.truthful ?_
          rintro ⟨_, _, r3', hreport', _⟩
          cases hreport'
      | ok u r3 =>
          have hunsaved : Unsaved r3.trace := by rwa [hreport] at hreported
          rw [bind_ok hreport, orContinue] at hsave
          cases hcontinue : c.boolValue "KDUMP_CONTINUE_ON_ERROR" with
          | false =>
              rw [hcontinue, if_neg Bool.false_ne_true] at hsave
              rw [execute_stops hprepare hsave]
              exact iff_of_true hunsaved.truthful fun h => Bool.false_ne_true h.2.1
          | true =>
              rw [hcontinue, if_pos rfl] at hsave
              have hend := execute_goes_on hprepare hsave
              -- a mail that is sent now says that the dump was saved
              by_cases hsends : Sends c t HAVE_LIBESMTP false urlv r3
              · obtain ⟨email, htrace⟩ := hend.sent hsends
                rw [htrace]
                refine iff_of_false (not_truthful_of_no_saved hunsaved.saved_not_mem email) ?_
                exact fun hnot => hnot ⟨rfl, rfl, r3, rfl, hsends⟩
              · rw [hend.silent hsends]
                refine iff_of_true hunsaved.truthful ?_
                rintro ⟨_, _, r3', hreport', hsends'⟩
                cases hreport'
                exact hsends hsends'

variable (c t HAVE_LIBESMTP)

/-- The mails of a run tell the truth unless the run goes on behind a failure. -/
theorem truthful_iff (obj : SaveDump) (world : W) :
    Truthful (endState (execute c HAVE_LIBESMTP t ⟨obj, world, []⟩)).trace ↔
      ¬ GoesOn c t HAVE_LIBESMTP ⟨obj, world, []⟩ := by
  generalize hstart : (⟨obj, world, []⟩ : Run W) = r
  have hr : r.trace = [] := hstart ▸ rfl
  cases hprepare : prepare c t r with
  | error e r1 =>
      have htrace : (endState (execute c HAVE_LIBESMTP t r)).trace = [] := by
        rw [execute, bind_error hprepare]
        exact ((quiet_prepare c t).trace_error hprepare).trans hr
      rw [htrace]
      refine iff_of_true truthful_nil ?_
      rintro ⟨urlv, r1', _, _, _, hprepare', _⟩
      cases hprepare.symm.trans hprepare'
  | ok urlv r1 =>
      have hr1 : r1.trace = [] := ((quiet_prepare c t).trace_ok hprepare).trans hr
      cases hsave : call (t.saveDump urlv) r1 with
      | ok u r2 =>
          -- the dump is saved, and at most one notification follows
          have hr2 : r2.trace = [] := ((Quiet.call _).trace_ok hsave).trans hr1
          have hend := @execute_goes_on W fadump c t HAVE_LIBESMTP urlv r r1 _ hprepare
            (save_ok hsave)
          refine iff_of_true ?_ ?_
          · by_cases hsends : Sends c t HAVE_LIBESMTP false urlv
                { r2 with trace := r2.trace ++ [.saved] }
            · obtain ⟨email, htrace⟩ := hend.sent hsends
              rw [htrace, hr2]
              exact truthful_success email
            · rw [hend.silent hsends, hr2]
              exact truthful_saved
          · rintro ⟨urlv', r1', e, r2', _, hprepare', hsave', _⟩
            cases hprepare.symm.trans hprepare'
            cases hsave.symm.trans hsave'
      | error e r2 =>
          have hr2 : r2.trace = [] := ((Quiet.call _).trace_error hsave).trans hr1
          rw [truthful_of_error hprepare hsave hr2, not_iff_not]
          constructor
          · rintro ⟨hkind, hcontinue, r3, hreport, hsends⟩
            exact ⟨urlv, r1, e, r2, r3, hprepare, hsave, hkind, hcontinue, hreport, hsends⟩
          · rintro ⟨urlv', r1', e', r2', r3, hprepare', hsave', hkind, hcontinue, hreport, hsends⟩
            cases hprepare.symm.trans hprepare'
            cases hsave.symm.trans hsave'
            exact ⟨hkind, hcontinue, r3, hreport, hsends⟩

end

/-! ## A run with two mails -/

/-- The default configuration, with a server and somebody to send a mail to. -/
def mailConfiguration : Configuration false where
  m_options := (define_opt false).map fun opt =>
    if opt.name = str "KDUMP_SMTP_SERVER" ∨ opt.name = str "KDUMP_NOTIFICATION_TO" then
      opt.update (str "root@localhost")
    else
      opt
  table := by
    rw [List.map_map, ← (Configuration.defaults false).table]
    apply List.map_congr_left
    intro opt _
    rw [Function.comp_apply]
    split_ifs
    · exact ConfigOption.reset_update _ _
    · rfl

/-- Everything works, but saving the dump does not. -/
def brokenTransfer : Steps Unit where
  sys := ⟨fun _ _ => .ok .dir, fun _ _ => .error ENOENT, .error ENOENT⟩
  order := .little
  segment := .error (.KError [])
  time := 0
  formatUnixTime _ := str "2024-01-01-00:00"
  dumpExists := pure true
  check _ _ := pure (true, [])
  getTransfer _ := pure ()
  saveDump _ := throw (.KError (str "No space left on device."))
  checkAndDelete _ := pure ()
  copyMakedumpfile := pure ()
  getKernelReleaseCommandline := pure []
  generateInfo := pure ()
  copyKernel := pure ()
  getHostDomain := pure (str "localhost")
  send _ := pure ()

/-- The failure is reported, and then a success. -/
theorem failure_then_success :
    ¬ ∀ (W : Type) (fadump : Bool) (c : Configuration fadump) (HAVE_LIBESMTP : Bool)
      (t : Steps W) (obj : SaveDump) (world : W),
        Truthful (endState (execute c HAVE_LIBESMTP t ⟨obj, world, []⟩)).trace := by
  intro h
  have htruthful := h Unit false mailConfiguration true brokenTransfer
    (SaveDump.new (str "/proc/vmcore") [] [] [] false) ()
  have hsent : ((endState (execute mailConfiguration true brokenTransfer
      ⟨SaveDump.new (str "/proc/vmcore") [] [] [] false, (), []⟩)).trace.filter
        Event.isSent).length = 2 := by decide +kernel
  have honce := htruthful.once
  rw [hsent] at honce
  exact absurd honce (by decide)

end Dump
end Kdump

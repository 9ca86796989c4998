import Kdump.Sftp.Exchange

/-!
# Run — the course of `perform`, event by event

`LoopRun`, `HandleRun` and `PerformRun` list everything that can happen, for every failure of the
provider, the pipes and the server.  What holds of all runs is then shown by going through their
cases.
-/

namespace Kdump
namespace Sftp

open Lib Kdump.Path Transfer

/-! ## The loop -/

/-- The provider has nothing more to say than that. -/
def EndOfData : List (Except Thrown ByteVector) → Prop
  | [] => True
  | answer :: _ => answer = .ok []

/-- `LoopRun handle data off id events id' returns`: the loop of `perform` at the offset `off`,
with the data the provider has left.  It takes `m_lastid` from `id` to `id'`. -/
inductive LoopRun (handle : Str) : List (Except Thrown ByteVector) → Nat → UInt64 →
    List Event → UInt64 → Bool → Prop
  | finished {data : List (Except Thrown ByteVector)} {off : Nat} {id : UInt64} {size : Nat} :
      EndOfData data → 0 < size →
      LoopRun handle data off id [.call (.getData size (.ok []))] id true
  | dataFailed {e : Thrown} {data : List (Except Thrown ByteVector)} {off : Nat} {id : UInt64}
      {size : Nat} : 0 < size →
      LoopRun handle (.error e :: data) off id [.call (.getData size (.error e))] id false
  | writeFailed {chunk : ByteVector} {data : List (Except Thrown ByteVector)} {off : Nat}
      {id : UInt64} {size : Nat} {outcome : Event} :
      chunk ≠ [] → 0 < size → outcome.IsOutcome →
      LoopRun handle (.ok chunk :: data) off id
        [.call (.getData size (.ok chunk)), .send (succId id) (.write handle off chunk), outcome]
        (succId id) false
  | round {chunk : ByteVector} {data : List (Except Thrown ByteVector)} {off : Nat}
      {id id' : UInt64} {size : Nat} {payload : ByteVector} {events : List Event}
      {returns : Bool} :
      chunk ≠ [] → 0 < size → Accepts (succId id) (.write handle off chunk) payload →
      LoopRun handle data (off + chunk.length) (succId id) events id' returns →
      LoopRun handle (.ok chunk :: data) off id
        (.call (.getData size (.ok chunk)) :: .send (succId id) (.write handle off chunk) ::
          .reply payload :: events) id' returns

namespace Buffer

/-- What is sent is what the provider has delivered. -/
theorem bytes_resize_fill (buffer : Buffer) (chunk : ByteVector) :
    ((buffer.fill chunk).resize chunk.length).bytes = chunk := by
  unfold resize fill
  dsimp only
  rw [List.take_left, List.length_append, Nat.sub_eq_zero_of_le (Nat.le_add_right _ _),
    List.replicate_zero, List.append_nil]

theorem capacity_resize_fill (buffer : Buffer) (chunk : ByteVector) :
    ((buffer.fill chunk).resize chunk.length).capacity = max buffer.capacity chunk.length := rfl

theorem size_ofSize (n : Nat) : (ofSize n).size = n :=
  List.length_replicate

theorem size_resize (buffer : Buffer) (n : Nat) : (buffer.resize n).size = n := by
  unfold size resize
  rw [List.length_append, List.length_take, List.length_replicate]
  omega

end Buffer

/-- The trace has grown by some events, of which the rest is said. -/
def Traced (s s' : SFTPState) (P : List Event → Prop) : Prop :=
  ∃ events, s'.trace = s.trace ++ events ∧ P events

/-- One part of a run behind the other. -/
theorem Traced.append {s₁ s₂ s₃ : SFTPState} {P P' R : List Event → Prop} (h : Traced s₁ s₂ P)
    (h' : Traced s₂ s₃ P') (hR : ∀ events events', P events → P' events' → R (events ++ events')) :
    Traced s₁ s₃ R := by
  rcases h with ⟨events, htrace, hP⟩
  rcases h' with ⟨events', htrace', hP'⟩
  refine ⟨events ++ events', ?_, hR events events' hP hP'⟩
  rw [htrace', htrace, List.append_assoc]

theorem wp_writeLoop (handle : Str) : ∀ (data : List (Except Thrown ByteVector)) (off : Nat)
    (buffer : Buffer) (s : SFTPState), 0 < buffer.size → 0 < buffer.capacity →
    wp (writeLoop handle data off buffer)
      (fun _ s' => Traced s s' fun events =>
        LoopRun handle data off s.m_lastid events s'.m_lastid true)
      (fun _ s' => Traced s s' fun events =>
        LoopRun handle data off s.m_lastid events s'.m_lastid false) s := by
  intro data
  induction data with
  | nil =>
      intro off buffer s hsize _
      simp only [writeLoop, wp_bind, wp_callGetData, wp_pure]
      exact ⟨_, rfl, .finished trivial hsize⟩
  | cons answer data ih =>
      intro off buffer s hsize hcapacity
      simp only [writeLoop, wp_bind, wp_callGetData]
      cases answer with
      | error e => exact ⟨_, rfl, .dataFailed hsize⟩
      | ok chunk =>
          dsimp only
          by_cases hchunk : chunk = []
          · rw [if_pos hchunk, wp_pure]
            refine ⟨_, rfl, ?_⟩
            rw [hchunk]
            exact .finished rfl hsize
          · rw [if_neg hchunk, wp_bind, Buffer.bytes_resize_fill]
            refine wp_mono (wp_writefile handle off chunk _) ?_ ?_
            · -- the round is accepted: what follows begins with the next number and the rest of the
              -- data
              rintro _ s₂ ⟨payload, ⟨hid, htrace⟩, haccepts⟩
              have hid' : s₂.m_lastid = succId s.m_lastid := hid
              have hoff : ((buffer.fill chunk).resize chunk.length).size = chunk.length :=
                Buffer.size_resize _ _
              rw [hoff]
              refine wp_mono (ih _ _ s₂ ?_ ?_) ?_ ?_
              · rw [Buffer.size_resize, Buffer.capacity_resize_fill]
                omega
              · change 0 < max _ _
                rw [Buffer.capacity_resize_fill]
                omega
              all_goals
                rintro _ s₃ ⟨events, htrace', hrun⟩
                refine ⟨_ :: _ :: _ :: events, ?_, .round hchunk hsize haccepts (hid' ▸ hrun)⟩
                rw [htrace', htrace]
                simp [Observed.record]
            · -- the round fails, and the loop ends with it
              rintro _ s₂ ⟨outcome, houtcome, hid, htrace⟩
              have hid' : s₂.m_lastid = succId s.m_lastid := hid
              refine ⟨[.call (.getData buffer.size (.ok chunk)),
                .send (succId s.m_lastid) (.write handle off chunk), outcome], ?_, ?_⟩
              · rw [htrace]
                simp [Observed.record]
              · rw [hid']
                exact .writeFailed hchunk hsize houtcome

/-! ## Behind `createfile` -/

/-- The outer `try` block of `perform`, from the call of `prepare()` on. -/
inductive BodyRun (handle : Str) (provider : DataProvider) (id : UInt64) :
    List Event → UInt64 → Bool → Prop
  | unprepared {e : Thrown} : provider.prepare = .error e →
      BodyRun handle provider id [.call (.prepare (.error e))] id false
  | prepared {events : List Event} {id' : UInt64} {returns : Bool} :
      provider.prepare = .ok () → LoopRun handle provider.data 0 id events id' returns →
      BodyRun handle provider id
        (.call (.prepare (.ok ())) :: events ++ [.call (.finish provider.finish)]) id'
        (returns && provider.finish.isOk)

/-- The same with the `CLOSE` request behind it, which also follows an exception. -/
inductive HandleRun (handle : Str) (provider : DataProvider) (id : UInt64) :
    List Event → UInt64 → Bool → Prop
  | failed {events : List Event} {id' : UInt64} {returns : Bool} {outcome : Event} :
      BodyRun handle provider id events id' returns → outcome.IsOutcome →
      HandleRun handle provider id
        (events ++ [.send (succId id') (.close handle), outcome]) (succId id') false
  | completed {events : List Event} {id' : UInt64} {payload : ByteVector} :
      BodyRun handle provider id events id' true →
      Accepts (succId id') (.close handle) payload →
      HandleRun handle provider id
        (events ++ [.send (succId id') (.close handle), .reply payload]) (succId id') true

section

variable (handle : Str) (provider : DataProvider)

theorem wp_performBody (s : SFTPState) :
    wp (performBody handle provider)
      (fun _ s' => Traced s s' fun events =>
        BodyRun handle provider s.m_lastid events s'.m_lastid true)
      (fun _ s' => Traced s s' fun events =>
        BodyRun handle provider s.m_lastid events s'.m_lastid false) s := by
  unfold performBody
  simp only [wp_bind, wp_callPrepare, wp_tryCatch, wp_callFinish, wp_throw]
  cases hprepare : provider.prepare with
  | error e => exact ⟨_, rfl, .unprepared hprepare⟩
  | ok _ =>
      dsimp only
      -- `finish` is called behind the loop, however that ends
      have hfinish : ∀ {s' : SFTPState} {returns : Bool},
          (Traced (Observed.record (.prepare (.ok ())) s) s' fun events =>
            LoopRun handle provider.data 0 s.m_lastid events s'.m_lastid returns) →
          Traced s (Observed.record (.finish provider.finish) s') fun events =>
            BodyRun handle provider s.m_lastid events s'.m_lastid
              (returns && provider.finish.isOk) := by
        rintro s' returns ⟨events, htrace, hrun⟩
        refine ⟨_, ?_, .prepared hprepare hrun⟩
        change s'.trace ++ _ = _
        rw [htrace]
        simp [Observed.record]
      have hsize : 0 < (Buffer.ofSize BUFSIZ).size := by
        rw [Buffer.size_ofSize]
        decide
      refine wp_mono (wp_writeLoop handle provider.data 0 _ _ hsize (by decide)) ?_ ?_
      all_goals
        intro _ s' hloop
        have hbody := hfinish hloop
        cases hans : provider.finish with
        | error e =>
            rw [hans] at hbody
            exact hbody
        | ok _ =>
            rw [hans] at hbody
            exact hbody

theorem wp_performHandle (s : SFTPState) :
    wp (performHandle handle provider)
      (fun _ s' => Traced s s' fun events =>
        HandleRun handle provider s.m_lastid events s'.m_lastid true)
      (fun _ s' => Traced s s' fun events =>
        HandleRun handle provider s.m_lastid events s'.m_lastid false) s := by
  unfold performHandle
  simp only [wp_bind, wp_tryCatch, wp_throw]
  -- the handle is closed once whatever the body did; what differs is whether that is enough
  have hfailed : ∀ {s₁ s₂ : SFTPState} {returns : Bool},
      (Traced s s₁ fun events =>
        BodyRun handle provider s.m_lastid events s₁.m_lastid returns) →
      Attempted s₁ (.close handle) s₂ →
      Traced s s₂ fun events => HandleRun handle provider s.m_lastid events s₂.m_lastid false := by
    rintro s₁ s₂ returns ⟨events, htrace, hrun⟩ ⟨outcome, houtcome, hid, htrace'⟩
    refine ⟨events ++ [.send (succId s₁.m_lastid) (.close handle), outcome], ?_, ?_⟩
    · rw [htrace', htrace, List.append_assoc]
    · rw [hid]
      exact .failed hrun houtcome
  refine wp_mono (wp_performBody handle provider s) ?_ ?_
  · intro _ s₁ hbody
    refine wp_mono (wp_closefile handle s₁) ?_ (fun _ s₂ hclose => hfailed hbody hclose)
    rcases hbody with ⟨events, htrace, hrun⟩
    rintro _ s₂ ⟨payload, ⟨hid, htrace'⟩, haccepts⟩
    refine ⟨events ++ [.send (succId s₁.m_lastid) (.close handle), .reply payload], ?_, ?_⟩
    · rw [htrace', htrace, List.append_assoc]
    · rw [hid]
      exact .completed hrun haccepts
  · intro e s₁ hbody
    refine wp_mono (wp_closefile handle s₁) ?_ (fun _ s₂ hclose => hfailed hbody hclose)
    exact fun _ s₂ hclose => hfailed hbody hclose.attempted

/-- `perform` fails with `createfile`, or is one of the runs listed above. -/
theorem perform_cases (path : Str) (provider : DataProvider) (target_files : List Str)
    (s : SFTPState) :
    match createfile (appendPath path (target_files.headD [])) s with
    | .error e s₁ => perform path provider target_files s = .error e s₁
    | .ok handle s₁ => ∃ events s', s'.trace = s₁.trace ++ events ∧
        ((perform path provider target_files s = .ok false s' ∧
            HandleRun handle provider s₁.m_lastid events s'.m_lastid true) ∨
          ∃ e, perform path provider target_files s = .error e s' ∧
            HandleRun handle provider s₁.m_lastid events s'.m_lastid false) := by
  cases hcreate : createfile (appendPath path (target_files.headD [])) s with
  | error e s₁ => exact bind_error hcreate
  | ok handle s₁ =>
      have hwp := wp_performHandle handle provider s₁
      cases hrun : performHandle handle provider s₁ with
      | error e s' =>
          rcases wp_error hwp hrun with ⟨events, htrace, hrun'⟩
          have hperform : perform path provider target_files s = .error e s' := by
            unfold perform
            rw [bind_ok hcreate, bind_error hrun]
          exact ⟨events, s', htrace, Or.inr ⟨e, hperform, hrun'⟩⟩
      | ok _ s' =>
          rcases wp_ok hwp hrun with ⟨events, htrace, hrun'⟩
          have hperform : perform path provider target_files s = .ok false s' := by
            unfold perform
            rw [bind_ok hcreate, bind_ok hrun]
            rfl
          exact ⟨events, s', htrace, Or.inl ⟨hperform, hrun'⟩⟩

end

end Sftp
end Kdump

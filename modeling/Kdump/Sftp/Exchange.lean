import Kdump.Sftp.SFTPTransfer

/-!
# Exchange — what each operation sends, and which replies it accepts

Every operation but `mkpath` and `perform` is one request and its reply.  It returns only if the
reply has the id of the request, and a type and status that say yes.
-/

namespace Kdump
namespace Sftp

open Lib Kdump.Path Transfer

/-! ## Accepting replies -/

/-- How the payload of a reply begins that says yes to a request. -/
def acceptingHeaders (id : UInt64) : Request → List ByteVector
  | .stat _ =>
      [SSH_FXP_ATTRS :: bigEndian 4 id,
        SSH_FXP_STATUS :: bigEndian 4 id ++ bigEndian 4 SSH_FX_NO_SUCH_FILE]
  | .create _ => [SSH_FXP_HANDLE :: bigEndian 4 id]
  | .mkdir _ | .close _ | .write .. =>
      [SSH_FXP_STATUS :: bigEndian 4 id ++ bigEndian 4 SSH_FX_OK]

/-- The reply has the id of the request, and an accepting type and status. -/
def Accepts (id : UInt64) (request : Request) (payload : ByteVector) : Prop :=
  ∃ header ∈ acceptingHeaders id request, header <+: payload

instance (id : UInt64) (request : Request) (payload : ByteVector) :
    Decidable (Accepts id request payload) := by
  unfold Accepts
  infer_instance

/-- What comes of a request: a reply, or a failure to send or to receive. -/
def Event.IsOutcome : Event → Prop
  | .reply _ => True
  | .failed _ => True
  | _ => False

/-- A request has been made under the next id, and this has come of it. -/
structure Requested (s : SFTPState) (request : Request) (outcome : Event) (s' : SFTPState) :
    Prop where
  m_lastid : s'.m_lastid = succId s.m_lastid
  trace : s'.trace = s.trace ++ [.send (succId s.m_lastid) request, outcome]

/-- The reply to a request was an accepting one. -/
def Granted (s : SFTPState) (request : Request) (s' : SFTPState) : Prop :=
  ∃ payload, Requested s request (.reply payload) s' ∧
    Accepts (succId s.m_lastid) request payload

/-- A request has been made, whatever has come of it. -/
def Attempted (s : SFTPState) (request : Request) (s' : SFTPState) : Prop :=
  ∃ outcome : Event, outcome.IsOutcome ∧ Requested s request outcome s'

theorem Requested.of_reply {s s' : SFTPState} {request : Request} {payload : ByteVector}
    (h : Requested s request (.reply payload) s') : Attempted s request s' :=
  ⟨.reply payload, trivial, h⟩

theorem Requested.of_failed {s s' : SFTPState} {request : Request} {e : Thrown}
    (h : Requested s request (.failed e) s') : Attempted s request s' :=
  ⟨.failed e, trivial, h⟩

theorem Granted.attempted {s s' : SFTPState} {request : Request} (h : Granted s request s') :
    Attempted s request s' := by
  rcases h with ⟨payload, hrequested, _⟩
  exact hrequested.of_reply

/-! ## Sending and receiving -/

/-- Only the pipes have changed. -/
structure SameTrace (s s' : SFTPState) : Prop where
  m_lastid : s'.m_lastid = s.m_lastid
  trace : s'.trace = s.trace

theorem SameTrace.refl (s : SFTPState) : SameTrace s s :=
  ⟨rfl, rfl⟩

theorem SameTrace.trans {s t u : SFTPState} (h : SameTrace s t) (h' : SameTrace t u) :
    SameTrace s u :=
  ⟨h'.m_lastid.trans h.m_lastid, h'.trace.trans h.trace⟩

section Rules

variable {s : SFTPState} {E : Thrown → SFTPState → Prop}

@[simp] theorem wp_observe {Q : Unit → SFTPState → Prop} {event : Event} :
    wp (observe event) Q E s ↔ Q () { s with trace := s.trace ++ [event] } := Iff.rfl

@[simp] theorem wp_observeFailure {α : Type} {Q : α → SFTPState → Prop} {p : SFTPProg α} :
    wp (observeFailure p) Q E s ↔
      wp p Q (fun e s' => E e { s' with trace := s'.trace ++ [.failed e] }) s := by
  unfold observeFailure
  simp only [wp_tryCatch, wp_bind, wp_observe, wp_throw]

@[simp] theorem wp_nextId {Q : UInt64 → SFTPState → Prop} :
    wp nextId Q E s ↔ Q (succId s.m_lastid) { s with m_lastid := succId s.m_lastid } := Iff.rfl

@[simp] theorem wp_onPacket {α : Type} {Q : α × SFTPPacket → SFTPState → Prop}
    {read : SFTPPacket.Reader α} {pkt : SFTPPacket} :
    wp (onPacket read pkt) Q E s ↔ match read pkt with
      | .ok a pkt' => Q (a, pkt') s
      | .error e _ => E e s := by
  unfold onPacket
  cases read pkt <;> rfl

end Rules

theorem wp_sendPacket (pkt : SFTPPacket) (s : SFTPState) :
    wp (sendPacket pkt) (fun _ s' => SameTrace s s') (fun _ s' => SameTrace s s') s := by
  unfold sendPacket
  simp only [wp_bind, wp_get, wp_set]
  cases (writeFully s.answers pkt.update).result <;> exact ⟨rfl, rfl⟩

theorem length_of_readFully : ∀ {incoming : List ReadAnswer} {buflen : Nat} {bytes : ByteVector},
    (readFully incoming buflen).1 = .ok bytes → bytes.length = buflen := by
  intro incoming
  induction incoming with
  | nil =>
      intro buflen bytes h
      cases buflen with
      | zero => cases h; rfl
      | succ n => cases h
  | cons answer incoming ih =>
      intro buflen bytes h
      cases buflen with
      | zero =>
          unfold readFully at h
          cases h
          rfl
      | succ n =>
          cases answer with
          | error errno => cases h
          | ok here =>
              unfold readFully at h
              split_ifs at h with hnil hlt
              · cases h
                rw [List.length_take]
                omega
              · -- a short answer: the rest is asked for, and the hypothesis is about the rest
                cases hmore : (readFully incoming (n + 1 - here.length)).1 with
                | error e =>
                    dsimp only at h
                    rw [hmore] at h
                    cases h
                | ok more =>
                    dsimp only at h
                    rw [hmore] at h
                    cases h
                    rw [List.length_append, ih hmore]
                    omega

theorem wp_recvBuffer (buflen : Nat) (s : SFTPState) :
    wp (recvBuffer buflen) (fun bytes s' => bytes.length = buflen ∧ SameTrace s s')
      (fun _ s' => SameTrace s s') s := by
  unfold recvBuffer
  simp only [wp_bind, wp_get, wp_set, wp_ofExcept]
  cases h : (readFully s.incoming buflen).1 with
  | error e => exact ⟨rfl, rfl⟩
  | ok bytes => exact ⟨length_of_readFully h, rfl, rfl⟩

theorem wp_recvPieces : ∀ (passes length : Nat) (pkt : SFTPPacket) (s : SFTPState),
    wp (recvPieces passes length pkt) (fun pkt' s' => pkt'.m_gpos = pkt.m_gpos ∧ SameTrace s s')
      (fun _ s' => SameTrace s s') s := by
  intro passes
  induction passes with
  | zero => exact fun length pkt s => ⟨rfl, SameTrace.refl s⟩
  | succ passes ih =>
      intro length pkt s
      unfold recvPieces
      split_ifs
      · exact ⟨rfl, SameTrace.refl s⟩
      · simp only [wp_bind]
        refine wp_mono (wp_recvBuffer _ s) ?_ (fun _ _ h => h)
        rintro buffer s' ⟨_, hs'⟩
        refine wp_mono (ih _ _ s') ?_ (fun _ _ h => hs'.trans h)
        rintro pkt' s'' ⟨hgpos, hs''⟩
        exact ⟨hgpos, hs'.trans hs''⟩

/-- A packet that was received is read from behind its length. -/
theorem wp_recvPacket (s : SFTPState) :
    wp recvPacket (fun pkt s' => pkt.unread = pkt.payload ∧ SameTrace s s')
      (fun _ s' => SameTrace s s') s := by
  unfold recvPacket
  simp only [wp_bind, wp_onPacket]
  refine wp_mono (wp_recvBuffer 4 s) ?_ (fun _ _ h => h)
  rintro buffer s' ⟨_, hs'⟩
  cases hread : SFTPPacket.getInt32 (SFTPPacket.setData buffer) with
  | error e _ => exact hs'
  | ok length pkt =>
      have hgpos : pkt.m_gpos = 4 := (SFTPPacket.getInt32_ok hread).2.2
      refine wp_mono (wp_recvPieces _ _ pkt s') ?_ (fun _ _ h => hs'.trans h)
      rintro pkt' s'' ⟨hgpos', hs''⟩
      refine ⟨?_, hs'.trans hs''⟩
      unfold SFTPPacket.unread SFTPPacket.payload
      rw [hgpos', hgpos]

/-! ## Exchanges -/

theorem wp_exchange (request : Request) (s : SFTPState) :
    wp (exchange request)
      (fun reply s' => Requested s request
        (.reply (reply.1 :: bigEndian 4 (succId s.m_lastid) ++ reply.2.unread)) s')
      (fun _ s' => Attempted s request s') s := by
  unfold exchange
  simp only [wp_bind, wp_nextId, wp_observe, wp_observeFailure]
  set s₁ : SFTPState := { s with
    m_lastid := succId s.m_lastid
    trace := s.trace ++ [.send (succId s.m_lastid) request] } with hs₁
  -- nothing but the outcome is added to the trace from here on
  have hrequested : ∀ (outcome : Event) (s' : SFTPState), SameTrace s₁ s' →
      Requested s request outcome { s' with trace := s'.trace ++ [outcome] } := by
    intro outcome s' h
    refine ⟨h.m_lastid, ?_⟩
    change s'.trace ++ [outcome] = _
    rw [h.trace, hs₁]
    exact List.append_assoc _ _ _
  refine wp_mono (wp_sendPacket _ s₁) ?_ ?_
  · intro _ s₂ h₂
    refine wp_mono (wp_recvPacket s₂) ?_ ?_
    · rintro pkt s₃ ⟨hunread, h₃⟩
      have hreply := hrequested (.reply pkt.payload) s₃ (h₂.trans h₃)
      have hattempted := hreply.of_reply
      simp only [wp_onPacket]
      -- the packet may be too short for a type and an id
      cases hbyte : SFTPPacket.getByte pkt with
      | error e _ => exact hattempted
      | ok type pkt₁ =>
          dsimp only
          cases hint : SFTPPacket.getInt32 pkt₁ with
          | error e _ => exact hattempted
          | ok id pkt₂ =>
              simp only [wp_get]
              by_cases hid : id = (succId s.m_lastid)
              · have hcond : ¬ id ≠ s₃.m_lastid := by
                  rw [not_not, hid]
                  exact (h₂.trans h₃).m_lastid.symm
                rw [if_neg hcond]
                have hpayload : pkt.payload = type :: bigEndian 4 (succId s.m_lastid) ++
                    pkt₂.unread := by
                  rw [← hunread, (SFTPPacket.getByte_ok hbyte).1,
                    (SFTPPacket.getInt32_ok hint).1, hid]
                  rfl
                rw [hpayload] at hreply ⊢
                exact hreply
              · have hcond : id ≠ s₃.m_lastid := by
                  rw [(h₂.trans h₃).m_lastid]
                  exact hid
                rw [if_pos hcond]
                exact hattempted
    · intro e s₃ h₃
      exact (hrequested (.failed e) s₃ (h₂.trans h₃)).of_failed
  · intro e s₂ h₂
    exact (hrequested (.failed e) s₂ h₂).of_failed

/-! ## Operations -/

/-- The end of an exchange does not touch the state. -/
theorem wp_getStatus (what : Str) (reply : UInt8 × SFTPPacket) (s : SFTPState) :
    wp (getStatus what reply)
      (fun errcode s' => s' = s ∧ reply.1 = SSH_FXP_STATUS ∧
        bigEndian 4 errcode <+: reply.2.unread)
      (fun _ s' => s' = s) s := by
  unfold getStatus
  by_cases htype : reply.1 = SSH_FXP_STATUS
  · rw [if_neg (not_not.2 htype)]
    rw [wp_bind, wp_onPacket]
    cases hread : SFTPPacket.getInt32 reply.2 with
    | error e _ => exact rfl
    | ok errcode pkt =>
        refine ⟨rfl, htype, ?_⟩
        rw [(SFTPPacket.getInt32_ok hread).1]
        exact List.prefix_append _ _
  · rw [if_pos htype]
    rfl

/-- A header that the reply begins with. -/
theorem prefix_reply {type : UInt8} {id errcode : UInt64} {unread : ByteVector}
    (h : bigEndian 4 errcode <+: unread) :
    type :: bigEndian 4 id ++ bigEndian 4 errcode <+: type :: bigEndian 4 id ++ unread :=
  (List.prefix_append_right_inj _).2 h

theorem wp_requestOk (request : Request) (what message : Str) (s : SFTPState)
    (haccepting : ∀ id, acceptingHeaders id request =
      [SSH_FXP_STATUS :: bigEndian 4 id ++ bigEndian 4 SSH_FX_OK]) :
    wp (requestOk request what message) (fun _ s' => Granted s request s')
      (fun _ s' => Attempted s request s') s := by
  unfold requestOk
  simp only [wp_bind]
  refine wp_mono (wp_exchange request s) ?_ (fun _ _ h => h)
  intro reply s' hreply
  refine wp_mono (wp_getStatus what reply s') ?_ ?_
  · rintro errcode _ ⟨rfl, htype, herrcode⟩
    by_cases hok : errcode = SSH_FX_OK
    · rw [if_neg (not_not.2 hok)]
      have hmem : SSH_FXP_STATUS :: bigEndian 4 (succId s.m_lastid) ++ bigEndian 4 SSH_FX_OK ∈
          acceptingHeaders (succId s.m_lastid) request := by
        rw [haccepting]
        exact List.mem_singleton_self _
      refine ⟨_, hreply, _, hmem, ?_⟩
      rw [htype]
      exact prefix_reply (hok ▸ herrcode)
    · rw [if_pos hok]
      exact hreply.of_reply
  · rintro e _ rfl
    exact hreply.of_reply

theorem wp_closefile (handle : Str) (s : SFTPState) :
    wp (closefile handle) (fun _ s' => Granted s (.close handle) s')
      (fun _ s' => Attempted s (.close handle) s') s :=
  wp_requestOk _ _ _ s fun _ => rfl

theorem wp_writefile (handle : Str) (off : Nat) (data : ByteVector) (s : SFTPState) :
    wp (writefile handle off data) (fun _ s' => Granted s (.write handle off data) s')
      (fun _ s' => Attempted s (.write handle off data) s') s :=
  wp_requestOk _ _ _ s fun _ => rfl

/-- How a reply begins from which `exists` learns whether there is such a file. -/
def existsHeader (id : UInt64) (found : Bool) : ByteVector :=
  if found then
    SSH_FXP_ATTRS :: bigEndian 4 id
  else
    SSH_FXP_STATUS :: bigEndian 4 id ++ bigEndian 4 SSH_FX_NO_SUCH_FILE

/-- The result is the one that the reply tells. -/
theorem wp_exists_reply (file : Str) (s : SFTPState) :
    wp («exists» file)
      (fun found s' => ∃ payload, Requested s (.stat file) (.reply payload) s' ∧
        existsHeader (succId s.m_lastid) found <+: payload)
      (fun _ s' => Attempted s (.stat file) s') s := by
  unfold «exists»
  simp only [wp_bind]
  refine wp_mono (wp_exchange _ s) ?_ (fun _ _ h => h)
  intro reply s' hreply
  -- the attributes, or else a status
  by_cases hattrs : reply.1 = SSH_FXP_ATTRS
  · rw [if_pos hattrs]
    refine ⟨_, hreply, ?_⟩
    rw [hattrs]
    exact List.prefix_append _ _
  · rw [if_neg hattrs, wp_bind]
    refine wp_mono (wp_getStatus _ reply s') ?_ ?_
    · rintro errcode _ ⟨rfl, htype, herrcode⟩
      by_cases hnone : errcode = SSH_FX_NO_SUCH_FILE
      · rw [if_neg (not_not.2 hnone)]
        refine ⟨_, hreply, ?_⟩
        rw [htype]
        exact prefix_reply (hnone ▸ herrcode)
      · rw [if_pos hnone]
        exact hreply.of_reply
    · rintro e _ rfl
      exact hreply.of_reply

theorem accepts_exists {id : UInt64} {file : Str} {found : Bool} {payload : ByteVector}
    (h : existsHeader id found <+: payload) : Accepts id (.stat file) payload := by
  refine ⟨existsHeader id found, ?_, h⟩
  cases found with
  | true => exact List.mem_cons_self
  | false => exact List.mem_cons_of_mem _ (List.mem_singleton_self _)

theorem wp_exists (file : Str) (s : SFTPState) :
    wp («exists» file) (fun _ s' => Granted s (.stat file) s')
      (fun _ s' => Attempted s (.stat file) s') s := by
  apply wp_mono (wp_exists_reply file s)
  · rintro found s' ⟨payload, hrequested, hheader⟩
    exact ⟨payload, hrequested, accepts_exists hheader⟩
  · exact fun _ _ h => h

theorem wp_createfile (file : Str) (s : SFTPState) :
    wp (createfile file) (fun _ s' => Granted s (.create file) s')
      (fun _ s' => Attempted s (.create file) s') s := by
  unfold createfile
  simp only [wp_bind]
  refine wp_mono (wp_exchange _ s) ?_ (fun _ _ h => h)
  intro reply s' hreply
  -- a handle, or else a status, which is never accepted
  by_cases hhandle : reply.1 = SSH_FXP_HANDLE
  · rw [if_pos hhandle]
    simp only [wp_bind, wp_onPacket, wp_pure]
    cases SFTPPacket.getString reply.2 with
    | error e _ => exact hreply.of_reply
    | ok handle _ =>
        refine ⟨_, hreply, _, List.mem_singleton_self _, ?_⟩
        rw [hhandle]
        exact List.prefix_append _ _
  · rw [if_neg hhandle, wp_bind]
    refine wp_mono (wp_getStatus _ reply s') ?_ ?_
    · rintro errcode _ ⟨rfl, _, _⟩
      exact hreply.of_reply
    · rintro e _ rfl
      exact hreply.of_reply

end Sftp
end Kdump

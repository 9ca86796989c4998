import Mathlib.Logic.Relation
import Kdump.Global

/-!
# NetLink — waiting for a change of the routes

The kernel puts a message into the queue of the socket for each change of the routes.  One call of
`recvmsg` takes a datagram of several messages, and `receive` looks at them one after the other.

* `NlMsg` — a message;
* `RouteRecvCheck.check` and `receive` — which messages end the wait;
* `receive_ne_next` — a message about a route is not overlooked.
-/

namespace Kdump
namespace Route

/-! ## Messages -/

def NLMSG_ERROR : UInt16 := 2
def RTM_NEWROUTE : UInt16 := 24
def RTM_DELROUTE : UInt16 := 25
def RTM_F_CLONED : UInt32 := 0x200

/-- `sizeof(struct nlmsghdr)`. -/
def sizeofNlmsghdr : Nat := 16

/-- `sizeof(struct rtmsg)`. -/
def sizeofRtmsg : Nat := 12

/-- `sizeof(struct nlmsgerr)`. -/
def sizeofNlmsgerr : Nat := 20

/-- A message with its header and, if there are as many bytes, the flags of an `rtmsg` or the code
of an `nlmsgerr`. -/
structure NlMsg where
  nlmsg_type : UInt16
  nlmsg_len : Nat
  rtm_flags : UInt32
  error : Int32
  header : sizeofNlmsghdr ≤ nlmsg_len
  /-- the kernel pads its messages -/
  aligned : 4 ∣ nlmsg_len
  deriving DecidableEq

/-- `NLMSG_PAYLOAD(nh, 0)`. -/
def NlMsg.payload (nh : NlMsg) : Nat :=
  nh.nlmsg_len - sizeofNlmsghdr

/-- What one call of `recvmsg` takes from the queue. -/
abbrev Datagram := List NlMsg

/-! ## Receiving -/

abbrev RecvCheck := NlMsg → Except Thrown Bool

/-- `NetLink::RouteRecvCheck::check`. -/
def RouteRecvCheck.check : RecvCheck := fun nh =>
  if nh.nlmsg_type ≠ RTM_NEWROUTE ∧ nh.nlmsg_type ≠ RTM_DELROUTE then
    .ok false
  else if nh.payload < sizeofRtmsg then
    .error (.KError (str "Netlink rtmsg truncated"))
  else
    .ok (nh.rtm_flags &&& RTM_F_CLONED = 0)

/-- What `receive` returns for a message that matches. -/
def matched (nh : NlMsg) : Except Thrown Int32 :=
  if nh.nlmsg_type ≠ NLMSG_ERROR then
    .ok 0
  else if nh.payload < sizeofNlmsgerr then
    .error (.KError (str "Netlink ERROR reply truncated"))
  else
    .ok nh.error

/-- The body of the loop in `receive` behind `recvmsg`, for the `len` bytes in the buffer.  Without
a result the loop goes round again.  A datagram that is longer than the buffer has been cut, and the
message at the cut does not pass `NLMSG_OK`. -/
def scan (rc : RecvCheck) : (len : Nat) → Datagram → Except Thrown (Option Int32)
  | _, [] => .ok none
  | len, nh :: rest =>
      if len < nh.nlmsg_len then
        .error (.KError (str "Netlink message truncated"))
      else do
        if ← rc nh then
          return some (← matched nh)
        else
          scan rc (len - nh.nlmsg_len) rest

/-- One pass of the loop in `receive`, for a datagram that `recvmsg` takes into a buffer of
`m_buflen` bytes. -/
def receive (rc : RecvCheck) (m_buflen : Nat) (d : Datagram) : Except Thrown (Option Int32) :=
  if d = [] then
    .error (.KError (str "EOF on netlink receive"))
  else
    scan rc m_buflen d

/-! ## Messages about routes -/

/-- A whole message about a route that is not a cloned one. -/
structure NlMsg.Announces (nh : NlMsg) : Prop where
  type : nh.nlmsg_type = RTM_NEWROUTE ∨ nh.nlmsg_type = RTM_DELROUTE
  payload : sizeofRtmsg ≤ nh.payload
  not_cloned : nh.rtm_flags &&& RTM_F_CLONED = 0

theorem NlMsg.Announces.check {nh : NlMsg} (h : nh.Announces) :
    RouteRecvCheck.check nh = .ok true := by
  have htype : ¬ (nh.nlmsg_type ≠ RTM_NEWROUTE ∧ nh.nlmsg_type ≠ RTM_DELROUTE) := by
    rintro ⟨hnew, hdel⟩
    exact h.type.elim hnew hdel
  rw [RouteRecvCheck.check, if_neg htype, if_neg h.payload.not_gt, decide_eq_true h.not_cloned]

/-- Only a message about a route matches. -/
theorem matched_of_check {nh : NlMsg} (h : RouteRecvCheck.check nh = .ok true) :
    matched nh = .ok 0 := by
  have htype : nh.nlmsg_type ≠ NLMSG_ERROR := by
    intro herror
    have hother : nh.nlmsg_type ≠ RTM_NEWROUTE ∧ nh.nlmsg_type ≠ RTM_DELROUTE := by
      rw [herror]
      decide
    rw [RouteRecvCheck.check, if_pos hother] at h
    cases h
  rw [matched, if_pos htype]

theorem scan_cons {len : Nat} {nh : NlMsg} {rest : Datagram} (hlen : nh.nlmsg_len ≤ len) :
    scan RouteRecvCheck.check len (nh :: rest) =
      match RouteRecvCheck.check nh with
      | .error e => .error e
      | .ok true => .ok (some 0)
      | .ok false => scan RouteRecvCheck.check (len - nh.nlmsg_len) rest := by
  rw [scan, if_neg hlen.not_gt]
  cases hcheck : RouteRecvCheck.check nh with
  | error e => rfl
  | ok b =>
      cases b with
      | true =>
          change (do return some (← matched nh)) = _
          rw [matched_of_check hcheck]
          rfl
      | false => rfl

/-- The wait does not go on behind a datagram that tells about a route. -/
theorem scan_ne_next {len : Nat} {d : Datagram} (h : ∃ nh ∈ d, nh.Announces) :
    scan RouteRecvCheck.check len d ≠ .ok none := by
  induction d generalizing len with
  | nil =>
      rcases h with ⟨nh, hmem, _⟩
      cases hmem
  | cons nh rest ih =>
      rcases Nat.lt_or_ge len nh.nlmsg_len with hlt | hge
      · intro heq
        rw [scan, if_pos hlt] at heq
        cases heq
      · rw [scan_cons hge]
        cases hcheck : RouteRecvCheck.check nh with
        | error e => exact fun heq => by cases heq
        | ok b =>
            cases b with
            | true => exact fun heq => by cases heq
            | false =>
                apply ih
                rcases h with ⟨nh', hmem, hann⟩
                rcases List.mem_cons.1 hmem with rfl | hrest
                · rw [hann.check] at hcheck
                  cases hcheck
                · exact ⟨nh', hrest, hann⟩

theorem receive_ne_next {m_buflen : Nat} {d : Datagram} (h : ∃ nh ∈ d, nh.Announces) :
    receive RouteRecvCheck.check m_buflen d ≠ .ok none := by
  rw [receive]
  split_ifs
  · exact fun heq => by cases heq
  · exact scan_ne_next h

end Route
end Kdump

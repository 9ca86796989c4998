import Kdump.Route.NetLink

/-!
# Routable — waiting until a host can be reached

`check` subscribes to the changes of the routes, and then tests the addresses of the host one after
the other and waits for a change in turn.  The routes may change at any time.

* `State` — the routes, the queue of the socket, and where `check` is;
* `advance` — what `check` does next;
* `Step` — a step of `check`, or of the world;
* `NothingMissed` — the invariant;
* `no_lost_wakeup` — a host that can be reached is not waited for.
-/

namespace Kdump
namespace Route

variable {Addr : Type}

/-! ## The parties -/

/-- Where `check` is. -/
inductive Control (Addr : Type) where
  /-- in `hasRoute`, with the addresses that are still to be tested -/
  | testing (rest : List Addr)
  /-- in `waitRouteChange`, before `poll` -/
  | waiting
  | returned (result : Bool)
  | thrown (e : Thrown)
  deriving DecidableEq

structure State (Addr : Type) where
  /-- which addresses have a route -/
  routes : Addr → Bool
  /-- the datagrams in the queue of the socket -/
  queue : List Datagram
  control : Control Addr

/-- The queue with one more message, which may go into the last datagram. -/
def enqueue (together : Bool) (queue : List Datagram) (nh : NlMsg) : List Datagram :=
  match queue.getLast? with
  | some d => if together then queue.dropLast ++ [d ++ [nh]] else queue ++ [[nh]]
  | none => queue ++ [[nh]]

/-- The next step of `check`, behind `resolve`, which has found `m_ai`.  In front of an empty queue
`poll` blocks. -/
def advance (m_ai : List Addr) (m_buflen : Nat) (s : State Addr) : State Addr :=
  match s.control with
  | .testing (p :: rest) =>
      if s.routes p then { s with control := .returned true }
      else { s with control := .testing rest }
  | .testing [] => { s with control := .waiting }
  | .waiting =>
      match s.queue with
      | [] => s
      | d :: queue =>
          match receive RouteRecvCheck.check m_buflen d with
          | .error e => ⟨s.routes, queue, .thrown e⟩
          | .ok none => ⟨s.routes, queue, .waiting⟩
          | .ok (some res) =>
              if res ≠ 0 then ⟨s.routes, queue, .returned false⟩
              else ⟨s.routes, queue, .testing m_ai⟩
  | .returned _ => s
  | .thrown _ => s

/-- A step of `check`, or something that happens in the meantime. -/
inductive Step (m_ai : List Addr) (m_buflen : Nat) : State Addr → State Addr → Prop where
  | check (s : State Addr) : Step m_ai m_buflen s (advance m_ai m_buflen s)
  /-- routes are added and deleted, and the kernel tells about it -/
  | change (s : State Addr) (routes : Addr → Bool) (together : Bool) (nh : NlMsg)
      (announces : nh.Announces) :
      Step m_ai m_buflen s { s with routes := routes, queue := enqueue together s.queue nh }
  /-- any other message -/
  | message (s : State Addr) (together : Bool) (nh : NlMsg) :
      Step m_ai m_buflen s { s with queue := enqueue together s.queue nh }
  | timeout (s : State Addr) (waiting : s.control = .waiting) :
      Step m_ai m_buflen s { s with control := .returned false }
  /-- a system call fails -/
  | fail (s : State Addr) (e : Thrown) : Step m_ai m_buflen s { s with control := .thrown e }

/-- From the subscription on. -/
def Reach (m_ai : List Addr) (m_buflen : Nat) (s s' : State Addr) : Prop :=
  Relation.ReflTransGen (Step m_ai m_buflen) s s'

/-- `poll` in `waitRouteChange` does not return. -/
structure Blocked (s : State Addr) : Prop where
  waiting : s.control = .waiting
  empty : s.queue = []

/-! ## The invariant -/

/-- The queue holds a message about a route. -/
def HasNews (queue : List Datagram) : Prop :=
  ∃ d ∈ queue, ∃ nh ∈ d, nh.Announces

/-- If there is no news in the queue, then what the tests have found so far still holds. -/
def NothingMissed (m_ai : List Addr) (s : State Addr) : Prop :=
  match s.control with
  | .testing rest => HasNews s.queue ∨
      ∃ tested, m_ai = tested ++ rest ∧ ∀ p ∈ tested, s.routes p = false
  | .waiting => HasNews s.queue ∨ ∀ p ∈ m_ai, s.routes p = false
  | .returned _ => True
  | .thrown _ => True

theorem enqueue_concat (together : Bool) (queue : List Datagram) (d : Datagram) (nh : NlMsg) :
    enqueue together (queue ++ [d]) nh =
      if together then queue ++ [d ++ [nh]] else queue ++ [d] ++ [[nh]] := by
  rw [enqueue, List.getLast?_concat, List.dropLast_concat]

/-- A message in the queue stays there. -/
theorem HasNews.enqueue {queue : List Datagram} (h : HasNews queue) (together : Bool)
    (nh : NlMsg) : HasNews (enqueue together queue nh) := by
  rcases List.eq_nil_or_concat queue with rfl | ⟨init, last, rfl⟩
  · rcases h with ⟨d, hd, _⟩
    cases hd
  · rw [List.concat_eq_append] at h ⊢
    rw [enqueue_concat]
    obtain ⟨d, hd, nh', hmem, hann⟩ := h
    split_ifs
    · rcases List.mem_append.1 hd with hinit | hlast
      · exact ⟨d, List.mem_append_left _ hinit, nh', hmem, hann⟩
      · rw [List.mem_singleton.1 hlast] at hmem
        exact ⟨last ++ [nh], List.mem_append_right _ List.mem_cons_self, nh',
          List.mem_append_left _ hmem, hann⟩
    · exact ⟨d, List.mem_append_left _ hd, nh', hmem, hann⟩

/-- The message is in the queue. -/
theorem hasNews_enqueue (together : Bool) (queue : List Datagram) {nh : NlMsg}
    (h : nh.Announces) : HasNews (Route.enqueue together queue nh) := by
  rcases List.eq_nil_or_concat queue with rfl | ⟨init, last, rfl⟩
  · exact ⟨[nh], List.mem_cons_self, nh, List.mem_cons_self, h⟩
  · rw [List.concat_eq_append, enqueue_concat]
    split_ifs
    · exact ⟨last ++ [nh], List.mem_append_right _ List.mem_cons_self, nh,
        List.mem_append_right _ List.mem_cons_self, h⟩
    · exact ⟨[nh], List.mem_append_right _ List.mem_cons_self, nh, List.mem_cons_self, h⟩

namespace NothingMissed

variable {m_ai : List Addr} {m_buflen : Nat} {s s' : State Addr}

/-- With news in the queue there is nothing more to show. -/
theorem of_hasNews (h : HasNews s.queue) : NothingMissed m_ai s := by
  rw [NothingMissed]
  cases s.control with
  | testing rest => exact Or.inl h
  | waiting => exact Or.inl h
  | returned result => trivial
  | thrown e => trivial

/-- A new round of tests. -/
theorem of_testing_all (hcontrol : s.control = .testing m_ai) : NothingMissed m_ai s := by
  rw [NothingMissed, hcontrol]
  exact Or.inr ⟨[], rfl, fun p hp => absurd hp List.not_mem_nil⟩

/-- News survive a datagram that does not end the wait. -/
theorem hasNews_tail {d : Datagram} {queue : List Datagram} (h : HasNews (d :: queue))
    (hnone : receive RouteRecvCheck.check m_buflen d = .ok none) : HasNews queue := by
  obtain ⟨d', hd', hnews⟩ := h
  rcases List.mem_cons.1 hd' with rfl | hmem
  · exact absurd hnone (receive_ne_next hnews)
  · exact ⟨d', hmem, hnews⟩

theorem advance (h : NothingMissed m_ai s) : NothingMissed m_ai (advance m_ai m_buflen s) := by
  rw [Route.advance]
  cases hcontrol : s.control with
  | testing rest =>
      rw [NothingMissed, hcontrol] at h
      cases rest with
      | nil =>
          rcases h with hnews | ⟨tested, htested, hroutes⟩
          · exact of_hasNews hnews
          · rw [List.append_nil] at htested
            exact Or.inr (htested ▸ hroutes)
      | cons p rest =>
          dsimp only
          split_ifs with hroute
          · trivial
          · rcases h with hnews | ⟨tested, htested, hroutes⟩
            · exact of_hasNews hnews
            · -- one more address without a route
              refine Or.inr ⟨tested ++ [p], by rw [htested, List.append_cons], ?_⟩
              intro q hq
              rcases List.mem_append.1 hq with hq | hq
              · exact hroutes q hq
              · rw [List.mem_singleton.1 hq]
                exact Bool.eq_false_iff.2 hroute
  | waiting =>
      cases hqueue : s.queue with
      | nil => exact h
      | cons d queue =>
          dsimp only
          split
          · trivial
          · rename_i hnone
            rw [NothingMissed, hcontrol, hqueue] at h
            exact h.imp (fun hnews => hasNews_tail hnews hnone) id
          · split_ifs
            · trivial
            · exact of_testing_all rfl
  | returned result => exact h
  | thrown e => exact h

/-- A message that is no news. -/
theorem message (h : NothingMissed m_ai s) (together : Bool) (nh : NlMsg) :
    NothingMissed m_ai { s with queue := Route.enqueue together s.queue nh } := by
  rw [NothingMissed] at h ⊢
  cases hcontrol : s.control with
  | testing rest =>
      rw [hcontrol] at h
      exact h.imp (fun hnews => hnews.enqueue together nh) id
  | waiting =>
      rw [hcontrol] at h
      exact h.imp (fun hnews => hnews.enqueue together nh) id
  | returned result => trivial
  | thrown e => trivial

theorem step (h : NothingMissed m_ai s) (hstep : Step m_ai m_buflen s s') :
    NothingMissed m_ai s' := by
  cases hstep with
  | check => exact h.advance
  | change routes together nh announces => exact of_hasNews (hasNews_enqueue _ _ announces)
  | message together nh => exact h.message together nh
  | timeout waiting => trivial
  | fail e => trivial

theorem reach (h : NothingMissed m_ai s) (hreach : Reach m_ai m_buflen s s') :
    NothingMissed m_ai s' := by
  induction hreach with
  | refl => exact h
  | tail _ hstep ih => exact ih.step hstep

end NothingMissed

/-- In every run from the first test on, whatever the routes and the queue are at that time: if
`check` blocks, then no address has a route. -/
theorem no_lost_wakeup (m_ai : List Addr) (m_buflen : Nat) (routes : Addr → Bool)
    (queue : List Datagram) (s : State Addr)
    (hreach : Reach m_ai m_buflen ⟨routes, queue, .testing m_ai⟩ s) (hblocked : Blocked s) :
    ∀ p ∈ m_ai, s.routes p = false := by
  have hstart : NothingMissed m_ai ⟨routes, queue, .testing m_ai⟩ :=
    NothingMissed.of_testing_all rfl
  have h := hstart.reach hreach
  rw [NothingMissed, hblocked.waiting, hblocked.empty] at h
  rcases h with ⟨d, hd, _⟩ | hroutes
  · cases hd
  · exact hroutes

/-- A host with two addresses: the route to the first one is added behind its test, and deleted
again before the next round. -/
theorem no_lost_wakeup_two :
    ∃ s : State Bool, Reach [false, true] 4096 ⟨fun _ => false, [], .testing [false, true]⟩ s ∧
      Blocked s ∧ ∀ p ∈ [false, true], s.routes p = false := by
  let added : NlMsg := ⟨RTM_NEWROUTE, 28, 0, 0, by decide, by decide⟩
  let deleted : NlMsg := ⟨RTM_DELROUTE, 28, 0, 0, by decide, by decide⟩
  have hadded : added.Announces := ⟨Or.inl rfl, by decide, by decide⟩
  have hdeleted : deleted.Announces := ⟨Or.inr rfl, by decide, by decide⟩
  have hreach : Reach [false, true] 4096 ⟨fun _ => false, [], .testing [false, true]⟩ _ :=
    .head (.check _) <| .head (.change _ (fun p => !p) true added hadded) <|
      .head (.check _) <| .head (.change _ (fun _ => false) true deleted hdeleted) <|
        .head (.check _) <| .head (.check _) <| .head (.check _) <| .head (.check _) <|
          .head (.check _) .refl
  refine ⟨_, hreach, ?blocked, no_lost_wakeup _ _ _ _ _ hreach ?blocked⟩
  exact ⟨by decide, by decide⟩

end Route
end Kdump

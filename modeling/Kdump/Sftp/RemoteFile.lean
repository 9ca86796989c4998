import Kdump.Lib.SparseFile
import Kdump.Sftp.Run

/-!
# RemoteFile — the content of the file on the server

A server that applies every acknowledged `WRITE` at its offset ends up with the data of the
provider, because the offsets follow one another without gap or overlap.
-/

namespace Kdump
namespace Sftp

open Lib Kdump.Path Transfer

/-! ## Observations -/

/-- The offset and the data of a `WRITE` request. -/
def Event.write? : Event → Option (Nat × ByteVector)
  | .send _ (.write _ off data) => some (off, data)
  | _ => none

def writesOf (events : List Event) : List (Nat × ByteVector) :=
  events.filterMap Event.write?

theorem writesOf_append (events events' : List Event) :
    writesOf (events ++ events') = writesOf events ++ writesOf events' :=
  List.filterMap_append

/-- The writes begin at `off` and follow one another. -/
def Contiguous : Nat → List (Nat × ByteVector) → Prop
  | _, [] => True
  | off, (off', data) :: writes => off' = off ∧ Contiguous (off + data.length) writes

/-- The writes begin at `off` and follow one another, and no empty buffer is offered. -/
structure WellPlaced (off : Nat) (events : List Event) : Prop where
  contiguous : Contiguous off (writesOf events)
  offered : ∀ size answer, Event.call (.getData size answer) ∈ events → size ≠ 0

/-- Events without a `WRITE` or a call of `getData`. -/
def Event.Idle (event : Event) : Prop :=
  event.write? = none ∧ ∀ size answer, event ≠ .call (.getData size answer)

theorem writesOf_idle {events : List Event} (h : ∀ event ∈ events, event.Idle) :
    writesOf events = [] :=
  List.filterMap_eq_nil_iff.2 fun event hmem => (h event hmem).1

/-- Idle events make no difference. -/
theorem WellPlaced.around {off : Nat} {events : List Event} (h : WellPlaced off events)
    (before after : List Event) (hbefore : ∀ event ∈ before, event.Idle)
    (hafter : ∀ event ∈ after, event.Idle) : WellPlaced off (before ++ events ++ after) := by
  constructor
  · rw [writesOf_append, writesOf_append, writesOf_idle hbefore, writesOf_idle hafter,
      List.nil_append, List.append_nil]
    exact h.contiguous
  · intro size answer hmem
    rcases List.mem_append.1 hmem with hmem | hmem
    · rcases List.mem_append.1 hmem with hmem | hmem
      · exact absurd rfl ((hbefore _ hmem).2 size answer)
      · exact h.offered size answer hmem
    · exact absurd rfl ((hafter _ hmem).2 size answer)

/-- The requests that were answered with an accepting reply. -/
def acknowledged : List Event → List Request
  | .send id request :: .reply payload :: events =>
      if Accepts id request payload then request :: acknowledged events else acknowledged events
  | _ :: events => acknowledged events
  | [] => []

/-- What a request does to the file that is open under the handle. -/
def applyTo (handle : Str) (file : ByteVector) : Request → ByteVector
  | .write handle' off data => if handle' = handle then writeAt file off data else file
  | _ => file

/-- The content of a file that was empty when the handle was given out. -/
def remoteFile (handle : Str) (events : List Event) : ByteVector :=
  (acknowledged events).foldl (applyTo handle) []

@[simp] theorem acknowledged_call (c : Call) (events : List Event) :
    acknowledged (.call c :: events) = acknowledged events := by
  rw [acknowledged]
  rintro _ _ _ _ ⟨⟩

theorem acknowledged_granted {id : UInt64} {request : Request} {payload : ByteVector}
    (h : Accepts id request payload) (events : List Event) :
    acknowledged (.send id request :: .reply payload :: events) =
      request :: acknowledged events := by
  rw [acknowledged, if_pos h]

/-! ## The loop -/

theorem LoopRun.content {handle : Str} {data : List (Except Thrown ByteVector)} {off : Nat}
    {id id' : UInt64} {events : List Event} {returns : Bool}
    (h : LoopRun handle data off id events id' returns) :
    returns = true → ∀ (chunks : List Chunk), data = chunks.map (fun c => .ok c.1) →
      ∀ (file : ByteVector), file.length = off → ∀ events',
        (acknowledged (events ++ events')).foldl (applyTo handle) file =
          (acknowledged events').foldl (applyTo handle) (file ++ contents chunks) := by
  induction h with
  | finished hend _ =>
      rintro _ chunks rfl file _ events'
      cases chunks with
      | nil => simp [contents]
      | cons c chunks => exact absurd (Except.ok.inj hend) c.2
  | dataFailed _ => rintro ⟨⟩
  | writeFailed _ _ _ => rintro ⟨⟩
  | @round chunk data off id id' size payload events returns _ _ haccepts _ ih =>
      intro hreturns chunks hchunks file hoff events'
      cases chunks with
      | nil => cases hchunks
      | cons c chunks =>
          rw [List.map_cons, List.cons.injEq] at hchunks
          have hc : chunk = c.1 := Except.ok.inj hchunks.1
          -- the file ends at the offset, and the chunk is appended
          have happly : applyTo handle file (.write handle off chunk) = file ++ chunk := by
            rw [applyTo, if_pos rfl, ← hoff, writeAt_length]
          have hlen : (file ++ chunk).length = off + chunk.length := by
            rw [List.length_append, hoff]
          rw [List.cons_append, List.cons_append, List.cons_append, acknowledged_call,
            acknowledged_granted haccepts, List.foldl_cons, happly,
            ih hreturns chunks hchunks.2 _ hlen, contents, contents, List.flatMap_cons, hc,
            List.append_assoc]

theorem Event.IsOutcome.idle {outcome : Event} (h : outcome.IsOutcome) : outcome.Idle := by
  cases outcome with
  | call _ => exact h.elim
  | send _ _ => exact h.elim
  | reply _ => exact ⟨rfl, by rintro _ _ ⟨⟩⟩
  | failed _ => exact ⟨rfl, by rintro _ _ ⟨⟩⟩

theorem wellPlaced_getData {off size : Nat} {answer : Except Thrown ByteVector}
    (hsize : 0 < size) : WellPlaced off [.call (.getData size answer)] where
  contiguous := trivial
  offered := by
    intro size' answer' hmem
    cases List.mem_singleton.1 hmem
    exact hsize.ne'

/-- The offsets are right and no offered buffer is empty, even in a run that fails. -/
theorem LoopRun.wellPlaced {handle : Str} {data : List (Except Thrown ByteVector)} {off : Nat}
    {id id' : UInt64} {events : List Event} {returns : Bool}
    (h : LoopRun handle data off id events id' returns) : WellPlaced off events := by
  induction h with
  | finished _ hsize => exact wellPlaced_getData hsize
  | dataFailed hsize => exact wellPlaced_getData hsize
  | @writeFailed chunk data off id size outcome _ hsize houtcome =>
      have hidle := houtcome.idle
      have hwrites : writesOf [outcome] = [] := writesOf_idle (by simpa using hidle)
      constructor
      · change Contiguous off ((off, chunk) :: writesOf [outcome])
        rw [hwrites]
        exact ⟨rfl, trivial⟩
      · intro size' answer hmem
        simp only [List.mem_cons, List.not_mem_nil, or_false] at hmem
        rcases hmem with hmem | hmem | hmem
        · cases hmem
          exact hsize.ne'
        · cases hmem
        · exact absurd hmem.symm (hidle.2 size' answer)
  | round _ hsize _ _ ih =>
      refine ⟨⟨rfl, ih.contiguous⟩, fun size answer hmem => ?_⟩
      simp only [List.mem_cons] at hmem
      rcases hmem with hmem | hmem | hmem | hmem
      · cases hmem
        exact hsize.ne'
      · cases hmem
      · cases hmem
      · exact ih.offered size answer hmem

/-! ## Whole runs -/

theorem BodyRun.content {handle : Str} {chunks : List Chunk} {id id' : UInt64}
    {events : List Event} {returns : Bool}
    (h : BodyRun handle (.ofChunks chunks) id events id' returns) :
    returns = true → ∀ events', (acknowledged (events ++ events')).foldl (applyTo handle) [] =
      (acknowledged events').foldl (applyTo handle) (contents chunks) := by
  cases h with
  | unprepared _ => rintro ⟨⟩
  | @prepared events id' returns _ hloop =>
      intro hreturns events'
      have hloop' : returns = true := (Bool.and_eq_true_iff.1 hreturns).1
      have hcontent := hloop.content hloop' chunks rfl [] rfl
        (.call (.finish (DataProvider.ofChunks chunks).finish) :: events')
      rw [acknowledged_call, List.nil_append] at hcontent
      rw [List.cons_append, List.cons_append, acknowledged_call, List.append_assoc]
      exact hcontent

theorem HandleRun.content {handle : Str} {chunks : List Chunk} {id id' : UInt64}
    {events : List Event} (h : HandleRun handle (.ofChunks chunks) id events id' true) :
    remoteFile handle events = contents chunks := by
  cases h with
  | completed hbody haccepts =>
      unfold remoteFile
      rw [hbody.content rfl, acknowledged_granted haccepts]
      rfl

theorem BodyRun.wellPlaced {handle : Str} {provider : DataProvider} {id id' : UInt64}
    {events : List Event} {returns : Bool}
    (h : BodyRun handle provider id events id' returns) : WellPlaced 0 events := by
  cases h with
  | unprepared _ =>
      refine ⟨trivial, fun size answer hmem => ?_⟩
      cases List.mem_singleton.1 hmem
  | prepared _ hloop =>
      refine hloop.wellPlaced.around [_] [_] ?_ ?_
      · intro event hmem
        rw [List.mem_singleton.1 hmem]
        exact ⟨rfl, by rintro _ _ ⟨⟩⟩
      · intro event hmem
        rw [List.mem_singleton.1 hmem]
        exact ⟨rfl, by rintro _ _ ⟨⟩⟩

theorem HandleRun.wellPlaced {handle : Str} {provider : DataProvider} {id id' : UInt64}
    {events : List Event} {returns : Bool}
    (h : HandleRun handle provider id events id' returns) : WellPlaced 0 events := by
  have hclose : ∀ {id : UInt64} {outcome : Event}, outcome.IsOutcome →
      ∀ event ∈ [Event.send id (.close handle), outcome], event.Idle := by
    intro id outcome houtcome event hmem
    simp only [List.mem_cons, List.not_mem_nil, or_false] at hmem
    rcases hmem with rfl | rfl
    · exact ⟨rfl, by rintro _ _ ⟨⟩⟩
    · exact houtcome.idle
  cases h with
  | failed hbody houtcome =>
      exact hbody.wellPlaced.around [] _ (by simp) (hclose houtcome)
  | completed hbody _ =>
      exact hbody.wellPlaced.around [] _ (by simp) (hclose trivial)

/-- A server that says yes to everything. -/
private def agreeableServer : SFTPState where
  m_lastid := 0
  answers := []
  sent := []
  incoming :=
    [[0, 0, 0, 10, SSH_FXP_HANDLE] ++ bigEndian 4 1 ++ bigEndian 4 1 ++ [104],
      [0, 0, 0, 9, SSH_FXP_STATUS] ++ bigEndian 4 2 ++ bigEndian 4 SSH_FX_OK,
      [0, 0, 0, 9, SSH_FXP_STATUS] ++ bigEndian 4 3 ++ bigEndian 4 SSH_FX_OK,
      [0, 0, 0, 9, SSH_FXP_STATUS] ++ bigEndian 4 4 ++ bigEndian 4 SSH_FX_OK].map .ok
  trace := []

example :
    (match perform (str "/dump") (.ofChunks [⟨[1, 2], by decide⟩, ⟨[3], by decide⟩])
        [str "vmcore"] agreeableServer with
      | .ok _ s' => some (remoteFile (str "h") s'.trace)
      | .error _ _ => none) = some [1, 2, 3] := by
  decide +kernel

end Sftp
end Kdump

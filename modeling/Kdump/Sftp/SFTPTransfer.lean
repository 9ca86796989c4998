import Kdump.Path.FilePath
import Kdump.Sftp.SFTPPacket
import Kdump.Transfer.DataProvider
import Kdump.Transfer.Descriptor

/-!
# SFTPTransfer — saving through an SFTP server

The client sends one request after the other and waits for the reply to each.

* `Request` — the requests of the program, and their packets;
* `SFTPState` — the object, the answers of the pipes, and the trace of what happens;
* `exchange` — a request and its reply, which all operations have in common;
* `exists`, `mkpath`, `createfile`, `closefile`, `writefile` and `perform`.

File offsets are natural numbers here; `off_t` has 64 bits.
-/

namespace Kdump
namespace Sftp

open Lib Kdump.Path Transfer

/-! ## The protocol -/

def SSH_FXP_OPEN : UInt8 := 3
def SSH_FXP_CLOSE : UInt8 := 4
def SSH_FXP_WRITE : UInt8 := 6
def SSH_FXP_MKDIR : UInt8 := 14
def SSH_FXP_STAT : UInt8 := 17
def SSH_FXP_STATUS : UInt8 := 101
def SSH_FXP_HANDLE : UInt8 := 102
def SSH_FXP_ATTRS : UInt8 := 105

def SSH_FX_OK : UInt64 := 0
def SSH_FX_NO_SUCH_FILE : UInt64 := 2

def SSH_FXF_WRITE : UInt64 := 0x02
def SSH_FXF_CREAT : UInt64 := 0x08
def SSH_FXF_TRUNC : UInt64 := 0x10

/-- The requests of the program. -/
inductive Request where
  | stat (file : Str)
  | mkdir (path : Str)
  /-- with `CREAT` and `TRUNC` -/
  | create (file : Str)
  | close (handle : Str)
  | write (handle : Str) (off : Nat) (data : ByteVector)
  deriving DecidableEq, Repr

namespace Request

def packet (id : UInt64) : Request → SFTPPacket
  | .stat file =>
      ((SFTPPacket.empty.addByte SSH_FXP_STAT).addInt32 id).addString file
  | .mkdir path =>
      (((SFTPPacket.empty.addByte SSH_FXP_MKDIR).addInt32 id).addString path).addInt32 0
  | .create file =>
      -- no attributes
      ((((SFTPPacket.empty.addByte SSH_FXP_OPEN).addInt32 id).addString file).addInt32
        (SSH_FXF_WRITE ||| SSH_FXF_CREAT ||| SSH_FXF_TRUNC)).addInt32 0
  | .close handle =>
      ((SFTPPacket.empty.addByte SSH_FXP_CLOSE).addInt32 id).addString handle
  | .write handle off data =>
      (((((SFTPPacket.empty.addByte SSH_FXP_WRITE).addInt32 id).addString handle).addInt64
        (UInt64.ofNat off)).addInt32 (UInt64.ofNat data.length)).addByteVector data

end Request

/-! ## The state -/

/-- What can be observed of a run. -/
inductive Event where
  | call (c : Call)
  /-- `sendPacket` is called with this request -/
  | send (id : UInt64) (request : Request)
  /-- `recvPacket` has delivered a packet -/
  | reply (payload : ByteVector)
  /-- `sendPacket` or `recvPacket` has thrown -/
  | failed (e : Thrown)
  deriving DecidableEq

/-- An answer of `read()`: the bytes that have come in, none at the end of the stream, or
`errno`. -/
abbrev ReadAnswer := Except Errno ByteVector

structure SFTPState where
  m_lastid : UInt64
  answers : List WriteAnswer
  sent : ByteVector
  /-- behind the last answer is the end of the stream -/
  incoming : List ReadAnswer
  trace : List Event

instance : Observed SFTPState where
  record call s := { s with trace := s.trace ++ [.call call] }

abbrev SFTPProg := EStateM Thrown SFTPState

def observe (event : Event) : SFTPProg Unit :=
  modify fun s => { s with trace := s.trace ++ [event] }

/-- A failure to send or to receive is observed. -/
def observeFailure {α : Type} (p : SFTPProg α) : SFTPProg α :=
  tryCatch p fun e => do
    observe (.failed e)
    throw e

/-! ## Sending and receiving -/

/-- `m_lastid = (m_lastid + 1) & ((1UL << 32) - 1)`. -/
def succId (m_lastid : UInt64) : UInt64 :=
  let mask : UInt64 := (1 : UInt64) <<< (32 : UInt64) - 1
  (m_lastid + 1) &&& mask

def nextId : SFTPProg UInt64 :=
  modifyGet fun s => (succId s.m_lastid, { s with m_lastid := succId s.m_lastid })

def sendPacket (pkt : SFTPPacket) : SFTPProg Unit := do
  let s ← get
  let w := writeFully s.answers pkt.update
  set { s with answers := w.answers, sent := s.sent ++ w.taken }
  match w.result with
  | .error errno => throw (.KSystemError (str "SFTPTransfer::sendPacket: write failed") errno)
  | .ok () => pure ()

/-- `while (buflen) { len = read(fd, bufp, buflen); .. }`: the bytes, and the answers left. -/
def readFully : List ReadAnswer → Nat → Except Thrown ByteVector × List ReadAnswer
  | incoming, 0 => (.ok [], incoming)
  | [], _ + 1 => (.error (.KError (str "SFTPTransfer::recvPacket: unexpected EOF")), [])
  | .error errno :: incoming, _ + 1 =>
      (.error (.KSystemError (str "SFTPTransfer::recvPacket: read failed") errno), incoming)
  | .ok bytes :: incoming, buflen + 1 =>
      if bytes = [] then
        (.error (.KError (str "SFTPTransfer::recvPacket: unexpected EOF")), incoming)
      else if buflen + 1 < bytes.length then
        (.ok (bytes.take (buflen + 1)), .ok (bytes.drop (buflen + 1)) :: incoming)
      else
        let more := readFully incoming (buflen + 1 - bytes.length)
        (more.1.map (bytes ++ ·), more.2)

def recvBuffer (buflen : Nat) : SFTPProg ByteVector := do
  let s ← get
  let r := readFully s.incoming buflen
  set { s with incoming := r.2 }
  ofExcept r.1

/-- `while (length > 0)`: the rest of a packet comes in pieces of a buffer.  Every pass takes at
least one byte off `length`, so that `length` passes are enough. -/
def recvPieces : (passes length : Nat) → SFTPPacket → SFTPProg SFTPPacket
  | 0, _, pkt => pure pkt
  | passes + 1, length, pkt =>
      if length = 0 then
        pure pkt
      else do
        let size := min BUFSIZ length
        let buffer ← recvBuffer size
        recvPieces passes (length - size) (pkt.addByteVector buffer)

/-- Read from a packet that is a local variable. -/
def onPacket {α : Type} (read : SFTPPacket.Reader α) (pkt : SFTPPacket) :
    SFTPProg (α × SFTPPacket) :=
  match read pkt with
  | .ok a pkt' => pure (a, pkt')
  | .error e _ => throw e

def recvPacket : SFTPProg SFTPPacket := do
  let buffer ← recvBuffer 4
  let (length, pkt) ← onPacket SFTPPacket.getInt32 (SFTPPacket.setData buffer)
  recvPieces length.toNat length.toNat pkt

/-! ## Requests and replies -/

/-- What all operations begin with: send the request, receive the reply, read its type, and check
its id. -/
def exchange (request : Request) : SFTPProg (UInt8 × SFTPPacket) := do
  let id ← nextId
  observe (.send id request)
  let pkt ← observeFailure do
    sendPacket (request.packet id)
    recvPacket
  observe (.reply pkt.payload)
  let (type, pkt) ← onPacket SFTPPacket.getByte pkt
  let (id, pkt) ← onPacket SFTPPacket.getInt32 pkt
  if id ≠ (← get).m_lastid then
    throw (.KError (str "SFTP request/reply id mismatch"))
  pure (type, pkt)

/-- The status code, of a reply that must be a status. -/
def getStatus (what : Str) (reply : UInt8 × SFTPPacket) : SFTPProg UInt64 := do
  if reply.1 ≠ SSH_FXP_STATUS then
    throw (.KError (str "Invalid response to " ++ what ++ str ": type " ++
      decimal reply.1.toNat))
  let (errcode, _) ← onPacket SFTPPacket.getInt32 reply.2
  pure errcode

/-- A request that must be answered with the status `OK`. -/
def requestOk (request : Request) (what message : Str) : SFTPProg Unit := do
  let reply ← exchange request
  let errcode ← getStatus what reply
  if errcode ≠ SSH_FX_OK then
    throw (.KSFTPError message errcode)

def «exists» (file : Str) : SFTPProg Bool := do
  let reply ← exchange (.stat file)
  if reply.1 = SSH_FXP_ATTRS then
    pure true
  else
    let errcode ← getStatus (str "SSH_FXP_LSTAT") reply
    if errcode ≠ SSH_FX_NO_SUCH_FILE then
      throw (.KSFTPError (str "stat failed on " ++ file) errcode)
    pure false

/-- The path of the directory above, if there is one to be made. -/
def parentDir (path : Str) : Option Str :=
  let dir := rtrimSlash path
  match rfindSlash dir with
  | none => none
  | some pos => if 0 < pos then some (dir.take pos) else none

theorem parentDir_length_lt {path dir : Str} (h : parentDir path = some dir) :
    dir.length < path.length := by
  unfold parentDir at h
  dsimp only at h
  have hle : (rtrimSlash path).length ≤ path.length :=
    (List.rdropWhile_prefix (· == slash) path).length_le
  cases hpos : rfindSlash (rtrimSlash path) with
  | none =>
      rw [hpos] at h
      cases h
  | some pos =>
      have hlt : pos < (rtrimSlash path).length := by
        unfold rfindSlash at hpos
        rcases Option.map_eq_some_iff.1 hpos with ⟨i, hi, hsub⟩
        have hlt := (List.findIdx?_eq_some_iff_getElem.1 hi).1
        rw [List.length_reverse] at hlt
        omega
      rw [hpos] at h
      dsimp only at h
      split_ifs at h
      cases h
      rw [List.length_take]
      omega

def mkpath (path : Str) : SFTPProg Unit := do
  if (← «exists» path) = false then
    match _h : parentDir path with
    | some dir => mkpath dir
    | none => pure ()
    requestOk (.mkdir path) (str "SSH_FXP_MKDIR") (str "mkdir failed on " ++ path)
termination_by path.length
decreasing_by exact parentDir_length_lt _h

def createfile (file : Str) : SFTPProg Str := do
  let reply ← exchange (.create file)
  if reply.1 = SSH_FXP_HANDLE then
    let (handle, _) ← onPacket SFTPPacket.getString reply.2
    pure handle
  else
    let errcode ← getStatus (str "SSH_FXP_OPEN") reply
    throw (.KSFTPError (str "open failed on " ++ file) errcode)

/-- The error text names the wrong request. -/
def closefile (handle : Str) : SFTPProg Unit :=
  requestOk (.close handle) (str "SSH_FXP_OPEN") (str "close failed on " ++ handle)

/-- The error text names the wrong operation. -/
def writefile (handle : Str) (off : Nat) (data : ByteVector) : SFTPProg Unit :=
  requestOk (.write handle off data) (str "SSH_FXP_WRITE") (str "close failed on " ++ handle)

/-! ## Saving -/

/-- A `std::vector` of bytes. -/
structure Buffer where
  bytes : ByteVector
  capacity : Nat

namespace Buffer

def ofSize (n : Nat) : Buffer :=
  ⟨List.replicate n 0, n⟩

def size (buffer : Buffer) : Nat :=
  buffer.bytes.length

/-- The provider puts its data at the beginning. -/
def fill (buffer : Buffer) (chunk : ByteVector) : Buffer :=
  { buffer with bytes := chunk ++ buffer.bytes.drop chunk.length }

/-- The capacity does not shrink. -/
def resize (buffer : Buffer) (n : Nat) : Buffer :=
  ⟨buffer.bytes.take n ++ List.replicate (n - buffer.bytes.length) 0, max buffer.capacity n⟩

end Buffer

/-- The loop, by recursion on what the provider has left. -/
def writeLoop (handle : Str) : List (Except Thrown ByteVector) → Nat → Buffer → SFTPProg Unit
  | [], _, buffer => do
      let _ ← callGetData buffer.size (.ok [])
  | answer :: data, off, buffer => do
      let chunk ← callGetData buffer.size answer
      if chunk = [] then
        pure ()
      else
        let buffer := (buffer.fill chunk).resize chunk.length
        writefile handle off buffer.bytes
        writeLoop handle data (off + buffer.size) (buffer.resize buffer.capacity)

/-- The outer `try` block. -/
def performBody (handle : Str) (provider : DataProvider) : SFTPProg Unit := do
  provider.callPrepare
  tryCatch (writeLoop handle provider.data 0 (.ofSize BUFSIZ)) fun e => do
    provider.callFinish
    throw e
  provider.callFinish

/-- What follows `createfile`. -/
def performHandle (handle : Str) (provider : DataProvider) : SFTPProg Unit := do
  tryCatch (performBody handle provider) fun e => do
    closefile handle
    throw e
  closefile handle

/-- `SFTPTransfer::perform`, with the path of the target; the result is what it stores in
`*directSave`. -/
def perform (path : Str) (provider : DataProvider) (target_files : List Str) : SFTPProg Bool := do
  let handle ← createfile (appendPath path (target_files.headD []))
  performHandle handle provider
  pure false

/-! ## The provider -/

/-- A normal return means that `finish` has returned. -/
theorem returnsOnlyIf_perform (path : Str) (provider : DataProvider) (target_files : List Str) :
    ReturnsOnlyIf (perform path provider target_files) (provider.finish = .ok ()) := by
  have hbody : ∀ handle, ReturnsOnlyIf (performBody handle provider) (provider.finish = .ok ()) :=
    fun _ => .bind_right fun _ => .bind_right fun _ => returnsOnlyIf_callFinish provider
  -- the handler throws again behind `CLOSE`
  have hhandler : ∀ handle e, ReturnsOnlyIf
      (do closefile handle; throw e : SFTPProg Unit) (provider.finish = .ok ()) :=
    fun _ e => .bind_right fun _ => .throw e
  exact .bind_right fun handle => .bind_left <| .bind_left <|
    .tryCatch (hbody handle) (hhandler handle)

/-- A run depends on nothing else of the provider. -/
theorem perform_congr {provider provider' : DataProvider}
    (hprepare : provider.prepare = provider'.prepare) (hdata : provider.data = provider'.data)
    (hfinish : provider.finish = provider'.finish) (path : Str) (target_files : List Str) :
    perform path provider target_files = perform path provider' target_files := by
  unfold perform performHandle performBody DataProvider.callPrepare DataProvider.callFinish
  rw [hprepare, hdata, hfinish]

end Sftp
end Kdump

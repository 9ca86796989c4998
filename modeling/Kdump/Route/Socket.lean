import Kdump.Global

/-!
# Socket — connecting to the first address that accepts

`Socket::connect` goes through the addresses that a name resolves to.  For each of them it creates a
socket; what it connects that socket to is the address at the head of the list.

* `Descriptors` — the open descriptors of the process;
* `Socket.connect` — the loop, with the calls of the system;
* `tryAll_some` and `tryAll_none` — how the loop ends, and which descriptors are open then;
* `connect_correct_iff` — when the first acceptable address is the one that is connected to.
-/

namespace Kdump
namespace Route

/-- What can be thrown where names are resolved. -/
inductive NetThrown where
  | thrown (e : Thrown)
  /-- with a value of `getaddrinfo()` or `getnameinfo()` -/
  | KGaiError (message : Str) (code : Int)
  deriving DecidableEq, Repr

def AF_UNSPEC : Int := 0
def AF_INET : Int := 2
def AF_INET6 : Int := 10

def SOCK_STREAM : Int := 1
def SOCK_DGRAM : Int := 2

/-! ## The system -/

/-- The arguments of `socket()`. -/
structure SocketKind where
  ai_family : Int
  ai_socktype : Int
  ai_protocol : Int
  deriving DecidableEq, Repr

/-- `struct addrinfo`.  There are `ai_addrlen` bytes in `ai_addr`. -/
structure AddrInfo extends SocketKind where
  ai_addr : Str
  deriving DecidableEq, Repr

/-- What a descriptor stands for: a socket with the address of its peer, if it is connected, or
anything else. -/
inductive Descriptor where
  | socket (kind : SocketKind) (peer : Option Str)
  | other
  deriving DecidableEq, Repr

/-- The descriptors that are open. -/
structure Descriptors where
  slot : Nat → Option Descriptor
  finite : ∃ n, ∀ fd, n ≤ fd → slot fd = none

namespace Descriptors

variable (d : Descriptors)

theorem exists_free : ∃ fd, d.slot fd = none := by
  rcases d.finite with ⟨n, hn⟩
  exact ⟨n, hn n (Nat.le_refl n)⟩

/-- A new descriptor is the lowest one that is not open. -/
def lowest : Nat :=
  Nat.find d.exists_free

def set (fd : Nat) (value : Option Descriptor) : Descriptors where
  slot := Function.update d.slot fd value
  finite := by
    rcases d.finite with ⟨n, hn⟩
    refine ⟨n + fd + 1, fun other hle => ?_⟩
    rw [Function.update_of_ne (by omega)]
    exact hn other (by omega)

@[ext] theorem ext {d d' : Descriptors} (h : ∀ fd, d.slot fd = d'.slot fd) : d = d' := by
  cases d
  cases d'
  congr
  exact funext h

theorem slot_lowest : d.slot d.lowest = none :=
  Nat.find_spec d.exists_free

@[simp] theorem slot_set_self (fd : Nat) (value : Option Descriptor) :
    (d.set fd value).slot fd = value :=
  Function.update_self ..

theorem slot_set_of_ne {fd other : Nat} (h : other ≠ fd) (value : Option Descriptor) :
    (d.set fd value).slot other = d.slot other :=
  Function.update_of_ne h ..

@[simp] theorem set_set (fd : Nat) (value value' : Option Descriptor) :
    (d.set fd value).set fd value' = d.set fd value' :=
  ext fun other => congrFun (Function.update_idem ..) other

/-- A descriptor that is closed again leaves no trace. -/
theorem set_none {fd : Nat} (h : d.slot fd = none) : d.set fd none = d := by
  ext1 other
  by_cases hother : other = fd
  · rw [hother, slot_set_self, h]
  · rw [slot_set_of_ne d hother]

theorem lowest_eq_zero_iff : d.lowest = 0 ↔ d.slot 0 = none :=
  Nat.find_eq_zero d.exists_free

end Descriptors

/-- The answers of the system. -/
structure Network where
  getaddrinfo : (node service : Str) → (hints : SocketKind) → Except Int (List AddrInfo)
  /-- whether `socket()` creates sockets of a kind -/
  creates : SocketKind → Bool
  /-- whether `connect()` of such a socket to an address succeeds -/
  accepts : SocketKind → Str → Bool

section

variable (net : Network)

/-- `socket()`. -/
def socket (kind : SocketKind) (d : Descriptors) : Int × Descriptors :=
  if net.creates kind then
    (d.lowest, d.set d.lowest (some (.socket kind none)))
  else
    (-1, d)

/-- `::connect()`, with 0 for success. -/
def sysConnect (fd : Int) (addr : Str) (d : Descriptors) : Int × Descriptors :=
  match d.slot fd.toNat with
  | some (.socket kind none) =>
      if net.accepts kind addr then
        (0, d.set fd.toNat (some (.socket kind (some addr))))
      else
        (-1, d)
  | _ => (-1, d)

/-- `::close()`. -/
def sysClose (fd : Int) (d : Descriptors) : Descriptors :=
  d.set fd.toNat none

end

/-! ## The class -/

inductive SocketType where
  | ST_TCP
  | ST_UDP
  deriving DecidableEq, Repr

inductive Family where
  | SF_ANY
  | SF_IPv4
  | SF_IPv6
  deriving DecidableEq, Repr

structure Socket where
  m_currentFd : Int
  m_hostname : Str
  m_service : Str
  m_socketType : SocketType
  m_family : Family

def systemFamily : Family → Int
  | .SF_IPv4 => AF_INET
  | .SF_IPv6 => AF_INET6
  | .SF_ANY => AF_UNSPEC

def systemSocketType : SocketType → Int
  | .ST_UDP => SOCK_DGRAM
  | .ST_TCP => SOCK_STREAM

namespace Socket

/-- `setHostname`: a literal IPv6 address may stand in brackets. -/
def setHostname (address : Str) : Str :=
  if 2 ≤ address.length ∧ address.head? = some 91 ∧ address.getLast? = some 93 then
    (address.drop 1).take (address.length - 2)
  else
    address

/-- `Socket::Socket`. -/
def new (address service : Str) (socketType : SocketType) (family : Family) : Socket where
  m_currentFd := -1
  m_hostname := setHostname address
  m_service := service
  m_socketType := socketType
  m_family := family

/-- `Socket::close`. -/
def close (s : Socket) (d : Descriptors) : Socket × Descriptors :=
  if 0 < s.m_currentFd then
    ({ s with m_currentFd := -1 }, sysClose s.m_currentFd d)
  else
    (s, d)

/-- The loop of `Socket::connect`, from `aip` on.  It tells whether `aip` is not NULL at the end. -/
def tryAll (net : Network) (res : AddrInfo) :
    List AddrInfo → Socket → Descriptors → Bool × Socket × Descriptors
  | [], s, d => (false, s, d)
  | aip :: ai_next, s, d =>
      let (fd, d) := socket net aip.toSocketKind d
      let s := { s with m_currentFd := fd }
      if s.m_currentFd < 0 then
        tryAll net res ai_next s d
      else
        let (n, d) := sysConnect net s.m_currentFd res.ai_addr d
        if n = 0 then
          (true, s, d)
        else
          let (s, d) := s.close d
          tryAll net res ai_next s d

/-- The loop with `res`, the head of the list. -/
def search (net : Network) (addresses : List AddrInfo) (s : Socket) (d : Descriptors) :
    Bool × Socket × Descriptors :=
  match addresses with
  | [] => (false, s, d)
  | res :: ai_next => tryAll net res (res :: ai_next) s d

/-- What `getaddrinfo()` is asked for. -/
def hints (s : Socket) : SocketKind where
  ai_family := systemFamily s.m_family
  ai_socktype := systemSocketType s.m_socketType
  ai_protocol := 0

/-- `Socket::connect`. -/
def connect (net : Network) (s : Socket) (d : Descriptors) :
    Except NetThrown Int × Socket × Descriptors :=
  match net.getaddrinfo (cStr s.m_hostname) (cStr s.m_service) s.hints with
  | .error n =>
      (.error (.KGaiError (str "getaddrinfo() failed for " ++ s.m_hostname ++ str ".") n), s, d)
  | .ok addresses =>
      match search net addresses s d with
      | (true, s, d) => (.ok s.m_currentFd, s, d)
      | (false, s, d) =>
          (.error (.thrown (.KError (str "connect() failed for " ++ s.m_hostname ++ str "."))), s,
            d)

end Socket

/-! ## How the loop ends -/

section

variable (net : Network)

/-- There is a socket for `aip`. -/
def Creates (aip : AddrInfo) : Bool :=
  net.creates aip.toSocketKind

/-- The socket for `aip` connects to the address. -/
def Reaches (addr : Str) (aip : AddrInfo) : Bool :=
  net.creates aip.toSocketKind && net.accepts aip.toSocketKind addr

/-- Descriptor 0 is what the first socket gets, if it is free.  `close` does not close it. -/
def kept (addr : Str) (addresses : List AddrInfo) (d : Descriptors) : Descriptors :=
  match addresses.find? (Creates net) with
  | none => d
  | some aip =>
      if d.slot 0 = none ∧ net.accepts aip.toSocketKind addr = false then
        d.set 0 (some (.socket aip.toSocketKind none))
      else
        d

end

variable {net : Network}

theorem kept_of_open {addr : Str} {addresses : List AddrInfo} {d : Descriptors}
    (h : d.slot 0 ≠ none) : kept net addr addresses d = d := by
  unfold kept
  split
  · rfl
  · exact if_neg fun hfree => h hfree.1

variable {addr : Str} {aip : AddrInfo} {ai_next : List AddrInfo} {d : Descriptors}

theorem kept_skip (h : net.creates aip.toSocketKind = false) :
    kept net addr (aip :: ai_next) d = kept net addr ai_next d := by
  have hnone : ¬ Creates net aip = true := Bool.eq_false_iff.1 h
  rw [kept, List.find?_cons_of_neg hnone, kept]

theorem kept_first (h : net.creates aip.toSocketKind = true) :
    kept net addr (aip :: ai_next) d =
      if d.slot 0 = none ∧ net.accepts aip.toSocketKind addr = false then
        d.set 0 (some (.socket aip.toSocketKind none))
      else
        d := by
  have hsome : Creates net aip = true := h
  rw [kept, List.find?_cons_of_pos hsome]

theorem kept_connect (h : Reaches net addr aip = true) :
    kept net addr (aip :: ai_next) d = d := by
  obtain ⟨hcreates, haccepts⟩ := (Bool.and_eq_true _ _).mp h
  rw [kept_first hcreates, if_neg]
  exact fun hfree => Bool.false_ne_true (hfree.2.symm.trans haccepts)

/-- Behind the first socket that does not connect, no other one is kept. -/
theorem kept_kept (hcreates : net.creates aip.toSocketKind = true)
    (haccepts : net.accepts aip.toSocketKind addr = false) :
    kept net addr ai_next (kept net addr (aip :: ai_next) d) =
      kept net addr (aip :: ai_next) d := by
  apply kept_of_open
  rw [kept_first hcreates]
  by_cases hfree : d.slot 0 = none
  · rw [if_pos ⟨hfree, haccepts⟩, Descriptors.slot_set_self]
    exact Option.some_ne_none _
  · rwa [if_neg fun h => hfree h.1]

theorem socket_some {kind : SocketKind} {d : Descriptors} (h : net.creates kind = true) :
    socket net kind d = ((d.lowest : Int), d.set d.lowest (some (.socket kind none))) :=
  if_pos h

theorem socket_none {kind : SocketKind} {d : Descriptors} (h : net.creates kind = false) :
    socket net kind d = (-1, d) :=
  if_neg (Bool.eq_false_iff.1 h)

theorem sysConnect_new {kind : SocketKind} {fd : Nat} {addr : Str} {d : Descriptors} :
    sysConnect net fd addr (d.set fd (some (.socket kind none))) =
      if net.accepts kind addr then
        (0, d.set fd (some (.socket kind (some addr))))
      else
        (-1, d.set fd (some (.socket kind none))) := by
  rw [sysConnect, Int.toNat_natCast, Descriptors.slot_set_self]
  dsimp only
  rw [Descriptors.set_set]

namespace Socket

variable {res : AddrInfo}

/-- Without a socket, the next address is tried. -/
theorem tryAll_skip {s : Socket} (h : net.creates aip.toSocketKind = false) :
    tryAll net res (aip :: ai_next) s d =
      tryAll net res ai_next { s with m_currentFd := -1 } d := by
  rw [tryAll, socket_none h]
  rfl

/-- The socket connects. -/
theorem tryAll_connect {s : Socket} (h : Reaches net res.ai_addr aip = true) :
    tryAll net res (aip :: ai_next) s d =
      (true, { s with m_currentFd := d.lowest },
        d.set d.lowest (some (.socket aip.toSocketKind (some res.ai_addr)))) := by
  obtain ⟨hcreates, haccepts⟩ := (Bool.and_eq_true _ _).mp h
  have hnonneg : ¬ (d.lowest : Int) < 0 := not_lt.2 (Int.natCast_nonneg _)
  rw [tryAll, socket_some hcreates]
  dsimp only
  rw [if_neg hnonneg, sysConnect_new, if_pos haccepts]
  rfl

/-- The socket does not connect and is closed, unless it is descriptor 0. -/
theorem tryAll_fail {s : Socket} (hcreates : net.creates aip.toSocketKind = true)
    (haccepts : net.accepts aip.toSocketKind res.ai_addr = false) :
    ∃ s' : Socket, tryAll net res (aip :: ai_next) s d =
      tryAll net res ai_next s' (kept net res.ai_addr (aip :: ai_next) d) := by
  have hnonneg : ¬ (d.lowest : Int) < 0 := not_lt.2 (Int.natCast_nonneg _)
  have hfailed : ¬ (-1 : Int) = 0 := by decide
  rw [tryAll, socket_some hcreates, kept_first hcreates]
  dsimp only
  rw [if_neg hnonneg, sysConnect_new, if_neg (Bool.eq_false_iff.1 haccepts)]
  dsimp only
  rw [if_neg hfailed, close]
  dsimp only
  by_cases hfree : d.slot 0 = none
  · have hzero : d.lowest = 0 := d.lowest_eq_zero_iff.2 hfree
    have hopen : ¬ (0 : Int) < d.lowest := by
      rw [hzero]
      decide
    rw [if_pos (And.intro hfree haccepts), if_neg hopen, hzero]
    exact ⟨_, rfl⟩
  · have hpos : (0 : Int) < d.lowest :=
      Int.natCast_pos.2 (Nat.pos_of_ne_zero fun hzero => hfree (d.lowest_eq_zero_iff.1 hzero))
    have hclosed : ¬ (d.slot 0 = none ∧ net.accepts aip.toSocketKind res.ai_addr = false) :=
      fun h => hfree h.1
    rw [if_neg hclosed, if_pos hpos]
    dsimp only
    rw [sysClose, Int.toNat_natCast, Descriptors.set_set, d.set_none d.slot_lowest]
    exact ⟨_, rfl⟩

/-- The loop ends at the first address whose socket connects to the address of `res`. -/
theorem tryAll_some {addresses : List AddrInfo} {s : Socket}
    (h : addresses.find? (Reaches net res.ai_addr) = some aip) :
    ∃ fd : Nat, ∃ s' : Socket, s'.m_currentFd = fd ∧
      (kept net res.ai_addr addresses d).slot fd = none ∧
      tryAll net res addresses s d =
        (true, s', (kept net res.ai_addr addresses d).set fd
          (some (.socket aip.toSocketKind (some res.ai_addr)))) := by
  induction addresses generalizing s d with
  | nil => cases h
  | cons first ai_next ih =>
      cases hcreates : net.creates first.toSocketKind with
      | false =>
          have hreaches : ¬ Reaches net res.ai_addr first = true := by
            rw [Reaches, hcreates]
            exact Bool.false_ne_true
          rw [List.find?_cons_of_neg hreaches] at h
          rw [tryAll_skip hcreates, kept_skip hcreates]
          exact ih h
      | true =>
          cases haccepts : net.accepts first.toSocketKind res.ai_addr with
          | true =>
              have hreaches : Reaches net res.ai_addr first = true := by
                rw [Reaches, hcreates, haccepts, Bool.and_self]
              rw [List.find?_cons_of_pos hreaches] at h
              cases h
              rw [tryAll_connect hreaches, kept_connect hreaches]
              exact ⟨d.lowest, _, rfl, d.slot_lowest, rfl⟩
          | false =>
              -- the socket is refused and closed, unless it has got number 0
              have hreaches : ¬ Reaches net res.ai_addr first = true := by
                rw [Reaches, haccepts, Bool.and_false]
                exact Bool.false_ne_true
              rw [List.find?_cons_of_neg hreaches] at h
              rcases @tryAll_fail net first ai_next d res s hcreates haccepts with ⟨s', hs'⟩
              have hrest := @ih (kept net res.ai_addr (first :: ai_next) d) s' h
              rw [kept_kept hcreates haccepts] at hrest
              rwa [hs']

/-- If there is none, all addresses are tried. -/
theorem tryAll_none {addresses : List AddrInfo} {s : Socket}
    (h : addresses.find? (Reaches net res.ai_addr) = none) :
    ∃ s' : Socket, tryAll net res addresses s d =
      (false, s', kept net res.ai_addr addresses d) := by
  induction addresses generalizing s d with
  | nil => exact ⟨s, rfl⟩
  | cons first ai_next ih =>
      have hreaches : ¬ Reaches net res.ai_addr first = true :=
        List.find?_eq_none.1 h first List.mem_cons_self
      rw [List.find?_cons_of_neg hreaches] at h
      cases hcreates : net.creates first.toSocketKind with
      | false =>
          rw [tryAll_skip hcreates, kept_skip hcreates]
          exact ih h
      | true =>
          have haccepts : net.accepts first.toSocketKind res.ai_addr = false := by
            rw [Reaches, hcreates, Bool.true_and] at hreaches
            exact Bool.eq_false_iff.2 hreaches
          rcases @tryAll_fail net first ai_next d res s hcreates haccepts with ⟨s', hs'⟩
          rcases @ih (kept net res.ai_addr (first :: ai_next) d) s' h with ⟨s'', hs''⟩
          rw [kept_kept hcreates haccepts] at hs''
          exact ⟨s'', hs'.trans hs''⟩

end Socket

/-! ## What is connected -/

section

variable (net : Network)

/-- A connection to the address succeeds. -/
def Acceptable (aip : AddrInfo) : Bool :=
  Reaches net aip.ai_addr aip

/-- What is expected of `connect` for the addresses that the name resolves to. -/
structure Connected (addresses : List AddrInfo) (s : Socket) (before : Descriptors)
    (result : Except NetThrown Int) (after : Descriptors) : Prop where
  first : ∀ aip, addresses.find? (Acceptable net) = some aip →
    ∃ fd : Nat, result = .ok fd ∧
      ∃ kind, after.slot fd = some (.socket kind (some aip.ai_addr))
  throws : (∃ e, result = .error e) ↔ ∀ aip ∈ addresses, Acceptable net aip = false
  /-- a descriptor that the socket had before counts as another one -/
  others : ∀ fd : Nat, result ≠ .ok fd →
    after.slot fd = if (fd : Int) = s.m_currentFd then none else before.slot fd

/-- No address but the one at the head of the list is wanted. -/
def HeadWanted (addresses : List AddrInfo) : Prop :=
  ∀ res ∈ addresses.head?,
    (∀ aip, addresses.find? (Acceptable net) = some aip → aip.ai_addr = res.ai_addr) ∧
      ((∀ aip ∈ addresses, Acceptable net aip = false) →
        ∀ aip ∈ addresses, Reaches net res.ai_addr aip = false)

/-- Descriptor 0 is open, or the first socket connects to the address at the head of the list. -/
def ZeroSafe (addresses : List AddrInfo) (d : Descriptors) : Prop :=
  ∀ res ∈ addresses.head?, ∀ aip, addresses.find? (Creates net) = some aip →
    d.slot 0 = none → net.accepts aip.toSocketKind res.ai_addr = true

/-- The socket has no descriptor yet. -/
def Socket.NotOpen (s : Socket) (d : Descriptors) : Prop :=
  ∀ fd : Nat, (fd : Int) = s.m_currentFd → d.slot fd = none

end

theorem kept_eq_iff {res : AddrInfo} {ai_next : List AddrInfo} :
    kept net res.ai_addr (res :: ai_next) d = d ↔ ZeroSafe net (res :: ai_next) d := by
  unfold ZeroSafe kept
  rw [List.head?_cons]
  cases hfirst : (res :: ai_next).find? (Creates net) with
  | none => exact iff_of_true rfl fun _ _ aip haip => by cases haip
  | some aip =>
      dsimp only
      constructor
      · intro heq res' hres' aip' haip' hfree
        cases hres'
        cases haip'
        by_contra hfalse
        rw [if_pos ⟨hfree, Bool.eq_false_iff.2 hfalse⟩] at heq
        -- the descriptor is open now
        have hzero := congrArg (fun d : Descriptors => d.slot 0) heq
        rw [Descriptors.slot_set_self, hfree] at hzero
        cases hzero
      · intro hsafe
        rw [if_neg]
        rintro ⟨hfree, hfalse⟩
        exact Bool.false_ne_true (hfalse.symm.trans (hsafe res rfl aip rfl hfree))

namespace Socket

/-- The outcome of `connect`, once the name has been resolved. -/
theorem connect_eq {s : Socket} {res : AddrInfo} {ai_next : List AddrInfo}
    (h : net.getaddrinfo (cStr s.m_hostname) (cStr s.m_service) s.hints = .ok (res :: ai_next)) :
    (∀ aip, (res :: ai_next).find? (Reaches net res.ai_addr) = some aip →
      ∃ fd : Nat, (kept net res.ai_addr (res :: ai_next) d).slot fd = none ∧
        (connect net s d).1 = .ok fd ∧
        (connect net s d).2.2 = (kept net res.ai_addr (res :: ai_next) d).set fd
          (some (.socket aip.toSocketKind (some res.ai_addr)))) ∧
    ((res :: ai_next).find? (Reaches net res.ai_addr) = none →
      (∃ e, (connect net s d).1 = .error e) ∧
        (connect net s d).2.2 = kept net res.ai_addr (res :: ai_next) d) := by
  have hsearch : search net (res :: ai_next) s d = tryAll net res (res :: ai_next) s d := rfl
  unfold connect
  rw [h]
  dsimp only
  constructor
  · intro aip haip
    rcases @tryAll_some net aip d res (res :: ai_next) s haip with ⟨fd, s', hfd, hfree, heq⟩
    rw [hsearch, heq]
    exact ⟨fd, hfree, congrArg Except.ok hfd, rfl⟩
  · intro hnone
    rcases @tryAll_none net d res (res :: ai_next) s hnone with ⟨s', heq⟩
    rw [hsearch, heq]
    exact ⟨⟨_, rfl⟩, rfl⟩

end Socket

/-- Which other descriptors are open depends on descriptor 0, and on the one that the socket had. -/
theorem others_iff {res : AddrInfo} {ai_next : List AddrInfo} {s : Socket} {after : Descriptors}
    {result : Except NetThrown Int}
    (hnew : ∀ fd : Nat, result = .ok fd →
      (kept net res.ai_addr (res :: ai_next) d).slot fd = none)
    (hafter : ∀ fd : Nat, result ≠ .ok fd →
      after.slot fd = (kept net res.ai_addr (res :: ai_next) d).slot fd) :
    (∀ fd : Nat, result ≠ .ok fd →
      after.slot fd = if (fd : Int) = s.m_currentFd then none else d.slot fd) ↔
    ZeroSafe net (res :: ai_next) d ∧ s.NotOpen d := by
  constructor
  · intro h
    have hkept : kept net res.ai_addr (res :: ai_next) d = d := by
      by_contra hne
      -- the only difference is a socket that got number 0, and is taken for none
      have hzero : d.slot 0 = none ∧ (kept net res.ai_addr (res :: ai_next) d).slot 0 ≠ none := by
        unfold kept at hne ⊢
        cases hfirst : (res :: ai_next).find? (Creates net) with
        | none => exact absurd (by rw [hfirst]) hne
        | some aip =>
            rw [hfirst] at hne
            dsimp only at hne ⊢
            by_cases hfree : d.slot 0 = none ∧ net.accepts aip.toSocketKind res.ai_addr = false
            · rw [if_pos hfree, Descriptors.slot_set_self]
              exact ⟨hfree.1, Option.some_ne_none _⟩
            · exact absurd (if_neg hfree) hne
      have hother : result ≠ .ok (0 : Nat) := fun heq => hzero.2 (hnew 0 heq)
      have hslot := h 0 hother
      rw [hafter 0 hother, hzero.1, ite_self] at hslot
      exact hzero.2 hslot
    refine ⟨kept_eq_iff.1 hkept, fun fd hfd => ?_⟩
    by_cases hresult : result = .ok fd
    · have hnone := hnew fd hresult
      rwa [hkept] at hnone
    · have hslot := h fd hresult
      rwa [hafter fd hresult, hkept, if_pos hfd] at hslot
  · rintro ⟨hsafe, hnotOpen⟩ fd hresult
    rw [hafter fd hresult, kept_eq_iff.2 hsafe]
    split_ifs with hfd
    · exact hnotOpen fd hfd
    · rfl

/-- A connection that succeeds is one to the head of the list. -/
theorem result_iff_of_some {res aip : AddrInfo} {ai_next : List AddrInfo} {fd : Nat}
    {after : Descriptors} (hhit : (res :: ai_next).find? (Reaches net res.ai_addr) = some aip)
    (hslot : after.slot fd = some (.socket aip.toSocketKind (some res.ai_addr))) :
    ((∀ a, (res :: ai_next).find? (Acceptable net) = some a →
        ∃ fd' : Nat, (.ok fd : Except NetThrown Int) = .ok (fd' : Int) ∧
          ∃ kind, after.slot fd' = some (.socket kind (some a.ai_addr))) ∧
      ((∃ e, (.ok fd : Except NetThrown Int) = .error e) ↔
        ∀ a ∈ res :: ai_next, Acceptable net a = false)) ↔
    HeadWanted net (res :: ai_next) := by
  have hmem : aip ∈ res :: ai_next := List.mem_of_find?_eq_some hhit
  have hreaches : Reaches net res.ai_addr aip = true := List.find?_some hhit
  constructor
  · rintro ⟨hfirst, hthrows⟩ res' hres'
    cases hres'
    constructor
    · intro a ha
      rcases hfirst a ha with ⟨fd', hfd', kind, hkind⟩
      -- a socket has one peer, and it is the head's address
      have hsame : fd = fd' := Int.ofNat.inj (Except.ok.inj hfd')
      rw [← hsame, hslot] at hkind
      injection Option.some.inj hkind with _ hpeer
      exact (Option.some.inj hpeer).symm
    · intro hnone
      rcases hthrows.2 hnone with ⟨e, he⟩
      cases he
  · intro hhead
    obtain ⟨hfirst, hnone⟩ := hhead res rfl
    constructor
    · intro a ha
      exact ⟨fd, rfl, aip.toSocketKind, by rw [hfirst a ha, hslot]⟩
    · -- were no address acceptable, none would have been reached
      refine iff_of_false (fun ⟨e, he⟩ => nomatch he) fun hall => ?_
      exact Bool.false_ne_true ((hnone hall aip hmem).symm.trans hreaches)

/-- Without a connection, there must not be any acceptable address. -/
theorem result_iff_of_none {res : AddrInfo} {ai_next : List AddrInfo} {e : NetThrown}
    {after : Descriptors} (hhit : (res :: ai_next).find? (Reaches net res.ai_addr) = none) :
    ((∀ a, (res :: ai_next).find? (Acceptable net) = some a →
        ∃ fd' : Nat, (.error e : Except NetThrown Int) = .ok (fd' : Int) ∧
          ∃ kind, after.slot fd' = some (.socket kind (some a.ai_addr))) ∧
      ((∃ e', (.error e : Except NetThrown Int) = .error e') ↔
        ∀ a ∈ res :: ai_next, Acceptable net a = false)) ↔
    HeadWanted net (res :: ai_next) := by
  have hmiss : ∀ a ∈ res :: ai_next, Reaches net res.ai_addr a = false :=
    fun a ha => Bool.eq_false_iff.2 (List.find?_eq_none.1 hhit a ha)
  constructor
  · rintro ⟨hfirst, _⟩ res' hres'
    cases hres'
    refine ⟨fun a ha => ?_, fun _ => hmiss⟩
    rcases hfirst a ha with ⟨fd', hfd', _⟩
    cases hfd'
  · intro hhead
    -- the address of `a` would be that of `res`, which is not reached
    have hnone : (res :: ai_next).find? (Acceptable net) = none := by
      cases ha : (res :: ai_next).find? (Acceptable net) with
      | none => rfl
      | some a =>
          have hacceptable : Acceptable net a = true := List.find?_some ha
          unfold Acceptable at hacceptable
          rw [(hhead res rfl).1 a ha, hmiss a (List.mem_of_find?_eq_some ha)] at hacceptable
          cases hacceptable
    constructor
    · intro a ha
      rw [hnone] at ha
      cases ha
    · exact iff_of_true ⟨e, rfl⟩ fun a ha =>
        Bool.eq_false_iff.2 (List.find?_eq_none.1 hnone a ha)

theorem connected_iff {addresses : List AddrInfo} {s : Socket} {before after : Descriptors}
    {result : Except NetThrown Int} :
    Connected net addresses s before result after ↔
      ((∀ aip, addresses.find? (Acceptable net) = some aip →
          ∃ fd : Nat, result = .ok fd ∧
            ∃ kind, after.slot fd = some (.socket kind (some aip.ai_addr))) ∧
        ((∃ e, result = .error e) ↔ ∀ aip ∈ addresses, Acceptable net aip = false)) ∧
      ∀ fd : Nat, result ≠ .ok fd →
        after.slot fd = if (fd : Int) = s.m_currentFd then none else before.slot fd :=
  ⟨fun h => ⟨⟨h.first, h.throws⟩, h.others⟩, fun h => ⟨h.1.1, h.1.2, h.2⟩⟩

/-- `connect` gives a connection to the first acceptable address, and leaves nothing else open, if
and only if no address but the first one of the list is wanted, descriptor 0 does not get lost and
the socket is not open yet. -/
theorem connect_correct_iff (net : Network) (s : Socket) (d : Descriptors)
    (addresses : List AddrInfo)
    (h : net.getaddrinfo (cStr s.m_hostname) (cStr s.m_service) s.hints = .ok addresses) :
    Connected net addresses s d (s.connect net d).1 (s.connect net d).2.2 ↔
      HeadWanted net addresses ∧ ZeroSafe net addresses d ∧ s.NotOpen d := by
  cases addresses with
  | nil =>
      have heq : s.connect net d =
          (.error (.thrown (.KError (str "connect() failed for " ++ s.m_hostname ++ str "."))),
            s, d) := by
        rw [Socket.connect, h]
        rfl
      rw [heq]
      constructor
      · intro hconnected
        refine ⟨fun _ hres => (nomatch hres), fun _ hres => (nomatch hres), fun fd hfd => ?_⟩
        have hslot := hconnected.others fd (fun heq => nomatch heq)
        rwa [if_pos hfd] at hslot
      · rintro ⟨_, _, hnotOpen⟩
        refine ⟨fun aip haip => (nomatch haip), ?_, fun fd _ => ?_⟩
        · exact iff_of_true ⟨_, rfl⟩ fun _ haip => absurd haip List.not_mem_nil
        · split_ifs with hfd
          · exact hnotOpen fd hfd
          · rfl
  | cons res ai_next =>
      rcases @Socket.connect_eq net d s res ai_next h with ⟨hsome, hnone⟩
      rw [connected_iff]
      -- every round connects to the address of the head, so that the first kind of socket that
      -- reaches this one address decides
      cases hhit : (res :: ai_next).find? (Reaches net res.ai_addr) with
      | some aip =>
          rcases hsome aip hhit with ⟨fd, hfree, hresult, hafter⟩
          have hslot := (kept net res.ai_addr (res :: ai_next) d).slot_set_self fd
            (some (.socket aip.toSocketKind (some res.ai_addr)))
          rw [hresult, hafter, result_iff_of_some hhit hslot, others_iff]
          · intro other heq
            cases heq
            exact hfree
          · intro other hne
            apply Descriptors.slot_set_of_ne
            rintro rfl
            exact hne rfl
      | none =>
          rcases hnone hhit with ⟨⟨e, hresult⟩, hafter⟩
          rw [hresult, hafter, result_iff_of_none hhit, others_iff]
          · exact fun other heq => nomatch heq
          · exact fun other _ => rfl

/-! ## Two addresses -/

/-- Standard input, output and error. -/
def standard : Descriptors where
  slot fd := if fd < 3 then some .other else none
  finite := ⟨3, fun _ hle => if_neg (not_lt.2 hle)⟩

def firstAddr : AddrInfo :=
  ⟨⟨AF_INET, SOCK_STREAM, 6⟩, [2, 0, 0, 22, 10, 0, 0, 1]⟩

def secondAddr : AddrInfo :=
  ⟨⟨AF_INET, SOCK_STREAM, 6⟩, [2, 0, 0, 22, 10, 0, 0, 2]⟩

/-- A name with two addresses, only one of which accepts connections. -/
def oneOfTwo (aip : AddrInfo) : Network where
  getaddrinfo _ _ _ := .ok [firstAddr, secondAddr]
  creates _ := true
  accepts _ addr := addr = aip.ai_addr

def toHost : Socket :=
  .new (str "host") (str "22") .ST_TCP .SF_ANY

theorem connect_correct_first :
    Connected (oneOfTwo firstAddr) [firstAddr, secondAddr] toHost standard
      (toHost.connect (oneOfTwo firstAddr) standard).1
      (toHost.connect (oneOfTwo firstAddr) standard).2.2 := by
  refine (connect_correct_iff _ toHost standard [firstAddr, secondAddr] rfl).2 ⟨?_, ?_, ?_⟩
  · intro res hres
    cases hres
    refine ⟨fun aip haip => ?_, fun hnone => ?_⟩
    · cases haip
      rfl
    · exact absurd (hnone firstAddr List.mem_cons_self) (by decide)
  · intro res hres aip haip hfree
    cases hfree
  · intro fd hfd
    cases hfd

/-- Both sockets are connected to the first address, which does not accept them. -/
theorem not_connected_second :
    ¬ Connected (oneOfTwo secondAddr) [firstAddr, secondAddr] toHost standard
      (toHost.connect (oneOfTwo secondAddr) standard).1
      (toHost.connect (oneOfTwo secondAddr) standard).2.2 := by
  intro hconnected
  have hmiss : [firstAddr, secondAddr].find? (Reaches (oneOfTwo secondAddr) firstAddr.ai_addr) =
      none := by decide
  have hresolved : (oneOfTwo secondAddr).getaddrinfo (cStr toHost.m_hostname)
      (cStr toHost.m_service) toHost.hints = .ok [firstAddr, secondAddr] := rfl
  rcases ((@Socket.connect_eq _ standard _ _ _ hresolved).2 hmiss).1 with ⟨e, he⟩
  rcases hconnected.first secondAddr (by decide) with ⟨fd, hfd, _⟩
  rw [he] at hfd
  cases hfd

end Route
end Kdump

import Kdump.Lib.ByteOrder
import Kdump.Lib.Loop
import Kdump.Route.Socket

/-!
# RtAttrs — the attributes behind a route

`NetLink::parseAttrs` walks over the attributes of a message.  `RTA_NEXT` takes the length of an
attribute with its padding off what remains, which is a `size_t`; but `RTA_OK` has compared the
length without the padding.

* `parseAttrs` — the loop, over the bytes of the payload;
* `attributes` — the attributes that are stepped over;
* `pass_ok` and `pass_last` — what one pass makes of the rest of the payload;
* `safe_iff` — when all that is read lies in the payload.
-/

namespace Kdump
namespace Route

open Lib

/-! ## The loop -/

def RTA_PREFSRC : UInt16 := 7

def EAI_FAMILY : Int := -6

/-- `struct rtattr`. -/
structure Rtattr where
  rta_len : UInt16
  rta_type : UInt16

/-- `sizeof(struct rtattr)`, which is `RTA_LENGTH(0)`, too. -/
def sizeofRtattr : Nat := 4

/-- `RTA_ALIGN`, computed as an `unsigned int`. -/
def RTA_ALIGN (len : UInt16) : UInt32 :=
  (len.toUInt32 + 3) &&& ~~~3

/-- `RTA_PAYLOAD`, behind `RTA_OK`. -/
def RTA_PAYLOAD (rta : Rtattr) : Nat :=
  rta.rta_len.toNat - sizeofRtattr

section

variable (order : ByteOrder)

def rta_len (r : Str) : UInt16 :=
  UInt16.ofNat (order.value (r.take 2))

def rta_type (r : Str) : UInt16 :=
  UInt16.ofNat (order.value ((r.drop 2).take 2))

/-- The header at the beginning of `r`. -/
def rtattr (r : Str) : Option Rtattr :=
  if sizeofRtattr ≤ r.length then some ⟨rta_len order r, rta_type order r⟩ else none

/-- The attributes of a message. -/
structure Payload where
  bytes : Str
  size : bytes.length < 2 ^ 64

def Payload.len (p : Payload) : UInt64 :=
  UInt64.ofNat p.bytes.length

/-- The system, and the family that `checkRoute` has found in the message. -/
structure NetLink where
  /-- the value that `getnameinfo()` returns for an address, and the text that it writes -/
  getnameinfo : (family : Int) → (addr : Str) → Int × Str
  m_family : Int

/-- The variables of the loop.  `rta` is counted from the beginning of the payload. -/
structure Parsing where
  rta : Nat
  len : UInt64
  m_prefsrc : Str

/-- `RTA_OK`, once the header has been read. -/
def RTA_OK (rta : Rtattr) (len : UInt64) : Prop :=
  sizeofRtattr ≤ rta.rta_len.toNat ∧ rta.rta_len.toNat ≤ len.toNat

instance (rta : Rtattr) (len : UInt64) : Decidable (RTA_OK rta len) :=
  inferInstanceAs (Decidable (_ ∧ _))

variable (nl : NetLink)

/-- The attribute is as large as an address of the family of the message. -/
def HasAddress (family : Int) (size : Nat) (rta : Rtattr) : Prop :=
  nl.m_family = family ∧ RTA_PAYLOAD rta = size

instance (family : Int) (size : Nat) (rta : Rtattr) : Decidable (HasAddress nl family size rta) :=
  inferInstanceAs (Decidable (_ ∧ _))

/-- `getnameinfo()` for an address of so many bytes. -/
def nameOf (family : Int) (size : Nat) (data : Str) : Except NetThrown (Int × Str) :=
  if size ≤ data.length then
    .ok (nl.getnameinfo family (data.take size))
  else
    .error (.thrown .undefined)

/-- The branch for `RTA_PREFSRC`, and `m_prefsrc` behind it. -/
def parsePrefsrc (rta : Rtattr) (data m_prefsrc : Str) : Except NetThrown Str := do
  let (res, m_prefsrc) ←
    if HasAddress nl AF_INET 4 rta then nameOf nl AF_INET 4 data
    else if HasAddress nl AF_INET6 16 rta then nameOf nl AF_INET6 16 data
    else .ok (EAI_FAMILY, m_prefsrc)
  if res ≠ 0 then
    .error (.KGaiError (str "Cannot parse preferred source address") res)
  else
    .ok m_prefsrc

/-- The body of the loop in front of `RTA_NEXT`. -/
def parseAttr (rta : Rtattr) (data m_prefsrc : Str) : Except NetThrown Str :=
  if rta.rta_type = RTA_PREFSRC then parsePrefsrc nl rta data m_prefsrc else .ok m_prefsrc

/-- What comes behind the loop. -/
def finish (s : Parsing) : Except NetThrown (Int × Str) :=
  if s.len ≠ 0 then
    .error (.thrown (.KError (str "Netlink rtattr truncated")))
  else
    .ok (0, s.m_prefsrc)

variable (p : Payload)

/-- One pass. -/
def attrPass (s : Parsing) : Lib.Step Parsing (Except NetThrown (Int × Str)) :=
  if sizeofRtattr ≤ s.len.toNat then
    match rtattr order (p.bytes.drop s.rta) with
    | none => .done (.error (.thrown .undefined))
    | some rta =>
        if RTA_OK rta s.len then
          match parseAttr nl rta (p.bytes.drop (s.rta + sizeofRtattr)) s.m_prefsrc with
          | .error e => .done (.error e)
          | .ok m_prefsrc =>
              .next ⟨s.rta + (RTA_ALIGN rta.rta_len).toNat,
                s.len - (RTA_ALIGN rta.rta_len).toUInt64, m_prefsrc⟩
        else
          .done (finish s)
  else
    .done (finish s)

end

theorem toNat_RTA_ALIGN (len : UInt16) : (RTA_ALIGN len).toNat = (len.toNat + 3) / 4 * 4 := by
  have hlt : len.toNat < 2 ^ 16 := len.toNat_lt
  have hlen : len.toUInt32.toNat = len.toNat := UInt16.toNat_toUInt32 len
  rw [RTA_ALIGN, toNat_roundUp (by omega), hlen]

theorem attrPass_rest_lt {order : ByteOrder} {nl : NetLink} {p : Payload} {s s' : Parsing}
    (h : attrPass order nl p s = .next s') :
    p.bytes.length - s'.rta < p.bytes.length - s.rta := by
  unfold attrPass at h
  split_ifs at h with hlen
  cases hrta : rtattr order (p.bytes.drop s.rta) with
  | none =>
      rw [hrta] at h
      cases h
  | some rta =>
      simp only [hrta] at h
      split_ifs at h with hok
      cases hparse : parseAttr nl rta (p.bytes.drop (s.rta + sizeofRtattr)) s.m_prefsrc with
      | error e =>
          rw [hparse] at h
          cases h
      | ok m_prefsrc =>
          rw [hparse] at h
          cases h
          have hheader : sizeofRtattr ≤ (p.bytes.drop s.rta).length := by
            by_contra hshort
            rw [rtattr, if_neg hshort] at hrta
            cases hrta
          have hfirst := hok.1
          unfold sizeofRtattr at hheader hfirst
          rw [List.length_drop] at hheader
          dsimp only
          rw [toNat_RTA_ALIGN]
          omega

def attrLoop (order : ByteOrder) (nl : NetLink) (p : Payload) :
    Loop Parsing (Except NetThrown (Int × Str)) where
  step := attrPass order nl p
  measure s := p.bytes.length - s.rta
  decreases := attrPass_rest_lt

/-- `NetLink::parseAttrs`, with `m_prefsrc` at the end. -/
def parseAttrs (order : ByteOrder) (nl : NetLink) (p : Payload) (m_prefsrc : Str) :
    Except NetThrown (Int × Str) :=
  (attrLoop order nl p).eval ⟨0, p.len, m_prefsrc⟩

/-! ## What is read -/

section

variable (order : ByteOrder) (nl : NetLink) (p : Payload)

/-- How many bytes behind its header are read of an attribute. -/
def dataRead (rta : Rtattr) : Nat :=
  if rta.rta_type = RTA_PREFSRC then
    if HasAddress nl AF_INET 4 rta then 4 else if HasAddress nl AF_INET6 16 rta then 16 else 0
  else
    0

/-- The bytes that one pass reads: the header, and the address if there is one. -/
def attrReads (s : Parsing) : List Nat :=
  if s.len.toNat < sizeofRtattr then
    []
  else
    (List.range sizeofRtattr).map (s.rta + ·) ++
      match rtattr order (p.bytes.drop s.rta) with
      | none => []
      | some rta =>
          if RTA_OK rta s.len then
            (List.range (dataRead nl rta)).map (s.rta + sizeofRtattr + ·)
          else
            []

/-- A byte is read by some pass.  A pass that has read outside of the payload is the last one, since
what it has found there is not known. -/
def AttrRead (m_prefsrc : Str) (k : Nat) : Prop :=
  ∃ s, (attrLoop order nl p).Reach ⟨0, p.len, m_prefsrc⟩ s ∧ k ∈ attrReads order nl p s

/-! ## The attributes of a payload -/

/-- An attribute that `RTA_OK` accepts, at the beginning of the rest `r` of a payload. -/
def Accepted (r : Str) : Prop :=
  sizeofRtattr ≤ r.length ∧ sizeofRtattr ≤ (rta_len order r).toNat ∧
    (rta_len order r).toNat ≤ r.length

instance (r : Str) : Decidable (Accepted order r) :=
  inferInstanceAs (Decidable (_ ∧ _))

/-- What becomes of it. -/
def parsed (r m_prefsrc : Str) : Except NetThrown Str :=
  parseAttr nl ⟨rta_len order r, rta_type order r⟩ (r.drop sizeofRtattr) m_prefsrc

/-- How far the next attribute is away. -/
def attrSize (r : Str) : Nat :=
  (RTA_ALIGN (rta_len order r)).toNat

/-- The rest of the payload from each attribute on that is stepped over.  There are at most `n` of
them in `n` bytes. -/
def attributesIn : (n : Nat) → (r m_prefsrc : Str) → List Str
  | 0, _, _ => []
  | n + 1, r, m_prefsrc =>
      if Accepted order r then
        match parsed order nl r m_prefsrc with
        | .error _ => []
        | .ok m_prefsrc => r :: attributesIn n (r.drop (attrSize order r)) m_prefsrc
      else
        []

def attributes (m_prefsrc : Str) : List Str :=
  attributesIn order nl p.bytes.length p.bytes m_prefsrc

end

/-! ## One pass -/

variable {order : ByteOrder} {nl : NetLink} {p : Payload} {s : Parsing}

/-- The rest of the payload is what the variables say. -/
structure AtRest (p : Payload) (s : Parsing) (r : Str) : Prop where
  rest : p.bytes.drop s.rta = r
  len : s.len.toNat = r.length
  inside : s.rta ≤ p.bytes.length

theorem AtRest.length {r : Str} (h : AtRest p s r) : s.rta + r.length = p.bytes.length := by
  have hdrop : (p.bytes.drop s.rta).length = p.bytes.length - s.rta := List.length_drop
  have hinside := h.inside
  rw [h.rest] at hdrop
  omega

theorem RTA_OK_iff {r : Str} (h : AtRest p s r) (hr : sizeofRtattr ≤ r.length) :
    RTA_OK ⟨rta_len order r, rta_type order r⟩ s.len ↔ Accepted order r := by
  unfold RTA_OK Accepted
  rw [h.len]
  exact (and_iff_right hr).symm

/-- An attribute that is not accepted ends the loop. -/
theorem attrPass_last {r : Str} (h : AtRest p s r) (hrefused : ¬ Accepted order r) :
    attrPass order nl p s = .done (finish s) := by
  unfold attrPass
  rw [h.len, h.rest]
  by_cases hr : sizeofRtattr ≤ r.length
  · rw [if_pos hr, rtattr, if_pos hr]
    exact if_neg fun hok => hrefused ((RTA_OK_iff h hr).1 hok)
  · rw [if_neg hr]

theorem attrPass_accepted {r : Str} (h : AtRest p s r) (haccepted : Accepted order r) :
    attrPass order nl p s =
      match parsed order nl r s.m_prefsrc with
      | .error e => .done (.error e)
      | .ok m_prefsrc =>
          .next ⟨s.rta + attrSize order r, s.len - (RTA_ALIGN (rta_len order r)).toUInt64,
            m_prefsrc⟩ := by
  have hdata : p.bytes.drop (s.rta + sizeofRtattr) = r.drop sizeofRtattr := by
    rw [← h.rest, List.drop_drop]
  unfold attrPass
  rw [h.len, if_pos haccepted.1, h.rest, rtattr, if_pos haccepted.1, hdata]
  exact if_pos ((RTA_OK_iff h haccepted.1).2 haccepted)

/-- What an accepted attribute holds is not longer than the attribute. -/
theorem dataRead_le (nl : NetLink) (rta : Rtattr) : dataRead nl rta ≤ RTA_PAYLOAD rta := by
  unfold dataRead
  split_ifs with _ hinet hinet6
  · exact hinet.2.ge
  · exact hinet6.2.ge
  · exact Nat.zero_le _
  · exact Nat.zero_le _

/-- As long as the rest is what the variables say, nothing else is read. -/
theorem attrReads_inside {r : Str} (h : AtRest p s r) :
    ∀ k ∈ attrReads order nl p s, k < p.bytes.length := by
  have hlength := h.length
  unfold attrReads
  rw [h.len, h.rest]
  by_cases hr : r.length < sizeofRtattr
  · rw [if_pos hr]
    exact fun k hk => absurd hk List.not_mem_nil
  · have hheader : sizeofRtattr ≤ r.length := not_lt.1 hr
    rw [if_neg hr, rtattr, if_pos hheader]
    simp only [List.forall_mem_append, List.forall_mem_map, List.mem_range]
    constructor
    · intro i hi
      omega
    · split_ifs with hok
      · have haccepted := (RTA_OK_iff h hheader).1 hok
        have hdata := dataRead_le nl ⟨rta_len order r, rta_type order r⟩
        have hlen := haccepted.2.2
        unfold RTA_PAYLOAD at hdata
        simp only [List.forall_mem_map, List.mem_range]
        intro i hi
        dsimp only at hdata
        omega
      · exact fun k hk => absurd hk List.not_mem_nil

theorem rta_len_le_attrSize (r : Str) : (rta_len order r).toNat ≤ attrSize order r := by
  rw [attrSize, toNat_RTA_ALIGN]
  omega

/-- Behind an attribute that fits with its padding. -/
theorem AtRest.next {r m_prefsrc : Str} (h : AtRest p s r) (hfits : attrSize order r ≤ r.length) :
    AtRest p ⟨s.rta + attrSize order r, s.len - (RTA_ALIGN (rta_len order r)).toUInt64, m_prefsrc⟩
      (r.drop (attrSize order r)) where
  rest := by
    rw [← h.rest, List.drop_drop]
  len := by
    have halign : (RTA_ALIGN (rta_len order r)).toUInt64.toNat = attrSize order r :=
      UInt32.toNat_toUInt64 _
    have hle : (RTA_ALIGN (rta_len order r)).toUInt64 ≤ s.len := by
      rw [UInt64.le_iff_toNat_le, halign, h.len]
      exact hfits
    rw [UInt64.toNat_sub_of_le _ _ hle, halign, h.len, List.length_drop]
  inside := by
    have hlength := h.length
    dsimp only
    omega

/-- Behind one whose padding is missing, a header is read that is not there. -/
theorem attrReads_overshoot {r m_prefsrc : Str} (h : AtRest p s r) (haccepted : Accepted order r)
    (hlong : r.length < attrSize order r) :
    ¬ ∀ k ∈ attrReads order nl p
        ⟨s.rta + attrSize order r, s.len - (RTA_ALIGN (rta_len order r)).toUInt64, m_prefsrc⟩,
      k < p.bytes.length := by
  have hlength := h.length
  have halign : (RTA_ALIGN (rta_len order r)).toUInt64.toNat = attrSize order r :=
    UInt32.toNat_toUInt64 _
  have hpadding : attrSize order r < (rta_len order r).toNat + 4 := by
    rw [attrSize, toNat_RTA_ALIGN]
    omega
  -- the remaining length has become almost 2 ^ 64
  have hlen : ¬ (s.len - (RTA_ALIGN (rta_len order r)).toUInt64).toNat < sizeofRtattr := by
    have hrefused := haccepted.2.2
    have hsize := p.size
    rw [UInt64.toNat_sub, halign, h.len]
    unfold sizeofRtattr
    omega
  intro hinside
  have hmem : s.rta + attrSize order r ∈ attrReads order nl p
      ⟨s.rta + attrSize order r, s.len - (RTA_ALIGN (rta_len order r)).toUInt64, m_prefsrc⟩ := by
    unfold attrReads
    rw [if_neg hlen]
    apply List.mem_append_left
    exact List.mem_map.2 ⟨0, List.mem_range.2 (by decide), rfl⟩
  have hlt := hinside _ hmem
  omega

/-! ## The whole loop -/

/-- From any place in the payload on. -/
theorem inside_attributes (n : Nat) : ∀ (s : Parsing) (r : Str), AtRest p s r → r.length ≤ n →
    ((attrLoop order nl p).Always
        (fun t => ∀ k ∈ attrReads order nl p t, k < p.bytes.length) s ↔
      ∀ r' ∈ attributesIn order nl n r s.m_prefsrc, attrSize order r' ≤ r'.length) := by
  induction n with
  | zero =>
      intro s r h hn
      have hrefused : ¬ Accepted order r := by
        intro haccepted
        have hheader := haccepted.1
        unfold sizeofRtattr at hheader
        omega
      have hpass := @attrPass_last order nl p s r h hrefused
      rw [Loop.always_done hpass, attributesIn]
      exact iff_of_true (attrReads_inside h) fun _ hr' => absurd hr' List.not_mem_nil
  | succ n ih =>
      intro s r h hn
      rw [attributesIn]
      by_cases haccepted : Accepted order r
      · have hpass := @attrPass_accepted order nl p s r h haccepted
        rw [if_pos haccepted]
        cases hparsed : parsed order nl r s.m_prefsrc with
        | error e =>
            rw [hparsed] at hpass
            rw [Loop.always_done hpass]
            exact iff_of_true (attrReads_inside h) fun _ hr' => absurd hr' List.not_mem_nil
        | ok m_prefsrc =>
            rw [hparsed] at hpass
            dsimp only
            rw [Loop.always_next hpass, and_iff_right (attrReads_inside h), List.forall_mem_cons]
            -- an attribute that is longer than what is left makes the next pass start behind the
            -- payload
            by_cases hfits : attrSize order r ≤ r.length
            · have hrest : (r.drop (attrSize order r)).length ≤ n := by
                have hsize := haccepted.2.1.trans (rta_len_le_attrSize r)
                unfold sizeofRtattr at hsize
                rw [List.length_drop]
                omega
              rw [ih _ _ (h.next hfits) hrest]
              exact (and_iff_right hfits).symm
            · refine iff_of_false (fun halways => ?_) fun hall => hfits hall.1
              exact attrReads_overshoot h haccepted (not_le.1 hfits)
                (halways _ (Loop.Reach.refl _))
      · have hpass := @attrPass_last order nl p s r h haccepted
        rw [Loop.always_done hpass, if_neg haccepted]
        exact iff_of_true (attrReads_inside h) fun _ hr' => absurd hr' List.not_mem_nil

theorem nameOf_undefined {family : Int} {size : Nat} {data : Str} {e : NetThrown}
    (h : nameOf nl family size data = .error e) : data.length < size := by
  by_contra hsize
  rw [nameOf, if_pos (not_lt.1 hsize)] at h
  cases h

theorem parseAttr_undefined {rta : Rtattr} {data m_prefsrc : Str}
    (h : parseAttr nl rta data m_prefsrc = .error (.thrown .undefined)) :
    data.length < dataRead nl rta := by
  -- the error of `getnameinfo()` is another one
  have hres : ∀ x : Int × Str,
      (if x.1 ≠ 0 then
          .error (.KGaiError (str "Cannot parse preferred source address") x.1)
        else
          .ok x.2 : Except NetThrown Str) ≠ .error (.thrown .undefined) := by
    intro x
    split_ifs
    · exact fun heq => by cases heq
    · exact fun heq => by cases heq
  unfold parseAttr at h
  unfold dataRead
  split_ifs at h ⊢ with htype hinet hinet6
  · rw [parsePrefsrc, if_pos hinet] at h
    cases hname : nameOf nl AF_INET 4 data with
    | error e => exact nameOf_undefined hname
    | ok x =>
        rw [hname] at h
        exact absurd h (hres x)
  · rw [parsePrefsrc, if_neg hinet, if_pos hinet6] at h
    cases hname : nameOf nl AF_INET6 16 data with
    | error e => exact nameOf_undefined hname
    | ok x =>
        rw [hname] at h
        exact absurd h (hres x)
  · rw [parsePrefsrc, if_neg hinet, if_neg hinet6] at h
    exact absurd h (hres (EAI_FAMILY, m_prefsrc))

/-- The result is undefined only where something else has been read. -/
theorem attrReads_of_undefined (h : attrPass order nl p s = .done (.error (.thrown .undefined))) :
    ¬ ∀ k ∈ attrReads order nl p s, k < p.bytes.length := by
  have hfinish : finish s ≠ .error (.thrown .undefined) := by
    unfold finish
    split_ifs
    · exact fun heq => by cases heq
    · exact fun heq => by cases heq
  intro hinside
  unfold attrPass at h
  unfold attrReads at hinside
  split_ifs at h with hlen
  · rw [if_neg (not_lt.2 hlen), List.forall_mem_append] at hinside
    obtain ⟨hheader, hdata⟩ := hinside
    simp only [List.forall_mem_map, List.mem_range] at hheader
    -- the header has been read, so that only the data can be what is not known
    have hlast := hheader 3 (by decide)
    have hlong : sizeofRtattr ≤ (p.bytes.drop s.rta).length := by
      rw [List.length_drop]
      unfold sizeofRtattr
      omega
    rw [rtattr, if_pos hlong] at h hdata
    dsimp only at h hdata
    split_ifs at h with hok
    · rw [if_pos hok] at hdata
      simp only [List.forall_mem_map, List.mem_range] at hdata
      cases hparse : parseAttr nl ⟨rta_len order (p.bytes.drop s.rta),
          rta_type order (p.bytes.drop s.rta)⟩ (p.bytes.drop (s.rta + sizeofRtattr))
          s.m_prefsrc with
      | error e =>
          rw [hparse] at h
          cases h
          have hshort := parseAttr_undefined hparse
          have hlastByte := hdata _ (Nat.sub_lt (Nat.zero_lt_of_lt hshort) Nat.one_pos)
          rw [List.length_drop] at hshort
          omega
      | ok m_prefsrc =>
          rw [hparse] at h
          cases h
    · exact hfinish (Lib.Step.done.inj h)
  · exact hfinish (Lib.Step.done.inj h)

theorem atRest_start (p : Payload) (m_prefsrc : Str) :
    AtRest p ⟨0, p.len, m_prefsrc⟩ p.bytes where
  rest := rfl
  len := UInt64.toNat_ofNat_of_lt' p.size
  inside := Nat.zero_le _

/-- Whatever the payload is, the loop comes to an end.  All that is read lies in the payload, and
the end is a result or an exception, if and only if no attribute that is stepped over lacks its
padding. -/
theorem safe_iff (order : ByteOrder) (nl : NetLink) (p : Payload) (m_prefsrc : Str) :
    ((∃ s, (attrLoop order nl p).Reach ⟨0, p.len, m_prefsrc⟩ s ∧
        attrPass order nl p s = .done (parseAttrs order nl p m_prefsrc)) ∧
      parseAttrs order nl p m_prefsrc ≠ .error (.thrown .undefined) ∧
      ∀ k, AttrRead order nl p m_prefsrc k → k < p.bytes.length) ↔
    ∀ r ∈ attributes order nl p m_prefsrc, attrSize order r ≤ r.length := by
  have hends : ∃ s, (attrLoop order nl p).Reach ⟨0, p.len, m_prefsrc⟩ s ∧
      attrPass order nl p s = .done (parseAttrs order nl p m_prefsrc) :=
    (attrLoop order nl p).exists_last ⟨0, p.len, m_prefsrc⟩
  have halways := @inside_attributes order nl p p.bytes.length ⟨0, p.len, m_prefsrc⟩ p.bytes
    (atRest_start p m_prefsrc) (Nat.le_refl _)
  rw [and_iff_right hends]
  refine Iff.trans ?_ halways
  constructor
  · rintro ⟨_, hread⟩ s hreach k hk
    exact hread k ⟨s, hreach, hk⟩
  · intro hinside
    constructor
    · intro hundefined
      rcases hends with ⟨s, hreach, hlast⟩
      exact attrReads_of_undefined (hlast.trans (congrArg Lib.Step.done hundefined))
        (hinside s hreach)
    · rintro k ⟨s, hreach, hk⟩
      exact hinside s hreach k hk

/-- An attribute of type `RTA_DST` whose length is 5, and no padding. -/
def unpadded : Payload :=
  ⟨[5, 0, 1, 0, 10], by decide⟩

def inet : NetLink where
  getnameinfo _ _ := (0, str "10.0.0.1")
  m_family := AF_INET

/-- The next header is looked for three bytes behind the end of the payload. -/
theorem read_behind_unpadded :
    ¬ ∀ k, AttrRead .little inet unpadded [] k → k < unpadded.bytes.length := by
  intro hread
  have hnext : attrPass .little inet unpadded ⟨0, unpadded.len, []⟩ =
      .next ⟨8, 18446744073709551613, []⟩ := by rfl
  have hmem : 8 ∈ attrReads .little inet unpadded ⟨8, 18446744073709551613, []⟩ := by decide
  have hlt := hread 8 ⟨_, (Loop.Reach.refl _).tail hnext, hmem⟩
  exact absurd hlt (by decide)

end Route
end Kdump

import Kdump.Lib.Wp
import Kdump.Global

/-!
# SFTPPacket — encoding and decoding of packets

A packet starts with its length, which `update()` fills in.  `unsigned long` has 64 bits.

* `bigEndian` and `ofBytes` — the bytes of an integer, and the integer that is read from bytes;
* `add..` — appending fields;
* `get..` — reading fields from the position `m_gpos`, with bounds checks except in `getString`.
-/

namespace Kdump
namespace Sftp

open Lib

/-! ## Integers -/

/-- The low `n` bytes of an integer, the highest first. -/
def bigEndian : Nat → UInt64 → ByteVector
  | 0, _ => []
  | n + 1, val => (val >>> UInt64.ofNat (8 * n)).toUInt8 :: bigEndian n val

/-- `ret <<= 8; ret |= b` for one byte after the other. -/
def ofBytes (ret : UInt64) (bytes : ByteVector) : UInt64 :=
  bytes.foldl (fun ret b => ret <<< 8 ||| b.toUInt64) ret

@[simp] theorem length_bigEndian (n : Nat) (val : UInt64) : (bigEndian n val).length = n := by
  induction n with
  | zero => rfl
  | succ n ih => rw [bigEndian, List.length_cons, ih]

theorem toNat_shift_or (ret : UInt64) (b : UInt8) :
    (ret <<< 8 ||| b.toUInt64).toNat = (ret.toNat * 256 + b.toNat) % 2 ^ 64 := by
  have hb : b.toNat < 2 ^ 8 := b.toNat_lt
  have hret : ret.toNat < 2 ^ 64 := ret.toNat_lt
  have hshift : (ret <<< 8).toNat = (ret.toNat % 2 ^ 56) <<< 8 := by
    have h8 : (8 : UInt64).toNat % 64 = 8 := rfl
    rw [UInt64.toNat_shiftLeft, h8, Nat.shiftLeft_eq, Nat.shiftLeft_eq]
    omega
  rw [UInt64.toNat_or, hshift, UInt8.toNat_toUInt64, ← Nat.shiftLeft_add_eq_or_of_lt hb,
    Nat.shiftLeft_eq]
  omega

theorem toNat_shiftRight_toUInt8 (val : UInt64) {n : Nat} (hn : n < 64) :
    (val >>> UInt64.ofNat n).toUInt8.toNat = val.toNat / 2 ^ n % 256 := by
  have hmod : (UInt64.ofNat n).toNat % 64 = n := by
    rw [UInt64.toNat_ofNat', Nat.mod_eq_of_lt (by omega : n < 2 ^ 64), Nat.mod_eq_of_lt hn]
  rw [UInt64.toNat_toUInt8, UInt64.toNat_shiftRight, hmod, Nat.shiftRight_eq_div_pow]

theorem ofBytes_append (ret : UInt64) (bytes : ByteVector) (b : UInt8) :
    ofBytes ret (bytes ++ [b]) = ofBytes ret bytes <<< 8 ||| b.toUInt64 := by
  simp only [ofBytes, List.foldl_append, List.foldl_cons, List.foldl_nil]

theorem toNat_ofBytes_lt (bytes : ByteVector) (h : bytes.length ≤ 8) :
    (ofBytes 0 bytes).toNat < 256 ^ bytes.length := by
  induction bytes using List.reverseRecOn with
  | nil => exact Nat.one_pos
  | append_singleton bytes b ih =>
      rw [List.length_append, List.length_singleton] at h ⊢
      have hlt := ih (by omega)
      have hb : b.toNat < 256 := b.toNat_lt
      calc (ofBytes 0 (bytes ++ [b])).toNat
          ≤ (ofBytes 0 bytes).toNat * 256 + b.toNat := by
            rw [ofBytes_append, toNat_shift_or]
            exact Nat.mod_le _ _
        _ < 256 ^ (bytes.length + 1) := by
            rw [pow_succ]
            omega

theorem toNat_ofBytes_append {bytes : ByteVector} (h : bytes.length < 8) (b : UInt8) :
    (ofBytes 0 (bytes ++ [b])).toNat = (ofBytes 0 bytes).toNat * 256 + b.toNat := by
  have hlt := toNat_ofBytes_lt bytes (by omega)
  have hpow : 256 ^ bytes.length ≤ 256 ^ 7 := Nat.pow_le_pow_right (by omega) (by omega)
  have hb : b.toNat < 256 := b.toNat_lt
  rw [ofBytes_append, toNat_shift_or]
  apply Nat.mod_eq_of_lt
  omega

theorem toNat_ofBytes_cons (b : UInt8) (bytes : ByteVector) (h : bytes.length < 8) :
    (ofBytes 0 (b :: bytes)).toNat =
      256 ^ bytes.length * b.toNat + (ofBytes 0 bytes).toNat := by
  induction bytes using List.reverseRecOn with
  | nil =>
      have hb : b.toNat < 256 := b.toNat_lt
      simp only [ofBytes, List.foldl_cons, List.foldl_nil, toNat_shift_or, UInt64.toNat_zero,
        List.length_nil]
      omega
  | append_singleton bytes c ih =>
      rw [List.length_append, List.length_singleton] at h
      have hcons : b :: (bytes ++ [c]) = (b :: bytes) ++ [c] := rfl
      have hlen : (b :: bytes).length < 8 := by
        rw [List.length_cons]
        omega
      rw [hcons, toNat_ofBytes_append hlen, ih (by omega), toNat_ofBytes_append (by omega),
        List.length_append, List.length_singleton, pow_succ]
      ring

/-- The high byte of the low `n + 1` ones. -/
theorem toNat_highByte (val : UInt64) {n : Nat} (hn : n < 8) :
    (val >>> UInt64.ofNat (8 * n)).toUInt8.toNat = val.toNat / 256 ^ n % 256 := by
  have hpow : 2 ^ (8 * n) = 256 ^ n := pow_mul 2 8 n
  rw [toNat_shiftRight_toUInt8 val (by omega), hpow]

/-- What is read from the bytes of an integer is the integer, as far as there are bytes for it. -/
theorem toNat_ofBytes_bigEndian (val : UInt64) :
    ∀ {n : Nat}, n ≤ 8 → (ofBytes 0 (bigEndian n val)).toNat = val.toNat % 256 ^ n := by
  intro n
  induction n with
  | zero =>
      intro _
      exact (Nat.mod_one _).symm
  | succ n ih =>
      intro hn
      rw [bigEndian, toNat_ofBytes_cons _ _ (by rw [length_bigEndian]; omega), length_bigEndian,
        ih (by omega), toNat_highByte val (by omega), Nat.mod_pow_succ, Nat.add_comm]

/-- Only the low bytes of an integer are written. -/
theorem bigEndian_congr {val val' : UInt64} :
    ∀ {n : Nat}, n ≤ 8 → val.toNat % 256 ^ n = val'.toNat % 256 ^ n →
      bigEndian n val = bigEndian n val' := by
  intro n
  induction n with
  | zero =>
      intro _ _
      rfl
  | succ n ih =>
      intro hn h
      rw [Nat.mod_pow_succ, Nat.mod_pow_succ] at h
      have hlt : val.toNat % 256 ^ n < 256 ^ n := Nat.mod_lt _ (by positivity)
      have hlt' : val'.toNat % 256 ^ n < 256 ^ n := Nat.mod_lt _ (by positivity)
      have hlow : val.toNat % 256 ^ n = val'.toNat % 256 ^ n := by
        have := congrArg (· % 256 ^ n) h
        simpa only [Nat.add_mul_mod_self_left, Nat.mod_mod] using this
      have hhigh : val.toNat / 256 ^ n % 256 = val'.toNat / 256 ^ n % 256 := by
        rw [hlow] at h
        exact Nat.eq_of_mul_eq_mul_left (by positivity) (Nat.add_left_cancel h)
      rw [bigEndian, bigEndian, ih (by omega) hlow]
      congr 1
      apply UInt8.toNat.inj
      rw [toNat_highByte val (by omega), toNat_highByte val' (by omega), hhigh]

/-- Up to eight bytes are the encoding of the integer that is read from them. -/
theorem bigEndian_ofBytes_eq :
    ∀ {bytes : ByteVector}, bytes.length ≤ 8 →
      bigEndian bytes.length (ofBytes 0 bytes) = bytes := by
  intro bytes
  induction bytes with
  | nil =>
      intro _
      rfl
  | cons b bytes ih =>
      intro h
      rw [List.length_cons] at h ⊢
      have hlt := toNat_ofBytes_lt bytes (by omega)
      have hval := toNat_ofBytes_cons b bytes (by omega)
      have hb : b.toNat < 256 := b.toNat_lt
      rw [bigEndian]
      congr 1
      · apply UInt8.toNat.inj
        rw [toNat_highByte _ (by omega), hval, Nat.mul_add_div (by positivity),
          Nat.div_eq_of_lt hlt, Nat.add_zero, Nat.mod_eq_of_lt hb]
      · have hlow : (ofBytes 0 (b :: bytes)).toNat % 256 ^ bytes.length =
            (ofBytes 0 bytes).toNat % 256 ^ bytes.length := by
          rw [hval, Nat.mul_add_mod]
        rw [bigEndian_congr (by omega) hlow, ih (by omega)]

/-- The bytes from which an integer is read back are its own. -/
theorem ofBytes_eq_iff {bytes : ByteVector} (hlen : bytes.length ≤ 8) {val : UInt64}
    (hval : val.toNat < 256 ^ bytes.length) :
    ofBytes 0 bytes = val ↔ bytes = bigEndian bytes.length val := by
  constructor
  · intro h
    rw [← h, bigEndian_ofBytes_eq hlen]
  · intro h
    apply UInt64.toNat.inj
    rw [h, toNat_ofBytes_bigEndian val hlen, Nat.mod_eq_of_lt hval]

/-! ## Packets -/

structure SFTPPacket where
  m_vector : ByteVector
  m_gpos : Nat
  deriving DecidableEq, Repr

namespace SFTPPacket

def empty : SFTPPacket :=
  ⟨List.replicate 4 0, 0⟩

def setData (val : ByteVector) : SFTPPacket :=
  ⟨val, 0⟩

def addByteVector (pkt : SFTPPacket) (val : ByteVector) : SFTPPacket :=
  { pkt with m_vector := pkt.m_vector ++ val }

def addByte (pkt : SFTPPacket) (val : UInt8) : SFTPPacket :=
  pkt.addByteVector [val]

def addInt32 (pkt : SFTPPacket) (val : UInt64) : SFTPPacket :=
  pkt.addByteVector (bigEndian 4 val)

def addInt64 (pkt : SFTPPacket) (val : UInt64) : SFTPPacket :=
  pkt.addByteVector (bigEndian 8 val)

def addString (pkt : SFTPPacket) (val : Str) : SFTPPacket :=
  (pkt.addInt32 (UInt64.ofNat val.length)).addByteVector val

/-- The length goes over the first four bytes. -/
def update (pkt : SFTPPacket) : ByteVector :=
  bigEndian 4 (UInt64.ofNat (pkt.m_vector.length - 4)) ++ pkt.m_vector.drop 4

/-- What is behind the length. -/
def payload (pkt : SFTPPacket) : ByteVector :=
  pkt.m_vector.drop 4

/-! ## Reading -/

abbrev Reader := EStateM Thrown SFTPPacket

/-- `m_vector.at(m_gpos++)`. -/
def getByte : Reader UInt8 := fun pkt =>
  match pkt.m_vector[pkt.m_gpos]? with
  | some b => .ok b { pkt with m_gpos := pkt.m_gpos + 1 }
  | none => .error .outOfRange { pkt with m_gpos := pkt.m_gpos + 1 }

def getInt : Nat → UInt64 → Reader UInt64
  | 0, ret => pure ret
  | n + 1, ret => do
      let b ← getByte
      getInt n (ret <<< 8 ||| b.toUInt64)

def getInt32 : Reader UInt64 :=
  getInt 4 0

def getInt64 : Reader UInt64 :=
  getInt 8 0

/-- The string is taken from `m_gpos` without a check, and `m_gpos` stays where it is. -/
def getString : Reader Str := do
  let len ← getInt32
  let pkt ← get
  if pkt.m_gpos + len.toNat ≤ pkt.m_vector.length then
    pure ((pkt.m_vector.drop pkt.m_gpos).take len.toNat)
  else
    throw .undefined

/-- The bytes that are still to be read. -/
def unread (pkt : SFTPPacket) : ByteVector :=
  pkt.m_vector.drop pkt.m_gpos

theorem getByte_ok {pkt pkt' : SFTPPacket} {b : UInt8} (h : getByte pkt = .ok b pkt') :
    pkt.unread = b :: pkt'.unread ∧ pkt'.m_vector = pkt.m_vector ∧
      pkt'.m_gpos = pkt.m_gpos + 1 := by
  unfold getByte at h
  split at h
  · rename_i b' hget
    cases h
    rcases List.getElem?_eq_some_iff.1 hget with ⟨hlt, hb⟩
    refine ⟨?_, rfl, rfl⟩
    unfold unread
    rw [List.drop_eq_getElem_cons hlt, hb]
  · cases h

theorem getInt_ok : ∀ {n : Nat} {ret val : UInt64} {pkt pkt' : SFTPPacket},
    getInt n ret pkt = .ok val pkt' →
      ∃ bytes, bytes.length = n ∧ val = ofBytes ret bytes ∧
        pkt.unread = bytes ++ pkt'.unread ∧ pkt'.m_vector = pkt.m_vector ∧
        pkt'.m_gpos = pkt.m_gpos + n := by
  intro n
  induction n with
  | zero =>
      intro ret val pkt pkt' h
      cases h
      exact ⟨[], rfl, rfl, rfl, rfl, rfl⟩
  | succ n ih =>
      intro ret val pkt pkt' h
      change EStateM.bind getByte _ pkt = _ at h
      unfold EStateM.bind at h
      cases hbyte : getByte pkt with
      | error e pkt₁ =>
          rw [hbyte] at h
          cases h
      | ok b pkt₁ =>
          rw [hbyte] at h
          rcases getByte_ok hbyte with ⟨hunread, hvec, hgpos⟩
          rcases ih h with ⟨bytes, hlen, hval, hunread', hvec', hgpos'⟩
          refine ⟨b :: bytes, by rw [List.length_cons, hlen], hval, ?_, hvec'.trans hvec, ?_⟩
          · rw [hunread, hunread', List.cons_append]
          · omega

/-- An integer that was read is there in its encoding. -/
theorem getInt32_ok {val : UInt64} {pkt pkt' : SFTPPacket} (h : getInt32 pkt = .ok val pkt') :
    pkt.unread = bigEndian 4 val ++ pkt'.unread ∧ pkt'.m_vector = pkt.m_vector ∧
      pkt'.m_gpos = pkt.m_gpos + 4 := by
  rcases getInt_ok h with ⟨bytes, hlen, hval, hunread, hvec, hgpos⟩
  have hbytes := @bigEndian_ofBytes_eq bytes (by omega)
  rw [hlen] at hbytes
  rw [hval, hbytes]
  exact ⟨hunread, hvec, hgpos⟩

end SFTPPacket

end Sftp
end Kdump

import Kdump.Sftp.SFTPPacket

/-!
# PacketFields — what is written into a packet and what is read from it

The getters share one position in the vector of bytes.  This file says what a getter does at every
position, and what follows for a list of fields and for a list of calls.

* `Getter` — the getters, with the number of bytes by which each moves the position;
* `Field` — the fields, with the bytes that the adders append for them;
* `encode`, `decode` — a packet that is written field by field, and read field by field;
* `readCalls` — calls of the getters on whatever bytes have come in.

`getString` leaves the position behind the length of the string, and it takes the length as it is.
-/

namespace Kdump
namespace Sftp

open Lib

/-! ## Positions -/

namespace SFTPPacket

/-- The packet with the position `n` bytes further on. -/
def advance (pkt : SFTPPacket) (n : Nat) : SFTPPacket :=
  { pkt with m_gpos := pkt.m_gpos + n }

variable (pkt : SFTPPacket)

@[simp] theorem advance_m_vector (n : Nat) : (pkt.advance n).m_vector = pkt.m_vector := rfl

@[simp] theorem advance_advance (m n : Nat) : (pkt.advance m).advance n = pkt.advance (m + n) := by
  simp only [advance, Nat.add_assoc]

@[simp] theorem unread_advance (n : Nat) : (pkt.advance n).unread = pkt.unread.drop n := by
  simp only [unread, advance, List.drop_drop]

@[simp] theorem unread_setData (vec : ByteVector) : (setData vec).unread = vec := rfl

theorem unread_infix : pkt.unread <:+: pkt.m_vector :=
  (List.drop_suffix _ _).isInfix

/-! ## What a getter does -/

theorem getByte_cons {b : UInt8} {rest : ByteVector} (h : pkt.unread = b :: rest) :
    getByte pkt = .ok b (pkt.advance 1) := by
  have hget : pkt.m_vector[pkt.m_gpos]? = some b := by
    rw [← List.head?_drop]
    exact congrArg List.head? h
  simp only [getByte, hget, advance]

theorem getByte_nil (h : pkt.unread = []) :
    getByte pkt = .error .outOfRange (pkt.advance 1) := by
  have hget : pkt.m_vector[pkt.m_gpos]? = none := by
    rw [← List.head?_drop]
    exact congrArg List.head? h
  simp only [getByte, hget, advance]

theorem getInt_inside : ∀ {n : Nat} {ret : UInt64} {pkt : SFTPPacket}, n ≤ pkt.unread.length →
    getInt n ret pkt = .ok (ofBytes ret (pkt.unread.take n)) (pkt.advance n) := by
  intro n
  induction n with
  | zero =>
      intro ret pkt _
      rfl
  | succ n ih =>
      intro ret pkt h
      cases hunread : pkt.unread with
      | nil =>
          rw [hunread] at h
          cases h
      | cons b rest =>
          have htail : (pkt.advance 1).unread = rest := by
            rw [unread_advance, hunread, List.drop_one, List.tail_cons]
          have hlen : n ≤ (pkt.advance 1).unread.length := by
            rw [htail]
            rw [hunread] at h
            exact Nat.le_of_succ_le_succ h
          -- this byte, and the ones behind it
          calc getInt (n + 1) ret pkt
              = getInt n (ret <<< 8 ||| b.toUInt64) (pkt.advance 1) :=
                bind_ok (getByte_cons pkt hunread)
            _ = _ := by
                rw [ih hlen, htail, advance_advance, Nat.add_comm 1 n]
                rfl

/-- The position is moved before it is checked. -/
theorem getInt_outside : ∀ {n : Nat} {ret : UInt64} {pkt : SFTPPacket}, pkt.unread.length < n →
    getInt n ret pkt = .error .outOfRange (pkt.advance (pkt.unread.length + 1)) := by
  intro n
  induction n with
  | zero =>
      intro ret pkt h
      cases h
  | succ n ih =>
      intro ret pkt h
      cases hunread : pkt.unread with
      | nil => exact bind_error (getByte_nil pkt hunread)
      | cons b rest =>
          have htail : (pkt.advance 1).unread = rest := by
            rw [unread_advance, hunread, List.drop_one, List.tail_cons]
          have hlen : (pkt.advance 1).unread.length < n := by
            rw [htail]
            rw [hunread] at h
            exact Nat.lt_of_succ_lt_succ h
          calc getInt (n + 1) ret pkt
              = getInt n (ret <<< 8 ||| b.toUInt64) (pkt.advance 1) :=
                bind_ok (getByte_cons pkt hunread)
            _ = _ := by
                rw [ih hlen, htail, advance_advance, List.length_cons, Nat.add_comm 1]

/-- The length that a string at the position would have. -/
def stringLength (unread : ByteVector) : Nat :=
  (ofBytes 0 (unread.take 4)).toNat

theorem length_unread : pkt.unread.length = pkt.m_vector.length - pkt.m_gpos :=
  List.length_drop

/-- A string whose length is there is taken from behind the length. -/
theorem getString_length (h : 4 ≤ pkt.unread.length) :
    getString pkt =
      if 4 + stringLength pkt.unread ≤ pkt.unread.length then
        .ok ((pkt.unread.drop 4).take (stringLength pkt.unread)) (pkt.advance 4)
      else
        .error .undefined (pkt.advance 4) := by
  have hlen := pkt.length_unread
  have hiff : pkt.m_gpos + 4 + stringLength pkt.unread ≤ pkt.m_vector.length ↔
      4 + stringLength pkt.unread ≤ pkt.unread.length := by
    omega
  have hdrop : pkt.m_vector.drop (pkt.m_gpos + 4) = pkt.unread.drop 4 := by
    rw [unread, List.drop_drop]
  calc getString pkt
      = (if pkt.m_gpos + 4 + stringLength pkt.unread ≤ pkt.m_vector.length then
          pure ((pkt.m_vector.drop (pkt.m_gpos + 4)).take (stringLength pkt.unread))
        else
          throw .undefined : Reader Str) (pkt.advance 4) :=
        bind_ok (getInt_inside h)
    _ = _ := by
        simp only [hiff, hdrop]
        split <;> rfl

theorem getString_outside (h : pkt.unread.length < 4) :
    getString pkt = .error .outOfRange (pkt.advance (pkt.unread.length + 1)) :=
  bind_error (getInt_outside h)

end SFTPPacket

/-! ## Getters -/

/-- What a getter returns. -/
inductive Value where
  | byte (val : UInt8)
  | number (val : UInt64)
  | string (val : Str)
  deriving DecidableEq, Repr

inductive Getter where
  | getByte
  | getInt32
  | getInt64
  | getString
  deriving DecidableEq, Repr

namespace Getter

def call : Getter → SFTPPacket.Reader Value
  | .getByte => Value.byte <$> SFTPPacket.getByte
  | .getInt32 => Value.number <$> SFTPPacket.getInt32
  | .getInt64 => Value.number <$> SFTPPacket.getInt64
  | .getString => Value.string <$> SFTPPacket.getString

/-- The bytes by which the position goes on in a call that returns. -/
def width : Getter → Nat
  | .getByte => 1
  | .getInt32 => 4
  | .getInt64 => 8
  | .getString => 4

/-- What the call makes of the bytes at the position, when there are as many as the width. -/
def read : Getter → ByteVector → Option Value
  | .getByte, unread => unread.head?.map .byte
  | .getInt32, unread => some (.number (ofBytes 0 (unread.take 4)))
  | .getInt64, unread => some (.number (ofBytes 0 (unread.take 8)))
  | .getString, unread =>
      if 4 + SFTPPacket.stringLength unread ≤ unread.length then
        some (.string ((unread.drop 4).take (SFTPPacket.stringLength unread)))
      else
        none

theorem call_inside (g : Getter) {pkt : SFTPPacket} (h : g.width ≤ pkt.unread.length) :
    g.call pkt =
      match g.read pkt.unread with
      | some v => .ok v (pkt.advance g.width)
      | none => .error .undefined (pkt.advance g.width) := by
  cases g with
  | getByte =>
      cases hunread : pkt.unread with
      | nil =>
          rw [hunread] at h
          cases h
      | cons b rest => exact map_ok (SFTPPacket.getByte_cons pkt hunread)
  | getInt32 => exact map_ok (SFTPPacket.getInt_inside h)
  | getInt64 => exact map_ok (SFTPPacket.getInt_inside h)
  | getString =>
      -- the length is there, but the string need not be
      have hrun := SFTPPacket.getString_length pkt h
      by_cases hfits : 4 + SFTPPacket.stringLength pkt.unread ≤ pkt.unread.length
      · rw [if_pos hfits] at hrun
        simp only [read, if_pos hfits]
        exact map_ok hrun
      · rw [if_neg hfits] at hrun
        simp only [read, if_neg hfits]
        exact map_error hrun

/-- The position goes behind the byte that is not there. -/
theorem call_outside (g : Getter) {pkt : SFTPPacket} (h : pkt.unread.length < g.width) :
    g.call pkt = .error .outOfRange (pkt.advance (pkt.unread.length + 1)) := by
  cases g with
  | getByte =>
      have hnil : pkt.unread = [] := List.eq_nil_of_length_eq_zero (Nat.lt_one_iff.1 h)
      rw [hnil]
      exact map_error (SFTPPacket.getByte_nil pkt hnil)
  | getInt32 => exact map_error (SFTPPacket.getInt_outside h)
  | getInt64 => exact map_error (SFTPPacket.getInt_outside h)
  | getString => exact map_error (SFTPPacket.getString_outside pkt h)

end Getter

/-! ## Fields -/

/-- What can be appended to a packet. -/
inductive Field where
  | byte (val : UInt8)
  | int32 (val : UInt32)
  | int64 (val : UInt64)
  | string (val : {val : Str // val.length < 2 ^ 32})

namespace Field

def add (pkt : SFTPPacket) : Field → SFTPPacket
  | .byte val => pkt.addByte val
  | .int32 val => pkt.addInt32 val.toUInt64
  | .int64 val => pkt.addInt64 val
  | .string val => pkt.addString val.1

/-- The getter that belongs to the adder. -/
def getter : Field → Getter
  | .byte _ => .getByte
  | .int32 _ => .getInt32
  | .int64 _ => .getInt64
  | .string _ => .getString

def value : Field → Value
  | .byte val => .byte val
  | .int32 val => .number val.toUInt64
  | .int64 val => .number val
  | .string val => .string val.1

/-- The bytes of a field. -/
def bytes : Field → ByteVector
  | .byte val => [val]
  | .int32 val => bigEndian 4 val.toUInt64
  | .int64 val => bigEndian 8 val
  | .string val => bigEndian 4 (UInt64.ofNat val.1.length) ++ val.1

theorem add_eq (pkt : SFTPPacket) (f : Field) : f.add pkt = pkt.addByteVector f.bytes := by
  cases f with
  | byte val => rfl
  | int32 val => rfl
  | int64 val => rfl
  | string val =>
      simp only [add, SFTPPacket.addString, SFTPPacket.addInt32, SFTPPacket.addByteVector, bytes,
        List.append_assoc]

end Field

/-- The bytes of all fields, one field behind the other. -/
def fieldBytes (fields : List Field) : ByteVector :=
  fields.flatMap Field.bytes

/-- How far the getters of these fields move the position: over the length of a string only. -/
def widths (fields : List Field) : Nat :=
  (fields.map fun f => f.getter.width).sum

def encode (fields : List Field) : ByteVector :=
  (fields.foldl Field.add SFTPPacket.empty).update

def readFields : List Getter → SFTPPacket.Reader (List Value)
  | [] => pure []
  | g :: gs => do
      let v ← g.call
      let vs ← readFields gs
      pure (v :: vs)

/-- The payload length, and the fields behind it. -/
def decode (getters : List Getter) : SFTPPacket.Reader (UInt64 × List Value) := do
  let len ← SFTPPacket.getInt32
  let vals ← readFields getters
  pure (len, vals)

/-! ## Writing and reading one field -/

theorem number_read_iff {n : Nat} (hn : n ≤ 8) {val : UInt64} (hval : val.toNat < 256 ^ n)
    {unread : ByteVector} (h : n ≤ unread.length) :
    ofBytes 0 (unread.take n) = val ↔ bigEndian n val <+: unread := by
  have hlen : (unread.take n).length = n := List.length_take_of_le h
  rw [ofBytes_eq_iff (by rw [hlen]; exact hn) (by rw [hlen]; exact hval), hlen, eq_comm,
    List.prefix_iff_eq_take, length_bigEndian]

theorem stringLength_eq_iff {n : Nat} (hn : n < 2 ^ 32) {unread : ByteVector}
    (h : 4 ≤ unread.length) :
    SFTPPacket.stringLength unread = n ↔ bigEndian 4 (UInt64.ofNat n) <+: unread := by
  have hval : (UInt64.ofNat n).toNat = n := by
    rw [UInt64.toNat_ofNat']
    exact Nat.mod_eq_of_lt (by omega)
  rw [← number_read_iff (by omega) (by rw [hval]; omega) h, SFTPPacket.stringLength,
    ← UInt64.toNat_inj, hval]

theorem string_read_iff {val : Str} (hval : val.length < 2 ^ 32) {unread : ByteVector}
    (h : 4 ≤ unread.length) :
    Getter.getString.read unread = some (.string val) ↔
      bigEndian 4 (UInt64.ofNat val.length) ++ val <+: unread := by
  simp only [Getter.read]
  constructor
  · intro hread
    split at hread
    · rename_i hfits
      cases hread
      have hlen : ((unread.drop 4).take (SFTPPacket.stringLength unread)).length =
          SFTPPacket.stringLength unread := by
        rw [List.length_take, List.length_drop]
        omega
      rw [hlen] at hval ⊢
      rcases (stringLength_eq_iff hval h).1 rfl with ⟨rest, hrest⟩
      have hdrop : unread.drop 4 = rest := by
        rw [← hrest, List.drop_left' (length_bigEndian _ _)]
      -- the length word is there, and the string is what follows it
      have hstarts : rest.take (SFTPPacket.stringLength unread) <+: rest := List.take_prefix _ _
      rw [hdrop]
      nth_rewrite 3 [← hrest]
      exact (List.prefix_append_right_inj _).2 hstarts
    · cases hread
  · intro hstarts
    have hlen : SFTPPacket.stringLength unread = val.length :=
      (stringLength_eq_iff hval h).2 ((List.prefix_append _ _).trans hstarts)
    rcases hstarts with ⟨rest, hrest⟩
    have hfits : 4 + val.length ≤ unread.length := by
      rw [← hrest, List.length_append, List.length_append, length_bigEndian]
      omega
    rw [hlen, if_pos hfits, ← hrest, List.append_assoc, List.drop_left' (length_bigEndian _ _),
      List.take_left]

/-- The bytes at the position are read as a field exactly if they start with the bytes of it. -/
theorem read_value_iff (f : Field) {unread : ByteVector} (h : f.getter.width ≤ unread.length) :
    f.getter.read unread = some f.value ↔ f.bytes <+: unread := by
  cases f with
  | byte val =>
      cases unread with
      | nil => cases h
      | cons b rest =>
          simp only [Field.getter, Getter.read, Field.value, Field.bytes, List.head?_cons,
            Option.map_some, Option.some.injEq, Value.byte.injEq, List.cons_prefix_cons,
            List.nil_prefix, and_true]
          exact eq_comm
  | int32 val =>
      have hval : val.toUInt64.toNat < 256 ^ 4 := by
        rw [UInt32.toNat_toUInt64]
        exact val.toNat_lt
      simp only [Field.getter, Getter.read, Field.value, Field.bytes, Option.some.injEq,
        Value.number.injEq]
      exact number_read_iff (by omega) hval h
  | int64 val =>
      simp only [Field.getter, Getter.read, Field.value, Field.bytes, Option.some.injEq,
        Value.number.injEq]
      exact number_read_iff (by omega) val.toNat_lt h
  | string val => exact string_read_iff val.2 h

theorem foldl_add (fields : List Field) (pkt : SFTPPacket) :
    fields.foldl Field.add pkt = pkt.addByteVector (fieldBytes fields) := by
  induction fields generalizing pkt with
  | nil => rw [List.foldl_nil, fieldBytes, List.flatMap_nil, SFTPPacket.addByteVector,
      List.append_nil]
  | cons f fields ih =>
      rw [List.foldl_cons, ih, Field.add_eq]
      simp only [SFTPPacket.addByteVector, fieldBytes, List.flatMap_cons, List.append_assoc]

theorem encode_eq (fields : List Field) :
    encode fields =
      bigEndian 4 (UInt64.ofNat (fieldBytes fields).length) ++ fieldBytes fields := by
  have hlen : (List.replicate 4 (0 : UInt8)).length = 4 := rfl
  simp only [encode, foldl_add, SFTPPacket.update, SFTPPacket.addByteVector, SFTPPacket.empty,
    List.length_append, hlen, Nat.add_sub_cancel_left, List.drop_left' hlen]

/-! ## Reading fields one after the other -/

theorem Getter.call_ok_iff {g : Getter} {pkt pkt' : SFTPPacket} {v : Value} :
    g.call pkt = .ok v pkt' ↔
      g.width ≤ pkt.unread.length ∧ g.read pkt.unread = some v ∧ pkt' = pkt.advance g.width := by
  by_cases h : g.width ≤ pkt.unread.length
  · rw [g.call_inside h]
    cases g.read pkt.unread with
    | none => simp only [reduceCtorEq, false_and, and_false]
    | some v' =>
        simp only [h, true_and, EStateM.Result.ok.injEq, Option.some.injEq]
        exact and_congr_right fun _ => eq_comm
  · rw [g.call_outside (Nat.lt_of_not_le h)]
    simp only [h, reduceCtorEq, false_and]

theorem Field.width_le_length (f : Field) : f.getter.width ≤ f.bytes.length := by
  cases f with
  | byte val => exact Nat.le_refl 1
  | int32 val => exact (length_bigEndian 4 _).ge
  | int64 val => exact (length_bigEndian 8 _).ge
  | string val =>
      rw [Field.bytes, List.length_append, length_bigEndian]
      exact Nat.le_add_right 4 _

/-- A getter returns its field exactly if the bytes of the field stand at the position. -/
theorem call_value_iff {f : Field} {pkt pkt' : SFTPPacket} :
    f.getter.call pkt = .ok f.value pkt' ↔
      f.bytes <+: pkt.unread ∧ pkt' = pkt.advance f.getter.width := by
  rw [Getter.call_ok_iff]
  constructor
  · rintro ⟨hwidth, hread, hpkt⟩
    exact ⟨(read_value_iff f hwidth).1 hread, hpkt⟩
  · rintro ⟨hstarts, hpkt⟩
    have hwidth := f.width_le_length.trans hstarts.length_le
    exact ⟨hwidth, (read_value_iff f hwidth).2 hstarts, hpkt⟩

/-- The bytes of each field stand where the getters of the fields before it leave the position. -/
def Stand (unread : ByteVector) (fields : List Field) : Prop :=
  ∀ before f after, fields = before ++ f :: after → f.bytes <+: unread.drop (widths before)

theorem widths_cons (f : Field) (fields : List Field) :
    widths (f :: fields) = f.getter.width + widths fields := by
  simp only [widths, List.map_cons, List.sum_cons]

theorem stand_nil (unread : ByteVector) : Stand unread [] := by
  intro before f after h
  cases before <;> cases h

theorem stand_cons {unread : ByteVector} {f : Field} {fields : List Field} :
    Stand unread (f :: fields) ↔
      f.bytes <+: unread ∧ Stand (unread.drop f.getter.width) fields := by
  constructor
  · intro h
    refine ⟨h [] f fields rfl, ?_⟩
    intro before f' after heq
    have hstarts := h (f :: before) f' after (by rw [heq, List.cons_append])
    rwa [widths_cons, ← List.drop_drop] at hstarts
  · rintro ⟨hf, hrest⟩ before f' after heq
    cases before with
    | nil =>
        cases heq
        exact hf
    | cons f₁ before =>
        cases heq
        rw [widths_cons, ← List.drop_drop]
        exact hrest before f' after rfl

theorem readFields_iff {fields : List Field} {pkt : SFTPPacket} :
    (∃ pkt', readFields (fields.map Field.getter) pkt = .ok (fields.map Field.value) pkt') ↔
      Stand pkt.unread fields := by
  induction fields generalizing pkt with
  | nil => exact ⟨fun _ => stand_nil _, fun _ => ⟨pkt, rfl⟩⟩
  | cons f fields ih =>
      rw [stand_cons, ← SFTPPacket.unread_advance, ← ih]
      constructor
      · rintro ⟨pkt', hrun⟩
        rcases bind_ok_iff.1 hrun with ⟨v, pkt₁, hcall, hrun⟩
        rcases bind_ok_iff.1 hrun with ⟨vs, pkt₂, hrest, hpure⟩
        cases hpure
        rcases call_value_iff.1 hcall with ⟨hstarts, rfl⟩
        exact ⟨hstarts, pkt', hrest⟩
      · rintro ⟨hstarts, pkt', hrest⟩
        exact ⟨pkt', bind_ok_iff.2 ⟨_, _, call_value_iff.2 ⟨hstarts, rfl⟩,
          bind_ok_iff.2 ⟨_, _, hrest, rfl⟩⟩⟩

/-- The payload length is read back if it fits into its four bytes. -/
theorem getInt32_encode (fields : List Field) :
    SFTPPacket.getInt32 (SFTPPacket.setData (encode fields)) =
      .ok (ofBytes 0 (bigEndian 4 (UInt64.ofNat (fieldBytes fields).length)))
        ((SFTPPacket.setData (encode fields)).advance 4) := by
  have hunread : (SFTPPacket.setData (encode fields)).unread = encode fields := rfl
  have htake : (encode fields).take 4 =
      bigEndian 4 (UInt64.ofNat (fieldBytes fields).length) := by
    rw [encode_eq, List.take_left' (length_bigEndian _ _)]
  have hlen : 4 ≤ (encode fields).length := by
    rw [encode_eq, List.length_append, length_bigEndian]
    exact Nat.le_add_right 4 _
  calc SFTPPacket.getInt32 (SFTPPacket.setData (encode fields))
      = _ := SFTPPacket.getInt_inside (hunread ▸ hlen)
    _ = _ := by rw [hunread, htake]

theorem toNat_length_word (len : Nat) :
    (ofBytes 0 (bigEndian 4 (UInt64.ofNat len))).toNat = len % 2 ^ 32 := by
  rw [toNat_ofBytes_bigEndian _ (by omega), UInt64.toNat_ofNat']
  exact Nat.mod_mod_of_dvd len ⟨2 ^ 32, rfl⟩

/-- Decoding undoes encoding exactly if the length of the payload fits into four bytes and the
bytes of each field also stand where the getters look for them.  The getters look too early by the
lengths of all the strings before. -/
theorem decode_encode_iff (fields : List Field) :
    (∃ len pkt, decode (fields.map Field.getter) (SFTPPacket.setData (encode fields)) =
        .ok (len, fields.map Field.value) pkt ∧ len.toNat = (fieldBytes fields).length) ↔
      (fieldBytes fields).length < 2 ^ 32 ∧ Stand (fieldBytes fields) fields := by
  have hunread : ((SFTPPacket.setData (encode fields)).advance 4).unread = fieldBytes fields := by
    rw [SFTPPacket.unread_advance, SFTPPacket.unread_setData, encode_eq,
      List.drop_left' (length_bigEndian _ _)]
  have hlt : (fieldBytes fields).length % 2 ^ 32 = (fieldBytes fields).length ↔
      (fieldBytes fields).length < 2 ^ 32 := by
    omega
  rw [← hlt, ← toNat_length_word, ← hunread, ← readFields_iff]
  constructor
  · rintro ⟨len, pkt, hrun, hlen⟩
    rcases bind_ok_iff.1 hrun with ⟨len', pkt₁, hint, hrun⟩
    rw [getInt32_encode] at hint
    cases hint
    rcases bind_ok_iff.1 hrun with ⟨vals, pkt₂, hvals, hpure⟩
    cases hpure
    exact ⟨hunread ▸ hlen, pkt, hvals⟩
  · rintro ⟨hlen, pkt, hvals⟩
    exact ⟨_, pkt, bind_ok_iff.2 ⟨_, _, getInt32_encode fields, bind_ok_iff.2 ⟨_, _, hvals, rfl⟩⟩,
      hunread ▸ hlen⟩

/-- The string `A` and the byte `B`: the getter of the byte returns the `A` again. -/
theorem decode_string_byte :
    ¬ ∃ len pkt, decode [.getString, .getByte]
        (SFTPPacket.setData (encode [.string ⟨str "A", by decide⟩, .byte 66])) =
          .ok (len, [.string (str "A"), .byte 66]) pkt ∧ len.toNat = 6 := by
  rintro ⟨len, pkt, hrun, _⟩
  have hrun' : decode [.getString, .getByte]
      (SFTPPacket.setData (encode [.string ⟨str "A", by decide⟩, .byte 66])) =
        .ok (6, [.string (str "A"), .byte 65]) ⟨[0, 0, 0, 6, 0, 0, 0, 1, 65, 66], 9⟩ := by
    rfl
  rw [hrun'] at hrun
  cases hrun

/-- No getter looks too early if only the last field may be a string with bytes. -/
theorem stand_of_empty {fields : List Field}
    (h : ∀ f ∈ fields.dropLast, f.bytes.length = f.getter.width) :
    Stand (fieldBytes fields) fields := by
  intro before f after heq
  have hmem : ∀ f' ∈ before, f' ∈ fields.dropLast := by
    intro f' hf'
    rw [heq, List.dropLast_append_cons]
    exact List.mem_append_left _ hf'
  have hwidths : widths before = (fieldBytes before).length := by
    rw [widths, fieldBytes, List.length_flatMap]
    exact congrArg List.sum (List.map_congr_left fun f' hf' => (h f' (hmem f' hf')).symm)
  rw [heq, fieldBytes, List.flatMap_append, List.flatMap_cons, hwidths, fieldBytes, List.drop_left]
  exact List.prefix_append _ _

/-! ## Calls on any bytes -/

/-- The value is made of bytes that lie inside the vector. -/
inductive Inside (vec : ByteVector) : Getter → Value → Prop
  | byte {b : UInt8} : [b] <:+: vec → Inside vec .getByte (.byte b)
  | int32 {bytes : ByteVector} : bytes.length = 4 → bytes <:+: vec →
      Inside vec .getInt32 (.number (ofBytes 0 bytes))
  | int64 {bytes : ByteVector} : bytes.length = 8 → bytes <:+: vec →
      Inside vec .getInt64 (.number (ofBytes 0 bytes))
  | string {val : Str} : val <:+: vec → Inside vec .getString (.string val)

/-- The call returns bytes of the vector, or it throws. -/
inductive Safe (vec : ByteVector) (g : Getter) : EStateM.Result Thrown SFTPPacket Value → Prop
  | returns {v : Value} {pkt : SFTPPacket} : Inside vec g v → Safe vec g (.ok v pkt)
  | throws {e : Thrown} {pkt : SFTPPacket} : e ≠ .undefined → Safe vec g (.error e pkt)

/-- One call after the other on the same packet. -/
def readCalls : List Getter → SFTPPacket → List (Getter × EStateM.Result Thrown SFTPPacket Value)
  | [], _ => []
  | g :: gs, pkt => (g, g.call pkt) :: readCalls gs (endState (g.call pkt))

/-- How far a getter moves the position when `left` bytes are left. -/
def Getter.moves (g : Getter) (left : Nat) : Nat :=
  min g.width (left + 1)

/-- Wherever `getString` finds the length of a string, it finds as many bytes behind it. -/
def StringsFit : ByteVector → List Getter → Prop
  | _, [] => True
  | unread, g :: gs =>
      (g = .getString → 4 ≤ unread.length → 4 + SFTPPacket.stringLength unread ≤ unread.length) ∧
        StringsFit (unread.drop (g.moves unread.length)) gs

theorem endState_call (g : Getter) (pkt : SFTPPacket) :
    endState (g.call pkt) = pkt.advance (g.moves pkt.unread.length) := by
  by_cases h : g.width ≤ pkt.unread.length
  · have hmoves : g.moves pkt.unread.length = g.width := min_eq_left (by omega)
    rw [g.call_inside h, hmoves]
    cases g.read pkt.unread <;> rfl
  · have hmoves : g.moves pkt.unread.length = pkt.unread.length + 1 := min_eq_right (by omega)
    rw [g.call_outside (Nat.lt_of_not_le h), hmoves]
    rfl

theorem Getter.inside_of_read {g : Getter} {unread : ByteVector} {v : Value}
    (hwidth : g.width ≤ unread.length) (h : g.read unread = some v) : Inside unread g v := by
  cases g with
  | getByte =>
      cases unread with
      | nil => cases h
      | cons b rest =>
          cases h
          exact .byte (List.prefix_append [b] rest).isInfix
  | getInt32 =>
      cases h
      exact .int32 (List.length_take_of_le hwidth) (List.take_prefix _ _).isInfix
  | getInt64 =>
      cases h
      exact .int64 (List.length_take_of_le hwidth) (List.take_prefix _ _).isInfix
  | getString =>
      simp only [Getter.read] at h
      split at h
      · cases h
        exact .string ((List.take_prefix _ _).isInfix.trans (List.drop_suffix _ _).isInfix)
      · cases h

theorem Inside.mono {vec vec' : ByteVector} {g : Getter} {v : Value} (h : Inside vec g v)
    (hvec : vec <:+: vec') : Inside vec' g v := by
  cases h with
  | byte h => exact .byte (h.trans hvec)
  | int32 hlen h => exact .int32 hlen (h.trans hvec)
  | int64 hlen h => exact .int64 hlen (h.trans hvec)
  | string h => exact .string (h.trans hvec)

/-- Only the length of a string is taken as it is. -/
theorem Getter.read_eq_none_iff {g : Getter} {unread : ByteVector}
    (hwidth : g.width ≤ unread.length) :
    g.read unread = none ↔
      g = .getString ∧ unread.length < 4 + SFTPPacket.stringLength unread := by
  cases g with
  | getByte =>
      cases unread with
      | nil => cases hwidth
      | cons b rest =>
          simp only [Getter.read, List.head?_cons, Option.map_some, reduceCtorEq, false_and]
  | getInt32 => simp only [Getter.read, reduceCtorEq, false_and]
  | getInt64 => simp only [Getter.read, reduceCtorEq, false_and]
  | getString => simp only [Getter.read, ite_eq_right_iff, reduceCtorEq, imp_false, true_and,
      Nat.not_le]

theorem safe_call_iff (g : Getter) (pkt : SFTPPacket) :
    Safe pkt.m_vector g (g.call pkt) ↔
      (g = .getString → 4 ≤ pkt.unread.length →
        4 + SFTPPacket.stringLength pkt.unread ≤ pkt.unread.length) := by
  by_cases hwidth : g.width ≤ pkt.unread.length
  · have hnone := Getter.read_eq_none_iff hwidth
    rw [g.call_inside hwidth]
    cases hread : g.read pkt.unread with
    | some v =>
        refine ⟨fun _ hg _ => ?_, fun _ => ?_⟩
        · apply Nat.le_of_not_lt
          intro hlt
          rw [hnone.2 ⟨hg, hlt⟩] at hread
          cases hread
        · exact .returns ((Getter.inside_of_read hwidth hread).mono pkt.unread_infix)
    | none =>
        -- the string goes beyond the vector
        rcases hnone.1 hread with ⟨hg, hlt⟩
        have hfour : 4 ≤ pkt.unread.length := by
          rw [hg] at hwidth
          exact hwidth
        constructor
        · intro hsafe
          cases hsafe with
          | throws hne => exact absurd rfl hne
        · intro hfits
          exact absurd (hfits hg hfour) (Nat.not_le_of_lt hlt)
  · rw [g.call_outside (Nat.lt_of_not_le hwidth)]
    -- there are too few bytes, and the check of the vector throws
    refine ⟨fun _ hg hfour => ?_, fun _ => .throws nofun⟩
    rw [hg] at hwidth
    exact absurd hfour hwidth

/-- All calls are safe exactly if every string that is read fits. -/
theorem safe_readCalls_iff (gs : List Getter) (pkt : SFTPPacket) :
    (∀ call ∈ readCalls gs pkt, Safe pkt.m_vector call.1 call.2) ↔ StringsFit pkt.unread gs := by
  induction gs generalizing pkt with
  | nil => exact ⟨fun _ => trivial, fun _ => List.forall_mem_nil _⟩
  | cons g gs ih =>
      have hnext := ih (pkt.advance (g.moves pkt.unread.length))
      rw [SFTPPacket.advance_m_vector, SFTPPacket.unread_advance] at hnext
      rw [readCalls, endState_call, List.forall_mem_cons, safe_call_iff, hnext, StringsFit]

/-- Whatever bytes have come in, the getters stay inside of them exactly if `getString` nowhere
finds a length that goes beyond the end. -/
theorem getters_safe_iff (vec : ByteVector) (gs : List Getter) :
    (∀ call ∈ readCalls gs (SFTPPacket.setData vec), Safe vec call.1 call.2) ↔
      StringsFit vec gs :=
  safe_readCalls_iff gs (SFTPPacket.setData vec)

/-- A length of five bytes with nothing behind it. -/
theorem getString_beyond :
    ¬ ∀ call ∈ readCalls [.getString] (SFTPPacket.setData [0, 0, 0, 5]),
      Safe [0, 0, 0, 5] call.1 call.2 := by
  intro hsafe
  have hcall := hsafe (.getString, .error .undefined ⟨[0, 0, 0, 5], 4⟩) (List.mem_singleton.2 rfl)
  cases hcall with
  | throws hne => exact hne rfl

end Sftp
end Kdump

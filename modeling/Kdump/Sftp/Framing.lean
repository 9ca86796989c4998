import Kdump.Sftp.PacketFields
import Kdump.Sftp.Exchange

/-!
# Framing — packets in a stream of bytes

A pipe is a stream of bytes, and neither `write()` nor `read()` respects the bounds of packets.

* `Splits` — the answers of `read()` that deliver a stream in whatever pieces;
* `readFully_splits`, `recvPieces_splits`, `recvPacket_splits` — the three loops, from the inside
  out: each takes its bytes from the front of the stream and leaves the rest of it;
* `Receives` — packets that come out of a stream one by one.
-/

namespace Kdump
namespace Sftp

open Lib Transfer

/-! ## Streams -/

/-- The answers of `read()` deliver these bytes, in pieces that are not empty. -/
inductive Splits : List ReadAnswer → ByteVector → Prop
  | nil : Splits [] []
  | cons {piece bytes : ByteVector} {incoming : List ReadAnswer} :
      piece ≠ [] → Splits incoming bytes → Splits (.ok piece :: incoming) (piece ++ bytes)

/-- A piece that reaches beyond the buffer. -/
theorem readFully_beyond {bytes left : ByteVector} (hbytes : bytes ≠ []) (hleft : left ≠ [])
    (incoming : List ReadAnswer) :
    readFully (.ok (bytes ++ left) :: incoming) bytes.length =
      (.ok bytes, .ok left :: incoming) := by
  cases bytes with
  | nil => exact absurd rfl hbytes
  | cons b bytes =>
      have hlt : bytes.length + 1 < (b :: bytes ++ left).length := by
        rw [List.length_append, List.length_cons]
        exact Nat.lt_add_of_pos_right (List.length_pos_iff.2 hleft)
      rw [List.length_cons, readFully, if_neg (List.append_ne_nil_of_left_ne_nil hbytes _),
        if_pos hlt, List.take_left' List.length_cons, List.drop_left' List.length_cons]

/-- A piece that the buffer takes as a whole. -/
theorem readFully_within {piece left : ByteVector} (hpiece : piece ≠ [])
    (incoming : List ReadAnswer) :
    readFully (.ok piece :: incoming) (piece ++ left).length =
      ((readFully incoming left.length).1.map (piece ++ ·),
        (readFully incoming left.length).2) := by
  cases piece with
  | nil => exact absurd rfl hpiece
  | cons b piece =>
      have hle : ¬ (piece ++ left).length + 1 < (b :: piece).length := by
        rw [List.length_append, List.length_cons]
        omega
      have hsub : (piece ++ left).length + 1 - (b :: piece).length = left.length := by
        rw [List.length_append, List.length_cons]
        omega
      rw [List.cons_append, List.length_cons, readFully, if_neg hpiece, if_neg hle, hsub]

/-- `recvBuffer` takes its bytes from the front of the stream. -/
theorem readFully_splits {incoming : List ReadAnswer} {bytes rest : ByteVector}
    (h : Splits incoming (bytes ++ rest)) :
    ∃ incoming', readFully incoming bytes.length = (.ok bytes, incoming') ∧
      Splits incoming' rest := by
  generalize hstream : bytes ++ rest = stream at h
  induction h generalizing bytes with
  | nil =>
      rcases List.append_eq_nil_iff.1 hstream with ⟨rfl, rfl⟩
      exact ⟨[], rfl, .nil⟩
  | @cons piece more incoming hpiece hmore ih =>
      -- the piece is taken as a whole, and the next one follows
      have hwithin : ∀ left, bytes = piece ++ left → left ++ rest = more →
          ∃ incoming', readFully (.ok piece :: incoming) bytes.length = (.ok bytes, incoming') ∧
            Splits incoming' rest := by
        rintro left rfl hmore
        rcases ih hmore with ⟨incoming', hread, hsplits⟩
        refine ⟨incoming', ?_, hsplits⟩
        rw [readFully_within hpiece, hread]
        rfl
      by_cases hbytes : bytes = []
      · subst hbytes
        refine ⟨.ok piece :: incoming, rfl, ?_⟩
        rw [List.nil_append] at hstream
        exact hstream ▸ .cons hpiece hmore
      · -- the piece goes beyond the bytes, ends with them, or is only a part of them
        rcases List.append_eq_append_iff.1 hstream with ⟨left, hleft, hrest⟩ | ⟨left, hleft, hrest⟩
        · by_cases hnil : left = []
          · subst hnil
            exact hwithin [] (by rw [hleft, List.append_nil, List.append_nil]) hrest
          · rw [hleft, hrest]
            exact ⟨.ok left :: incoming, readFully_beyond hbytes hnil incoming, .cons hnil hmore⟩
        · exact hwithin left hleft hrest.symm

theorem recvBuffer_splits {s : SFTPState} {bytes rest : ByteVector}
    (h : Splits s.incoming (bytes ++ rest)) :
    ∃ incoming, recvBuffer bytes.length s = .ok bytes { s with incoming := incoming } ∧
      Splits incoming rest := by
  rcases readFully_splits h with ⟨incoming, hread, hsplits⟩
  refine ⟨incoming, ?_, hsplits⟩
  calc recvBuffer bytes.length s
      = (do
          set { s with incoming := (readFully s.incoming bytes.length).2 }
          ofExcept (readFully s.incoming bytes.length).1 : SFTPProg ByteVector) s := rfl
    _ = _ := by
        rw [hread]
        rfl

/-! ## Packets -/

/-- The pieces of a buffer, until the packet is complete. -/
theorem recvPieces_splits : ∀ {passes : Nat} {bytes rest : ByteVector} (pkt : SFTPPacket)
    {s : SFTPState}, bytes.length ≤ passes → Splits s.incoming (bytes ++ rest) →
      ∃ incoming, recvPieces passes bytes.length pkt s =
        .ok (pkt.addByteVector bytes) { s with incoming := incoming } ∧ Splits incoming rest := by
  intro passes
  induction passes with
  | zero =>
      intro bytes rest pkt s hlen h
      rcases List.eq_nil_of_length_eq_zero (Nat.le_zero.1 hlen)
      refine ⟨s.incoming, ?_, h⟩
      rw [SFTPPacket.addByteVector, List.append_nil]
      rfl
  | succ passes ih =>
      intro bytes rest pkt s hlen h
      by_cases hnil : bytes = []
      · subst hnil
        refine ⟨s.incoming, ?_, h⟩
        rw [SFTPPacket.addByteVector, List.append_nil]
        rfl
      · have hpos : 0 < bytes.length := List.length_pos_iff.2 hnil
        have hsize : (bytes.take (min BUFSIZ bytes.length)).length = min BUFSIZ bytes.length :=
          List.length_take_of_le (min_le_right _ _)
        have hleft : (bytes.drop (min BUFSIZ bytes.length)).length =
            bytes.length - min BUFSIZ bytes.length := List.length_drop
        have hbuf : 0 < BUFSIZ := by decide
        -- this buffer, and the ones behind it
        have hsplit : Splits s.incoming (bytes.take (min BUFSIZ bytes.length) ++
            (bytes.drop (min BUFSIZ bytes.length) ++ rest)) := by
          rwa [← List.append_assoc, List.take_append_drop]
        rcases recvBuffer_splits hsplit with ⟨incoming₁, hbuffer, hsplit₁⟩
        rw [hsize] at hbuffer
        rcases ih (pkt.addByteVector (bytes.take (min BUFSIZ bytes.length)))
          (s := { s with incoming := incoming₁ }) (by omega) hsplit₁ with
          ⟨incoming₂, hpieces, hsplit₂⟩
        rw [hleft] at hpieces
        refine ⟨incoming₂, ?_, hsplit₂⟩
        calc recvPieces (passes + 1) bytes.length pkt s
            = (do
                let buffer ← recvBuffer (min BUFSIZ bytes.length)
                recvPieces passes (bytes.length - min BUFSIZ bytes.length)
                  (pkt.addByteVector buffer) : SFTPProg SFTPPacket) s := by
              rw [recvPieces, if_neg hpos.ne']
          _ = _ := bind_ok hbuffer
          _ = _ := by
              rw [hpieces]
              simp only [SFTPPacket.addByteVector, List.append_assoc, List.take_append_drop]

/-- The length word of a packet. -/
def lengthWord (pkt : SFTPPacket) : ByteVector :=
  bigEndian 4 (UInt64.ofNat pkt.payload.length)

theorem update_eq (pkt : SFTPPacket) : pkt.update = lengthWord pkt ++ pkt.payload := by
  simp only [SFTPPacket.update, lengthWord, SFTPPacket.payload, List.length_drop]

theorem getInt32_lengthWord {pkt : SFTPPacket} (hpayload : pkt.payload.length < 2 ^ 32) :
    ∃ len, SFTPPacket.getInt32 (SFTPPacket.setData (lengthWord pkt)) =
      .ok len ⟨lengthWord pkt, 4⟩ ∧ len.toNat = pkt.payload.length := by
  have hlen : (lengthWord pkt).length = 4 := length_bigEndian 4 _
  refine ⟨ofBytes 0 (lengthWord pkt), ?_, ?_⟩
  · have hrun := @SFTPPacket.getInt_inside 4 0 (SFTPPacket.setData (lengthWord pkt)) hlen.ge
    rwa [SFTPPacket.unread_setData, List.take_of_length_le hlen.le] at hrun
  · rw [lengthWord, toNat_length_word]
    exact Nat.mod_eq_of_lt hpayload

/-- The bytes of a packet come out as the packet, with the position behind the length. -/
theorem recvPacket_splits {pkt : SFTPPacket} (hpayload : pkt.payload.length < 2 ^ 32)
    {s : SFTPState} {rest : ByteVector} (h : Splits s.incoming (pkt.update ++ rest)) :
    ∃ incoming, recvPacket s = .ok ⟨pkt.update, 4⟩ { s with incoming := incoming } ∧
      Splits incoming rest := by
  rw [update_eq, List.append_assoc] at h
  rcases recvBuffer_splits h with ⟨incoming₁, hword, hsplit₁⟩
  rcases getInt32_lengthWord hpayload with ⟨len, hint, hlen⟩
  rcases recvPieces_splits ⟨lengthWord pkt, 4⟩ (s := { s with incoming := incoming₁ })
    (Nat.le_refl _) hsplit₁ with ⟨incoming₂, hpieces, hsplit₂⟩
  have honPacket : onPacket SFTPPacket.getInt32 (SFTPPacket.setData (lengthWord pkt)) =
      (pure (len, ⟨lengthWord pkt, 4⟩) : SFTPProg (UInt64 × SFTPPacket)) := by
    rw [onPacket, hint]
  refine ⟨incoming₂, ?_, hsplit₂⟩
  calc recvPacket s
      = (onPacket SFTPPacket.getInt32 (SFTPPacket.setData (lengthWord pkt)) >>= fun read =>
          recvPieces read.1.toNat read.1.toNat read.2)
            { s with incoming := incoming₁ } := bind_ok hword
    _ = recvPieces pkt.payload.length pkt.payload.length ⟨lengthWord pkt, 4⟩
          { s with incoming := incoming₁ } := by
        rw [honPacket, ← hlen]
        rfl
    _ = _ := by
        rw [hpieces, update_eq]
        rfl

/-! ## Sequences of packets -/

def sendPackets : List SFTPPacket → SFTPProg Unit
  | [] => pure ()
  | pkt :: pkts => do
      sendPacket pkt
      sendPackets pkts

/-- The bytes of packets that are sent one after the other. -/
def streamOf (pkts : List SFTPPacket) : ByteVector :=
  pkts.flatMap SFTPPacket.update

/-- From this state, one `recvPacket` after the other returns the bytes of the packets, each takes
the bytes of its own packet off the stream, and the last one leaves `rest`. -/
inductive Receives (rest : ByteVector) : List SFTPPacket → SFTPState → Prop
  | done {s : SFTPState} : Splits s.incoming rest → Receives rest [] s
  | packet {pkt : SFTPPacket} {pkts : List SFTPPacket} {s s' : SFTPState} :
      Splits s.incoming (pkt.update ++ (streamOf pkts ++ rest)) →
      recvPacket s = .ok ⟨pkt.update, 4⟩ s' →
      Splits s'.incoming (streamOf pkts ++ rest) →
      Receives rest pkts s' → Receives rest (pkt :: pkts) s

theorem sendPacket_ok (pkt : SFTPPacket) {s : SFTPState} (hwrite : NoErrors s.answers) :
    ∃ s', sendPacket pkt s = .ok () s' ∧ s'.sent = s.sent ++ pkt.update ∧ NoErrors s'.answers := by
  rcases writeFully_ok s.answers pkt.update hwrite with ⟨hok, hwrite'⟩
  have htaken := writeFully_taken s.answers pkt.update hok
  refine ⟨{ s with answers := (writeFully s.answers pkt.update).answers,
                   sent := s.sent ++ pkt.update }, ?_, rfl, hwrite'⟩
  have hget : (get : SFTPProg SFTPState) s = .ok s s := rfl
  have hset : (set { s with answers := (writeFully s.answers pkt.update).answers,
                            sent := s.sent ++ pkt.update } : SFTPProg Unit) s =
      .ok () { s with answers := (writeFully s.answers pkt.update).answers,
                      sent := s.sent ++ pkt.update } := rfl
  refine bind_ok_iff.2 ⟨s, s, hget, ?_⟩
  rw [htaken, hok]
  exact bind_ok_iff.2 ⟨(), _, hset, rfl⟩

theorem sendPackets_ok {pkts : List SFTPPacket} {s : SFTPState} (hwrite : NoErrors s.answers) :
    ∃ s', sendPackets pkts s = .ok () s' ∧ s'.sent = s.sent ++ streamOf pkts := by
  induction pkts generalizing s with
  | nil => exact ⟨s, rfl, (List.append_nil _).symm⟩
  | cons pkt pkts ih =>
      rcases sendPacket_ok pkt hwrite with ⟨s₁, hsend, hsent, hwrite₁⟩
      rcases ih hwrite₁ with ⟨s₂, hsends, hsents⟩
      refine ⟨s₂, bind_ok_iff.2 ⟨(), s₁, hsend, hsends⟩, ?_⟩
      rw [hsents, hsent, List.append_assoc, streamOf, streamOf, List.flatMap_cons]

theorem receives_of_splits {pkts : List SFTPPacket} {rest : ByteVector}
    (hpayload : ∀ pkt ∈ pkts, pkt.payload.length < 2 ^ 32) {s : SFTPState}
    (h : Splits s.incoming (streamOf pkts ++ rest)) : Receives rest pkts s := by
  induction pkts generalizing s with
  | nil => exact .done h
  | cons pkt pkts ih =>
      rw [List.forall_mem_cons] at hpayload
      have hsplit : Splits s.incoming (pkt.update ++ (streamOf pkts ++ rest)) := by
        rwa [streamOf, List.flatMap_cons, List.append_assoc] at h
      rcases recvPacket_splits hpayload.1 hsplit with ⟨incoming, hrecv, hrest⟩
      exact .packet hsplit hrecv hrest (ih hpayload.2 hrest)

/-- Packets that are sent come out as they went in, however `write()` and `read()` cut the stream,
and whatever follows them in it. -/
theorem framing {pkts : List SFTPPacket} (hpayload : ∀ pkt ∈ pkts, pkt.payload.length < 2 ^ 32)
    {sender : SFTPState} (hwrite : NoErrors sender.answers) :
    ∃ sender', sendPackets pkts sender = .ok () sender' ∧
      sender'.sent = sender.sent ++ streamOf pkts ∧
      ∀ (receiver : SFTPState) (rest : ByteVector),
        Splits receiver.incoming (streamOf pkts ++ rest) → Receives rest pkts receiver := by
  rcases @sendPackets_ok pkts sender hwrite with ⟨sender', hsend, hsent⟩
  exact ⟨sender', hsend, hsent, fun _ _ => receives_of_splits hpayload⟩

/-- A `write()` that takes three bytes, and two packets that come in three pieces. -/
theorem framing_pieces :
    Receives [] [SFTPPacket.empty.addByte 7, SFTPPacket.empty]
      ⟨0, [], [], [.ok [0, 0, 0], .ok [1, 7, 0, 0], .ok [0, 0]], []⟩ := by
  have hpayload : ∀ pkt ∈ [SFTPPacket.empty.addByte 7, SFTPPacket.empty],
      pkt.payload.length < 2 ^ 32 := by
    exact List.forall_mem_cons.2 ⟨by decide, List.forall_mem_singleton.2 (by decide)⟩
  have hwrite : NoErrors (⟨0, [.ok 3], [], [], []⟩ : SFTPState).answers := by
    intro errno h
    cases List.mem_singleton.1 h
  rcases framing hpayload hwrite with ⟨_, _, _, hreceives⟩
  exact hreceives _ _ (.cons (by decide) (.cons (by decide) (.cons (by decide) .nil)))

end Sftp
end Kdump

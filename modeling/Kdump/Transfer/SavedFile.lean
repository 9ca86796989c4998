import Kdump.Transfer.FileTransfer

/-!
# SavedFile — what `performPipe` leaves in the file

While no write-out is refused, the file, with the hole up to the file offset, and the bytes that
are pending behind it are together the data saved so far.  At the end everything is in the file,
unless the device refuses the write-out that `fclose` makes: nobody looks at its result.
-/

namespace Kdump
namespace Transfer

open Lib

/-! ## Streams without a refusal -/

/-- The stream holds `written`: partly in the file, partly pending. -/
structure Holds (st : Stream) (written : ByteVector) : Prop where
  short : st.data.length ≤ st.pos
  text : padTo st.pos st.data ++ st.buf = written

theorem Holds.length {st : Stream} {written : ByteVector} (h : Holds st written) :
    ftell st = written.length := by
  have hshort := h.short
  rw [← h.text, List.length_append, length_padTo, max_eq_left hshort]
  rfl

/-- Moving pending bytes to the file. -/
theorem Holds.writeOut {io : Stdio} {n : Nat} {st : Stream} {written : ByteVector}
    (h : Holds st written) (hn : n ≤ st.buf.length) (htaken : io.refusal st.calls n = none) :
    (writeOut io n st).1 = .ok () ∧
      Holds (writeOut io n st).2 written ∧
      (writeOut io n st).2.calls = st.calls + 1 ∧
      (writeOut io n st).2.buf = st.buf.drop n ∧
      (0 < n → (writeOut io n st).2.data.length = (writeOut io n st).2.pos) ∧
      (n = 0 → (writeOut io n st).2.data = st.data ∧ (writeOut io n st).2.pos = st.pos) := by
  have hshort := h.short
  have hlen : (st.buf.take n).length = n := List.length_take_of_le hn
  unfold Transfer.writeOut
  rw [htaken]
  dsimp only
  -- an empty write-out does not touch the file, not even its hole
  rcases Nat.eq_zero_or_pos n with rfl | hpos
  · exact ⟨rfl, ⟨hshort, h.text⟩, rfl, rfl, fun h0 => absurd h0 (lt_irrefl 0), fun _ => ⟨rfl, rfl⟩⟩
  · have hne : st.buf.take n ≠ [] := fun h0 => by
      rw [h0, List.length_nil] at hlen
      omega
    have hdata : (writeAt st.data st.pos (st.buf.take n)).length = st.pos + n := by
      rw [writeAt_of_length_le hshort hne, List.length_append, length_padTo, hlen,
        max_eq_left hshort]
    refine ⟨rfl, ⟨hdata.le, ?_⟩, rfl, rfl, fun _ => hdata, fun h0 => absurd h0 hpos.ne'⟩
    dsimp only
    rw [padTo_of_le hdata.ge, writeAt_of_length_le hshort hne, List.append_assoc,
      List.take_append_drop, h.text]

/-- The invariant of the loop. -/
structure Saved (st : Stream) (written : ByteVector) (last_was_sparse : Bool) : Prop
    extends Holds st written where
  hole : last_was_sparse = true → st.buf = []
  dense : last_was_sparse = false → st.buf ≠ [] ∨ st.data.length = st.pos

theorem saved_opened : Saved .opened [] false where
  short := le_rfl
  text := rfl
  hole := by rintro ⟨⟩
  dense _ := Or.inr rfl

theorem putBytes_taken {io : Stdio} {b : ByteVector} {st : Stream} {written : ByteVector}
    (h : Holds st written) (hb : b ≠ [])
    (htaken : io.refusal st.calls (min (io.spill st.calls (st.buf.length + b.length))
      (st.buf.length + b.length)) = none) :
    (putBytes io b st).1 = .ok () ∧ Saved (putBytes io b st).2 (written ++ b) false ∧
      (putBytes io b st).2.calls = st.calls + 1 ∧
      (putBytes io b st).2.buf.length = st.buf.length + b.length -
        min (io.spill st.calls (st.buf.length + b.length)) (st.buf.length + b.length) := by
  have hpending : Holds { st with buf := st.buf ++ b } (written ++ b) :=
    ⟨h.short, by rw [← h.text, List.append_assoc]⟩
  unfold putBytes
  dsimp only
  rw [List.length_append]
  have hlen : (st.buf ++ b).length = st.buf.length + b.length := List.length_append
  generalize hn : min (io.spill st.calls (st.buf.length + b.length))
    (st.buf.length + b.length) = n at *
  have hle : n ≤ (st.buf ++ b).length := by omega
  rcases hpending.writeOut hle htaken with ⟨hok, hholds, hcalls, hbuf, hdense, hidle⟩
  refine ⟨hok, ⟨hholds, by rintro ⟨⟩, fun _ => ?_⟩, hcalls, by rw [hbuf, List.length_drop, hlen]⟩
  rcases Nat.eq_zero_or_pos n with h0 | hpos
  · -- nothing is written out, and so something is pending
    left
    rw [hbuf, h0, List.drop_zero]
    simp [hb]
  · exact Or.inr (hdense hpos)

theorem putBytes_refused {io : Stdio} {b : ByteVector} {st : Stream}
    (hrefused : io.refusal st.calls (min (io.spill st.calls (st.buf.length + b.length))
      (st.buf.length + b.length)) ≠ none) : ∃ errno, (putBytes io b st).1 = .error errno := by
  rcases Option.ne_none_iff_exists'.1 hrefused with ⟨⟨k, errno⟩, hk⟩
  refine ⟨errno, ?_⟩
  unfold putBytes writeOut
  dsimp only
  rw [List.length_append, hk]

theorem fseek_taken {io : Stdio} {n : Nat} {st : Stream} {written : ByteVector}
    (h : Holds st written) (htaken : io.refusal st.calls st.buf.length = none)
    (hseek : io.lseek st.calls = .ok ()) :
    (fseek io n st).1 = .ok () ∧ Saved (fseek io n st).2 (written ++ List.replicate n 0) true ∧
      (fseek io n st).2.calls = st.calls + 1 ∧ (fseek io n st).2.buf = [] := by
  rcases h.writeOut le_rfl htaken with ⟨hok, hholds, hcalls, hbuf, _, _⟩
  rw [List.drop_length] at hbuf
  -- everything pending goes out first
  have heq : fseek io n st = (.ok (),
      { (writeOut io st.buf.length st).2 with
        pos := (writeOut io st.buf.length st).2.pos + n }) := by
    unfold fseek
    rw [← Prod.mk.eta (p := writeOut io st.buf.length st), hok, hseek]
  rw [heq]
  generalize (writeOut io st.buf.length st).2 = st' at *
  refine ⟨rfl, ⟨⟨hholds.short.trans (Nat.le_add_right _ _), ?_⟩, fun _ => hbuf, by rintro ⟨⟩⟩,
    hcalls, hbuf⟩
  dsimp only
  rw [padTo_add hholds.short, ← hholds.text, hbuf, List.append_nil, List.append_nil]

theorem fseek_failed {io : Stdio} {n : Nat} {st : Stream}
    (hfailed : ¬ (io.refusal st.calls st.buf.length = none ∧ io.lseek st.calls = .ok ())) :
    ∃ errno, (fseek io n st).1 = .error errno := by
  unfold fseek writeOut
  cases hrefusal : io.refusal st.calls st.buf.length with
  | some k => exact ⟨k.2, rfl⟩
  | none =>
      cases hseek : io.lseek st.calls with
      | error errno => exact ⟨errno, rfl⟩
      | ok _ => exact absurd ⟨hrefusal, hseek⟩ hfailed

/-! ## The dry run -/

/-- How many calls have been made on the stream, how many bytes it holds back, and whether the
last block was skipped. -/
structure DryRun where
  calls : Nat
  held : Nat
  last_was_sparse : Bool

namespace DryRun

/-- A chunk goes to the stream; `none` if the call fails. -/
def chunk (self : FileTransfer) (d : DryRun) (c : Chunk) : Option DryRun :=
  if self.isHole c.1 then
    if self.io.refusal d.calls d.held = none ∧ self.io.lseek d.calls = .ok () then
      some ⟨d.calls + 1, 0, true⟩
    else none
  else
    let pending := d.held + c.1.length
    let n := min (self.io.spill d.calls pending) pending
    if self.io.refusal d.calls n = none then some ⟨d.calls + 1, pending - n, false⟩ else none

def run (self : FileTransfer) (chunks : List Chunk) (d : DryRun) : Option DryRun :=
  chunks.foldlM (chunk self) d

structure Tracks (d : DryRun) (st : Stream) (last_was_sparse : Bool) : Prop where
  calls : d.calls = st.calls
  held : d.held = st.buf.length
  last_was_sparse : d.last_was_sparse = last_was_sparse

end DryRun

/-- The device takes everything up to the `fclose`, and refuses the write-out of that: it keeps
to itself some of the bytes that the stream still holds. -/
def RefusedAtClose (self : FileTransfer) (chunks : List Chunk) : Prop :=
  self.io.fopen = .ok () ∧ ∃ d, DryRun.run self chunks ⟨0, 0, false⟩ = some d ∧
    d.last_was_sparse = false ∧ self.io.refusal d.calls d.held ≠ none

/-! ## The loop -/

theorem eq_replicate_of_isZero {b : ByteVector} (h : isZero b = true) :
    b = List.replicate b.length 0 := by
  refine List.eq_replicate_iff.2 ⟨rfl, fun c hc => ?_⟩
  simpa using List.all_eq_true.1 h c hc

section Loop

variable {self : FileTransfer} {written : ByteVector} {last : Bool} {s : FileState} {d : DryRun}

theorem wp_saveChunk (c : Chunk) (hs : Saved s.fp written last) (hd : d.Tracks s.fp last) :
    wp (self.saveChunk c.1)
      (fun last' s' => ∃ d', DryRun.chunk self d c = some d' ∧ d'.Tracks s'.fp last' ∧
        Saved s'.fp (written ++ c.1) last')
      (fun _ _ => DryRun.chunk self d c = none) s := by
  unfold FileTransfer.saveChunk DryRun.chunk
  rw [hd.calls, hd.held]
  -- a hole is skipped, anything else is written; either one may have to write out the buffer
  by_cases hhole : self.isHole c.1
  · rw [if_pos hhole, if_pos hhole, wp_bind, wp_orThrow]
    by_cases hok : self.io.refusal s.fp.calls s.fp.buf.length = none ∧
        self.io.lseek s.fp.calls = .ok ()
    · rcases fseek_taken (n := self.m_bufferSize) hs.toHolds hok.1 hok.2 with
        ⟨hans, hsaved, hcalls, hbuf⟩
      have hzero : c.1 = List.replicate self.m_bufferSize 0 := by
        rw [← hhole.2.1]
        exact eq_replicate_of_isZero hhole.2.2
      rw [hans, if_pos hok, hzero]
      exact ⟨_, rfl, ⟨hcalls.symm, by rw [hbuf]; rfl, rfl⟩, hsaved⟩
    · rcases fseek_failed (n := self.m_bufferSize) hok with ⟨errno, hans⟩
      rw [hans, if_neg hok]
  · rw [if_neg hhole, if_neg hhole, wp_bind, wp_onStream]
    dsimp only
    by_cases hok : self.io.refusal s.fp.calls
        (min (self.io.spill s.fp.calls (s.fp.buf.length + c.1.length))
          (s.fp.buf.length + c.1.length)) = none
    · rcases putBytes_taken hs.toHolds c.2 hok with ⟨hans, hsaved, hcalls, hbuf⟩
      have heq : fwrite self.io c.1 s.fp = (.ok (), (putBytes self.io c.1 s.fp).2) := by
        unfold fwrite
        rw [← Prod.mk.eta (p := putBytes self.io c.1 s.fp), hans]
      rw [heq, if_pos hok]
      exact ⟨_, rfl, ⟨hcalls.symm, hbuf.symm, rfl⟩, hsaved⟩
    · rcases putBytes_refused hok with ⟨errno, hans⟩
      have heq : (fwrite self.io c.1 s.fp).1 =
          .error (min (self.io.count s.fp.calls) (c.1.length - 1), errno) := by
        unfold fwrite
        rw [← Prod.mk.eta (p := putBytes self.io c.1 s.fp), hans]
      rw [heq, if_neg hok]
      rfl

theorem wp_pipeLoop : ∀ (chunks : List Chunk) (written : ByteVector) (last : Bool)
    (s : FileState) (d : DryRun), Saved s.fp written last → d.Tracks s.fp last →
    wp (self.pipeLoop (chunks.map fun c => .ok c.1) last)
      (fun last' s' => ∃ d', DryRun.run self chunks d = some d' ∧ d'.Tracks s'.fp last' ∧
        Saved s'.fp (written ++ contents chunks) last')
      (fun _ _ => DryRun.run self chunks d = none) s := by
  intro chunks
  induction chunks with
  | nil =>
      intro written last s d hs hd
      simp only [List.map_nil, FileTransfer.pipeLoop, wp_bind, wp_callGetData, wp_pure]
      refine ⟨d, rfl, hd, ?_⟩
      rw [contents, List.flatMap_nil, List.append_nil]
      exact hs
  | cons c chunks ih =>
      intro written last s d hs hd
      simp only [List.map_cons, FileTransfer.pipeLoop, wp_bind, wp_callGetData]
      rw [if_neg c.2, wp_bind]
      have hrun : DryRun.run self (c :: chunks) d =
          (DryRun.chunk self d c).bind (DryRun.run self chunks) := List.foldlM_cons
      refine wp_mono (wp_saveChunk c hs hd) ?_ ?_
      · rintro last' s' ⟨d', hchunk, hd', hs'⟩
        have hmore := ih (written ++ c.1) last' s' d' hs' hd'
        rw [hrun, hchunk, Option.bind_some]
        rwa [List.append_assoc] at hmore
      · intro e s' hnone
        rw [hrun, hnone]
        rfl

end Loop

/-! ## The end of the file -/

theorem writeOut_all_buf (io : Stdio) (st : Stream) :
    (writeOut io st.buf.length st).2.buf = [] := by
  unfold writeOut
  split
  · rfl
  · exact List.drop_length

theorem rewind_data (io : Stdio) (st : Stream) :
    (rewind io st).data = (writeOut io st.buf.length st).2.data := by
  unfold rewind
  dsimp only
  split <;> rfl

theorem rewind_buf (io : Stdio) (st : Stream) : (rewind io st).buf = [] := by
  unfold rewind
  dsimp only
  split
  · exact writeOut_all_buf io st
  · exact writeOut_all_buf io st

/-- Writing out everything makes the file complete. -/
theorem Saved.writeOut_all {io : Stdio} {st : Stream} {written : ByteVector}
    (hs : Saved st written false) (htaken : io.refusal st.calls st.buf.length = none) :
    (writeOut io st.buf.length st).2.data = written := by
  rcases hs.toHolds.writeOut le_rfl htaken with ⟨_, hholds, _, _, hdense, hidle⟩
  have hbuf := writeOut_all_buf io st
  have hlen : (writeOut io st.buf.length st).2.data.length =
      (writeOut io st.buf.length st).2.pos := by
    -- with nothing pending, the file has no hole at its end
    rcases Nat.eq_zero_or_pos st.buf.length with h0 | hpos
    · rcases hs.dense rfl with hne | hlen
      · exact absurd (List.length_eq_zero_iff.1 h0) hne
      · rw [(hidle h0).1, (hidle h0).2, hlen]
    · exact hdense hpos
  have htext := hholds.text
  rwa [hbuf, List.append_nil, padTo_of_le hlen.ge] at htext

/-- Refusing to take all that is held leaves the file too short. -/
theorem Saved.writeOut_refused {io : Stdio} {st : Stream} {written : ByteVector} {last : Bool}
    (hs : Saved st written last) (hrefused : io.refusal st.calls st.buf.length ≠ none) :
    (writeOut io st.buf.length st).2.data ≠ written := by
  rcases Option.ne_none_iff_exists'.1 hrefused with ⟨⟨k, errno⟩, hk⟩
  have hlt := Stdio.lt_of_refusal hk
  have hshort := hs.short
  have hlen := hs.toHolds.length
  unfold ftell at hlen
  -- the file ends at most `k` bytes behind the offset
  have hdata : (writeOut io st.buf.length st).2.data.length ≤ st.pos + k := by
    unfold writeOut
    rw [hk]
    dsimp only
    by_cases hnil : st.buf.take k = []
    · rw [hnil, writeAt_nil]
      omega
    · rw [writeAt_of_length_le hshort hnil, List.length_append, length_padTo, max_eq_left hshort]
      exact Nat.add_le_add_left (List.length_take_le _ _) _
  intro heq
  rw [heq] at hdata
  omega

/-- The dummy byte does no harm, even if `rewind` cannot write it out. -/
theorem truncateTo_rewind {io : Stdio} {st : Stream} {written : ByteVector}
    (hs : Saved st written true)
    (htaken : io.refusal st.calls (min (io.spill st.calls (st.buf.length + [(0 : UInt8)].length))
      (st.buf.length + [(0 : UInt8)].length)) = none) :
    truncateTo written.length (rewind io (fputc io 0 st).2).data = written := by
  -- behind a hole nothing is pending
  have hnil := hs.hole rfl
  have htext := hs.text
  have hlen := hs.toHolds.length
  rw [hnil, List.append_nil] at htext
  rw [ftell, hnil, List.length_nil, Nat.add_zero] at hlen
  rcases putBytes_taken hs.toHolds (by simp) htaken with ⟨_, hsaved, _, hbuf⟩
  change truncateTo written.length (rewind io (putBytes io [0] st).2).data = written
  rw [rewind_data]
  by_cases hrefusal : io.refusal (putBytes io [0] st).2.calls (putBytes io [0] st).2.buf.length =
      none
  · rw [hsaved.writeOut_all hrefusal, truncateTo_append]
  · -- the byte is still pending, and none of it is taken
    rcases Option.ne_none_iff_exists'.1 hrefusal with ⟨⟨k, errno⟩, hk⟩
    have hlt := Stdio.lt_of_refusal hk
    rw [hnil] at htaken hbuf
    simp only [List.length_nil, List.length_singleton, Nat.zero_add] at htaken hbuf
    have hspill : min (io.spill st.calls 1) 1 = 0 := by omega
    have hk0 : k = 0 := by omega
    have hput : (putBytes io [0] st).2.data = st.data ∧ (putBytes io [0] st).2.pos = st.pos := by
      unfold putBytes writeOut
      dsimp only
      rw [hnil, List.nil_append, List.length_singleton, hspill]
      have h0 : io.refusal st.calls 0 = none := by
        rwa [hspill] at htaken
      rw [h0]
      exact ⟨rfl, rfl⟩
    have hdata : (writeOut io (putBytes io [0] st).2.buf.length (putBytes io [0] st).2).2.data =
        st.data := by
      unfold writeOut
      rw [hk, hk0]
      exact hput.1
    rw [hdata, ← hlen, truncateTo_of_length_le hs.short, htext]

section End

variable {self : FileTransfer} {written : ByteVector} {s : FileState}

theorem wp_setLength (hs : Saved s.fp written true) :
    wp self.setLength (fun _ s' => s'.fp.data = written ∧ s'.fp.buf = [])
      (fun _ _ => ¬ self.io.NoErrors) s := by
  unfold FileTransfer.setLength
  simp only [wp_bind, wp_get, wp_orThrow, wp_modify]
  rw [hs.toHolds.length]
  by_cases htaken : self.io.refusal s.fp.calls
      (min (self.io.spill s.fp.calls (s.fp.buf.length + [(0 : UInt8)].length))
        (s.fp.buf.length + [(0 : UInt8)].length)) = none
  · have hans : (fputc self.io 0 s.fp).1 = .ok () :=
      (putBytes_taken hs.toHolds (by simp) htaken).1
    rw [hans]
    unfold ftruncate
    cases htrunc : self.io.ftruncate with
    | error errno =>
        intro hio
        rw [hio.ftruncate] at htrunc
        cases htrunc
    | ok _ => exact ⟨truncateTo_rewind hs htaken, rewind_buf _ _⟩
  · rcases putBytes_refused htaken with ⟨errno, hans⟩
    have hans' : (fputc self.io 0 s.fp).1 = .error errno := hans
    rw [hans']
    exact fun hio => htaken (hio.refusal _ _)

end End

/-! ## Whole runs -/

theorem DryRun.run_ne_none {self : FileTransfer} (hio : self.io.NoErrors) :
    ∀ (chunks : List Chunk) (d : DryRun), DryRun.run self chunks d ≠ none := by
  intro chunks
  induction chunks with
  | nil => intro d h; cases h
  | cons c chunks ih =>
      intro d h
      have hchunk : ∃ d', DryRun.chunk self d c = some d' := by
        unfold DryRun.chunk
        by_cases hhole : self.isHole c.1
        · rw [if_pos hhole, if_pos ⟨hio.refusal _ _, hio.lseek _⟩]
          exact ⟨_, rfl⟩
        · rw [if_neg hhole]
          dsimp only
          rw [if_pos (hio.refusal _ _)]
          exact ⟨_, rfl⟩
      rcases hchunk with ⟨d', hd'⟩
      have hrun : DryRun.run self (c :: chunks) d =
          (DryRun.chunk self d c).bind (DryRun.run self chunks) := List.foldlM_cons
      rw [hrun, hd'] at h
      exact ih d' h

section Runs

variable {self : FileTransfer} {provider : DataProvider} {chunks : List Chunk} {s : FileState}

@[simp] theorem wp_close {Q : Unit → FileState → Prop} {E : Thrown → FileState → Prop} :
    wp self.close Q E s ↔ Q () { s with fp := (fclose self.io s.fp).2 } := Iff.rfl

/-- The handler throws what it has caught. -/
theorem wp_pipeHandler {Q : Unit → FileState → Prop} {E : Thrown → FileState → Prop} {e : Thrown}
    (hp : provider.Delivers chunks) (h : ∀ s', E e s') :
    wp (self.pipeHandler provider e) Q E s := by
  unfold FileTransfer.pipeHandler
  simp only [wp_bind, wp_close, wp_get]
  split_ifs
  · rw [wp_bind, wp_callFinish, hp.finish]
    exact h _
  · exact h _

theorem wp_pipeBody (hp : provider.Delivers chunks) (hfp : s.fp = .opened) :
    wp (self.pipeBody provider)
      (fun _ s' => ∃ d, DryRun.run self chunks ⟨0, 0, false⟩ = some d ∧
        (d.Tracks s'.fp false ∧ Saved s'.fp (contents chunks) false ∨
          d.last_was_sparse = true ∧ s'.fp.data = contents chunks ∧ s'.fp.buf = []))
      (fun _ _ => ¬ self.io.NoErrors ∧ ∀ d, DryRun.run self chunks ⟨0, 0, false⟩ = some d →
        d.last_was_sparse = true) s := by
  unfold FileTransfer.pipeBody
  simp only [wp_bind, wp_callPrepare, wp_modify]
  rw [hp.prepare, hp.data]
  have hloop := @wp_pipeLoop self chunks [] false
    { Observed.record (.prepare (.ok ())) s with prepared := true } ⟨0, 0, false⟩
    (by rw [show (Observed.record (.prepare (.ok ())) s).fp = s.fp from rfl, hfp]
        exact saved_opened)
    (by rw [show (Observed.record (.prepare (.ok ())) s).fp = s.fp from rfl, hfp]
        exact ⟨rfl, rfl, rfl⟩)
  refine wp_mono hloop ?_ ?_
  · rintro last s' ⟨d, hrun, hd, hs'⟩
    rw [List.nil_append] at hs'
    -- after a hole at the end, the length of the file is still to be set
    cases last with
    | false =>
        rw [if_neg (by decide)]
        exact ⟨d, hrun, Or.inl ⟨hd, hs'⟩⟩
    | true =>
        rw [if_pos rfl]
        refine wp_mono (wp_setLength hs') ?_ ?_
        · rintro _ s'' ⟨hdata, hbuf⟩
          exact ⟨d, hrun, Or.inr ⟨hd.last_was_sparse, hdata, hbuf⟩⟩
        · intro e s'' hio
          refine ⟨hio, fun d' hd' => ?_⟩
          cases hrun.symm.trans hd'
          exact hd.last_was_sparse
  · intro e s' hnone
    refine ⟨fun hio => DryRun.run_ne_none hio chunks _ hnone, fun d hd => ?_⟩
    rw [hnone] at hd
    cases hd

/-- How `performPipe` ends: the file is complete unless the write-out of `fclose` is refused, and
an exception means that something else has failed. -/
theorem wp_performPipe (self : FileTransfer) (hp : provider.Delivers chunks) (targets : List Str)
    (s : FileState) :
    wp (self.performPipe provider targets)
      (fun _ s' => s'.fp.data = contents chunks ↔ ¬ RefusedAtClose self chunks)
      (fun _ _ => ¬ self.io.NoErrors ∧ ¬ RefusedAtClose self chunks) s := by
  unfold FileTransfer.performPipe FileTransfer.open
  cases hopen : self.io.fopen with
  | error errno =>
      simp only [wp_bind, wp_throw]
      refine ⟨fun hio => ?_, fun hrefused => ?_⟩
      · rw [hio.fopen] at hopen
        cases hopen
      · rw [hrefused.1] at hopen
        cases hopen
  | ok _ =>
      simp only [wp_bind, wp_modify, wp_tryCatch]
      refine wp_mono (wp_pipeBody hp rfl) ?_ ?_
      · rintro _ s' ⟨d, hrun, hcases⟩
        rw [wp_close, wp_callFinish, hp.finish]
        change (writeOut self.io s'.fp.buf.length s'.fp).2.data = contents chunks ↔ _
        -- either the last bytes still wait in the buffer of the stream, or the file is complete
        rcases hcases with ⟨hd, hs'⟩ | ⟨hlast, hdata, hbuf⟩
        · by_cases htaken : self.io.refusal s'.fp.calls s'.fp.buf.length = none
          · refine iff_of_true (hs'.writeOut_all htaken) ?_
            rintro ⟨_, d', hrun', _, hrefused⟩
            cases hrun.symm.trans hrun'
            rw [hd.calls, hd.held] at hrefused
            exact hrefused htaken
          · refine iff_of_false (hs'.writeOut_refused htaken) (not_not.2 ?_)
            refine ⟨hopen, d, hrun, hd.last_was_sparse, ?_⟩
            rwa [hd.calls, hd.held]
        · have hnone : self.io.refusal s'.fp.calls 0 = none := by
            cases hrefusal : self.io.refusal s'.fp.calls 0 with
            | none => rfl
            | some k => exact absurd (Stdio.lt_of_refusal hrefusal) (Nat.not_lt_zero _)
          have hsame : (writeOut self.io s'.fp.buf.length s'.fp).2.data = s'.fp.data := by
            rw [hbuf, List.length_nil, writeOut, hnone]
            rfl
          refine iff_of_true (hsame.trans hdata) ?_
          rintro ⟨_, d', hrun', hlast', _⟩
          cases hrun.symm.trans hrun'
          rw [hlast] at hlast'
          cases hlast'
      · -- an exception in the loop: something else has failed before the file is closed
        rintro e s' ⟨hio, hlast⟩
        refine wp_pipeHandler hp fun _ => ⟨hio, ?_⟩
        rintro ⟨_, d, hrun, hlast', _⟩
        rw [hlast d hrun] at hlast'
        cases hlast'

end Runs

theorem performPipe_data (self : FileTransfer) (hio : self.io.NoErrors)
    {provider : DataProvider} {chunks : List Chunk} (hp : provider.Delivers chunks)
    (targets : List Str) (s : FileState) :
    ∃ s', self.performPipe provider targets s = .ok () s' ∧ s'.fp.data = contents chunks := by
  have hrefused : ¬ RefusedAtClose self chunks := by
    rintro ⟨_, d, _, _, hrefusal⟩
    exact hrefusal (hio.refusal _ _)
  have hwp := wp_performPipe self hp targets s
  cases hrun : self.performPipe provider targets s with
  | ok _ s' => exact ⟨s', rfl, (wp_ok hwp hrun).2 hrefused⟩
  | error e s' => exact absurd hio (wp_error hwp hrun).1

/-- Without I/O errors the file has exactly the bytes of the chunks, and the sparse file is equal
to the other one. -/
theorem performPipe_saves (self : FileTransfer) (hio : self.io.NoErrors) (chunks : List Chunk)
    (targets : List Str) (s : FileState) :
    ∃ sparse dense,
      { self with noSparse := false }.performPipe (.ofChunks chunks) targets s = .ok () sparse ∧
        { self with noSparse := true }.performPipe (.ofChunks chunks) targets s = .ok () dense ∧
        sparse.fp.data = contents chunks ∧ dense.fp.data = sparse.fp.data := by
  rcases performPipe_data { self with noSparse := false } hio (.ofChunks chunks) targets s with
    ⟨sparse, hsparse, hdata⟩
  rcases performPipe_data { self with noSparse := true } hio (.ofChunks chunks) targets s with
    ⟨dense, hdense, hdata'⟩
  exact ⟨sparse, dense, hsparse, hdense, hdata, hdata'.trans hdata.symm⟩

/-- A file system without errors, and a C library that writes out every other byte at once. -/
private def halfBuffered : Stdio where
  fopen := .ok ()
  spill _ n := n / 2
  device _ := none
  lseek _ := .ok ()
  ftruncate := .ok ()
  count _ := 0

private def newState : FileState :=
  ⟨.opened, false, []⟩

theorem performPipe_saves_trailing_zeros :
    ∃ sparse dense,
      FileTransfer.performPipe ⟨[], 2, false, halfBuffered⟩
          (.ofChunks [⟨[7], by decide⟩, ⟨[0, 0], by decide⟩]) [] newState = .ok () sparse ∧
        FileTransfer.performPipe ⟨[], 2, true, halfBuffered⟩
          (.ofChunks [⟨[7], by decide⟩, ⟨[0, 0], by decide⟩]) [] newState = .ok () dense ∧
        sparse.fp.data = [7, 0, 0] ∧ dense.fp.data = sparse.fp.data :=
  performPipe_saves ⟨[], 2, false, halfBuffered⟩
    ⟨rfl, fun _ => rfl, fun _ => rfl, rfl⟩ [⟨[7], by decide⟩, ⟨[0, 0], by decide⟩] [] newState

/-- A normal return means that all bytes have reached the file, if and only if the device does
not refuse the write-out that `fclose` makes. -/
theorem performPipe_saves_all_iff (self : FileTransfer) (chunks : List Chunk)
    (targets : List Str) (s : FileState) :
    (∀ s', self.performPipe (.ofChunks chunks) targets s = .ok () s' →
      s'.fp.data = contents chunks) ↔ ¬ RefusedAtClose self chunks := by
  have hwp := wp_performPipe self (.ofChunks chunks) targets s
  constructor
  · intro h hrefused
    cases hrun : self.performPipe (.ofChunks chunks) targets s with
    | ok _ s' => exact (wp_ok hwp hrun).1 (h s' hrun) hrefused
    | error e s' => exact (wp_error hwp hrun).2 hrefused
  · intro hrefused s' hrun
    exact (wp_ok hwp hrun).2 hrefused

/-- A full disk, and a C library that holds everything back until the stream is closed. -/
private def fullDisk : Stdio where
  fopen := .ok ()
  spill _ _ := 0
  device _ := some (0, ENOSPC)
  lseek _ := .ok ()
  ftruncate := .ok ()
  count _ := 0

/-- One byte is saved to a full disk: the function returns, and the file is empty. -/
theorem performPipe_loses_byte :
    ∃ s', FileTransfer.performPipe ⟨[], BUFSIZ, false, fullDisk⟩
        (.ofChunks [⟨[65], by decide⟩]) [] newState = .ok () s' ∧
      s'.fp.data = [] ∧ s'.fp.data ≠ contents [⟨[65], by decide⟩] :=
  ⟨_, rfl, by decide, by decide⟩

end Transfer
end Kdump

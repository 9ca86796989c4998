import Kdump.Global
import Kdump.Lib.Cells
import Kdump.Lib.Loop

/-!
# SlurpFd — `slurp_fd` of the device timeout generator

The function reads a file until `read` answers 0.  Before a call the buffer is made larger if there
is little room left in it.

* `Fd`, `read` — a file, and the pieces in which it is read;
* `grow`, `slurpStep`, `slurp_fd` — the function;
* `Slurped` — the content of the file and a NUL byte;
* `Lost` — what holds at the heads of the loop when the file comes in several pieces;
* `slurp_fd_correct_iff` — when the function returns the content.
-/

namespace Kdump
namespace Generator

open Lib

def READ_CHUNK_ADD : Nat := 1024
def READ_CHUNK_MIN : Nat := 256

/-- A file that is open for reading: what has not been read yet, and for each of the calls to come
the bound on what it hands over, less one.  A call with no bound fails. -/
structure Fd where
  unread : Str
  limits : Nat → Option Nat

/-- `read(2)`: at least one byte, as long as there is one. -/
def read (fd : Fd) (count : Nat) : Option (Str × Fd) :=
  match fd.limits 0 with
  | none => none
  | some limit =>
      let rdlen := min (limit + 1) count
      some (fd.unread.take rdlen,
        { unread := fd.unread.drop rdlen, limits := fun i => fd.limits (i + 1) })

/-! ## The function -/

/-- The variables of `slurp_fd`; `bufp` is the offset in `buf`. -/
structure Slurp where
  fd : Fd
  buf : Cells UInt8
  bufp : Nat
  len : Nat
  remain : Nat

/-- The first part of a pass.  A new buffer takes the offset of the old one over. -/
def grow (s : Slurp) : Slurp :=
  if s.remain < READ_CHUNK_MIN then
    { s with
      buf := s.buf.realloc (s.len + READ_CHUNK_ADD + 1)
      len := s.len + READ_CHUNK_ADD
      remain := s.remain + READ_CHUNK_ADD }
  else s

/-- One pass, the one that is left with the end of the file together with what comes behind the
loop.  `NULL` is `none`. -/
def slurpStep (s : Slurp) : Step Slurp (Option (Cells UInt8)) :=
  let s := grow s
  match read s.fd s.remain with
  | none => .done none
  | some ([], _) => .done (some (s.buf.set (s.len - s.remain) (some 0)))
  | some (bytes, fd) =>
      .next { s with
        fd := fd
        buf := s.buf.put s.bufp bytes
        remain := s.remain - bytes.length }

@[simp] theorem grow_fd (s : Slurp) : (grow s).fd = s.fd := by
  unfold grow
  split <;> rfl

@[simp] theorem grow_bufp (s : Slurp) : (grow s).bufp = s.bufp := by
  unfold grow
  split <;> rfl

/-- How much has been read stays. -/
theorem grow_len_sub_remain (s : Slurp) : (grow s).len - (grow s).remain = s.len - s.remain := by
  unfold grow
  split
  · exact Nat.add_sub_add_right _ _ _
  · rfl

/-- There is room for a piece. -/
theorem grow_remain_pos (s : Slurp) : 0 < (grow s).remain := by
  unfold grow READ_CHUNK_MIN READ_CHUNK_ADD
  split
  · exact Nat.add_pos_right _ (by decide)
  · rename_i h
    omega

/-- What a pass does that is not the last one. -/
theorem slurpStep_next {s s' : Slurp} (h : slurpStep s = .next s') :
    ∃ limit bytes, s.fd.limits 0 = some limit ∧ bytes ≠ [] ∧
      bytes = s.fd.unread.take (min (limit + 1) (grow s).remain) ∧
      s' = { grow s with
        fd := ⟨s.fd.unread.drop bytes.length, fun i => s.fd.limits (i + 1)⟩
        buf := (grow s).buf.put s.bufp bytes
        remain := (grow s).remain - bytes.length } := by
  unfold slurpStep read at h
  dsimp only at h
  rw [grow_fd] at h
  cases hlimit : s.fd.limits 0 with
  | none =>
      rw [hlimit] at h
      cases h
  | some limit =>
      rw [hlimit] at h
      dsimp only at h
      generalize hbytes : s.fd.unread.take (min (limit + 1) (grow s).remain) = bytes at h
      -- behind the piece there is what `take` has left
      have hdrop : s.fd.unread.drop (min (limit + 1) (grow s).remain) =
          s.fd.unread.drop bytes.length := by
        rw [← hbytes, List.length_take, ← List.drop_eq_drop_min]
      rw [hdrop] at h
      cases bytes with
      | nil => cases h
      | cons b bytes =>
          cases h
          refine ⟨limit, b :: bytes, rfl, List.cons_ne_nil b bytes, hbytes.symm, ?_⟩
          simp only [grow_bufp]

theorem slurpStep_unread {s s' : Slurp} (h : slurpStep s = .next s') :
    s'.fd.unread.length < s.fd.unread.length := by
  obtain ⟨limit, bytes, _, hne, hbytes, rfl⟩ := slurpStep_next h
  have hpos := List.length_pos_iff.2 hne
  have hle : bytes.length ≤ s.fd.unread.length := by
    rw [hbytes]
    exact List.length_take_le' _ _
  simp only [List.length_drop]
  omega

def slurpLoop : Loop Slurp (Option (Cells UInt8)) where
  step := slurpStep
  measure s := s.fd.unread.length
  decreases := slurpStep_unread

/-- `slurp_fd` -/
def slurp_fd (fd : Fd) : Option (Cells UInt8) :=
  slurpLoop.eval ⟨fd, [], 0, 0, 0⟩

/-- The pass that meets the end of the file. -/
theorem slurpStep_end {s : Slurp} {limit : Nat} (hunread : s.fd.unread = [])
    (hlimit : s.fd.limits 0 = some limit) :
    slurpStep s = .done (some ((grow s).buf.set (s.len - s.remain) (some 0))) := by
  unfold slurpStep read
  dsimp only
  rw [grow_fd, hlimit, hunread]
  dsimp only
  rw [List.take_nil, grow_len_sub_remain]

/-! ## One piece -/

/-- The buffer holds the content of the file, followed by a NUL byte. -/
def Slurped (content : Str) (result : Option (Cells UInt8)) : Prop :=
  ∃ buf, result = some buf ∧ buf.take (content.length + 1) = (content ++ [0]).map some

variable {content : Str} {limits : Nat → Nat}

/-- A file whose read calls do not fail. -/
abbrev readable (content : Str) (limits : Nat → Nat) : Fd :=
  ⟨content, fun i => some (limits i)⟩

/-- The buffer grows at its end. -/
theorem grow_buf {s : Slurp} (h : s.buf.length ≤ s.len + 1) :
    ∃ k, (grow s).buf = s.buf ++ Cells.malloc k := by
  unfold grow
  split
  · refine ⟨s.len + READ_CHUNK_ADD + 1 - s.buf.length, ?_⟩
    exact Cells.realloc_of_le (by omega)
  · exact ⟨0, (List.append_nil _).symm⟩

/-- The file has been read, and the content stands at the beginning of the buffer. -/
theorem slurped_of_end {s : Slurp} {limit : Nat} (cell : Option UInt8) (cells : Cells UInt8)
    (hunread : s.fd.unread = []) (hlimit : s.fd.limits 0 = some limit)
    (hread : s.len - s.remain = content.length)
    (hbuf : (grow s).buf = content.map some ++ cell :: cells) :
    Slurped content (slurpLoop.eval s) := by
  rw [slurpLoop.eval_done (slurpStep_end hunread hlimit), hread, hbuf]
  have hlength : (content.map some).length = content.length := List.length_map _
  refine ⟨_, rfl, ?_⟩
  rw [List.set_append_right _ _ hlength.le, hlength, Nat.sub_self, List.set_cons_zero,
    List.take_append, hlength, Nat.add_sub_cancel_left,
    List.take_of_length_le (hlength.le.trans (Nat.le_succ _)), List.map_append]
  rfl

/-- The first pass, when the file comes in one piece. -/
theorem slurpStep_one_piece (hne : content ≠ [])
    (hle : content.length ≤ min (limits 0 + 1) READ_CHUNK_ADD) :
    slurpStep ⟨readable content limits, [], 0, 0, 0⟩ =
      .next ⟨⟨[], fun i => some (limits (i + 1))⟩,
        (Cells.malloc (READ_CHUNK_ADD + 1)).put 0 content, 0, READ_CHUNK_ADD,
        READ_CHUNK_ADD - content.length⟩ := by
  obtain ⟨c, text, rfl⟩ := List.exists_cons_of_ne_nil hne
  have hread : read (readable (c :: text) limits) READ_CHUNK_ADD =
      some (c :: text, ⟨[], fun i => some (limits (i + 1))⟩) := by
    unfold read
    dsimp only
    rw [List.take_of_length_le hle, List.drop_eq_nil_of_le hle]
  have hgrow : grow ⟨readable (c :: text) limits, [], 0, 0, 0⟩ =
      ⟨readable (c :: text) limits, Cells.malloc (READ_CHUNK_ADD + 1), 0, READ_CHUNK_ADD,
        READ_CHUNK_ADD⟩ := rfl
  unfold slurpStep
  rw [hgrow]
  dsimp only
  rw [hread]

theorem slurped_of_one_piece (hle : content.length ≤ min (limits 0 + 1) READ_CHUNK_ADD) :
    Slurped content (slurp_fd (readable content limits)) := by
  unfold slurp_fd
  by_cases hne : content = []
  · subst hne
    exact slurped_of_end none (Cells.malloc READ_CHUNK_ADD) rfl rfl rfl rfl
  · have hsmall : content.length ≤ READ_CHUNK_ADD := hle.trans (Nat.min_le_right _ _)
    rw [slurpLoop.eval_next (slurpStep_one_piece hne hle)]
    -- one cell at least is left behind the content
    have hput : (Cells.malloc (READ_CHUNK_ADD + 1)).put 0 content =
        content.map some ++ none :: Cells.malloc (READ_CHUNK_ADD - content.length) := by
      have hcells : READ_CHUNK_ADD + 1 - content.length = READ_CHUNK_ADD - content.length + 1 := by
        omega
      rw [Cells.put_zero, Cells.malloc, List.drop_replicate, hcells]
      rfl
    rw [hput]
    set s : Slurp := ⟨⟨[], fun i => some (limits (i + 1))⟩,
      content.map some ++ none :: Cells.malloc (READ_CHUNK_ADD - content.length), 0,
      READ_CHUNK_ADD, READ_CHUNK_ADD - content.length⟩
    have hlength : s.buf.length ≤ s.len + 1 := by
      simp only [s, Cells.malloc, List.length_append, List.length_map, List.length_cons,
        List.length_replicate]
      omega
    obtain ⟨k, hgrow⟩ := grow_buf hlength
    refine slurped_of_end none
      (Cells.malloc (READ_CHUNK_ADD - content.length) ++ Cells.malloc k) rfl rfl
      (Nat.sub_sub_self hsmall) ?_
    rw [hgrow, List.append_assoc]
    rfl

/-! ## Several pieces -/

/-- At the heads of the loop: each piece has been written to the beginning of the buffer, and none
of them reaches the last byte of the content, nor will the next one. -/
structure Lost (content : Str) (s : Slurp) : Prop where
  bufp : s.bufp = 0
  room : s.remain ≤ s.len
  count : s.len - s.remain + s.fd.unread.length = content.length
  blank : s.buf.BlankFrom (content.length - 1)
  unfailing : ∃ limits : Nat → Nat, s.fd.limits = fun i => some (limits i)
  short : ∀ limit, s.fd.limits 0 = some limit →
    min (min (limit + 1) (grow s).remain) s.fd.unread.length < content.length

variable {s : Slurp}

theorem Lost.start (hlt : min (limits 0 + 1) READ_CHUNK_ADD < content.length) :
    Lost content ⟨readable content limits, [], 0, 0, 0⟩ := by
  refine ⟨rfl, Nat.le_refl _, Nat.zero_add _, Cells.blankFrom_nil, ⟨limits, rfl⟩, ?_⟩
  intro limit hlimit
  cases hlimit
  exact lt_of_le_of_lt (Nat.min_le_left _ _) hlt

theorem Lost.grow_blank (h : Lost content s) :
    (grow s).buf.BlankFrom (content.length - 1) := by
  unfold grow
  split
  · exact h.blank.realloc _
  · exact h.blank

theorem Lost.next {s' : Slurp} (h : Lost content s) (hnext : slurpStep s = .next s') :
    Lost content s' := by
  obtain ⟨limit, bytes, hlimit, hne, hbytes, rfl⟩ := slurpStep_next hnext
  have hlength : bytes.length = min (min (limit + 1) (grow s).remain) s.fd.unread.length := by
    rw [hbytes, List.length_take]
  have hshort := h.short limit hlimit
  have hpos := List.length_pos_iff.2 hne
  have hcount := h.count
  have hread := grow_len_sub_remain s
  have hroom : (grow s).remain ≤ (grow s).len := by
    have hroom := h.room
    unfold grow
    split
    · exact Nat.add_le_add_right hroom _
    · exact hroom
  obtain ⟨limits, hlimits⟩ := h.unfailing
  refine ⟨?_, ?_, ?_, ?_, ⟨fun i => limits (i + 1), ?_⟩, ?_⟩
  · exact (grow_bufp s).trans h.bufp
  · exact (Nat.sub_le _ _).trans hroom
  · simp only [List.length_drop]
    omega
  · have hle : 0 + bytes.length ≤ content.length - 1 := by omega
    have hblank := h.grow_blank.put (Nat.zero_le _) hle
    rwa [← h.bufp] at hblank
  · simp only [hlimits]
  · -- something has been read by now
    intro limit' _
    have hrest : (s.fd.unread.drop bytes.length).length < content.length := by
      rw [List.length_drop]
      omega
    exact lt_of_le_of_lt (Nat.min_le_right _ _) hrest

/-- The loop is left at the end of the file. -/
theorem unread_of_done {r : Option (Cells UInt8)} {limit : Nat} (h : slurpStep s = .done r)
    (hlimit : s.fd.limits 0 = some limit) : s.fd.unread = [] := by
  by_contra hne
  obtain ⟨c, text, hunread⟩ := List.exists_cons_of_ne_nil hne
  obtain ⟨n, hn⟩ : ∃ n, min (limit + 1) (grow s).remain = n + 1 :=
    Nat.exists_eq_add_one.2 (Nat.lt_min.2 ⟨Nat.succ_pos _, grow_remain_pos s⟩)
  unfold slurpStep read at h
  dsimp only at h
  rw [grow_fd, hlimit] at h
  dsimp only at h
  rw [hn, hunread] at h
  cases h

/-- The last byte of the content is in no cell. -/
theorem not_slurped_of_pieces (hlt : min (limits 0 + 1) READ_CHUNK_ADD < content.length) :
    ¬ Slurped content (slurp_fd (readable content limits)) := by
  rintro ⟨buf, hbuf, htake⟩
  obtain ⟨s, hreach, hdone⟩ :=
    slurpLoop.exists_last ⟨readable content limits, [], 0, 0, 0⟩
  have hlost : Lost content s :=
    hreach.invariant (Lost.start hlt) fun t t' ht hnext => ht.next hnext
  obtain ⟨limits', hlimits⟩ := hlost.unfailing
  have hlimit : s.fd.limits 0 = some (limits' 0) := by rw [hlimits]
  have hunread := unread_of_done hdone hlimit
  have hlast := hdone.symm.trans (slurpStep_end hunread hlimit)
  rw [show slurpLoop.eval _ = some buf from hbuf] at hlast
  obtain rfl := Option.some.inj (Step.done.inj hlast)
  -- the byte in front of the terminator
  have hpos : 0 < content.length := by omega
  have hcell := congrArg (fun cells => cells[content.length - 1]?) htake
  have hcount := hlost.count
  rw [hunread] at hcount
  rw [show s.len - s.remain = content.length from hcount] at hcell
  rw [List.getElem?_take_of_lt (by omega), List.getElem?_set_ne (by omega), List.map_append,
    List.getElem?_append_left (by simpa using hpos), List.getElem?_map] at hcell
  obtain ⟨c, hc⟩ : ∃ c, content[content.length - 1]? = some c :=
    ⟨_, List.getElem?_eq_getElem (by omega)⟩
  rw [hc] at hcell
  exact hlost.grow_blank _ (Nat.le_refl _) c hcell

/-! ## What is returned -/

/-- The buffer holds the content of the file if and only if the first call of `read` hands all of it
over. -/
theorem slurp_fd_correct_iff (content : Str) (limits : Nat → Nat) :
    Slurped content (slurp_fd (readable content limits)) ↔
      content.length ≤ min (limits 0 + 1) READ_CHUNK_ADD := by
  constructor
  · intro h
    by_contra hgt
    exact not_slurped_of_pieces (Nat.lt_of_not_le hgt) h
  · exact slurped_of_one_piece

/-- A file of two bytes that are read one after the other. -/
theorem not_slurped_two_reads :
    ¬ ∀ (content : Str) (limits : Nat → Nat),
      Slurped content (slurp_fd (readable content limits)) := by
  intro h
  exact @not_slurped_of_pieces [97, 98] (fun _ => 0) (by decide) (h _ _)

end Generator
end Kdump

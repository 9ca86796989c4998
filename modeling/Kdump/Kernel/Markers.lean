import Kdump.Kernel.KernelTool

/-!
# Markers — where the configuration begins and ends in the image

* `Head` — the buffer at the head of the loop is a window of the image, with zeros in front;
* `Noted` — an offset that the loop has noted lies inside of a chunk;
* `scan_iff` — when a loop finds both markers.
-/

namespace Kdump
namespace Kernel

open Lib

/-- The image behind the zeros that the first chunk sees in front of it. -/
def padded (image : Str) : Str :=
  List.replicate MAGIC_LEN 0 ++ image

/-- A marker is as long as the overlap, and it has no zeros. -/
structure Marker (magic : Str) : Prop where
  length : magic.length = MAGIC_LEN
  nonzero : magic.head? ≠ some 0

theorem marker_start : Marker magic_start :=
  ⟨rfl, by decide⟩

theorem marker_end : Marker magic_end :=
  ⟨rfl, by decide⟩

namespace Marker

variable {magic : Str} (hmagic : Marker magic)
include hmagic

theorem ne_nil : magic ≠ [] := by
  intro hnil
  have hlength := hmagic.length
  rw [hnil] at hlength
  cases hlength

/-- A marker of the padded image is one of the image. -/
theorem of_padded {image : Str} {p : Nat} (h : OccursAt magic (padded image) p) :
    MAGIC_LEN ≤ p ∧ OccursAt magic image (p - MAGIC_LEN) := by
  by_cases hp : p < MAGIC_LEN
  · -- the zeros do not begin a marker
    have hzero : (padded image)[p]? = some 0 := by
      rw [padded, List.getElem?_append_left (by simpa using hp), List.getElem?_replicate,
        if_pos hp]
    rw [h.getElem? hmagic.ne_nil] at hzero
    exact absurd hzero hmagic.nonzero
  · rw [Nat.not_lt] at hp
    refine ⟨hp, ?_⟩
    rw [← @occursAt_append_left _ magic (List.replicate MAGIC_LEN 0), List.length_replicate,
      Nat.add_sub_cancel' hp]
    exact h

end Marker

theorem occursAt_padded {magic image : Str} {i : Nat} :
    OccursAt magic (padded image) (i + MAGIC_LEN) ↔ OccursAt magic image i := by
  rw [Nat.add_comm]
  conv_lhs => rw [← List.length_replicate (n := MAGIC_LEN) (a := (0 : UInt8))]
  exact occursAt_append_left

theorem padded_drop {image : Str} {n : Nat} :
    (padded image).drop (n + MAGIC_LEN) = image.drop n := by
  rw [padded, Nat.add_comm, ← List.drop_drop, List.drop_left' List.length_replicate]

/-! ## The states at the head of the loop -/

section

variable {missing : Int → Bool} {BUFSIZ : Nat} {image : Str}

/-- The room for a chunk in the buffer. -/
def room (BUFSIZ : Nat) : Nat :=
  BUFSIZ - MAGIC_LEN

/-- Before chunk `k` the buffer begins with the end of the chunk before. -/
structure Head (BUFSIZ : Nat) (image : Str) (k : Nat) (s : Locals) : Prop where
  unread : s.image = image.drop (k * room BUFSIZ)
  fileoffset : s.image ≠ [] → s.fileoffset = k * room BUFSIZ
  length : s.image ≠ [] → s.buffer.length = BUFSIZ
  overlap : s.image ≠ [] → s.buffer.take MAGIC_LEN =
    ((padded image).drop (k * room BUFSIZ)).take MAGIC_LEN

/-- The chunk that is read next. -/
def chunk (BUFSIZ : Nat) (s : Locals) : Str :=
  s.image.take (room BUFSIZ)

/-- What a pass that goes round again does. -/
structure Pass (missing : Int → Bool) (BUFSIZ : Nat) (s s' : Locals) : Prop where
  nonempty : s.image ≠ []
  image : s'.image = s.image.drop (chunk BUFSIZ s).length
  buffer : s'.buffer = moved BUFSIZ (filled s.buffer (chunk BUFSIZ s))
  fileoffset : s'.fileoffset = s.fileoffset + (chunk BUFSIZ s).length
  offsets :
    (missing s.begin_offset = true ∧ s'.end_offset = s.end_offset ∧
      s'.begin_offset = search (filled s.buffer (chunk BUFSIZ s)) magic_start s.fileoffset
        s.begin_offset) ∨
    (missing s.begin_offset = false ∧ missing s.end_offset = true ∧
      s'.begin_offset = s.begin_offset ∧
      s'.end_offset = search (filled s.buffer (chunk BUFSIZ s)) magic_end s.fileoffset
        s.end_offset)

theorem step_next {s s' : Locals} (h : step missing BUFSIZ s = .next s') :
    Pass missing BUFSIZ s s' := by
  have hnonempty : s.image.take (BUFSIZ - MAGIC_LEN) ≠ [] → s.image ≠ [] := by
    intro hne hnil
    exact hne (by rw [hnil, List.take_nil])
  unfold step at h
  dsimp only at h
  split_ifs at h with hnil hbegin hend
  · cases h
    exact ⟨hnonempty hnil, rfl, rfl, rfl, Or.inl ⟨hbegin, rfl, rfl⟩⟩
  · cases h
    exact ⟨hnonempty hnil, rfl, rfl, rfl, Or.inr ⟨by simpa using hbegin, hend, rfl, rfl⟩⟩

theorem step_done {s : Locals} {r : Int × Int} (hsize : 16 < BUFSIZ)
    (h : step missing BUFSIZ s = .done r) :
    r = (s.begin_offset, s.end_offset) ∧
      (s.image = [] ∨ missing s.begin_offset = false ∧ missing s.end_offset = false) := by
  unfold step at h
  dsimp only at h
  split_ifs at h with hnil hbegin hend
  · cases h
    refine ⟨rfl, Or.inl ?_⟩
    rcases List.take_eq_nil_iff.1 hnil with hroom | himage
    · rw [MAGIC_LEN] at hroom
      omega
    · exact himage
  · cases h
    exact ⟨rfl, Or.inr ⟨by simpa using hbegin, by simpa using hend⟩⟩

theorem room_pos (hsize : 16 < BUFSIZ) : 0 < room BUFSIZ ∧ room BUFSIZ + MAGIC_LEN = BUFSIZ := by
  rw [room, MAGIC_LEN]
  omega

namespace Head

variable {k : Nat} {s s' : Locals}

theorem lt_length (hhead : Head BUFSIZ image k s) (hne : s.image ≠ []) :
    k * room BUFSIZ < image.length := by
  rw [hhead.unread] at hne
  exact Nat.not_le.1 fun hle => hne (List.drop_eq_nil_of_le hle)

theorem chunk_length (hhead : Head BUFSIZ image k s) :
    (chunk BUFSIZ s).length = min (room BUFSIZ) (image.length - k * room BUFSIZ) := by
  rw [chunk, List.length_take, hhead.unread, List.length_drop]

/-- From the chunk on, the padded image is the overlap, the chunk and the rest. -/
theorem window (hhead : Head BUFSIZ image k s) (hne : s.image ≠ []) :
    (padded image).drop (k * room BUFSIZ) =
      (s.buffer.take MAGIC_LEN ++ chunk BUFSIZ s) ++ s.image.drop (room BUFSIZ) := by
  have hrest : ((padded image).drop (k * room BUFSIZ)).drop MAGIC_LEN = s.image := by
    rw [List.drop_drop, padded_drop, hhead.unread]
  rw [← List.take_append_drop MAGIC_LEN ((padded image).drop (k * room BUFSIZ)),
    ← hhead.overlap hne, hrest, chunk, List.append_assoc, List.take_append_drop]

theorem length_overlap (hhead : Head BUFSIZ image k s) (hne : s.image ≠ [])
    (hsize : 16 < BUFSIZ) : (s.buffer.take MAGIC_LEN).length = MAGIC_LEN := by
  rw [List.length_take, hhead.length hne, MAGIC_LEN]
  exact Nat.min_eq_left (by omega)

/-- What stands in the fresh part of the buffer stands in the image. -/
theorem occursAt_filled (hhead : Head BUFSIZ image k s) (hne : s.image ≠ [])
    (hsize : 16 < BUFSIZ) {magic : Str} (hmagic : Marker magic) {p : Nat}
    (hp : p ≤ (chunk BUFSIZ s).length) :
    OccursAt magic (filled s.buffer (chunk BUFSIZ s)) p ↔
      OccursAt magic (padded image) (k * room BUFSIZ + p) := by
  have hwindow : p + magic.length ≤ (s.buffer.take MAGIC_LEN ++ chunk BUFSIZ s).length := by
    rw [List.length_append, hhead.length_overlap hne hsize, hmagic.length]
    omega
  have hbefore : ((padded image).take (k * room BUFSIZ)).length = k * room BUFSIZ := by
    rw [List.length_take, padded, List.length_append]
    exact Nat.min_eq_left ((hhead.lt_length hne).le.trans (Nat.le_add_left _ _))
  have himage := @occursAt_window _ magic ((padded image).take (k * room BUFSIZ)) _
    (s.image.drop (room BUFSIZ)) p hwindow
  have hbuffer := @occursAt_window _ magic [] _
    (s.buffer.drop (MAGIC_LEN + (chunk BUFSIZ s).length)) p hwindow
  rw [hbefore, ← hhead.window hne, List.take_append_drop] at himage
  rw [List.nil_append, List.append_assoc, List.length_nil, Nat.zero_add] at hbuffer
  exact hbuffer.trans himage.symm

theorem length_filled (hhead : Head BUFSIZ image k s) (hne : s.image ≠ [])
    (hsize : 16 < BUFSIZ) : (filled s.buffer (chunk BUFSIZ s)).length = BUFSIZ := by
  have hroom := room_pos hsize
  have hle : (chunk BUFSIZ s).length ≤ room BUFSIZ := List.length_take_le _ _
  rw [filled, List.length_append, List.length_append, List.length_drop,
    hhead.length_overlap hne hsize, hhead.length hne]
  omega

/-- One pass goes from the head before chunk `k` to the one before chunk `k + 1`. -/
theorem next (hhead : Head BUFSIZ image k s) (hsize : 16 < BUFSIZ)
    (h : Pass missing BUFSIZ s s') : Head BUFSIZ image (k + 1) s' := by
  have hroom := room_pos hsize
  have hunread : s'.image = image.drop ((k + 1) * room BUFSIZ) := by
    rw [h.image, chunk, hhead.unread, List.drop_drop, List.length_take, List.length_drop,
      Nat.succ_mul]
    rcases Nat.le_total (room BUFSIZ) (image.length - k * room BUFSIZ) with hle | hle
    · rw [Nat.min_eq_left hle]
    · rw [Nat.min_eq_right hle, List.drop_eq_nil_of_le (by omega),
        List.drop_eq_nil_of_le (by omega)]
  -- if there is more to read, then the chunk was a full one
  have hfull : s'.image ≠ [] → (chunk BUFSIZ s).length = room BUFSIZ := by
    intro hne
    rw [hunread] at hne
    have hlt : (k + 1) * room BUFSIZ < image.length :=
      Nat.not_le.1 fun hle => hne (List.drop_eq_nil_of_le hle)
    rw [Nat.succ_mul] at hlt
    rw [hhead.chunk_length]
    exact Nat.min_eq_left (by omega)
  have hlength := hhead.length_filled h.nonempty hsize
  refine ⟨hunread, ?_, ?_, ?_⟩
  · intro hne
    rw [h.fileoffset, hfull hne, hhead.fileoffset h.nonempty]
    push_cast
    ring
  · intro _
    rw [h.buffer, moved, List.length_append, List.length_take, List.length_drop,
      List.length_drop, hlength]
    rw [room] at hroom
    omega
  · intro hne
    have hstale : s.buffer.drop (MAGIC_LEN + (chunk BUFSIZ s).length) = [] := by
      apply List.drop_eq_nil_of_le
      rw [hhead.length h.nonempty, hfull hne]
      omega
    have hfilled : filled s.buffer (chunk BUFSIZ s) =
        s.buffer.take MAGIC_LEN ++ chunk BUFSIZ s := by
      rw [filled, hstale, List.append_nil]
    rw [hfilled] at hlength
    have hroom_le : room BUFSIZ ≤ (s.buffer.take MAGIC_LEN ++ chunk BUFSIZ s).length := by
      omega
    have hend : ((s.buffer.take MAGIC_LEN ++ chunk BUFSIZ s).drop (room BUFSIZ)).length =
        MAGIC_LEN := by
      rw [List.length_drop, hlength]
      omega
    calc s'.buffer.take MAGIC_LEN
        = ((s.buffer.take MAGIC_LEN ++ chunk BUFSIZ s).drop (room BUFSIZ)).take MAGIC_LEN := by
          rw [h.buffer, moved, hfilled, ← room, List.take_of_length_le hend.le,
            List.take_left' hend]
      _ = (((padded image).drop (k * room BUFSIZ)).drop (room BUFSIZ)).take MAGIC_LEN := by
          rw [hhead.window h.nonempty, List.drop_append_of_le_length hroom_le,
            List.take_append_of_le_length hend.ge]
      _ = ((padded image).drop ((k + 1) * room BUFSIZ)).take MAGIC_LEN := by
          rw [List.drop_drop, Nat.succ_mul]

end Head

/-- The invariant rule for the loop, with the number of the chunk. -/
theorem reach_head {initial : Int} {I : Nat → Locals → Prop} (hsize : 16 < BUFSIZ) {s s' : Locals}
    (hstart : s = ⟨image, List.replicate BUFSIZ 0, 0, initial, initial⟩) (h0 : I 0 s)
    (hpass : ∀ k t t', Head BUFSIZ image k t → I k t → Pass missing BUFSIZ t t' → I (k + 1) t')
    (hreach : (loop missing BUFSIZ).Reach s s') : ∃ k, Head BUFSIZ image k s' ∧ I k s' := by
  refine hreach.invariant (I := fun t => ∃ k, Head BUFSIZ image k t ∧ I k t) ?_ ?_
  · refine ⟨0, ?_, h0⟩
    subst hstart
    refine ⟨by simp, by simp, by simp, ?_⟩
    intro _
    rw [Nat.zero_mul, List.drop_zero, padded, List.take_left' List.length_replicate,
      List.take_replicate, Nat.min_eq_left (by rw [MAGIC_LEN]; omega)]
  · rintro t t' ⟨k, hhead, hI⟩ hnext
    have h := step_next hnext
    exact ⟨k + 1, hhead.next hsize h, hpass k t t' hhead hI h⟩

/-! ## What stands for a missing offset -/

/-- The value that the offsets start with is taken for missing, and no later offset is. -/
structure Sentinel (missing : Int → Bool) (initial : Int) : Prop where
  start : missing initial = true
  nonpos : initial ≤ 0
  found : ∀ offset : Nat, 0 < offset → missing offset = false

theorem sentinel_ELF : Sentinel (fun offset => decide (offset < 0)) (-1) := by
  refine ⟨by decide, by decide, ?_⟩
  intro offset _
  exact decide_eq_false (by omega)

theorem sentinel_bzImage : Sentinel (fun offset => decide (offset = 0)) 0 := by
  refine ⟨by decide, by decide, ?_⟩
  intro offset hpos
  exact decide_eq_false (by omega)

/-! ## An offset that is noted lies inside of its chunk -/

/-- The offset belongs to a place of chunk `k`, and not to its first one. -/
def InChunk (BUFSIZ k : Nat) (offset : Int) : Prop :=
  ∃ p, 0 < p ∧ p < room BUFSIZ ∧ offset = (k * room BUFSIZ + p : Nat) - (MAGIC_LEN : Int)

/-- The end is looked for behind the chunk of the beginning. -/
structure Noted (missing : Int → Bool) (initial : Int) (BUFSIZ k : Nat) (s : Locals) : Prop where
  begin_offset : s.begin_offset = initial ∨ ∃ i < k, InChunk BUFSIZ i s.begin_offset
  end_offset : s.end_offset = initial ∨ (missing s.begin_offset = false ∧
    ∃ i j, i < j ∧ j < k ∧ InChunk BUFSIZ i s.begin_offset ∧ InChunk BUFSIZ j s.end_offset)

theorem search_cases {k : Nat} {s : Locals} {magic : Str} (offset : Int)
    (hhead : Head BUFSIZ image k s) (hne : s.image ≠ []) (hsize : 16 < BUFSIZ)
    (hmagic : Marker magic) :
    search (filled s.buffer (chunk BUFSIZ s)) magic s.fileoffset offset = offset ∨
      InChunk BUFSIZ k
        (search (filled s.buffer (chunk BUFSIZ s)) magic s.fileoffset offset) := by
  have hbound := hhead.length_filled hne hsize
  rw [search, findBytes, hbound, hmagic.length, hhead.fileoffset hne]
  cases hfirst : firstMatch magic (filled s.buffer (chunk BUFSIZ s)) (BUFSIZ - MAGIC_LEN) with
  | none => exact Or.inl rfl
  | some p =>
      have hlt := (firstMatch_some.1 hfirst).1
      rcases Nat.eq_zero_or_pos p with rfl | hpos
      · exact Or.inl rfl
      · right
        dsimp only
        rw [if_pos (by exact_mod_cast hpos)]
        refine ⟨p, hpos, hlt, ?_⟩
        push_cast
        rfl

theorem Noted.next {initial : Int} {k : Nat} {s s' : Locals} (hmissing : Sentinel missing initial)
    (hsize : 16 < BUFSIZ) (hhead : Head BUFSIZ image k s)
    (hnoted : Noted missing initial BUFSIZ k s) (h : Pass missing BUFSIZ s s') :
    Noted missing initial BUFSIZ (k + 1) s' := by
  rcases h.offsets with ⟨hbegin, hend', hbegin'⟩ | ⟨hbegin, hend, hbegin', hend'⟩
  · -- nothing has been found so far
    have hinitial : s.end_offset = initial := by
      rcases hnoted.end_offset with hinitial | ⟨hfound, _⟩
      · exact hinitial
      · rw [hbegin] at hfound
        cases hfound
    refine ⟨?_, Or.inl (hend'.trans hinitial)⟩
    rw [hbegin']
    rcases search_cases s.begin_offset hhead h.nonempty hsize marker_start
      with hsame | hchunk
    · rw [hsame]
      rcases hnoted.begin_offset with hinitial | ⟨i, hi, hchunk⟩
      · exact Or.inl hinitial
      · exact Or.inr ⟨i, Nat.lt_succ_of_lt hi, hchunk⟩
    · exact Or.inr ⟨k, Nat.lt_succ_self k, hchunk⟩
  · obtain ⟨i, hi, hchunk⟩ : ∃ i < k, InChunk BUFSIZ i s.begin_offset := by
      rcases hnoted.begin_offset with hinitial | hfound
      · rw [hinitial, hmissing.start] at hbegin
        cases hbegin
      · exact hfound
    refine ⟨Or.inr ⟨i, Nat.lt_succ_of_lt hi, hbegin' ▸ hchunk⟩, ?_⟩
    rw [hbegin', hend']
    rcases search_cases s.end_offset hhead h.nonempty hsize marker_end
      with hsame | hchunk'
    · rw [hsame]
      rcases hnoted.end_offset with hinitial | ⟨_, i', j, hij, hj, hfound⟩
      · exact Or.inl hinitial
      · exact Or.inr ⟨hbegin, i', j, hij, Nat.lt_succ_of_lt hj, hfound⟩
    · exact Or.inr ⟨hbegin, i, k, hi, Nat.lt_succ_self k, hchunk, hchunk'⟩

/-- Offsets that the loop ends with lie inside of two chunks, one behind the other. -/
theorem chunks_of_scan {initial : Int} {a b : Nat} (hmissing : Sentinel missing initial)
    (hsize : 16 < BUFSIZ) (hb : 0 < b)
    (h : scan missing initial BUFSIZ image = (↑a, ↑b)) :
    ∃ i j, i < j ∧ InChunk BUFSIZ i a ∧ InChunk BUFSIZ j b := by
  rcases Loop.exists_last (L := loop missing BUFSIZ)
    ⟨image, List.replicate BUFSIZ 0, 0, initial, initial⟩ with ⟨s, hreach, hdone⟩
  rcases reach_head hsize rfl (I := Noted missing initial BUFSIZ) ⟨Or.inl rfl, Or.inl rfl⟩
    (fun k t t' hhead hnoted hpass => hnoted.next hmissing hsize hhead hpass) hreach
    with ⟨k, _, hnoted⟩
  have hresult := (step_done hsize hdone).1
  rw [← scan, h, Prod.mk.injEq] at hresult
  have hnonpos := hmissing.nonpos
  rcases hnoted.end_offset with hinitial | ⟨_, i, j, hij, _, hbegin, hend⟩
  · rw [hinitial] at hresult
    omega
  · rw [← hresult.1] at hbegin
    rw [← hresult.2] at hend
    exact ⟨i, j, hij, hbegin, hend⟩

theorem InChunk.mod_div {k a : Nat} (h : InChunk BUFSIZ k a) :
    (a + MAGIC_LEN) % room BUFSIZ ≠ 0 ∧ (a + MAGIC_LEN) / room BUFSIZ = k := by
  rcases h with ⟨p, hpos, hlt, hoffset⟩
  have heq : a + MAGIC_LEN = p + room BUFSIZ * k := by
    rw [MAGIC_LEN] at hoffset ⊢
    rw [Nat.mul_comm]
    omega
  rw [heq, Nat.add_mul_mod_self_left, Nat.mod_eq_of_lt hlt,
    Nat.add_mul_div_left _ _ (Nat.zero_lt_of_lt hlt), Nat.div_eq_of_lt hlt, Nat.zero_add]
  exact ⟨hpos.ne', rfl⟩

/-! ## Markers in two chunks are found -/

/-- The marker at `t` is the first one behind the place where the chunk begins. -/
structure Ahead (BUFSIZ : Nat) (image magic : Str) (k t : Nat) : Prop where
  occurs : OccursAt magic image t
  le : k ≤ (t + MAGIC_LEN) / room BUFSIZ
  inside : (t + MAGIC_LEN) % room BUFSIZ ≠ 0
  first : ∀ j, k * room BUFSIZ ≤ j + MAGIC_LEN → j < t → ¬ OccursAt magic image j

theorem search_ahead {k t : Nat} {s : Locals} {magic : Str} (offset : Int)
    (hhead : Head BUFSIZ image k s) (hne : s.image ≠ []) (hsize : 16 < BUFSIZ)
    (hmagic : Marker magic) (hahead : Ahead BUFSIZ image magic k t) :
    search (filled s.buffer (chunk BUFSIZ s)) magic s.fileoffset offset =
      if k < (t + MAGIC_LEN) / room BUFSIZ then offset else t := by
  have hroom := room_pos hsize
  have hfits : t + MAGIC_LEN ≤ image.length := by
    have hle := hahead.occurs.le_length hmagic.ne_nil
    rwa [hmagic.length] at hle
  have hbound := hhead.length_filled hne hsize
  have hsplit := Nat.div_add_mod (t + MAGIC_LEN) (room BUFSIZ)
  -- no marker in front of the one at `t`
  have hbefore : ∀ p ≤ (chunk BUFSIZ s).length, k * room BUFSIZ + p < t + MAGIC_LEN →
      ¬ OccursAt magic (filled s.buffer (chunk BUFSIZ s)) p := by
    intro p hp hlt hoccurs
    rw [hhead.occursAt_filled hne hsize hmagic hp] at hoccurs
    rcases hmagic.of_padded hoccurs with ⟨hle, hoccurs⟩
    exact hahead.first _ (by omega) (by omega) hoccurs
  rw [search, findBytes, hbound, hmagic.length, hhead.fileoffset hne, ← room]
  rcases hahead.le.lt_or_eq with hlt | heq
  · have hnext : (k + 1) * room BUFSIZ ≤ t + MAGIC_LEN :=
      (Nat.mul_le_mul_right _ hlt).trans (Nat.div_mul_le_self _ _)
    rw [Nat.succ_mul] at hnext
    have hnone : firstMatch magic (filled s.buffer (chunk BUFSIZ s)) (room BUFSIZ) = none := by
      apply firstMatch_none.2
      intro p hp
      refine hbefore p ?_ (by omega)
      rw [hhead.chunk_length]
      exact le_min hp.le (by omega)
    rw [hnone, if_pos hlt]
    rfl
  · rw [← heq, Nat.mul_comm] at hsplit
    have hinside := Nat.mod_lt (t + MAGIC_LEN) hroom.1
    have hread : (t + MAGIC_LEN) % room BUFSIZ ≤ (chunk BUFSIZ s).length := by
      rw [hhead.chunk_length]
      exact le_min hinside.le (by omega)
    have hsome : firstMatch magic (filled s.buffer (chunk BUFSIZ s)) (room BUFSIZ) =
        some ((t + MAGIC_LEN) % room BUFSIZ) := by
      apply firstMatch_some.2
      refine ⟨hinside, ?_, fun p hp => hbefore p (by omega) (by omega)⟩
      rw [hhead.occursAt_filled hne hsize hmagic hread, hsplit]
      exact occursAt_padded.2 hahead.occurs
    have hpos := Nat.pos_of_ne_zero hahead.inside
    rw [hsome, if_neg heq.not_lt]
    dsimp only
    rw [if_pos (by exact_mod_cast hpos), ← Nat.cast_mul, ← Nat.cast_add, hsplit]
    push_cast
    ring

/-- What has been found before chunk `k`. -/
structure Found (BUFSIZ : Nat) (initial : Int) (a b k : Nat) (s : Locals) : Prop where
  begin_offset : s.begin_offset = if k ≤ (a + MAGIC_LEN) / room BUFSIZ then initial else ↑a
  end_offset : s.end_offset = if k ≤ (b + MAGIC_LEN) / room BUFSIZ then initial else ↑b

theorem Found.next {initial : Int} {a b k : Nat} {s s' : Locals}
    (hmissing : Sentinel missing initial) (hsize : 16 < BUFSIZ) (ha : 0 < a)
    (hstart : FirstFrom magic_start image 0 a) (hend : FirstFrom magic_end image (a + 1) b)
    (hbegins : (a + MAGIC_LEN) % room BUFSIZ ≠ 0) (hends : (b + MAGIC_LEN) % room BUFSIZ ≠ 0)
    (horder : (a + MAGIC_LEN) / room BUFSIZ < (b + MAGIC_LEN) / room BUFSIZ)
    (hhead : Head BUFSIZ image k s) (hfound : Found BUFSIZ initial a b k s)
    (h : Pass missing BUFSIZ s s') : Found BUFSIZ initial a b (k + 1) s' := by
  have hbegin := hfound.begin_offset
  have hendo := hfound.end_offset
  rcases Nat.lt_or_ge ((a + MAGIC_LEN) / room BUFSIZ) k with hlt | hge
  · -- the beginning is known
    rw [if_neg hlt.not_ge] at hbegin
    rcases h.offsets with ⟨hmiss, _⟩ | ⟨_, hmiss, hbegin', hend'⟩
    · rw [hbegin, hmissing.found a ha] at hmiss
      cases hmiss
    · have hle : k ≤ (b + MAGIC_LEN) / room BUFSIZ := by
        rw [← Nat.not_lt]
        intro hlt'
        rw [hendo, if_neg hlt'.not_ge, hmissing.found b (Nat.lt_of_lt_of_le (by omega) hend.le)]
          at hmiss
        cases hmiss
      have hahead : Ahead BUFSIZ image magic_end k b := by
        refine ⟨hend.occurs, hle, hends, fun j hj hjb => hend.first j ?_ hjb⟩
        have hbehind := (Nat.div_lt_iff_lt_mul (room_pos hsize).1).1 hlt
        omega
      refine ⟨?_, ?_⟩
      · rw [hbegin', hbegin, if_neg (by omega)]
      · rw [hend', search_ahead _ hhead h.nonempty hsize marker_end hahead, hendo, if_pos hle]
        rfl
  · -- the beginning is still being looked for, and so is the end
    rw [if_pos hge] at hbegin
    rw [if_pos (hge.trans horder.le)] at hendo
    rcases h.offsets with ⟨_, hend', hbegin'⟩ | ⟨hmiss, _⟩
    · have hahead : Ahead BUFSIZ image magic_start k a :=
        ⟨hstart.occurs, hge, hbegins, fun j _ hja => hstart.first j (Nat.zero_le j) hja⟩
      refine ⟨?_, ?_⟩
      · rw [hbegin', search_ahead _ hhead h.nonempty hsize marker_start hahead, hbegin]
        rfl
      · rw [hend', hendo, if_pos (by omega)]
    · rw [hbegin, hmissing.start] at hmiss
      cases hmiss

theorem scan_of_chunks {initial : Int} {a b : Nat} (hmissing : Sentinel missing initial)
    (hsize : 16 < BUFSIZ) (ha : 0 < a)
    (hstart : FirstFrom magic_start image 0 a) (hend : FirstFrom magic_end image (a + 1) b)
    (hbegins : (a + MAGIC_LEN) % room BUFSIZ ≠ 0) (hends : (b + MAGIC_LEN) % room BUFSIZ ≠ 0)
    (horder : (a + MAGIC_LEN) / room BUFSIZ < (b + MAGIC_LEN) / room BUFSIZ) :
    scan missing initial BUFSIZ image = (↑a, ↑b) := by
  rcases Loop.exists_last (L := loop missing BUFSIZ)
    ⟨image, List.replicate BUFSIZ 0, 0, initial, initial⟩ with ⟨s, hreach, hdone⟩
  rcases reach_head hsize rfl (I := Found BUFSIZ initial a b)
    ⟨by rw [if_pos (Nat.zero_le _)], by rw [if_pos (Nat.zero_le _)]⟩
    (fun k t t' hhead hfound hpass => hfound.next hmissing hsize ha hstart hend hbegins hends
      horder hhead hpass) hreach
    with ⟨k, hhead, hfound⟩
  have hbegin := hfound.begin_offset
  have hendo := hfound.end_offset
  rcases step_done hsize hdone with ⟨hresult, hlast⟩
  have hbehind : (b + MAGIC_LEN) / room BUFSIZ < k := by
    rcases hlast with hnil | ⟨hbegun, hended⟩
    · -- the end of the image lies behind the marker
      rw [hhead.unread, List.drop_eq_nil_iff] at hnil
      have hfits := hend.occurs.le_length marker_end.ne_nil
      rw [marker_end.length] at hfits
      refine Nat.lt_of_mul_lt_mul_right (a := room BUFSIZ) ?_
      have hsplit := Nat.div_add_mod' (b + MAGIC_LEN) (room BUFSIZ)
      have hpos := Nat.pos_of_ne_zero hends
      omega
    · rw [← Nat.not_le]
      intro hle
      rw [hendo, if_pos hle, hmissing.start] at hended
      cases hended
  rw [if_neg (by omega)] at hbegin hendo
  rw [scan, hresult, hbegin, hendo]

/-! ## When the markers are found -/

theorem scan_iff {initial : Int} {a b : Nat} (hmissing : Sentinel missing initial)
    (hsize : 16 < BUFSIZ) (ha : 0 < a)
    (hstart : FirstFrom magic_start image 0 a) (hend : FirstFrom magic_end image (a + 1) b) :
    scan missing initial BUFSIZ image = (↑a, ↑b) ↔
      (a + MAGIC_LEN) % (BUFSIZ - MAGIC_LEN) ≠ 0 ∧ (b + MAGIC_LEN) % (BUFSIZ - MAGIC_LEN) ≠ 0 ∧
        (a + MAGIC_LEN) / (BUFSIZ - MAGIC_LEN) < (b + MAGIC_LEN) / (BUFSIZ - MAGIC_LEN) := by
  constructor
  · intro h
    rcases chunks_of_scan hmissing hsize (Nat.zero_lt_of_lt hend.le) h with
      ⟨i, j, hij, hbegin, hends⟩
    refine ⟨hbegin.mod_div.1, hends.mod_div.1, ?_⟩
    calc (a + MAGIC_LEN) / room BUFSIZ
        = i := hbegin.mod_div.2
      _ < j := hij
      _ = (b + MAGIC_LEN) / room BUFSIZ := hends.mod_div.2.symm
  · rintro ⟨hbegins, hends, horder⟩
    exact scan_of_chunks hmissing hsize ha hstart hend hbegins hends horder

end

/-- Both loops find both markers exactly if each of them stands inside of its chunk and the
second one stands in a later chunk than the first one. -/
theorem markers_found_iff {BUFSIZ a b : Nat} {image : Str} (hsize : 16 < BUFSIZ) (ha : 0 < a)
    (hstart : FirstFrom magic_start image 0 a) (hend : FirstFrom magic_end image (a + 1) b) :
    (scanELF BUFSIZ image = (↑a, ↑b) ∧ scanBzImage BUFSIZ image = (↑a, ↑b)) ↔
      (a + 8) % (BUFSIZ - 8) ≠ 0 ∧ (b + 8) % (BUFSIZ - 8) ≠ 0 ∧
        (a + 8) / (BUFSIZ - 8) < (b + 8) / (BUFSIZ - 8) := by
  have helf : scanELF BUFSIZ image = (↑a, ↑b) ↔ _ := scan_iff sentinel_ELF hsize ha hstart hend
  have hbz : scanBzImage BUFSIZ image = (↑a, ↑b) ↔ _ :=
    scan_iff sentinel_bzImage hsize ha hstart hend
  rw [helf, hbz, and_self]
  rfl

/-- An image with a marker in the first chunk and one in the fourth. -/
theorem markers_found_small :
    scanELF 24 (List.replicate 5 1 ++ magic_start ++ List.replicate 30 2 ++ magic_end) = (5, 43) ∧
      scanBzImage 24 (List.replicate 5 1 ++ magic_start ++ List.replicate 30 2 ++ magic_end) =
        (5, 43) :=
  (markers_found_iff (a := 5) (b := 43) (by decide) (by decide) (by decide)
    (by decide)).2 (by decide)

/-- An image whose first marker stands at the end of the first chunk. -/
def edgeImage : Str :=
  List.replicate 8176 1 ++ (magic_start ++ (List.replicate 8192 2 ++ magic_end))

theorem edgeImage_head {j : Nat} (hj : j < 16376) (h : edgeImage[j]? = some 73) : j = 8176 := by
  rw [edgeImage, List.getElem?_append, List.length_replicate, List.getElem?_replicate] at h
  split_ifs at h with hlt
  · cases h
  · rw [List.getElem?_append] at h
    split_ifs at h with hmarker
    · have hj8 : j - 8176 < 8 := hmarker
      have hfirst : ∀ i < 8, magic_start[i]? = some 73 → i = 0 := by decide
      have hzero := hfirst _ hj8 h
      omega
    · have hlength : magic_start.length = 8 := rfl
      rw [hlength, List.getElem?_append_left (by rw [List.length_replicate]; omega),
        List.getElem?_replicate, if_pos (by omega)] at h
      cases h

/-- The marker that ends with the first chunk is not found, in a buffer of the usual size. -/
theorem marker_at_edge :
    ¬ ∀ (BUFSIZ a b : Nat) (image : Str), 16 < BUFSIZ → 0 < a →
      FirstFrom magic_start image 0 a → FirstFrom magic_end image (a + 1) b → a + 8 ≤ b →
      scanELF BUFSIZ image = (↑a, ↑b) ∧ scanBzImage BUFSIZ image = (↑a, ↑b) := by
  intro h
  have hstart : FirstFrom magic_start edgeImage 0 8176 := by
    refine ⟨Nat.zero_le _, ?_, ?_⟩
    · have hoccurs := (@occursAt_append_left _ magic_start (List.replicate 8176 1)
        (magic_start ++ (List.replicate 8192 2 ++ magic_end)) 0).2 (List.prefix_append _ _)
      rwa [List.length_replicate] at hoccurs
    · intro j _ hj hoccurs
      have heq := edgeImage_head (hj.trans (by decide)) (hoccurs.getElem? marker_start.ne_nil)
      omega
  have hend : FirstFrom magic_end edgeImage 8177 16376 := by
    refine ⟨by decide, ?_, ?_⟩
    · have hbehind : OccursAt magic_end (List.replicate 8192 2 ++ magic_end) (8192 + 0) := by
        have hoccurs := (@occursAt_append_left _ magic_end (List.replicate 8192 2) magic_end 0).2
          (List.prefix_refl _)
        rwa [List.length_replicate] at hoccurs
      have hoccurs := (@occursAt_append_left _ magic_end (List.replicate 8176 1) _ _).2
        ((@occursAt_append_left _ magic_end magic_start _ _).2 hbehind)
      rwa [List.length_replicate] at hoccurs
    · intro j hle hj hoccurs
      have heq := edgeImage_head hj (hoccurs.getElem? marker_end.ne_nil)
      omega
  have hfound := (h 8192 8176 16376 edgeImage (by decide) (by decide) hstart hend (by decide)).1
  rcases chunks_of_scan sentinel_ELF (by decide) (by decide) hfound with ⟨i, _, _, hchunk, _⟩
  exact hchunk.mod_div.1 rfl

end Kernel
end Kdump

import Kdump.Kernel.KernelTool

/-!
# Chunks — what the buffer shows of an image

The loops that look through an image read it in chunks, behind a gap at the beginning of the buffer,
and move the last bytes of a chunk in front of the next one.

* `held` — the buffer before a chunk is read, and `seen`, the buffer behind it;
* `moved_seen` — each chunk leaves the buffer as the next one expects it;
* `shown` — the offset of a word that is found in the buffer;
* `FirstShown` — the first chunk that shows a word.
-/

namespace Kdump
namespace Kernel

open Lib

/-- The buffer behind `read(fd, buffer+gap, BUFSIZ-gap)`. -/
def filledAt (gap : Nat) (buffer chars : Str) : Str :=
  buffer.take gap ++ (chars ++ buffer.drop (gap + chars.length))

theorem filled_eq (buffer chars : Str) : filled buffer chars = filledAt MAGIC_LEN buffer chars :=
  rfl

section

variable (BUFSIZ gap : Nat) (image : Str)

def chunkAt (c : Nat) : Str :=
  (image.drop (c * (BUFSIZ - gap))).take (BUFSIZ - gap)

/-- The buffer before chunk `c` is read.  Zeros at first; then the last bytes of the chunk before,
with the rest of that chunk still in its place. -/
def held : (c : Nat) → Str
  | 0 => List.replicate BUFSIZ 0
  | c + 1 =>
      (image.drop ((c + 1) * (BUFSIZ - gap) - MAGIC_LEN)).take MAGIC_LEN ++
        (image.drop (c * (BUFSIZ - gap) + (MAGIC_LEN - gap))).take
          (BUFSIZ - gap - (MAGIC_LEN - gap))

/-- The buffer that is searched when chunk `c` has been read. -/
def seen (c : Nat) : Str :=
  filledAt gap (held BUFSIZ gap image c) (chunkAt BUFSIZ gap image c)

/-- The offset in the image of a word that is found there.  Position 0 does not count. -/
def shown (word : Str) (c : Nat) : Option Int :=
  match firstMatch word (seen BUFSIZ gap image c) (BUFSIZ - word.length) with
  | some p => if 0 < p then some ((c * (BUFSIZ - gap) + p : Nat) - gap) else none
  | none => none

/-- From chunk `start` on, chunk `c` is the first one that shows the word at an offset that
counts. -/
structure FirstShown (counts : Int → Prop) (word : Str) (start c : Nat) (offset : Int) : Prop where
  le : start ≤ c
  lt_length : c * (BUFSIZ - gap) < image.length
  shown : shown BUFSIZ gap image word c = some offset
  noted : counts offset
  first : ∀ i, start ≤ i → i < c → ∀ other, Kernel.shown BUFSIZ gap image word i = some other →
    ¬ counts other

end

variable {BUFSIZ gap : Nat} {image : Str} {c : Nat}

/-- Some chunk is the first one, or there is none. -/
theorem exists_firstShown (counts : Int → Prop) (word : Str) (start : Nat) :
    (∃ c offset, FirstShown BUFSIZ gap image counts word start c offset) ∨
      ∀ i, start ≤ i → i * (BUFSIZ - gap) < image.length →
        ∀ other, shown BUFSIZ gap image word i = some other → ¬ counts other := by
  by_cases h : ∃ c, start ≤ c ∧ c * (BUFSIZ - gap) < image.length ∧
      ∃ offset, shown BUFSIZ gap image word c = some offset ∧ counts offset
  · left
    classical
    obtain ⟨hle, hlt, offset, hshown, hcounts⟩ := Nat.find_spec h
    refine ⟨Nat.find h, offset, hle, hlt, hshown, hcounts, ?_⟩
    intro i hi hfind other hother hcounts'
    have hlt' : i * (BUFSIZ - gap) < image.length :=
      lt_of_le_of_lt (Nat.mul_le_mul_right _ hfind.le) hlt
    exact Nat.find_min h hfind ⟨hi, hlt', other, hother, hcounts'⟩
  · right
    intro i hi hlt other hother hcounts
    exact h ⟨i, hi, hlt, other, hother, hcounts⟩

/-- There is one first chunk, with one offset. -/
theorem FirstShown.unique {counts : Int → Prop} {word : Str} {start c' : Nat}
    {offset offset' : Int} (h : FirstShown BUFSIZ gap image counts word start c offset)
    (h' : FirstShown BUFSIZ gap image counts word start c' offset') :
    c = c' ∧ offset = offset' := by
  have hc : c = c' := by
    apply le_antisymm
    · exact not_lt.1 fun hlt => h.first c' h'.le hlt offset' h'.shown h'.noted
    · exact not_lt.1 fun hlt => h'.first c h.le hlt offset h.shown h.noted
  subst hc
  exact ⟨rfl, Option.some.inj (h.shown.symm.trans h'.shown)⟩

theorem shown_eq_some {word : Str} {offset : Int} :
    shown BUFSIZ gap image word c = some offset ↔
      ∃ p, 0 < p ∧ p < BUFSIZ - word.length ∧ OccursAt word (seen BUFSIZ gap image c) p ∧
        (∀ q < p, ¬ OccursAt word (seen BUFSIZ gap image c) q) ∧
          offset = (c * (BUFSIZ - gap) + p : Nat) - gap := by
  unfold shown
  constructor
  · intro h
    cases hfirst : firstMatch word (seen BUFSIZ gap image c) (BUFSIZ - word.length) with
    | none =>
        rw [hfirst] at h
        cases h
    | some p =>
        simp only [hfirst] at h
        split_ifs at h with hp
        obtain ⟨hlt, hoccurs, hbefore⟩ := firstMatch_some.1 hfirst
        exact ⟨p, hp, hlt, hoccurs, hbefore, (Option.some.inj h).symm⟩
  · rintro ⟨p, hp, hlt, hoccurs, hbefore, rfl⟩
    rw [firstMatch_some.2 ⟨hlt, hoccurs, hbefore⟩]
    exact if_pos hp

/-- A chunk shows a word that is in the buffer, unless the buffer begins with it. -/
theorem shown_ne_none {word : Str} {p : Nat}
    (hlt : p < BUFSIZ - word.length) (hoccurs : OccursAt word (seen BUFSIZ gap image c) p)
    (hzero : ¬ OccursAt word (seen BUFSIZ gap image c) 0) :
    ∃ offset, shown BUFSIZ gap image word c = some offset := by
  unfold shown
  cases hfirst : firstMatch word (seen BUFSIZ gap image c) (BUFSIZ - word.length) with
  | none => exact absurd hoccurs (firstMatch_none.1 hfirst p hlt)
  | some q =>
      have hq : 0 < q := by
        apply Nat.pos_of_ne_zero
        rintro rfl
        exact hzero (firstMatch_some.1 hfirst).2.1
      exact ⟨_, if_pos hq⟩

/-- The buffer has room for a gap and a chunk, and both are as long as what is moved. -/
structure Fits (BUFSIZ gap : Nat) : Prop where
  gap_le : gap ≤ MAGIC_LEN
  le_room : MAGIC_LEN ≤ BUFSIZ - gap

namespace Fits

variable (hfits : Fits BUFSIZ gap)
include hfits

theorem gap_add_room : gap + (BUFSIZ - gap) = BUFSIZ := by
  have hroom := hfits.le_room
  rw [MAGIC_LEN] at hroom
  omega

theorem room_pos : 0 < BUFSIZ - gap := by
  have hroom := hfits.le_room
  rw [MAGIC_LEN] at hroom
  omega

theorem length_held (hle : c * (BUFSIZ - gap) ≤ image.length) :
    (held BUFSIZ gap image c).length = BUFSIZ := by
  have hsum := hfits.gap_add_room
  have hroom := hfits.le_room
  have hgap := hfits.gap_le
  cases c with
  | zero => exact List.length_replicate
  | succ c =>
      rw [Nat.succ_mul] at hle
      rw [held, List.length_append, List.length_take, List.length_take, List.length_drop,
        List.length_drop, Nat.succ_mul]
      rw [MAGIC_LEN] at *
      omega

theorem length_seen (hle : c * (BUFSIZ - gap) ≤ image.length) :
    (seen BUFSIZ gap image c).length = BUFSIZ := by
  have hheld := hfits.length_held hle
  have hsum := hfits.gap_add_room
  have hchunk : (chunkAt BUFSIZ gap image c).length ≤ BUFSIZ - gap := List.length_take_le _ _
  rw [seen, filledAt, List.length_append, List.length_append, List.length_take, List.length_drop,
    hheld]
  omega

/-- Behind a full chunk, the buffer is what the next chunk expects. -/
theorem moved_seen (hle : (c + 1) * (BUFSIZ - gap) ≤ image.length) :
    moved BUFSIZ (seen BUFSIZ gap image c) = held BUFSIZ gap image (c + 1) := by
  have hsum := hfits.gap_add_room
  have hroom := hfits.le_room
  have hgap := hfits.gap_le
  have hmul : (c + 1) * (BUFSIZ - gap) = c * (BUFSIZ - gap) + (BUFSIZ - gap) := Nat.succ_mul _ _
  have hheld : (held BUFSIZ gap image c).length = BUFSIZ := hfits.length_held (by omega)
  have hfull : (chunkAt BUFSIZ gap image c).length = BUFSIZ - gap := by
    rw [chunkAt, List.length_take, List.length_drop]
    omega
  -- nothing is left of the chunk before
  have hseen : seen BUFSIZ gap image c =
      (held BUFSIZ gap image c).take gap ++ chunkAt BUFSIZ gap image c := by
    rw [seen, filledAt, hfull, hsum, List.drop_eq_nil_of_le hheld.le, List.append_nil]
  have htake : ((held BUFSIZ gap image c).take gap).length = gap := by
    rw [List.length_take, hheld]
    omega
  have hdrop : ∀ n, gap ≤ n → (seen BUFSIZ gap image c).drop n =
      (image.drop (c * (BUFSIZ - gap) + (n - gap))).take (BUFSIZ - gap - (n - gap)) := by
    intro n hn
    have hn' : n = ((held BUFSIZ gap image c).take gap).length + (n - gap) := by omega
    rw [hseen]
    conv_lhs => rw [hn', List.drop_length_add_append, chunkAt, List.drop_take, List.drop_drop]
  have hlast : c * (BUFSIZ - gap) + (BUFSIZ - MAGIC_LEN - gap) =
      (c + 1) * (BUFSIZ - gap) - MAGIC_LEN := by
    rw [MAGIC_LEN] at *
    omega
  have hlength : BUFSIZ - gap - (BUFSIZ - MAGIC_LEN - gap) = MAGIC_LEN := by
    rw [MAGIC_LEN] at *
    omega
  rw [moved, held, hdrop MAGIC_LEN hgap, hdrop (BUFSIZ - MAGIC_LEN) (by rw [MAGIC_LEN] at *; omega),
    hlast, hlength, List.take_take, Nat.min_self]

end Fits

/-- A word in the chunk stands in the image. -/
theorem occursAt_seen (hfits : Fits BUFSIZ gap) (hle : c * (BUFSIZ - gap) ≤ image.length)
    {word : Str} {p : Nat} (hgap : gap ≤ p)
    (hinside : p - gap + word.length ≤ (chunkAt BUFSIZ gap image c).length) :
    OccursAt word (seen BUFSIZ gap image c) p ↔
      OccursAt word image (c * (BUFSIZ - gap) + (p - gap)) := by
  have hbefore : (image.take (c * (BUFSIZ - gap))).length = c * (BUFSIZ - gap) := by
    rw [List.length_take]
    exact Nat.min_eq_left hle
  have hfront : ((held BUFSIZ gap image c).take gap).length = gap := by
    have hheld := hfits.length_held hle
    have hsum := hfits.gap_add_room
    rw [List.length_take, hheld]
    omega
  have himage := @occursAt_window _ word (image.take (c * (BUFSIZ - gap))) _
    ((image.drop (c * (BUFSIZ - gap))).drop (BUFSIZ - gap)) (p - gap) hinside
  have hbuffer := @occursAt_window _ word ((held BUFSIZ gap image c).take gap) _
    ((held BUFSIZ gap image c).drop (gap + (chunkAt BUFSIZ gap image c).length)) (p - gap) hinside
  rw [hbefore, chunkAt, List.take_append_drop, List.take_append_drop] at himage
  rw [hfront, Nat.add_sub_cancel' hgap] at hbuffer
  exact hbuffer.trans himage.symm

/-- In front of the first chunk there are zeros. -/
theorem not_occursAt_zeros (hfits : Fits BUFSIZ gap) {word : Str} (hne : word ≠ [])
    (hhead : word.head? ≠ some 0) {p : Nat} (hp : p < gap) :
    ¬ OccursAt word (seen BUFSIZ gap image 0) p := by
  intro h
  have hsum := hfits.gap_add_room
  have hzero : (seen BUFSIZ gap image 0)[p]? = some 0 := by
    rw [seen, filledAt, held, List.take_replicate, Nat.min_eq_left (by omega),
      List.getElem?_append_left (by simpa using hp), List.getElem?_replicate, if_pos hp]
  rw [h.getElem? hne] at hzero
  exact hhead hzero

theorem shown_nonneg (hfits : Fits BUFSIZ gap) {word : Str} (hne : word ≠ [])
    (hhead : word.head? ≠ some 0) {offset : Int}
    (h : shown BUFSIZ gap image word c = some offset) : 0 ≤ offset := by
  obtain ⟨p, _, _, hoccurs, _, hoffset⟩ := shown_eq_some.1 h
  have hroom := hfits.le_room
  have hgap := hfits.gap_le
  have hle : gap ≤ c * (BUFSIZ - gap) + p := by
    rcases Nat.eq_zero_or_pos c with rfl | hc
    · by_contra hlt
      exact not_occursAt_zeros hfits hne hhead (by omega) hoccurs
    · have hmul : BUFSIZ - gap ≤ c * (BUFSIZ - gap) := Nat.le_mul_of_pos_left _ hc
      omega
  omega

end Kernel
end Kdump

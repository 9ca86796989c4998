import Kdump.Kernel.Chunks

/-!
# GzipMagic — where the compressed kernel begins in a `bzImage`

`extractKernelConfigbzImage` looks for the magic number of a gzip header.  The chunks are read
behind a gap of four bytes, but the eight bytes that are moved, and the offsets, go by `MAGIC_LEN`.

* `gzipStart` — the search, and the offset to which the file is positioned for `gzdopen`;
* `eval_head` — one chunk of the search;
* `Halves` and `Behind` — what the search takes for the magic number besides the magic number;
* `gzipStart_iff` — when the search gives the place of the magic number.
-/

namespace Kdump
namespace Kernel

open Lib

/-! ## The search -/

/-- The first bytes of a gzip header. -/
def searchfor : Str :=
  [0x1f, 0x8b, 0x08, 0x0]

/-- The local variables, and what has not been read of the image. -/
structure GzipLocals where
  image : Str
  buffer : Str
  fileoffset : Int

/-- One pass of the loop; the result is `begin_offset`. -/
def gzipStep (BUFSIZ : Nat) (s : GzipLocals) : Step GzipLocals Int :=
  let chars := s.image.take (BUFSIZ - 4)
  if chars = [] then
    .done 0
  else
    let buffer := filledAt 4 s.buffer chars
    let pos := findBytes buffer searchfor
    if pos > 0 then
      .done (s.fileoffset + pos - MAGIC_LEN)
    else
      .next ⟨s.image.drop chars.length, moved BUFSIZ buffer, s.fileoffset + chars.length⟩

theorem gzipStep_image_lt {BUFSIZ : Nat} {s s' : GzipLocals} (h : gzipStep BUFSIZ s = .next s') :
    s'.image.length < s.image.length := by
  unfold gzipStep at h
  dsimp only at h
  split_ifs at h with hnil
  cases h
  have hpos := List.length_pos_iff.2 hnil
  rw [List.length_take] at hpos
  dsimp only
  rw [List.length_drop, List.length_take]
  omega

def gzipLoop (BUFSIZ : Nat) : Loop GzipLocals Int where
  step := gzipStep BUFSIZ
  measure s := s.image.length
  decreases := gzipStep_image_lt

/-- `extractKernelConfigbzImage` up to `gzdopen`: the offset that `lseek` is called with. -/
def gzipStart (BUFSIZ : Nat) (image : Str) : Except Thrown Int :=
  let begin_offset := (gzipLoop BUFSIZ).eval ⟨image, List.replicate BUFSIZ 0, 0⟩
  if begin_offset = 0 then
    .error (.KError (str "Magic 0x1f 0x8b 0x08 0x0 not found."))
  else if begin_offset + 4 < 0 then
    .error (.KSystemError (str "lseek() failed") 22)
  else
    .ok (begin_offset + 4)

/-! ## Chunk by chunk -/

variable {BUFSIZ : Nat} {image : Str} {c : Nat}

/-- The state of the loop before chunk `c`. -/
def gzipHead (BUFSIZ : Nat) (image : Str) (c : Nat) : GzipLocals :=
  ⟨image.drop (c * (BUFSIZ - 4)), held BUFSIZ 4 image c, (c * (BUFSIZ - 4) : Nat)⟩

theorem fits_gzip (hsize : 16 < BUFSIZ) : Fits BUFSIZ 4 :=
  ⟨by decide, by rw [MAGIC_LEN]; omega⟩

theorem eval_end {s : GzipLocals} (h : s.image = []) : (gzipLoop BUFSIZ).eval s = 0 := by
  have hstep : gzipStep BUFSIZ s = .done 0 := by
    unfold gzipStep
    dsimp only
    rw [h, List.take_nil, if_pos rfl]
  exact Loop.eval_done _ hstep

/-- What a search of the buffer gives. -/
theorem findBytes_seen (hsize : 16 < BUFSIZ) (hle : c * (BUFSIZ - 4) ≤ image.length) :
    shown BUFSIZ 4 image searchfor c =
      if findBytes (seen BUFSIZ 4 image c) searchfor > 0 then
        some ((c * (BUFSIZ - 4) : Nat) + findBytes (seen BUFSIZ 4 image c) searchfor - 4)
      else none := by
  have hlength := (fits_gzip hsize).length_seen hle
  rw [shown, findBytes, hlength]
  cases firstMatch searchfor (seen BUFSIZ 4 image c) (BUFSIZ - searchfor.length) with
  | none => exact (if_neg (by decide)).symm
  | some p =>
      dsimp only
      by_cases hp : 0 < p
      · rw [if_pos hp, if_pos (by exact_mod_cast hp)]
        push_cast
        rfl
      · rw [if_neg hp, if_neg (by exact_mod_cast hp)]

/-- One chunk. -/
theorem eval_head (hsize : 16 < BUFSIZ) (hlt : c * (BUFSIZ - 4) < image.length) :
    (gzipLoop BUFSIZ).eval (gzipHead BUFSIZ image c) =
      match shown BUFSIZ 4 image searchfor c with
      | some offset => offset - 4
      | none => (gzipLoop BUFSIZ).eval (gzipHead BUFSIZ image (c + 1)) := by
  have hfits := fits_gzip hsize
  have hnil : (gzipHead BUFSIZ image c).image.take (BUFSIZ - 4) ≠ [] := by
    have hroom := hfits.room_pos
    rw [gzipHead, ← List.length_pos_iff, List.length_take, List.length_drop]
    omega
  -- the buffer of the loop is the one that `seen` tells from the image
  have hstep : gzipStep BUFSIZ (gzipHead BUFSIZ image c) =
      if findBytes (seen BUFSIZ 4 image c) searchfor > 0 then
        .done ((c * (BUFSIZ - 4) : Nat) + findBytes (seen BUFSIZ 4 image c) searchfor - MAGIC_LEN)
      else
        .next ⟨(image.drop (c * (BUFSIZ - 4))).drop (chunkAt BUFSIZ 4 image c).length,
          moved BUFSIZ (seen BUFSIZ 4 image c),
          (c * (BUFSIZ - 4) : Nat) + (chunkAt BUFSIZ 4 image c).length⟩ := by
    unfold gzipStep
    dsimp only
    rw [if_neg hnil]
    rfl
  rw [findBytes_seen hsize hlt.le]
  by_cases hpos : findBytes (seen BUFSIZ 4 image c) searchfor > 0
  · rw [if_pos hpos] at hstep ⊢
    rw [Loop.eval_done _ hstep, MAGIC_LEN]
    push_cast
    ring
  · rw [if_neg hpos] at hstep ⊢
    dsimp only
    rw [Loop.eval_next _ hstep]
    rw [List.drop_drop, chunkAt, List.length_take, List.length_drop]
    by_cases hfull : (c + 1) * (BUFSIZ - 4) ≤ image.length
    · have hroom : min (BUFSIZ - 4) (image.length - c * (BUFSIZ - 4)) = BUFSIZ - 4 := by
        rw [Nat.succ_mul] at hfull
        omega
      rw [hroom, hfits.moved_seen hfull, gzipHead, Nat.succ_mul]
      push_cast
      rfl
    · -- there is no other chunk
      rw [Nat.succ_mul] at hfull
      rw [eval_end, eval_end]
      · rw [gzipHead]
        apply List.drop_eq_nil_of_le
        rw [Nat.succ_mul]
        omega
      · apply List.drop_eq_nil_of_le
        omega

theorem eval_first (hsize : 16 < BUFSIZ) {offset : Int}
    (h : FirstShown BUFSIZ 4 image (fun _ => True) searchfor 0 c offset) :
    (gzipLoop BUFSIZ).eval (gzipHead BUFSIZ image 0) = offset - 4 := by
  have hbefore : ∀ i ≤ c, (gzipLoop BUFSIZ).eval (gzipHead BUFSIZ image 0) =
      (gzipLoop BUFSIZ).eval (gzipHead BUFSIZ image i) := by
    intro i
    induction i with
    | zero => exact fun _ => rfl
    | succ i ih =>
        intro hi
        have hlt : i * (BUFSIZ - 4) < image.length :=
          lt_of_le_of_lt (Nat.mul_le_mul_right _ (Nat.le_of_succ_le hi)) h.lt_length
        have hnone : shown BUFSIZ 4 image searchfor i = none := by
          rw [Option.eq_none_iff_forall_not_mem]
          intro other hother
          exact h.first i (Nat.zero_le i) hi other hother trivial
        rw [ih (Nat.le_of_succ_le hi), eval_head hsize hlt, hnone]
  rw [hbefore c (Nat.le_refl c), eval_head hsize h.lt_length, h.shown]

theorem eval_none (hsize : 16 < BUFSIZ)
    (h : ∀ i, i * (BUFSIZ - 4) < image.length → shown BUFSIZ 4 image searchfor i = none) :
    (gzipLoop BUFSIZ).eval (gzipHead BUFSIZ image c) = 0 := by
  have hroom := (fits_gzip hsize).room_pos
  induction hn : image.length - c * (BUFSIZ - 4) using Nat.strong_induction_on generalizing c with
  | _ n ih =>
      by_cases hlt : c * (BUFSIZ - 4) < image.length
      · rw [eval_head hsize hlt, h c hlt]
        refine ih _ ?_ rfl
        rw [Nat.succ_mul]
        omega
      · refine eval_end (List.drop_eq_nil_of_le ?_)
        exact not_lt.1 hlt

/-! ## What the search takes for the magic number -/

/-- The first `j` bytes of the magic number stand four bytes in front of chunk `c`, and the other
ones at its beginning. -/
structure Halves (BUFSIZ : Nat) (image : Str) (c j : Nat) : Prop where
  chunk : 1 ≤ c
  pos : 0 < j
  lt : j < 4
  left : searchfor.take j <+: image.drop (c * (BUFSIZ - 4) - 4 - j)
  right : searchfor.drop j <+: image.drop (c * (BUFSIZ - 4))

/-- The magic number stands at place `p` of the buffer, and ends behind a last chunk that does not
fill the buffer. -/
structure Behind (BUFSIZ : Nat) (image : Str) (p : Nat) : Prop where
  pos : 0 < image.length % (BUFSIZ - 4)
  behind : image.length % (BUFSIZ - 4) < p
  lt : p < BUFSIZ - 4
  occurs : OccursAt searchfor (seen BUFSIZ 4 image (image.length / (BUFSIZ - 4))) p

theorem searchfor_ne_nil : searchfor ≠ [] :=
  List.cons_ne_nil _ _

theorem length_searchfor : searchfor.length = 4 :=
  rfl

theorem length_chunkAt : (chunkAt BUFSIZ 4 image c).length =
    min (BUFSIZ - 4) (image.length - c * (BUFSIZ - 4)) := by
  rw [chunkAt, List.length_take, List.length_drop]

/-- The front of the buffer. -/
theorem take_held (hsize : 16 < BUFSIZ) (hc : 1 ≤ c) :
    (held BUFSIZ 4 image c).take 4 = (image.drop (c * (BUFSIZ - 4) - 8)).take 4 ∨
      image.length < c * (BUFSIZ - 4) := by
  obtain ⟨c, rfl⟩ := Nat.exists_eq_add_of_le' hc
  by_cases hle : (c + 1) * (BUFSIZ - 4) ≤ image.length
  · left
    have hlength : ((image.drop ((c + 1) * (BUFSIZ - 4) - MAGIC_LEN)).take MAGIC_LEN).length =
        MAGIC_LEN := by
      rw [List.length_take, List.length_drop, MAGIC_LEN]
      rw [Nat.succ_mul] at *
      omega
    rw [held, List.take_append_of_le_length (by rw [hlength, MAGIC_LEN]; norm_num), List.take_take,
      MAGIC_LEN]
    rfl
  · exact Or.inr (not_le.1 hle)

/-- The magic number across the front of the buffer and a chunk. -/
theorem occursAt_halves (hsize : 16 < BUFSIZ) (hc : 1 ≤ c) (hle : c * (BUFSIZ - 4) ≤ image.length)
    {j : Nat} (hpos : 0 < j) (hj : j < 4) (hread : 4 - j ≤ (chunkAt BUFSIZ 4 image c).length) :
    OccursAt searchfor (seen BUFSIZ 4 image c) (4 - j) ↔ Halves BUFSIZ image c j := by
  have hroom : BUFSIZ - 4 ≤ c * (BUFSIZ - 4) := Nat.le_mul_of_pos_left _ hc
  have htake := (take_held hsize hc).resolve_right (not_lt.2 hle)
  have hleft : ((image.drop (c * (BUFSIZ - 4) - 4 - j)).take j).length = j := by
    rw [List.length_take, List.length_drop]
    omega
  -- the first `j` bytes come from the end of the chunk before, the others from this chunk
  have hseen : (seen BUFSIZ 4 image c).drop (4 - j) =
      (image.drop (c * (BUFSIZ - 4) - 4 - j)).take j ++ (chunkAt BUFSIZ 4 image c ++
        (held BUFSIZ 4 image c).drop (4 + (chunkAt BUFSIZ 4 image c).length)) := by
    have hfront : 4 - j ≤ ((image.drop (c * (BUFSIZ - 4) - 8)).take 4).length := by
      rw [List.length_take, List.length_drop]
      omega
    have hoffset : c * (BUFSIZ - 4) - 8 + (4 - j) = c * (BUFSIZ - 4) - 4 - j := by omega
    have hrest : 4 - (4 - j) = j := by omega
    rw [seen, filledAt, htake, List.drop_append_of_le_length hfront, List.drop_take,
      List.drop_drop, hoffset, hrest]
  have hdrop : (searchfor.drop j).length = 4 - j := by
    rw [List.length_drop, length_searchfor]
  have hlefts : (image.drop (c * (BUFSIZ - 4) - 4 - j)).take j = searchfor.take j ↔
      searchfor.take j <+: image.drop (c * (BUFSIZ - 4) - 4 - j) := by
    have hlength : (searchfor.take j).length = j := by
      rw [List.length_take, length_searchfor]
      exact Nat.min_eq_left hj.le
    rw [List.prefix_iff_eq_take, hlength, eq_comm]
  have hrights : searchfor.drop j <+: chunkAt BUFSIZ 4 image c ++
        (held BUFSIZ 4 image c).drop (4 + (chunkAt BUFSIZ 4 image c).length) ↔
      searchfor.drop j <+: image.drop (c * (BUFSIZ - 4)) := by
    have hread' : (searchfor.drop j).length ≤ (chunkAt BUFSIZ 4 image c).length := by
      rwa [hdrop]
    constructor
    · intro h
      exact (List.prefix_of_prefix_length_le h (List.prefix_append _ _) hread').trans
        (List.take_prefix _ _)
    · intro h
      exact (List.prefix_of_prefix_length_le h (List.take_prefix _ _) hread').trans
        (List.prefix_append _ _)
  rw [OccursAt, hseen, prefix_append_iff (by rw [hleft, length_searchfor]; exact hj.le), hleft,
    hlefts, hrights]
  exact ⟨fun h => ⟨hc, hpos, hj, h.1, h.2⟩, fun h => ⟨h.left, h.right⟩⟩

/-- The buffer begins with the magic number. -/
theorem occursAt_front (hsize : 16 < BUFSIZ) (hc : 1 ≤ c) (hle : c * (BUFSIZ - 4) ≤ image.length)
    (h : OccursAt searchfor (seen BUFSIZ 4 image c) 0) :
    OccursAt searchfor image (c * (BUFSIZ - 4) - 8) := by
  have hroom : BUFSIZ - 4 ≤ c * (BUFSIZ - 4) := Nat.le_mul_of_pos_left _ hc
  have htake := (take_held hsize hc).resolve_right (not_lt.2 hle)
  have hfront : searchfor.length ≤ ((image.drop (c * (BUFSIZ - 4) - 8)).take 4).length := by
    rw [List.length_take, List.length_drop, length_searchfor]
    omega
  rw [OccursAt, List.drop_zero, seen, filledAt, htake] at h
  exact (List.prefix_of_prefix_length_le h (List.prefix_append _ _) hfront).trans
    (List.take_prefix _ _)

/-- What stands in the buffer in front of the end of a chunk. -/
theorem seen_cases (hsize : 16 < BUFSIZ) (hlt : c * (BUFSIZ - 4) < image.length) {p : Nat}
    (hp : p ≤ (chunkAt BUFSIZ 4 image c).length)
    (h : OccursAt searchfor (seen BUFSIZ 4 image c) p) :
    (p = 0 ∧ 1 ≤ c ∧ OccursAt searchfor image (c * (BUFSIZ - 4) - 8)) ∨
      (0 < p ∧ p < 4 ∧ Halves BUFSIZ image c (4 - p)) ∨
        (4 ≤ p ∧ OccursAt searchfor image (c * (BUFSIZ - 4) + (p - 4))) := by
  have hchunk : p < 4 → 1 ≤ c := by
    intro hp4
    apply Nat.pos_of_ne_zero
    rintro rfl
    exact not_occursAt_zeros (fits_gzip hsize) searchfor_ne_nil (by decide) hp4 h
  rcases Nat.eq_zero_or_pos p with rfl | hpos
  · have hc := hchunk (by norm_num)
    exact Or.inl ⟨rfl, hc, occursAt_front hsize hc hlt.le h⟩
  · by_cases hp4 : p < 4
    · have hplace : 4 - (4 - p) = p := by omega
      have hhalves := occursAt_halves hsize (hchunk hp4) hlt.le (j := 4 - p) (by omega) (by omega)
        (hplace.symm ▸ hp)
      rw [hplace] at hhalves
      exact Or.inr (Or.inl ⟨hpos, hp4, hhalves.1 h⟩)
    · have hinside : p - 4 + searchfor.length ≤ (chunkAt BUFSIZ 4 image c).length := by
        rw [length_searchfor]
        omega
      exact Or.inr (Or.inr ⟨not_lt.1 hp4,
        (occursAt_seen (fits_gzip hsize) hlt.le (not_lt.1 hp4) hinside).1 h⟩)

/-- The bytes of the magic number are different, so it is cut in one way only. -/
theorem Halves.unique {i j : Nat} (hi : Halves BUFSIZ image c i) (hj : Halves BUFSIZ image c j) :
    i = j := by
  have hbyte : ∀ n, Halves BUFSIZ image c n →
      (image.drop (c * (BUFSIZ - 4))).head? = searchfor[n]? := by
    intro n hn
    obtain ⟨rest, hrest⟩ := hn.right
    have hne : searchfor.drop n ≠ [] := by
      rw [ne_eq, List.drop_eq_nil_iff, length_searchfor, not_le]
      exact hn.lt
    rw [← hrest, List.head?_append_of_ne_nil _ hne, List.head?_drop]
  have heq : searchfor[i]? = searchfor[j]? := (hbyte i hi).symm.trans (hbyte j hj)
  have hinj : ∀ a < 4, ∀ b < 4, searchfor[a]? = searchfor[b]? → a = b := by decide
  exact hinj i hi.lt j hj.lt heq

/-! ## An image with the magic number -/

/-- The magic number at `k` is found: it is not taken for missing, nothing in front of it is taken
for it, and it stands in one chunk but not at its end, or its halves do by chance. -/
structure Visible (BUFSIZ : Nat) (image : Str) (k : Nat) : Prop where
  ne_four : k ≠ 4
  first : ∀ c j, Halves BUFSIZ image c j → k < c * (BUFSIZ - 4)
  inside : k % (BUFSIZ - 4) < BUFSIZ - 8 ∨
    ∃ j, Halves BUFSIZ image (k / (BUFSIZ - 4) + 1) j ∧
      k + j = (k / (BUFSIZ - 4) + 1) * (BUFSIZ - 4)

/-- What the loop gives, by the first chunk that shows the magic number. -/
theorem begin_offset_cases (hsize : 16 < BUFSIZ) (image : Str) :
    (∃ c offset, FirstShown BUFSIZ 4 image (fun _ => True) searchfor 0 c offset ∧
      (gzipLoop BUFSIZ).eval ⟨image, List.replicate BUFSIZ 0, 0⟩ = offset - 4) ∨
    ((∀ c offset, ¬ FirstShown BUFSIZ 4 image (fun _ => True) searchfor 0 c offset) ∧
      (gzipLoop BUFSIZ).eval ⟨image, List.replicate BUFSIZ 0, 0⟩ = 0) := by
  have hstart : (gzipLoop BUFSIZ).eval ⟨image, List.replicate BUFSIZ 0, 0⟩ =
      (gzipLoop BUFSIZ).eval (gzipHead BUFSIZ image 0) := by
    rw [gzipHead, Nat.zero_mul, List.drop_zero]
    rfl
  rw [hstart]
  rcases @exists_firstShown BUFSIZ 4 image (fun _ => True) searchfor 0 with
    ⟨c, offset, hfirst⟩ | hnone
  · exact Or.inl ⟨c, offset, hfirst, eval_first hsize hfirst⟩
  · right
    constructor
    · intro c offset hfirst
      exact hnone c (Nat.zero_le c) hfirst.lt_length offset hfirst.shown trivial
    · apply eval_none hsize
      intro i hi
      rw [Option.eq_none_iff_forall_not_mem]
      exact fun other hother => hnone i (Nat.zero_le i) hi other hother trivial

theorem gzipStart_ok_iff (hsize : 16 < BUFSIZ) {k : Nat} :
    gzipStart BUFSIZ image = .ok k ↔
      k ≠ 4 ∧ ∃ c, FirstShown BUFSIZ 4 image (fun _ => True) searchfor 0 c k := by
  unfold gzipStart
  dsimp only
  rcases begin_offset_cases hsize image with ⟨c, offset, hfirst, heval⟩ | ⟨hnone, heval⟩
  · rw [heval]
    constructor
    · intro h
      split_ifs at h with hzero
      have hoffset : offset = k := by
        have h' := Except.ok.inj h
        omega
      subst hoffset
      exact ⟨by omega, c, hfirst⟩
    · rintro ⟨hne, c', hfirst'⟩
      have hoffset : offset = k := (hfirst.unique hfirst').2
      rw [if_neg (by omega), if_neg (by omega), hoffset]
      congr 1
      ring
  · rw [heval, if_pos rfl]
    constructor
    · intro h
      cases h
    · rintro ⟨_, c, hfirst⟩
      exact absurd hfirst (hnone c k)

/-- Nothing is found in front of the first occurrence. -/
theorem quiet_before (hsize : 16 < BUFSIZ) {k : Nat} (hk : FirstFrom searchfor image 0 k)
    (hfirst : ∀ c j, Halves BUFSIZ image c j → k < c * (BUFSIZ - 4)) {i q : Nat}
    (hi : i * (BUFSIZ - 4) ≤ k) (hq : i * (BUFSIZ - 4) + q < k + 4) (hlt : q < BUFSIZ - 4) :
    ¬ OccursAt searchfor (seen BUFSIZ 4 image i) q := by
  intro h
  have hfits := hk.occurs.le_length searchfor_ne_nil
  rw [length_searchfor] at hfits
  have hread : q ≤ (chunkAt BUFSIZ 4 image i).length := by
    rw [length_chunkAt]
    omega
  rcases seen_cases hsize (by omega) hread h with ⟨rfl, hc, hoccurs⟩ | ⟨hpos, hq4, hhalves⟩ |
    ⟨hge, hoccurs⟩
  · have hroom : BUFSIZ - 4 ≤ i * (BUFSIZ - 4) := Nat.le_mul_of_pos_left _ hc
    exact hk.first _ (Nat.zero_le _) (by omega) hoccurs
  · exact absurd (hfirst i _ hhalves) (not_lt.2 hi)
  · exact hk.first _ (Nat.zero_le _) (by omega) hoccurs

theorem start_iff (hsize : 16 < BUFSIZ) {k : Nat} (hk : FirstFrom searchfor image 0 k) :
    gzipStart BUFSIZ image = .ok k ↔ Visible BUFSIZ image k := by
  have hlength := hk.occurs.le_length searchfor_ne_nil
  rw [length_searchfor] at hlength
  have hroom : 0 < BUFSIZ - 4 := (fits_gzip hsize).room_pos
  have hbound : BUFSIZ - searchfor.length = BUFSIZ - 4 := rfl
  have hdiv := Nat.div_add_mod' k (BUFSIZ - 4)
  have hmod := Nat.mod_lt k hroom
  rw [gzipStart_ok_iff hsize]
  constructor
  · rintro ⟨hne, c, hfirst⟩
    obtain ⟨p, hpos, hp, hoccurs, hbefore, hoffset⟩ := shown_eq_some.1 hfirst.shown
    rw [hbound] at hp
    have hplace : k + 4 = c * (BUFSIZ - 4) + p := by omega
    have hread : p ≤ (chunkAt BUFSIZ 4 image c).length := by
      rw [length_chunkAt]
      omega
    -- a cut that is not behind `k` would have been shown
    have hcut : ∀ c' j, Halves BUFSIZ image c' j → k < c' * (BUFSIZ - 4) := by
      intro c' j hhalves
      by_contra hge
      rw [not_lt] at hge
      have hj := hhalves.pos
      have hj4 := hhalves.lt
      have hoccurs' := (occursAt_halves hsize hhalves.chunk (by omega) hj hj4
        (by rw [length_chunkAt]; omega)).2 hhalves
      have hle : c' ≤ c := by
        by_contra hgt
        have hmul : (c + 1) * (BUFSIZ - 4) ≤ c' * (BUFSIZ - 4) :=
          Nat.mul_le_mul_right _ (not_le.1 hgt)
        rw [Nat.succ_mul] at hmul
        omega
      rcases hle.lt_or_eq with hlt | rfl
      · have hzero : ¬ OccursAt searchfor (seen BUFSIZ 4 image c') 0 := by
          intro hzero
          have hfront := occursAt_front hsize hhalves.chunk (by omega) hzero
          have hroom' : BUFSIZ - 4 ≤ c' * (BUFSIZ - 4) := Nat.le_mul_of_pos_left _ hhalves.chunk
          exact hk.first _ (Nat.zero_le _) (by omega) hfront
        obtain ⟨other, hother⟩ := shown_ne_none (by rw [hbound]; omega) hoccurs' hzero
        exact hfirst.first c' (Nat.zero_le _) hlt other hother trivial
      · exact hbefore (4 - j) (by omega) hoccurs'
    refine ⟨hne, hcut, ?_⟩
    rcases seen_cases hsize hfirst.lt_length hread hoccurs with ⟨hzero, _⟩ | ⟨_, hp4, hhalves⟩ |
      ⟨hge, _⟩
    · omega
    · -- the halves by chance
      right
      have hc : k / (BUFSIZ - 4) + 1 = c := by
        obtain ⟨c', rfl⟩ := Nat.exists_eq_add_of_le' hhalves.chunk
        rw [Nat.succ_mul] at hplace
        have hquot : k / (BUFSIZ - 4) = c' := by
          rw [Nat.div_eq_iff hroom]
          constructor <;> omega
        rw [hquot]
      rw [hc]
      exact ⟨4 - p, hhalves, by omega⟩
    · left
      have hsplit : k = (p - 4) + (BUFSIZ - 4) * c := by
        rw [Nat.mul_comm]
        omega
      rw [hsplit, Nat.add_mul_mod_self_left, Nat.mod_eq_of_lt (by omega)]
      omega
  · intro hvisible
    refine ⟨hvisible.ne_four, ?_⟩
    rcases hvisible.inside with hinside | ⟨j, hhalves, hj⟩
    · -- in its own chunk
      refine ⟨k / (BUFSIZ - 4), Nat.zero_le _, by omega, ?_, trivial, ?_⟩
      · have hread : k % (BUFSIZ - 4) + 4 - 4 + searchfor.length ≤
            (chunkAt BUFSIZ 4 image (k / (BUFSIZ - 4))).length := by
          rw [length_chunkAt, length_searchfor]
          omega
        have hplace : k / (BUFSIZ - 4) * (BUFSIZ - 4) + (k % (BUFSIZ - 4) + 4 - 4) = k := by omega
        have hoccurs := occursAt_seen (fits_gzip hsize) (by omega) (Nat.le_add_left 4 _) hread
        rw [hplace] at hoccurs
        refine shown_eq_some.2 ⟨k % (BUFSIZ - 4) + 4, Nat.succ_pos _, by rw [hbound]; omega,
          hoccurs.2 hk.occurs, fun q hq => ?_, by omega⟩
        exact quiet_before hsize hk hvisible.first (by omega) (by omega) (by omega)
      · intro i _ hi other hother _
        obtain ⟨q, _, hq, hoccurs, _⟩ := shown_eq_some.1 hother
        rw [hbound] at hq
        have hmul : (i + 1) * (BUFSIZ - 4) ≤ k / (BUFSIZ - 4) * (BUFSIZ - 4) :=
          Nat.mul_le_mul_right _ hi
        rw [Nat.succ_mul] at hmul
        exact quiet_before hsize hk hvisible.first (by omega) (by omega) hq hoccurs
    · -- in front of the next chunk
      have hj4 := hhalves.lt
      have hjpos := hhalves.pos
      have hroom' : BUFSIZ - 4 ≤ (k / (BUFSIZ - 4) + 1) * (BUFSIZ - 4) :=
        Nat.le_mul_of_pos_left _ hhalves.chunk
      refine ⟨k / (BUFSIZ - 4) + 1, Nat.zero_le _, by omega, ?_, trivial, ?_⟩
      · have hoccurs := (occursAt_halves hsize hhalves.chunk (by omega) hjpos hj4
          (by rw [length_chunkAt]; omega)).2 hhalves
        refine shown_eq_some.2 ⟨4 - j, by omega, by rw [hbound]; omega, hoccurs, fun q hq h => ?_,
          by omega⟩
        rcases seen_cases hsize (by omega) (by rw [length_chunkAt]; omega) h with
          ⟨_, _, hfront⟩ | ⟨_, hq4, hother⟩ | ⟨hge, _⟩
        · exact hk.first _ (Nat.zero_le _) (by omega) hfront
        · have heq := hother.unique hhalves
          omega
        · omega
      · intro i _ hi other hother _
        obtain ⟨q, _, hq, hoccurs, _⟩ := shown_eq_some.1 hother
        rw [hbound] at hq
        have hmul : i * (BUFSIZ - 4) ≤ k / (BUFSIZ - 4) * (BUFSIZ - 4) :=
          Nat.mul_le_mul_right _ (Nat.le_of_lt_succ hi)
        rw [Nat.succ_mul] at hj
        exact quiet_before hsize hk hvisible.first (by omega) (by omega) hq hoccurs

/-! ## An image without it -/

/-- Nothing is taken for the magic number, except for something that would be at offset 4. -/
structure Silent (BUFSIZ : Nat) (image : Str) : Prop where
  halves : ∀ c j, ¬ Halves BUFSIZ image c j
  behind : ∀ p, Behind BUFSIZ image p →
    image.length / (BUFSIZ - 4) * (BUFSIZ - 4) + p = 8

def notFound : Thrown :=
  .KError (str "Magic 0x1f 0x8b 0x08 0x0 not found.")

theorem gzipStart_error_iff (hsize : 16 < BUFSIZ) :
    gzipStart BUFSIZ image = .error notFound ↔
      ∀ c offset, FirstShown BUFSIZ 4 image (fun _ => True) searchfor 0 c offset → offset = 4 := by
  unfold gzipStart notFound
  dsimp only
  rcases begin_offset_cases hsize image with ⟨c, offset, hfirst, heval⟩ | ⟨hnone, heval⟩
  · rw [heval]
    constructor
    · intro h c' offset' hfirst'
      rw [(hfirst'.unique hfirst).2]
      split_ifs at h with hzero hneg
      · omega
      · injection h with h
        cases h
    · intro h
      rw [h c offset hfirst, if_pos (by norm_num)]
  · rw [heval, if_pos rfl]
    exact iff_of_true rfl fun c offset hfirst => absurd hfirst (hnone c offset)

/-- Behind the only chunk of a short image there are zeros. -/
theorem behind_zeros (hsize : 16 < BUFSIZ) (hshort : image.length < BUFSIZ - 4) {p : Nat}
    (hp : image.length < p) (h : OccursAt searchfor (seen BUFSIZ 4 image 0) p) :
    p = image.length + 1 := by
  have hseen : seen BUFSIZ 4 image 0 =
      List.replicate 4 0 ++ (image ++ List.replicate (BUFSIZ - (4 + image.length)) 0) := by
    rw [seen, filledAt, held, chunkAt, Nat.zero_mul, List.drop_zero,
      List.take_of_length_le hshort.le, List.take_replicate, List.drop_replicate,
      Nat.min_eq_left (by omega)]
  by_contra hne
  obtain ⟨rest, hrest⟩ := h
  have hbyte : ((seen BUFSIZ 4 image 0).drop p)[2]? = some 8 := by
    rw [← hrest]
    rfl
  rw [List.getElem?_drop, hseen, List.getElem?_append_right (by simp; omega),
    List.getElem?_append_right (by simp; omega), List.getElem?_replicate] at hbyte
  split_ifs at hbyte
  revert hbyte
  decide

theorem silent_iff (hsize : 16 < BUFSIZ) (hno : ∀ k, ¬ OccursAt searchfor image k) :
    gzipStart BUFSIZ image = .error notFound ↔ Silent BUFSIZ image := by
  have hroom : 0 < BUFSIZ - 4 := (fits_gzip hsize).room_pos
  have hbound : BUFSIZ - searchfor.length = BUFSIZ - 4 := rfl
  have hdiv := Nat.div_add_mod' image.length (BUFSIZ - 4)
  have hmod := Nat.mod_lt image.length hroom
  have hzero : ∀ c, c * (BUFSIZ - 4) < image.length →
      ¬ OccursAt searchfor (seen BUFSIZ 4 image c) 0 := by
    intro c hlt h
    rcases seen_cases hsize hlt (Nat.zero_le _) h with ⟨_, _, hoccurs⟩ | ⟨hpos, _⟩ | ⟨hge, _⟩
    · exact hno _ hoccurs
    · exact absurd hpos (lt_irrefl 0)
    · omega
  rw [gzipStart_error_iff hsize]
  constructor
  · intro h
    -- what is found would be at offset 4, behind the end of a short image
    have hshort : ∀ c offset, c * (BUFSIZ - 4) < image.length →
        shown BUFSIZ 4 image searchfor c = some offset →
          c = 0 ∧ image.length < 8 ∧ OccursAt searchfor (seen BUFSIZ 4 image 0) 8 := by
      intro c offset hlt hshown
      rcases @exists_firstShown BUFSIZ 4 image (fun _ => True) searchfor 0 with
        ⟨c', offset', hfirst⟩ | hnone
      · have hfour := h c' offset' hfirst
        obtain ⟨p, hpos, hp, hoccurs, _, hoffset⟩ := shown_eq_some.1 hfirst.shown
        have hplace : c' * (BUFSIZ - 4) + p = 8 := by omega
        have hc' : c' = 0 := by
          by_contra hne
          have hle : BUFSIZ - 4 ≤ c' * (BUFSIZ - 4) :=
            Nat.le_mul_of_pos_left _ (Nat.pos_of_ne_zero hne)
          omega
        subst hc'
        have hp8 : p = 8 := by omega
        subst hp8
        have hlength : image.length < 8 := by
          by_contra hge
          rcases seen_cases hsize hfirst.lt_length
            (by rw [length_chunkAt]; omega) hoccurs with ⟨h0, _⟩ | ⟨_, h4, _⟩ | ⟨_, hreal⟩
          · omega
          · omega
          · exact hno _ hreal
        refine ⟨?_, hlength, hoccurs⟩
        by_contra hne
        have hle : BUFSIZ - 4 ≤ c * (BUFSIZ - 4) :=
          Nat.le_mul_of_pos_left _ (Nat.pos_of_ne_zero hne)
        omega
      · exact absurd trivial (hnone c (Nat.zero_le c) hlt offset hshown)
    constructor
    · intro c j hhalves
      have hj := hhalves.pos
      have hj4 := hhalves.lt
      have hright := hhalves.right.length_le
      rw [List.length_drop, List.length_drop, length_searchfor] at hright
      have hlt : c * (BUFSIZ - 4) < image.length := by omega
      have hoccurs := (occursAt_halves hsize hhalves.chunk hlt.le hj hj4
        (by rw [length_chunkAt]; omega)).2 hhalves
      obtain ⟨offset, hshown⟩ := shown_ne_none (by rw [hbound]; omega) hoccurs (hzero c hlt)
      have hc := (hshort c offset hlt hshown).1
      have hchunk := hhalves.chunk
      omega
    · intro p hbehind
      have hlt : image.length / (BUFSIZ - 4) * (BUFSIZ - 4) < image.length := by
        have hpos := hbehind.pos
        omega
      obtain ⟨offset, hshown⟩ := shown_ne_none hbehind.lt hbehind.occurs (hzero _ hlt)
      obtain ⟨hc, hlength, height⟩ := hshort _ offset hlt hshown
      have hoccurs := hbehind.occurs
      have hp := hbehind.behind
      rw [hc] at hoccurs ⊢
      have hwhole : image.length % (BUFSIZ - 4) = image.length := Nat.mod_eq_of_lt (by omega)
      rw [hwhole] at hp
      have hfirst := behind_zeros hsize (by omega) hp hoccurs
      have hsecond := behind_zeros hsize (by omega) hlength height
      omega
  · intro hsilent c offset hfirst
    obtain ⟨p, hpos, hp, hoccurs, _, hoffset⟩ := shown_eq_some.1 hfirst.shown
    rw [hbound] at hp
    by_cases hread : p ≤ (chunkAt BUFSIZ 4 image c).length
    · rcases seen_cases hsize hfirst.lt_length hread hoccurs with ⟨h0, _⟩ | ⟨_, _, hhalves⟩ |
        ⟨_, hreal⟩
      · omega
      · exact absurd hhalves (hsilent.halves c _)
      · exact absurd hreal (hno _)
    · -- behind the last chunk
      rw [length_chunkAt, not_le] at hread
      have hlt := hfirst.lt_length
      have hc : image.length / (BUFSIZ - 4) = c := by
        rw [Nat.div_eq_iff hroom]
        constructor <;> omega
      have hbehind : Behind BUFSIZ image p := by
        refine ⟨?_, ?_, hp, hc.symm ▸ hoccurs⟩
        · rw [hc] at hdiv
          omega
        · rw [hc] at hdiv
          omega
      have hplace := hsilent.behind p hbehind
      rw [hc] at hplace
      omega

/-! ## When the search is right -/

/-- The file is positioned at the first magic number, and an error is thrown if there is none, if
and only if the first one can be seen and nothing else is taken for one. -/
theorem gzipStart_iff (hsize : 16 < BUFSIZ) (image : Str) :
    ((∀ k : Nat, FirstFrom searchfor image 0 k → gzipStart BUFSIZ image = .ok k) ∧
      ((∀ k, ¬ OccursAt searchfor image k) → gzipStart BUFSIZ image = .error notFound)) ↔
    (∀ k, FirstFrom searchfor image 0 k → Visible BUFSIZ image k) ∧
      ((∀ k, ¬ OccursAt searchfor image k) → Silent BUFSIZ image) := by
  refine and_congr ?_ ?_
  · exact forall_congr' fun k => forall_congr' fun hk => start_iff hsize hk
  · exact forall_congr' fun hno => silent_iff hsize hno

/-- An image that begins with the magic number. -/
theorem visible_zero (hsize : 16 < BUFSIZ) : Visible BUFSIZ image 0 where
  ne_four := by norm_num
  first c j hhalves := Nat.mul_pos hhalves.chunk (fits_gzip hsize).room_pos
  inside := by
    rw [Nat.zero_mod]
    exact Or.inl (by omega)

theorem gzipStart_searchfor : gzipStart 8192 searchfor = .ok 0 := by
  have hfirst : FirstFrom searchfor searchfor 0 0 := by decide
  refine ((gzipStart_iff (by norm_num) searchfor).2 ⟨?_, ?_⟩).1 0 hfirst
  · intro k hk
    have hzero : k = 0 := by
      have hle := hk.occurs.le_length searchfor_ne_nil
      omega
    rw [hzero]
    exact visible_zero (by norm_num)
  · intro hno
    exact absurd hfirst.occurs (hno 0)

/-- Four bytes and the magic number. -/
def fourBytes : Str :=
  [1, 1, 1, 1] ++ searchfor

/-- Offset 4 stands for a magic number that has not been found. -/
theorem magic_at_four :
    FirstFrom searchfor fourBytes 0 4 ∧ gzipStart 8192 fourBytes ≠ .ok 4 := by
  have hfirst : FirstFrom searchfor fourBytes 0 4 := by decide
  refine ⟨hfirst, fun h => ?_⟩
  have hvisible := (start_iff (by norm_num) hfirst).1 h
  exact hvisible.ne_four rfl

end Kernel
end Kdump

import Kdump.Dump.SaveDump
import Kdump.Kernel.GzipMagic
import Kdump.Kernel.Markers

/-!
# ConfigLength — how many bytes are wanted for the configuration

The configuration stands between two markers.  `extractKernelConfigELF` and
`extractKernelConfigbzImage` allocate as many bytes as there are between them, less a gzip header.

* `lengthELF` and `lengthBzImage` — the two functions up to `new char[kernelconfig_len]`;
* `scan_cases` — what the scanning loops give, by the chunks that show the markers;
* `reported_iff` — when an image without a configuration is reported as such.
-/

namespace Kdump
namespace Kernel

open Lib Dump

/-! ## The two functions -/

section

variable (m_kernel : Str) (BUFSIZ : Nat)

/-- What follows the scanning loop: the test of the offsets, and the length. -/
def kernelconfig_len (offsets : Int × Int) : Except Thrown Int :=
  if offsets.1 < 0 ∨ offsets.2 < 0 then
    .error (.KError (str "Cannot read configuration from " ++ m_kernel ++ str "."))
  else
    .ok (offsets.2 - (offsets.1 + (MAGIC_LEN + 10)))

/-- `extractKernelConfigELF`; the image is what `gzread` gives. -/
def lengthELF (image : Str) : Except Thrown Int :=
  kernelconfig_len m_kernel (scanELF BUFSIZ image)

/-- `extractKernelConfigbzImage`; `gunzip` is what `gzread` gives of a file from some place on. -/
def lengthBzImage (gunzip : Str → Str) (image : Str) : Except Thrown Int :=
  match gzipStart BUFSIZ image with
  | .error e => .error e
  | .ok begin_offset =>
      kernelconfig_len m_kernel (scanBzImage BUFSIZ (gunzip (image.drop begin_offset.toNat)))

end

/-- A `KError` is thrown, or `new char[n]` is called with an `n` that is not negative.  It throws
something else for a negative one. -/
def Reported : Except Thrown Int → Prop
  | .error e => isKError e = true
  | .ok kernelconfig_len => 0 ≤ kernelconfig_len

/-! ## The markers that the chunks show -/

/-- An offset that has been found. -/
def Counts (missing : Int → Bool) (offset : Int) : Prop :=
  missing offset = false

/-- The first chunk that shows the start marker, and the first later one that shows the end
marker. -/
structure Markers (missing : Int → Bool) (BUFSIZ : Nat) (image : Str) (a b : Int) : Prop where
  exists_chunks : ∃ i j,
    FirstShown BUFSIZ MAGIC_LEN image (Counts missing) magic_start 0 i a ∧
      FirstShown BUFSIZ MAGIC_LEN image (Counts missing) magic_end (i + 1) j b

variable {missing : Int → Bool} {BUFSIZ : Nat} {image : Str} {c : Nat}

theorem fits_marker (hsize : 16 < BUFSIZ) : Fits BUFSIZ MAGIC_LEN :=
  ⟨le_refl _, by rw [MAGIC_LEN]; omega⟩

/-- The state of the loop before chunk `c`. -/
def scanHead (BUFSIZ : Nat) (image : Str) (c : Nat) (begin_offset end_offset : Int) : Locals :=
  ⟨image.drop (c * (BUFSIZ - MAGIC_LEN)), held BUFSIZ MAGIC_LEN image c,
    (c * (BUFSIZ - MAGIC_LEN) : Nat), begin_offset, end_offset⟩

/-- A search of the buffer. -/
theorem search_seen (hsize : 16 < BUFSIZ) (hle : c * (BUFSIZ - MAGIC_LEN) ≤ image.length)
    {magic : Str} (hmagic : Marker magic) (offset : Int) :
    search (seen BUFSIZ MAGIC_LEN image c) magic (c * (BUFSIZ - MAGIC_LEN) : Nat) offset =
      (shown BUFSIZ MAGIC_LEN image magic c).getD offset := by
  have hlength := (fits_marker hsize).length_seen hle
  rw [search, findBytes, shown, hlength, hmagic.length]
  cases firstMatch magic (seen BUFSIZ MAGIC_LEN image c) (BUFSIZ - MAGIC_LEN) with
  | none => exact if_neg (by decide)
  | some p =>
      dsimp only
      by_cases hp : 0 < p
      · rw [if_pos hp, if_pos (by exact_mod_cast hp)]
        push_cast
        rfl
      · rw [if_neg hp, if_neg (by exact_mod_cast hp)]
        rfl

theorem eval_scan_end {s : Locals} (h : s.image = []) :
    (loop missing BUFSIZ).eval s = (s.begin_offset, s.end_offset) := by
  have hstep : step missing BUFSIZ s = .done (s.begin_offset, s.end_offset) := by
    unfold step
    dsimp only
    rw [h, List.take_nil, if_pos rfl]
  exact Loop.eval_done _ hstep

/-- One chunk. -/
theorem eval_scanHead (hsize : 16 < BUFSIZ) (hlt : c * (BUFSIZ - MAGIC_LEN) < image.length)
    (a b : Int) :
    (loop missing BUFSIZ).eval (scanHead BUFSIZ image c a b) =
      if missing a then
        (loop missing BUFSIZ).eval (scanHead BUFSIZ image (c + 1)
          ((shown BUFSIZ MAGIC_LEN image magic_start c).getD a) b)
      else if missing b then
        (loop missing BUFSIZ).eval (scanHead BUFSIZ image (c + 1) a
          ((shown BUFSIZ MAGIC_LEN image magic_end c).getD b))
      else (a, b) := by
  have hfits := fits_marker hsize
  have hnil : (scanHead BUFSIZ image c a b).image.take (BUFSIZ - MAGIC_LEN) ≠ [] := by
    have hroom := hfits.room_pos
    rw [scanHead, ← List.length_pos_iff, List.length_take, List.length_drop]
    omega
  -- whatever the offsets are, the loop goes on before the next chunk, or ends there
  have hnext : ∀ a' b' : Int, (loop missing BUFSIZ).eval
      ⟨(image.drop (c * (BUFSIZ - MAGIC_LEN))).drop (chunkAt BUFSIZ MAGIC_LEN image c).length,
        moved BUFSIZ (seen BUFSIZ MAGIC_LEN image c),
        (c * (BUFSIZ - MAGIC_LEN) : Nat) + (chunkAt BUFSIZ MAGIC_LEN image c).length, a', b'⟩ =
      (loop missing BUFSIZ).eval (scanHead BUFSIZ image (c + 1) a' b') := by
    intro a' b'
    rw [List.drop_drop, chunkAt, List.length_take, List.length_drop]
    by_cases hfull : (c + 1) * (BUFSIZ - MAGIC_LEN) ≤ image.length
    · have hroom : min (BUFSIZ - MAGIC_LEN) (image.length - c * (BUFSIZ - MAGIC_LEN)) =
          BUFSIZ - MAGIC_LEN := by
        rw [Nat.succ_mul] at hfull
        omega
      rw [hroom, hfits.moved_seen hfull, scanHead, Nat.succ_mul]
      push_cast
      rfl
    · rw [Nat.succ_mul] at hfull
      rw [eval_scan_end, eval_scan_end]
      · rfl
      · rw [scanHead]
        apply List.drop_eq_nil_of_le
        rw [Nat.succ_mul]
        omega
      · apply List.drop_eq_nil_of_le
        omega
  have hstep : step missing BUFSIZ (scanHead BUFSIZ image c a b) =
      if missing a then
        .next ⟨(image.drop (c * (BUFSIZ - MAGIC_LEN))).drop
            (chunkAt BUFSIZ MAGIC_LEN image c).length,
          moved BUFSIZ (seen BUFSIZ MAGIC_LEN image c),
          (c * (BUFSIZ - MAGIC_LEN) : Nat) + (chunkAt BUFSIZ MAGIC_LEN image c).length,
          (shown BUFSIZ MAGIC_LEN image magic_start c).getD a, b⟩
      else if missing b then
        .next ⟨(image.drop (c * (BUFSIZ - MAGIC_LEN))).drop
            (chunkAt BUFSIZ MAGIC_LEN image c).length,
          moved BUFSIZ (seen BUFSIZ MAGIC_LEN image c),
          (c * (BUFSIZ - MAGIC_LEN) : Nat) + (chunkAt BUFSIZ MAGIC_LEN image c).length, a,
          (shown BUFSIZ MAGIC_LEN image magic_end c).getD b⟩
      else .done (a, b) := by
    rw [← search_seen hsize hlt.le marker_start, ← search_seen hsize hlt.le marker_end]
    unfold step
    dsimp only
    rw [if_neg hnil]
    rfl
  by_cases ha : missing a = true
  · rw [if_pos ha] at hstep ⊢
    rw [Loop.eval_next _ hstep, hnext]
  · rw [if_neg ha] at hstep ⊢
    by_cases hb : missing b = true
    · rw [if_pos hb] at hstep ⊢
      rw [Loop.eval_next _ hstep, hnext]
    · rw [if_neg hb] at hstep ⊢
      exact Loop.eval_done _ hstep

/-! ## Looking for one marker -/

section

variable {word : Str} {F : Nat → Int → Int × Int}

/-- `F` looks for a word: a chunk in front of which nothing has been found is searched. -/
def LooksFor (missing : Int → Bool) (BUFSIZ : Nat) (image word : Str)
    (F : Nat → Int → Int × Int) : Prop :=
  ∀ i x, i * (BUFSIZ - MAGIC_LEN) < image.length → missing x = true →
    F i x = F (i + 1) ((shown BUFSIZ MAGIC_LEN image word i).getD x)

/-- As long as no chunk shows the word, it stays missing. -/
theorem LooksFor.until (hF : LooksFor missing BUFSIZ image word F) {start i : Nat}
    (hle : start ≤ i) {x : Int} (hx : missing x = true)
    (h : ∀ t, start ≤ t → t < i → t * (BUFSIZ - MAGIC_LEN) < image.length ∧
      ∀ v, shown BUFSIZ MAGIC_LEN image word t = some v → ¬ Counts missing v) :
    ∃ x', missing x' = true ∧ F start x = F i x' := by
  induction i, hle using Nat.le_induction with
  | base => exact ⟨x, hx, rfl⟩
  | succ i hi ih =>
      obtain ⟨x', hx', heq⟩ := ih fun t hle hlt => h t hle (hlt.trans (Nat.lt_succ_self i))
      obtain ⟨hlt, hquiet⟩ := h i hi (Nat.lt_succ_self i)
      refine ⟨_, ?_, heq.trans (hF i x' hlt hx')⟩
      cases hshown : shown BUFSIZ MAGIC_LEN image word i with
      | none => exact hx'
      | some v => exact Bool.eq_true_of_not_eq_false (hquiet v hshown)

/-- Either some chunk is the first one to show the word, or the image ends. -/
theorem LooksFor.cases (hF : LooksFor missing BUFSIZ image word F) (hsize : 16 < BUFSIZ)
    (start : Nat) {x : Int} (hx : missing x = true) :
    (∃ j v, FirstShown BUFSIZ MAGIC_LEN image (Counts missing) word start j v ∧
      F start x = F (j + 1) v) ∨
    ((∀ j v, ¬ FirstShown BUFSIZ MAGIC_LEN image (Counts missing) word start j v) ∧
      ∃ i x', missing x' = true ∧ image.length ≤ i * (BUFSIZ - MAGIC_LEN) ∧
        F start x = F i x') := by
  rcases @exists_firstShown BUFSIZ MAGIC_LEN image (Counts missing) word start with
    ⟨j, v, hfirst⟩ | hnone
  · left
    obtain ⟨x', hx', heq⟩ := hF.until hfirst.le hx fun t hle hlt =>
      ⟨lt_of_le_of_lt (Nat.mul_le_mul_right _ hlt.le) hfirst.lt_length, hfirst.first t hle hlt⟩
    have hstep := hF j x' hfirst.lt_length hx'
    rw [hfirst.shown, Option.getD_some] at hstep
    exact ⟨j, v, hfirst, heq.trans hstep⟩
  · right
    refine ⟨fun j v hfirst => hnone j hfirst.le hfirst.lt_length v hfirst.shown hfirst.noted, ?_⟩
    -- up to the first chunk behind the image
    have hroom := (fits_marker hsize).room_pos
    have hend : ∃ i, start ≤ i ∧ image.length ≤ i * (BUFSIZ - MAGIC_LEN) :=
      ⟨max start image.length, le_max_left _ _,
        (le_max_right _ _).trans (Nat.le_mul_of_pos_right _ hroom)⟩
    classical
    have hspec := Nat.find_spec hend
    obtain ⟨x', hx', heq⟩ := hF.until hspec.1 hx fun t hle hlt => by
      have htlt : t * (BUFSIZ - MAGIC_LEN) < image.length :=
        not_le.1 fun hge => Nat.find_min hend hlt ⟨hle, hge⟩
      exact ⟨htlt, hnone t hle htlt⟩
    exact ⟨Nat.find hend, x', hx', hspec.2, heq⟩

end

theorem looksFor_start (hsize : 16 < BUFSIZ) (b : Int) :
    LooksFor missing BUFSIZ image magic_start fun i a =>
      (loop missing BUFSIZ).eval (scanHead BUFSIZ image i a b) := by
  intro i a hlt ha
  dsimp only
  rw [eval_scanHead hsize hlt, if_pos ha]

theorem looksFor_end (hsize : 16 < BUFSIZ) {a : Int} (ha : Counts missing a) :
    LooksFor missing BUFSIZ image magic_end fun i b =>
      (loop missing BUFSIZ).eval (scanHead BUFSIZ image i a b) := by
  intro i b hlt hb
  dsimp only
  rw [eval_scanHead hsize hlt, if_neg (Bool.eq_false_iff.1 ha), if_pos hb]

theorem eval_behind {i : Nat} (hle : image.length ≤ i * (BUFSIZ - MAGIC_LEN)) (a b : Int) :
    (loop missing BUFSIZ).eval (scanHead BUFSIZ image i a b) = (a, b) :=
  eval_scan_end (List.drop_eq_nil_of_le hle)

/-- What the scanning loops give: a missing start; a missing end; or the offsets that the chunks
show. -/
theorem scan_cases {initial : Int} (hmissing : Sentinel missing initial) (hsize : 16 < BUFSIZ)
    (image : Str) :
    (∃ a, missing a = true ∧ scan missing initial BUFSIZ image = (a, initial) ∧
      ∀ a b, ¬ Markers missing BUFSIZ image a b) ∨
    (∃ a b, 0 ≤ a ∧ Counts missing a ∧ missing b = true ∧
      scan missing initial BUFSIZ image = (a, b) ∧ ∀ a b, ¬ Markers missing BUFSIZ image a b) ∨
    ∃ a b, 0 ≤ a ∧ 0 ≤ b ∧ scan missing initial BUFSIZ image = (a, b) ∧
      Markers missing BUFSIZ image a b := by
  have hstart : scan missing initial BUFSIZ image =
      (loop missing BUFSIZ).eval (scanHead BUFSIZ image 0 initial initial) := by
    rw [scan, scanHead, Nat.zero_mul, List.drop_zero]
    rfl
  have hnonneg : ∀ {magic : Str} (_ : Marker magic) {start j : Nat} {v : Int},
      FirstShown BUFSIZ MAGIC_LEN image (Counts missing) magic start j v → 0 ≤ v :=
    fun hmagic _ _ _ hfirst => shown_nonneg (fits_marker hsize) hmagic.ne_nil hmagic.nonzero
      hfirst.shown
  rw [hstart]
  -- first the chunks up to the start, then those from there up to the end
  rcases (@looksFor_start missing BUFSIZ image hsize initial).cases hsize 0 hmissing.start with
    ⟨i, a, hfirst, heq⟩ | ⟨hnone, i, a, ha, hle, heq⟩
  · rcases (@looksFor_end missing BUFSIZ image hsize a hfirst.noted).cases hsize (i + 1)
      hmissing.start with
      ⟨j, b, hsecond, heq'⟩ | ⟨hnone, j, b, hb, hle, heq'⟩
    · -- both of them are known behind chunk `j`
      have hdone : (loop missing BUFSIZ).eval (scanHead BUFSIZ image (j + 1) a b) = (a, b) := by
        by_cases hlt : (j + 1) * (BUFSIZ - MAGIC_LEN) < image.length
        · rw [eval_scanHead hsize hlt, if_neg (Bool.eq_false_iff.1 hfirst.noted),
            if_neg (Bool.eq_false_iff.1 hsecond.noted)]
        · exact eval_behind (not_lt.1 hlt) a b
      exact Or.inr (Or.inr ⟨a, b, hnonneg marker_start hfirst, hnonneg marker_end hsecond,
        (heq.trans heq').trans hdone, ⟨i, j, hfirst, hsecond⟩⟩)
    · refine Or.inr (Or.inl ⟨a, b, hnonneg marker_start hfirst, hfirst.noted, hb,
        (heq.trans heq').trans (eval_behind hle a b), ?_⟩)
      rintro a' b' ⟨i', j', hfirst', hsecond'⟩
      have hi : i' = i := (hfirst'.unique hfirst).1
      subst hi
      exact hnone j' b' hsecond'
  · refine Or.inl ⟨a, ha, heq.trans (eval_behind hle a initial), ?_⟩
    rintro a' b' ⟨i', j', hfirst', _⟩
    exact hnone i' a' hfirst'

/-- There is one pair of offsets. -/
theorem Markers.unique {a b a' b' : Int} (h : Markers missing BUFSIZ image a b)
    (h' : Markers missing BUFSIZ image a' b') : a = a' ∧ b = b' := by
  obtain ⟨i, j, hfirst, hsecond⟩ := h
  obtain ⟨i', j', hfirst', hsecond'⟩ := h'
  obtain ⟨rfl, ha⟩ := hfirst.unique hfirst'
  exact ⟨ha, (hsecond.unique hsecond').2⟩

/-! ## Images that are reported -/

variable {m_kernel : Str}

theorem reported_kernelconfig_len {a b : Int} :
    Reported (kernelconfig_len m_kernel (a, b)) ↔ a < 0 ∨ b < 0 ∨ a + 18 ≤ b := by
  unfold kernelconfig_len
  dsimp only
  split_ifs with h
  · exact iff_of_true rfl (h.elim Or.inl fun hb => Or.inr (Or.inl hb))
  · rw [not_or] at h
    rw [or_iff_right h.1, or_iff_right h.2, Reported, MAGIC_LEN]
    constructor <;> intro hle <;> push_cast at * <;> omega

theorem reportedELF_iff (hsize : 16 < BUFSIZ) :
    Reported (lengthELF m_kernel BUFSIZ image) ↔
      ∀ a b, Markers (fun offset => decide (offset < 0)) BUFSIZ image a b → a + 18 ≤ b := by
  unfold lengthELF scanELF
  rcases scan_cases sentinel_ELF hsize image with ⟨a, ha, hscan, hnone⟩ |
    ⟨a, b, _, _, hb, hscan, hnone⟩ | ⟨a, b, ha, hb, hscan, hmarkers⟩
  · rw [hscan, reported_kernelconfig_len]
    exact iff_of_true (Or.inl (of_decide_eq_true ha)) fun a b h => absurd h (hnone a b)
  · rw [hscan, reported_kernelconfig_len]
    exact iff_of_true (Or.inr (Or.inl (of_decide_eq_true hb))) fun a b h => absurd h (hnone a b)
  · rw [hscan, reported_kernelconfig_len, or_iff_right (not_lt.2 ha), or_iff_right (not_lt.2 hb)]
    constructor
    · intro hle a' b' hmarkers'
      obtain ⟨rfl, rfl⟩ := hmarkers.unique hmarkers'
      exact hle
    · exact fun h => h a b hmarkers

theorem reportedScanBzImage_iff (hsize : 16 < BUFSIZ) :
    Reported (kernelconfig_len m_kernel (scanBzImage BUFSIZ image)) ↔
      ∃ a b, Markers (fun offset => decide (offset = 0)) BUFSIZ image a b ∧ a + 18 ≤ b := by
  unfold scanBzImage
  rcases scan_cases sentinel_bzImage hsize image with ⟨a, ha, hscan, hnone⟩ |
    ⟨a, b, ha, _, hb, hscan, hnone⟩ | ⟨a, b, ha, hb, hscan, hmarkers⟩
  · -- an offset of zero is not below zero
    have hzero : a = 0 := of_decide_eq_true ha
    rw [hscan, reported_kernelconfig_len]
    refine iff_of_false ?_ fun ⟨a, b, h, _⟩ => hnone a b h
    omega
  · have hzero : b = 0 := of_decide_eq_true hb
    rw [hscan, reported_kernelconfig_len]
    refine iff_of_false ?_ fun ⟨a, b, h, _⟩ => hnone a b h
    omega
  · rw [hscan, reported_kernelconfig_len, or_iff_right (not_lt.2 ha), or_iff_right (not_lt.2 hb)]
    constructor
    · exact fun hle => ⟨a, b, hmarkers, hle⟩
    · rintro ⟨a', b', hmarkers', hle⟩
      obtain ⟨rfl, rfl⟩ := hmarkers.unique hmarkers'
      exact hle

/-- The first chunk that shows the magic number shows it at `k`, which is not taken for missing. -/
def GzipAt (BUFSIZ : Nat) (image : Str) (k : Nat) : Prop :=
  k ≠ 4 ∧ ∃ c, FirstShown BUFSIZ 4 image (fun _ => True) searchfor 0 c k

theorem reportedBzImage_iff (hsize : 16 < BUFSIZ) (gunzip : Str → Str) :
    Reported (lengthBzImage m_kernel BUFSIZ gunzip image) ↔
      ∀ k, GzipAt BUFSIZ image k →
        ∃ a b, Markers (fun offset => decide (offset = 0)) BUFSIZ (gunzip (image.drop k)) a b ∧
          a + 18 ≤ b := by
  unfold lengthBzImage
  cases hstart : gzipStart BUFSIZ image with
  | error e =>
      have hkerror : isKError e = true := by
        unfold gzipStart at hstart
        dsimp only at hstart
        split_ifs at hstart
        · cases hstart
          rfl
        · cases hstart
          rfl
      refine iff_of_true hkerror fun k hk => ?_
      have hok := (gzipStart_ok_iff hsize).2 hk
      rw [hstart] at hok
      cases hok
  | ok begin_offset =>
      have hnonneg : 0 ≤ begin_offset := by
        unfold gzipStart at hstart
        dsimp only at hstart
        split_ifs at hstart with hzero hneg
        cases hstart
        exact not_lt.1 hneg
      obtain ⟨k, rfl⟩ := Int.eq_ofNat_of_zero_le hnonneg
      have hk : GzipAt BUFSIZ image k := (gzipStart_ok_iff hsize).1 hstart
      dsimp only
      -- there is only one such place, so that what holds of it holds of all
      rw [Int.toNat_natCast, reportedScanBzImage_iff hsize]
      constructor
      · intro h k' hk'
        have hok := (gzipStart_ok_iff hsize).2 hk'
        rw [hstart] at hok
        injection hok with hok
        rw [← Int.ofNat.inj hok]
        exact h
      · exact fun h => h k hk

/-- An image is reported, or enough bytes are wanted: for an ELF image, unless the end marker stands
too close behind the start marker; for a `bzImage`, only if both markers are there, too. -/
theorem reported_iff (hsize : 16 < BUFSIZ) (m_kernel image : Str) (gunzip : Str → Str) :
    (Reported (lengthELF m_kernel BUFSIZ image) ↔
      ∀ a b, Markers (fun offset => decide (offset < 0)) BUFSIZ image a b → a + 18 ≤ b) ∧
    (Reported (lengthBzImage m_kernel BUFSIZ gunzip image) ↔
      ∀ k, GzipAt BUFSIZ image k →
        ∃ a b, Markers (fun offset => decide (offset = 0)) BUFSIZ (gunzip (image.drop k)) a b ∧
          a + 18 ≤ b) :=
  ⟨reportedELF_iff hsize, reportedBzImage_iff hsize gunzip⟩

/-- There is nothing in an empty image. -/
theorem not_markers_nil (a b : Int) : ¬ Markers missing BUFSIZ [] a b := by
  rintro ⟨i, j, hfirst, _⟩
  exact absurd hfirst.lt_length (Nat.not_lt_zero _)

theorem reported_empty : Reported (lengthELF (str "vmlinux") 8192 []) ∧
    Reported (lengthBzImage (str "vmlinuz") 8192 id []) := by
  constructor
  · exact (reported_iff (by norm_num) (str "vmlinux") [] id).1.2 fun a b h =>
      absurd h (not_markers_nil a b)
  · refine (reported_iff (by norm_num) (str "vmlinuz") [] id).2.2 fun k hk => ?_
    obtain ⟨_, c, hfirst⟩ := hk
    exact absurd hfirst.lt_length (Nat.not_lt_zero _)

/-- A `bzImage` with nothing behind the magic number.  A length of -18 is wanted. -/
theorem not_reported_bzImage :
    ¬ Reported (lengthBzImage (str "vmlinuz") 8192 (fun _ => []) searchfor) := by
  have hfirst : FirstFrom searchfor searchfor 0 0 := by decide
  have hstart : GzipAt 8192 searchfor 0 :=
    (gzipStart_ok_iff (by norm_num)).1 ((start_iff (by norm_num) hfirst).2
      (visible_zero (by norm_num)))
  rw [reportedBzImage_iff (by norm_num)]
  intro h
  obtain ⟨a, b, hmarkers, _⟩ := h 0 hstart
  exact not_markers_nil a b hmarkers

end Kernel
end Kdump

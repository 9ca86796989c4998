import Kdump.Dump.NoteBounds

/-!
# FindElfNote — looking for a note by its name

`FindElfNoteByName` reads a segment of the file and walks over its notes.  The two sizes of a note
are rounded up and added in 32 bits.

* `OpenFile` — what the system makes of a file that is open for reading;
* `findElfNoteByName` — the loop that reads, and the loop that walks;
* `pass_eq` — what one pass makes of the rest of the segment;
* `examined_inside_iff` — when all that is looked at lies in the segment.
-/

namespace Kdump
namespace Dump

open Lib

/-! ## The file -/

/-- A file that is open for reading: where `lseek` goes to, and how much `read` gives there. -/
structure OpenFile where
  content : Str
  lseek : (offset : Int) → Except Errno Unit
  read : (offset count : Nat) → Except Errno Nat
  lseek_neg : ∀ {offset : Int}, offset < 0 → lseek offset ≠ .ok ()
  read_le : ∀ {offset count n : Nat}, read offset count = .ok n →
    n ≤ count ∧ n ≤ content.length - offset
  /-- Nothing is read at the end of the file only. -/
  read_pos : ∀ {offset count : Nat}, read offset count = .ok 0 →
    count = 0 ∨ content.length ≤ offset

variable (order : ByteOrder)

section

variable (file : OpenFile)

/-- The variables of the first loop, and where the file is. -/
structure Reading where
  offset : Nat
  to_read : Nat
  buf : Str

/-- One pass of the loop that reads. -/
def readPass (s : Reading) : Step Reading (Except Thrown Str) :=
  if s.to_read = 0 then
    .done (.ok s.buf)
  else
    match file.read s.offset s.to_read with
    | .error e => .done (.error (.KSystemError (str "Cannot read ELF note") e))
    | .ok bytes_read =>
        if bytes_read = 0 then
          .done (.error (.KError (str "Unexpected EOF while reading ELF note")))
        else
          .next ⟨s.offset + bytes_read, s.to_read - bytes_read,
            s.buf ++ (file.content.drop s.offset).take bytes_read⟩

theorem readPass_to_read_lt {s s' : Reading} (h : readPass file s = .next s') :
    s'.to_read < s.to_read := by
  unfold readPass at h
  split_ifs at h with hzero
  cases hread : file.read s.offset s.to_read with
  | error e =>
      rw [hread] at h
      cases h
  | ok bytes_read =>
      simp only [hread] at h
      split_ifs at h with hnone
      cases h
      have hle := (file.read_le hread).1
      dsimp only
      omega

def readLoop : Loop Reading (Except Thrown Str) where
  step := readPass file
  measure s := s.to_read
  decreases := readPass_to_read_lt file

end

/-! ## The walk -/

/-- Whether `memcmp` of `n` bytes gives zero.  Both arguments have to have them. -/
def memcmp (p name : Str) (n : Nat) : Except Thrown Bool :=
  if n ≤ p.length ∧ n ≤ name.length then
    .ok (p.take n = name.take n)
  else
    .error .undefined

/-- `notesz`: a sum of two `Elf64_Word`. -/
def notesz (hdr : Nhdr) : Nat :=
  (pad4 hdr.n_namesz + pad4 hdr.n_descsz).toNat

/-- The condition of the second `if`.  At most one of the two comparisons is made. -/
def hasName (hdr : Nhdr) (p : Str) (name : CString) : Except Thrown Bool :=
  let nlen := name.text.length
  if hdr.n_namesz.toNat = nlen then
    memcmp p (name.text ++ [0]) nlen
  else if hdr.n_namesz.toNat = nlen + 1 then
    memcmp p (name.text ++ [0]) (nlen + 1)
  else
    .ok false

/-- The variables of the second loop.  `p` is counted from `buf`. -/
structure Walk where
  p : Nat
  to_read : Nat

section

variable (buf : Str) (name : CString) (offset : Int)

/-- One pass of the loop that walks; `-1` is `(off_t)-1`. -/
def pass (s : Walk) : Step Walk (Except Thrown Int) :=
  if s.to_read = 0 then
    .done (.ok (-1))
  else if s.to_read < 12 then
    .done (.ok (-1))
  else
    match nhdr order (buf.drop s.p) with
    | none => .done (.error .undefined)
    | some hdr =>
        let to_read := s.to_read - 12
        let p := s.p + 12
        if to_read < notesz hdr then
          .done (.ok (-1))
        else
          match hasName hdr (buf.drop p) name with
          | .error e => .done (.error e)
          | .ok true => .done (.ok (offset + p - 12))
          | .ok false => .next ⟨p + notesz hdr, to_read - notesz hdr⟩

theorem pass_to_read_lt {s s' : Walk} (h : pass order buf name offset s = .next s') :
    s'.to_read < s.to_read := by
  unfold pass at h
  split_ifs at h with hzero hshort
  cases hhdr : nhdr order (buf.drop s.p) with
  | none =>
      rw [hhdr] at h
      cases h
  | some hdr =>
      simp only [hhdr] at h
      split_ifs at h with hlong
      cases hname : hasName hdr (buf.drop (s.p + 12)) name with
      | error e =>
          rw [hname] at h
          cases h
      | ok found =>
          rw [hname] at h
          cases found with
          | true => cases h
          | false =>
              cases h
              dsimp only
              omega

def walk : Loop Walk (Except Thrown Int) where
  step := pass order buf name offset
  measure s := s.to_read
  decreases := pass_to_read_lt order buf name offset

end

/-- `FindElfNoteByName`. -/
def findElfNoteByName (file : OpenFile) (offset : Int) (sz : Nat) (name : CString) :
    Except Thrown Int :=
  match file.lseek offset with
  | .error e => .error (.KSystemError (str "Cannot seek to ELF notes") e)
  | .ok () =>
      match (readLoop file).eval ⟨offset.toNat, sz, []⟩ with
      | .error e => .error e
      | .ok buf => (walk order buf name offset).eval ⟨0, sz⟩

/-! ## The notes of a segment -/

section

variable (name : CString) (r : Str)

/-- How far the next header is away, as the walk sees it. -/
def noteSize : Nat :=
  12 + (pad4 (n_namesz order r) + pad4 (n_descsz order r)).toNat

/-- The size of the name is the one that is looked for, with the final NUL or without. -/
def SameSize : Prop :=
  (n_namesz order r).toNat = name.text.length ∨ (n_namesz order r).toNat = name.text.length + 1

instance : Decidable (SameSize order name r) :=
  inferInstanceAs (Decidable (_ ∨ _))

/-- The name would be compared, but the segment ends before. -/
def Overrun : Prop :=
  SameSize order name r ∧ r.length < 12 + (n_namesz order r).toNat

instance : Decidable (Overrun order name r) :=
  inferInstanceAs (Decidable (_ ∧ _))

/-- The note has the name. -/
def carries : Bool :=
  ((n_namesz order r).toNat == name.text.length && name.text.isPrefixOf (r.drop 12)) ||
    ((n_namesz order r).toNat == name.text.length + 1 &&
      (name.text ++ [0]).isPrefixOf (r.drop 12))

end

/-- The segment from each header on, as long as the notes fit.  There are at most `n` headers in `n`
bytes. -/
def headersIn : (n : Nat) → (r : Str) → List Str
  | 0, _ => []
  | n + 1, r =>
      if noteSize order r ≤ r.length then r :: headersIn n (r.drop (noteSize order r)) else []

def headers (buf : Str) : List Str :=
  headersIn order buf.length buf

/-! ## One pass -/

variable {order} {name : CString}

theorem memcmp_of_le {p text : Str} (h : text.length ≤ p.length) :
    memcmp p (text ++ [0]) text.length = .ok (text.isPrefixOf p) ∧
      memcmp p text text.length = .ok (text.isPrefixOf p) := by
  have hprefix : decide (p.take text.length = text) = text.isPrefixOf p := by
    rw [Bool.eq_iff_iff, decide_eq_true_iff, List.isPrefixOf_iff_prefix,
      List.prefix_iff_eq_take, eq_comm]
  constructor
  · rw [memcmp, if_pos ⟨h, by simp⟩, List.take_left, hprefix]
  · rw [memcmp, if_pos ⟨h, le_refl _⟩, List.take_length, hprefix]

theorem memcmp_of_lt {p text : Str} {n : Nat} (h : p.length < n) :
    memcmp p text n = .error .undefined :=
  if_neg fun hle => absurd hle.1 (not_le.2 h)

theorem hasName_eq {r : Str} (hr : 12 ≤ r.length) (n_type : UInt32) :
    hasName ⟨n_namesz order r, n_descsz order r, n_type⟩ (r.drop 12) name =
      if Overrun order name r then .error .undefined else .ok (carries order name r) := by
  have hdrop : (r.drop 12).length = r.length - 12 := List.length_drop
  have hsucc : (name.text ++ [0]).length = name.text.length + 1 := List.length_append
  have hne : name.text.length ≠ name.text.length + 1 := (Nat.succ_ne_self _).symm
  have hover : Overrun order name r ↔
      ((n_namesz order r).toNat = name.text.length ∨
        (n_namesz order r).toNat = name.text.length + 1) ∧
        r.length < 12 + (n_namesz order r).toNat := Iff.rfl
  unfold hasName carries
  dsimp only
  by_cases hsame : (n_namesz order r).toNat = name.text.length
  · rw [if_pos hsame]
    by_cases hshort : r.length < 12 + name.text.length
    · rw [if_pos (hover.2 ⟨Or.inl hsame, hsame ▸ hshort⟩), memcmp_of_lt (by omega)]
    · rw [if_neg fun h => hshort (hsame ▸ h.2), (memcmp_of_le (by omega)).1, hsame]
      simp
  · rw [if_neg hsame]
    by_cases hnext : (n_namesz order r).toNat = name.text.length + 1
    · rw [if_pos hnext]
      by_cases hshort : r.length < 12 + (name.text.length + 1)
      · rw [if_pos (hover.2 ⟨Or.inr hnext, hnext ▸ hshort⟩), memcmp_of_lt (by omega)]
      · have hcompare := (@memcmp_of_le (r.drop 12) (name.text ++ [0]) (by rw [hsucc]; omega)).2
        rw [if_neg fun h => hshort (hnext ▸ h.2), ← hsucc, hcompare, hnext, hsucc]
        simp
    · rw [if_neg hnext, if_neg fun h => (hover.1 h).1.elim hsame hnext]
      simp [hsame, hnext]

variable {buf : Str} {offset : Int} {s : Walk}

/-- What a pass makes of the rest `r` of the segment. -/
theorem pass_eq {r : Str} (hr : buf.drop s.p = r) (hlength : s.to_read = r.length) :
    pass order buf name offset s =
      if noteSize order r ≤ r.length then
        if Overrun order name r then .done (.error .undefined)
        else if carries order name r then .done (.ok (offset + s.p))
        else .next ⟨s.p + noteSize order r, s.to_read - noteSize order r⟩
      else .done (.ok (-1)) := by
  have hname : buf.drop (s.p + 12) = r.drop 12 := by
    rw [← hr, List.drop_drop]
  have hsize : 12 ≤ noteSize order r := Nat.le_add_right _ _
  have hsum : ∀ n_type : UInt32,
      12 + notesz ⟨n_namesz order r, n_descsz order r, n_type⟩ = noteSize order r :=
    fun _ => rfl
  unfold pass
  by_cases hshort : r.length < 12
  · rw [if_neg (fun hle => absurd (hsize.trans hle) (not_le.2 hshort)), hlength]
    split_ifs <;> rfl
  · have hheader : 12 ≤ r.length := not_lt.1 hshort
    rw [if_neg (by omega), if_neg (by omega), hr, nhdr, if_pos hheader]
    dsimp only
    rw [hname, hlength]
    -- a whole header: the sizes in it decide whether the note fits into what is left
    by_cases hfits : noteSize order r ≤ r.length
    · have hnotesz : ¬ r.length - 12 < notesz ⟨n_namesz order r, n_descsz order r,
          UInt32.ofNat (order.value ((r.drop 8).take 4))⟩ := by
        rw [← hsum (UInt32.ofNat (order.value ((r.drop 8).take 4)))] at hfits
        omega
      rw [if_pos hfits]
      refine (if_neg hnotesz).trans ?_
      have hcond := @hasName_eq order name r hheader
        (UInt32.ofNat (order.value ((r.drop 8).take 4)))
      unfold n_namesz n_descsz at hcond
      rw [hcond]
      by_cases hover : Overrun order name r
      · rw [if_pos hover, if_pos hover]
      · rw [if_neg hover, if_neg hover]
        cases hcarries : carries order name r with
        | true =>
            have hoffset : offset + ((s.p + 12 : Nat) : Int) - 12 = offset + s.p := by
              push_cast
              ring
            simp only [hoffset, if_true]
        | false =>
            simp only [noteSize, notesz, n_namesz, n_descsz, Bool.false_eq_true, if_false,
              Nat.add_assoc, Nat.sub_sub]
    · have hnotesz : r.length - 12 < notesz ⟨n_namesz order r, n_descsz order r,
          UInt32.ofNat (order.value ((r.drop 8).take 4))⟩ := by
        rw [← hsum (UInt32.ofNat (order.value ((r.drop 8).take 4)))] at hfits
        omega
      rw [if_neg hfits]
      exact if_pos hnotesz

/-! ## What is looked at -/

section

variable (order buf name offset)

/-- How much of the name is compared.  `memcmp` may look at all of its bytes. -/
def nameExamined (r : Str) : Nat :=
  if noteSize order r ≤ r.length ∧ SameSize order name r then (n_namesz order r).toNat else 0

/-- The bytes that one pass looks at: the two sizes of the header, and as much of the name as is
compared. -/
def passExamines (s : Walk) : List Nat :=
  if s.to_read < 12 then
    []
  else
    (List.range 8).map (s.p + ·) ++
      (List.range (nameExamined order name (buf.drop s.p))).map (s.p + 12 + ·)

/-- A byte is looked at by some pass.  A pass that has looked outside of the segment is the last
one, since what it has found there is not known. -/
def Examined (k : Nat) : Prop :=
  ∃ s, (walk order buf name offset).Reach ⟨0, buf.length⟩ s ∧ k ∈ passExamines order name buf s

end

/-- A pass stays inside of the segment unless the name is cut. -/
theorem passExamines_inside_iff {r : Str} (hr : buf.drop s.p = r) (hlength : s.to_read = r.length) :
    (∀ k ∈ passExamines order name buf s, k < buf.length) ↔
      ¬ (noteSize order r ≤ r.length ∧ Overrun order name r) := by
  have hdrop : r.length = buf.length - s.p := by
    rw [← hr, List.length_drop]
  have hsize : 12 ≤ noteSize order r := Nat.le_add_right _ _
  unfold passExamines
  rw [hr, hlength]
  by_cases hshort : r.length < 12
  · rw [if_pos hshort]
    refine iff_of_true (fun k hk => absurd hk List.not_mem_nil) fun h => ?_
    exact absurd (hsize.trans h.1) (not_le.2 hshort)
  · rw [if_neg hshort]
    unfold nameExamined Overrun
    simp only [List.forall_mem_append, List.forall_mem_map, List.mem_range]
    -- behind the header, only a name of the right size is looked at
    by_cases hcompared : noteSize order r ≤ r.length ∧ SameSize order name r
    · rw [if_pos hcompared]
      constructor
      · rintro ⟨_, hname⟩ ⟨_, _, hover⟩
        by_cases hempty : (n_namesz order r).toNat = 0
        · omega
        · have hlast := hname _ (Nat.sub_lt (Nat.pos_of_ne_zero hempty) Nat.one_pos)
          omega
      · intro hinside
        have hle : 12 + (n_namesz order r).toNat ≤ r.length :=
          not_lt.1 fun hlt => hinside ⟨hcompared.1, hcompared.2, hlt⟩
        constructor
        · intro i hi
          omega
        · intro i hi
          omega
    · rw [if_neg hcompared]
      refine iff_of_true ⟨fun i hi => ?_, fun i hi => absurd hi (Nat.not_lt_zero i)⟩ fun h => ?_
      · omega
      · exact hcompared ⟨h.1, h.2.1⟩

/-- From any state of the walk on. -/
theorem inside_headers (n : Nat) : ∀ s : Walk, s.to_read = (buf.drop s.p).length →
    s.to_read ≤ n →
      ((walk order buf name offset).Always
          (fun t => ∀ k ∈ passExamines order name buf t, k < buf.length) s ↔
        ∀ r ∈ upTo (carries order name) (headersIn order n (buf.drop s.p)),
          ¬ Overrun order name r) := by
  -- behind the last header that fits
  have hend : ∀ s : Walk, s.to_read = (buf.drop s.p).length →
      ¬ noteSize order (buf.drop s.p) ≤ (buf.drop s.p).length →
        (walk order buf name offset).Always
          (fun t => ∀ k ∈ passExamines order name buf t, k < buf.length) s := by
    intro s hs hlong
    have hpass := @pass_eq order name buf offset s _ rfl hs
    rw [if_neg hlong] at hpass
    rw [Loop.always_done hpass, passExamines_inside_iff rfl hs]
    exact fun h => hlong h.1
  induction n with
  | zero =>
      intro s hs hn
      have hlong : ¬ noteSize order (buf.drop s.p) ≤ (buf.drop s.p).length := by
        unfold noteSize
        omega
      rw [headersIn, upTo_nil]
      exact iff_of_true (hend s hs hlong) fun _ hr => absurd hr List.not_mem_nil
  | succ n ih =>
      intro s hs hn
      rw [headersIn]
      by_cases hfits : noteSize order (buf.drop s.p) ≤ (buf.drop s.p).length
      · have hpass := @pass_eq order name buf offset s _ rfl hs
        have hinside := @passExamines_inside_iff order name buf s _ rfl hs
        rw [if_pos hfits] at hpass
        rw [if_pos hfits, upTo_cons]
        by_cases hover : Overrun order name (buf.drop s.p)
        · -- the name leads out of the segment
          rw [if_pos hover] at hpass
          rw [Loop.always_done hpass, hinside]
          refine iff_of_false (fun h => h ⟨hfits, hover⟩) fun h => h _ ?_ hover
          split_ifs <;> exact List.mem_cons_self
        · rw [if_neg hover] at hpass
          cases hcarries : carries order name (buf.drop s.p) with
          | true =>
              rw [if_pos hcarries] at hpass
              rw [Loop.always_done hpass, hinside, if_pos rfl]
              refine iff_of_true (fun h => hover h.2) fun r hr => ?_
              rwa [List.mem_singleton.1 hr]
          | false =>
              rw [if_neg (Bool.eq_false_iff.1 hcarries)] at hpass
              have hrest : (buf.drop s.p).drop (noteSize order (buf.drop s.p)) =
                  buf.drop (s.p + noteSize order (buf.drop s.p)) := List.drop_drop
              have hs' : s.to_read - noteSize order (buf.drop s.p) =
                  (buf.drop (s.p + noteSize order (buf.drop s.p))).length := by
                rw [← hrest, List.length_drop, hs]
              have hn' : s.to_read - noteSize order (buf.drop s.p) ≤ n := by
                unfold noteSize at hfits ⊢
                omega
              rw [Loop.always_next hpass, hinside, ih _ hs' hn', if_neg Bool.false_ne_true,
                List.forall_mem_cons, hrest]
              exact and_congr_left fun _ => iff_of_true (fun h => hover h.2) hover
      · rw [if_neg hfits, upTo_nil]
        exact iff_of_true (hend s hs hfits) fun _ hr => absurd hr List.not_mem_nil

/-- Whatever the segment is, the walk comes to an end.  All that it looks at lies in the segment if
and only if no name on the way that would be compared leads out of it. -/
theorem examined_inside_iff (order : ByteOrder) (buf : Str) (name : CString) (offset : Int) :
    ((∃ s r, (walk order buf name offset).Reach ⟨0, buf.length⟩ s ∧
        pass order buf name offset s = .done r) ∧
      ∀ k, Examined order name buf offset k → k < buf.length) ↔
    ∀ r ∈ upTo (carries order name) (headers order buf), ¬ Overrun order name r := by
  have hends : ∃ s r, (walk order buf name offset).Reach ⟨0, buf.length⟩ s ∧
      pass order buf name offset s = .done r := by
    obtain ⟨s, hreach, hdone⟩ := (walk order buf name offset).exists_last ⟨0, buf.length⟩
    exact ⟨s, _, hreach, hdone⟩
  have hheaders := @inside_headers order name buf offset buf.length ⟨0, buf.length⟩ rfl
    (Nat.le_refl _)
  rw [and_iff_right hends]
  refine Iff.trans ?_ hheaders
  constructor
  · intro h s hreach k hk
    exact h k ⟨s, hreach, hk⟩
  · rintro h k ⟨s, hreach, hk⟩
    exact h s hreach k hk

def XEN : CString :=
  ⟨str "Xen", by decide⟩

/-- A header only.  The rounded sizes are 4 and 4294967292, and their sum is zero. -/
def wrapping : Str :=
  [4, 0, 0, 0, 252, 255, 255, 255, 0, 0, 0, 0]

/-- The name that is compared begins at the end of the segment. -/
theorem examined_behind_wrapping :
    ¬ ∀ k, Examined .little XEN wrapping 0 k → k < wrapping.length := by
  intro h
  have hmem : 12 ∈ passExamines .little XEN wrapping ⟨0, wrapping.length⟩ := by decide
  exact absurd (h 12 ⟨_, Loop.Reach.refl _, hmem⟩) (by decide)

end Dump
end Kdump

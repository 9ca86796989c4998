import Kdump.Dump.FindElfNote

/-!
# ElfNotes — notes that are found by their names

* `ElfNote` — a note whose name may or may not count its final NUL, and `elfSegment`;
* `pass_note` — what one pass makes of one note;
* `eval_notes` — the walk over any list of notes whose sizes do not overflow;
* `isXenCoreDump` — the search through the program headers of a dump;
* `first_named` — what is found.
-/

namespace Kdump
namespace Dump

open Lib

/-! ## Well-formed notes -/

/-- A note with any name and descriptor, both of them padded to a multiple of four. -/
structure ElfNote where
  /-- `n_namesz` bytes -/
  name : Str
  desc : Str
  n_type : UInt32
  namePad : Str
  descPad : Str
  namesz_lt : name.length < 2 ^ 31
  descsz_lt : desc.length < 2 ^ 31
  namePad_length : namePad.length = (name.length + 3) / 4 * 4 - name.length
  descPad_length : descPad.length = (desc.length + 3) / 4 * 4 - desc.length

namespace ElfNote

def header (order : ByteOrder) (n : ElfNote) : Str :=
  order.bytes 4 n.name.length ++ order.bytes 4 n.desc.length ++ order.bytes 4 n.n_type.toNat

def bytes (order : ByteOrder) (n : ElfNote) : Str :=
  n.header order ++ (n.name ++ (n.namePad ++ (n.desc ++ n.descPad)))

/-- The name and the descriptor with their padding. -/
def paddedSize (n : ElfNote) : Nat :=
  (n.name.length + 3) / 4 * 4 + (n.desc.length + 3) / 4 * 4

/-- The sum of the two sizes does not fit into an `Elf64_Word`. -/
def Overflows (n : ElfNote) : Prop :=
  2 ^ 32 ≤ n.paddedSize

/-- The final NUL is counted or not. -/
def IsNamed (name : CString) (n : ElfNote) : Prop :=
  n.name = name.text ∨ n.name = name.text ++ [0]

instance (name : CString) (n : ElfNote) : Decidable (n.IsNamed name) :=
  inferInstanceAs (Decidable (_ ∨ _))

end ElfNote

open ElfNote

def elfSegment (order : ByteOrder) (notes : List ElfNote) : Str :=
  notes.flatMap (ElfNote.bytes order)

/-- The offset of the first note with the name, if the segment begins at `offset`. -/
def noteOffset (order : ByteOrder) (name : CString) (offset : Int) (notes : List ElfNote) : Int :=
  match notes.findIdx? (fun n => decide (n.IsNamed name)) with
  | some i => offset + (elfSegment order (notes.take i)).length
  | none => -1

/-- No note in front of the first one with the name overflows. -/
def Straight (name : CString) (notes : List ElfNote) : Prop :=
  ∀ n ∈ notes.takeWhile (fun n => decide (¬ n.IsNamed name)), ¬ n.Overflows

variable {order : ByteOrder} {name : CString}

theorem noteOffset_cons (offset : Int) (n : ElfNote) (notes : List ElfNote) :
    noteOffset order name offset (n :: notes) =
      if n.IsNamed name then offset
      else noteOffset order name (offset + (n.bytes order).length) notes := by
  unfold noteOffset
  rw [List.findIdx?_cons]
  by_cases hnamed : n.IsNamed name
  · rw [if_pos hnamed, decide_eq_true hnamed]
    exact Int.add_zero offset
  · rw [if_neg hnamed, decide_eq_false hnamed]
    cases notes.findIdx? (fun n => decide (n.IsNamed name)) with
    | none => rfl
    | some i =>
        simp only [Bool.false_eq_true, if_false, Option.map_some, List.take_succ_cons, elfSegment,
          List.flatMap_cons, List.length_append, Nat.cast_add, add_assoc]

theorem straight_cons {n : ElfNote} {notes : List ElfNote} :
    Straight name (n :: notes) ↔ n.IsNamed name ∨ ¬ n.Overflows ∧ Straight name notes := by
  unfold Straight
  by_cases hnamed : n.IsNamed name
  · rw [List.takeWhile_cons_of_neg (by simp [hnamed])]
    exact iff_of_true (fun _ hn => absurd hn List.not_mem_nil) (Or.inl hnamed)
  · rw [List.takeWhile_cons_of_pos (by simp [hnamed]), List.forall_mem_cons]
    exact (or_iff_right hnamed).symm

/-- Otherwise there is a first note that overflows. -/
theorem exists_overflow (notes : List ElfNote) (h : ¬ Straight name notes) :
    ∃ pre n post, notes = pre ++ n :: post ∧
      (∀ m ∈ pre, ¬ m.IsNamed name ∧ ¬ m.Overflows) ∧ ¬ n.IsNamed name ∧ n.Overflows := by
  induction notes with
  | nil => exact absurd (fun _ hn => absurd hn List.not_mem_nil) h
  | cons n notes ih =>
      rw [straight_cons, not_or, not_and_or, not_not] at h
      obtain ⟨hnamed, hrest⟩ := h
      by_cases hover : n.Overflows
      · exact ⟨[], n, notes, rfl, fun _ hm => absurd hm List.not_mem_nil, hnamed, hover⟩
      · obtain ⟨pre, m, post, rfl, hpre, hm⟩ := ih (hrest.resolve_left hover)
        exact ⟨n :: pre, m, post, rfl, List.forall_mem_cons.2 ⟨⟨hnamed, hover⟩, hpre⟩, hm⟩

/-! ## One note -/

namespace ElfNote

variable (n : ElfNote)

theorem length_bytes : (n.bytes order).length = 12 + n.paddedSize := by
  have hheader : (n.header order).length = 12 := by simp [header]
  rw [bytes, List.length_append, hheader, List.length_append, List.length_append,
    List.length_append, n.namePad_length, n.descPad_length, paddedSize]
  omega

theorem nhdr_bytes (rest : Str) : nhdr order (n.bytes order ++ rest) =
    some ⟨UInt32.ofNat n.name.length, UInt32.ofNat n.desc.length, n.n_type⟩ := by
  have hname : n.name.length < 256 ^ 4 := n.namesz_lt.trans (by norm_num)
  have hdesc : n.desc.length < 256 ^ 4 := n.descsz_lt.trans (by norm_num)
  rw [bytes, header, List.append_assoc, nhdr_header hname hdesc]

theorem sizes_bytes (rest : Str) :
    n_namesz order (n.bytes order ++ rest) = UInt32.ofNat n.name.length ∧
      n_descsz order (n.bytes order ++ rest) = UInt32.ofNat n.desc.length := by
  have hlength : 12 ≤ (n.bytes order ++ rest).length := by
    rw [List.length_append, length_bytes]
    omega
  have hheader := @nhdr_bytes order n rest
  rw [nhdr, if_pos hlength] at hheader
  injection hheader with hheader
  injection hheader with hname hdesc _
  exact ⟨hname, hdesc⟩

theorem toNat_namesz (rest : Str) :
    (n_namesz order (n.bytes order ++ rest)).toNat = n.name.length := by
  rw [(n.sizes_bytes rest).1]
  exact UInt32.toNat_ofNat_of_lt' (n.namesz_lt.trans (by norm_num))

/-- The size of the note as the walk sees it. -/
theorem noteSize_bytes (rest : Str) :
    noteSize order (n.bytes order ++ rest) = 12 + n.paddedSize % 2 ^ 32 := by
  rw [noteSize, (n.sizes_bytes rest).1, (n.sizes_bytes rest).2, UInt32.toNat_add,
    toNat_pad4 n.namesz_lt, toNat_pad4 n.descsz_lt, paddedSize]

theorem noteSize_le (rest : Str) :
    noteSize order (n.bytes order ++ rest) ≤ (n.bytes order ++ rest).length := by
  have hmod : n.paddedSize % 2 ^ 32 ≤ n.paddedSize := Nat.mod_le _ _
  rw [noteSize_bytes, List.length_append, length_bytes]
  omega

theorem not_overrun (rest : Str) : ¬ Overrun order name (n.bytes order ++ rest) := by
  intro hover
  have hlt := hover.2
  rw [toNat_namesz, List.length_append, length_bytes, paddedSize] at hlt
  omega

/-- The name that stands behind the header is compared as a whole. -/
theorem carries_bytes (rest : Str) :
    carries order name (n.bytes order ++ rest) = decide (n.IsNamed name) := by
  have hdrop : (n.bytes order ++ rest).drop 12 =
      n.name ++ (n.namePad ++ (n.desc ++ n.descPad) ++ rest) := by
    have hheader : (n.header order).length = 12 := by simp [header]
    rw [bytes, List.append_assoc, List.drop_left' hheader, List.append_assoc]
  have hwhole : ∀ text : Str, n.name.length = text.length →
      (text <+: n.name ++ (n.namePad ++ (n.desc ++ n.descPad) ++ rest) ↔ n.name = text) := by
    intro text hlength
    constructor
    · intro hpre
      exact ((List.prefix_of_prefix_length_le hpre (List.prefix_append _ _)
        hlength.ge).eq_of_length hlength.symm).symm
    · rintro rfl
      exact List.prefix_append _ _
  have hlength : ∀ text : Str, n.name = text → n.name.length = text.length :=
    fun _ h => congrArg List.length h
  rw [Bool.eq_iff_iff, decide_eq_true_iff, carries, toNat_namesz, hdrop, IsNamed]
  simp only [Bool.or_eq_true, Bool.and_eq_true, beq_iff_eq, List.isPrefixOf_iff_prefix]
  refine or_congr ?_ ?_
  · constructor
    · rintro ⟨hsize, hpre⟩
      exact (hwhole _ hsize).1 hpre
    · intro h
      exact ⟨hlength _ h, (hwhole _ (hlength _ h)).2 h⟩
  · -- the spelling with the zero byte counted
    have hsucc : (name.text ++ [0]).length = name.text.length + 1 := List.length_append
    rw [← hsucc]
    constructor
    · rintro ⟨hsize, hpre⟩
      exact (hwhole _ hsize).1 hpre
    · intro h
      exact ⟨hlength _ h, (hwhole _ (hlength _ h)).2 h⟩

end ElfNote

/-- One pass of the walk, at the place of a note. -/
theorem pass_note (pre rest : Str) (n : ElfNote) (offset : Int) {s : Walk} (hp : s.p = pre.length)
    (hread : s.to_read = (n.bytes order ++ rest).length) :
    pass order (pre ++ (n.bytes order ++ rest)) name offset s =
      if n.IsNamed name then .done (.ok (offset + pre.length))
      else .next ⟨pre.length + (12 + n.paddedSize % 2 ^ 32),
        (n.bytes order ++ rest).length - (12 + n.paddedSize % 2 ^ 32)⟩ := by
  have hdrop : (pre ++ (n.bytes order ++ rest)).drop s.p = n.bytes order ++ rest := by
    rw [hp, List.drop_left]
  rw [pass_eq hdrop hread, if_pos (n.noteSize_le rest), if_neg (n.not_overrun rest),
    n.carries_bytes, n.noteSize_bytes, hp, hread]
  by_cases hnamed : n.IsNamed name
  · rw [if_pos hnamed, if_pos (decide_eq_true hnamed)]
  · rw [if_neg hnamed, if_neg (by simpa using hnamed)]

/-! ## The walk over the notes -/

/-- If no sizes overflow, the walk comes to the first note with the name. -/
theorem eval_notes (offset : Int) (notes : List ElfNote) : ∀ (pre : Str) (s : Walk),
    s.p = pre.length → s.to_read = (elfSegment order notes).length → Straight name notes →
      (walk order (pre ++ elfSegment order notes) name offset).eval s =
        .ok (noteOffset order name (offset + pre.length) notes) := by
  induction notes with
  | nil =>
      intro pre s _ hread _
      exact Loop.eval_done _ (if_pos hread)
  | cons n notes ih =>
      intro pre s hp hread hstraight
      have hsegment : elfSegment order (n :: notes) =
          n.bytes order ++ elfSegment order notes := List.flatMap_cons
      have hpass := @pass_note order name pre (elfSegment order notes) n offset s hp
        (hsegment ▸ hread)
      rw [hsegment, noteOffset_cons]
      by_cases hnamed : n.IsNamed name
      · rw [if_pos hnamed] at hpass
        rw [if_pos hnamed, Loop.eval_done _ hpass]
      · obtain ⟨hfits, hrest⟩ := (straight_cons.1 hstraight).resolve_left hnamed
        have hmod : n.paddedSize % 2 ^ 32 = n.paddedSize := Nat.mod_eq_of_lt (not_le.1 hfits)
        rw [if_neg hnamed, hmod, ← @ElfNote.length_bytes order n] at hpass
        have hnext := ih (pre ++ n.bytes order)
          ⟨pre.length + (n.bytes order).length,
            (n.bytes order ++ elfSegment order notes).length - (n.bytes order).length⟩
          List.length_append.symm (by rw [List.length_append, Nat.add_sub_cancel_left]) hrest
        rw [if_neg hnamed, Loop.eval_next _ hpass]
        rw [List.append_assoc] at hnext
        rw [hnext, List.length_append, Nat.cast_add, add_assoc]

/-- If the sizes of a note overflow, the walk takes its name for the next note. -/
theorem eval_overflow (offset : Int) (notes : List ElfNote) (n : ElfNote) (rest : Str) :
    ∀ (pre : Str) (s : Walk), s.p = pre.length →
      s.to_read = (elfSegment order notes ++ (n.bytes order ++ rest)).length →
      (∀ m ∈ notes, ¬ m.IsNamed name ∧ ¬ m.Overflows) → ¬ n.IsNamed name → n.Overflows →
        (walk order (pre ++ (elfSegment order notes ++ (n.bytes order ++ rest))) name
            offset).eval s =
          (walk order (pre ++ (elfSegment order notes ++ (n.bytes order ++ rest))) name
            offset).eval ⟨(pre ++ elfSegment order notes).length + 12,
              (n.bytes order ++ rest).length - 12⟩ := by
  -- two sizes below `2 ^ 31` are at most `2 ^ 32` together
  have hmod : n.Overflows → n.paddedSize % 2 ^ 32 = 0 := by
    intro hover
    have hname := n.namesz_lt
    have hdesc := n.descsz_lt
    unfold Overflows paddedSize at *
    omega
  induction notes with
  | nil =>
      intro pre s hp hread _ hnamed hover
      have hpass := @pass_note order name pre rest n offset s hp hread
      rw [if_neg hnamed, hmod hover] at hpass
      have hpre : pre ++ elfSegment order [] = pre := List.append_nil pre
      rw [hpre]
      exact Loop.eval_next _ hpass
  | cons m notes ih =>
      intro pre s hp hread hnotes hnamed hover
      obtain ⟨hm, hnotes'⟩ := List.forall_mem_cons.1 hnotes
      have hsegment : elfSegment order (m :: notes) =
          m.bytes order ++ elfSegment order notes := List.flatMap_cons
      rw [hsegment, List.append_assoc] at hread ⊢
      have hpass := @pass_note order name pre (elfSegment order notes ++ (n.bytes order ++ rest)) m
        offset s hp hread
      have hmod' : m.paddedSize % 2 ^ 32 = m.paddedSize := Nat.mod_eq_of_lt (not_le.1 hm.2)
      rw [if_neg hm.1, hmod', ← @ElfNote.length_bytes order m] at hpass
      have hnext := ih (pre ++ m.bytes order)
        ⟨pre.length + (m.bytes order).length,
          (m.bytes order ++ (elfSegment order notes ++ (n.bytes order ++ rest))).length -
            (m.bytes order).length⟩
        List.length_append.symm (by rw [List.length_append, Nat.add_sub_cancel_left]) hnotes' hnamed
        hover
      rw [List.append_assoc] at hnext
      rw [Loop.eval_next _ hpass, hnext, List.append_assoc]

/-! ## The file -/

namespace OpenFile

/-- Neither `lseek` nor `read` fails. -/
structure Readable (file : OpenFile) : Prop where
  lseek : ∀ offset : Nat, file.lseek offset = .ok ()
  read : ∀ offset count, ∃ n, file.read offset count = .ok n

/-- The notes stand at an offset of the file. -/
def Holds (order : ByteOrder) (file : OpenFile) (offset : Nat) (notes : List ElfNote) : Prop :=
  elfSegment order notes <+: file.content.drop offset

/-- A file of these bytes, all of which a call of `read` gives. -/
def ofContent (content : Str) : OpenFile where
  content := content
  lseek offset := if offset < 0 then .error 22 else .ok ()
  read offset count := .ok (min count (content.length - offset))
  lseek_neg h := by
    rw [if_pos h]
    nofun
  read_le h := by
    cases h
    omega
  read_pos h := by
    injection h with h
    omega

theorem readable_ofContent (content : Str) : (ofContent content).Readable where
  lseek offset := by
    have hnonneg : ¬ (offset : Int) < 0 := not_lt.2 (Int.natCast_nonneg offset)
    simp only [ofContent, if_neg hnonneg]
  read _ _ := ⟨_, rfl⟩

variable {file : OpenFile}

theorem readLoop_step (s : Reading) : (readLoop file).step s = readPass file s :=
  rfl

/-- The first loop reads all that is wanted, if it is there. -/
theorem readLoop_eval (hfile : file.Readable) (to_read : Nat) : ∀ (offset : Nat) (buf : Str),
    to_read ≤ file.content.length - offset →
      (readLoop file).eval ⟨offset, to_read, buf⟩ =
        .ok (buf ++ (file.content.drop offset).take to_read) := by
  induction to_read using Nat.strong_induction_on with
  | _ to_read ih =>
      intro offset buf hle
      by_cases hzero : to_read = 0
      · subst hzero
        have hpass : (readLoop file).step ⟨offset, 0, buf⟩ = .done (.ok buf) := by
          rw [readLoop_step, readPass, if_pos rfl]
        rw [Loop.eval_done _ hpass, List.take_zero, List.append_nil]
      · obtain ⟨n, hread⟩ := hfile.read offset to_read
        have hbounds := file.read_le hread
        have hpos : n ≠ 0 := by
          rintro rfl
          rcases file.read_pos hread with h | h <;> omega
        have hpass : (readLoop file).step ⟨offset, to_read, buf⟩ =
            .next ⟨offset + n, to_read - n, buf ++ (file.content.drop offset).take n⟩ := by
          rw [readLoop_step, readPass, if_neg hzero]
          simp only [hread, if_neg hpos]
        have hsplit : (file.content.drop offset).take to_read =
            (file.content.drop offset).take n ++
              (file.content.drop (offset + n)).take (to_read - n) := by
          rw [← List.drop_drop, ← List.take_add, Nat.add_sub_cancel' hbounds.1]
        rw [Loop.eval_next _ hpass, ih _ (by omega) _ _ (by omega), hsplit, List.append_assoc]

theorem Holds.take_eq {offset : Nat} {notes : List ElfNote} (h : file.Holds order offset notes) :
    (file.content.drop offset).take (elfSegment order notes).length = elfSegment order notes ∧
      (elfSegment order notes).length ≤ file.content.length - offset := by
  constructor
  · exact (List.prefix_iff_eq_take.1 h).symm
  · exact h.length_le.trans_eq List.length_drop

/-- What is called behind `lseek` and the first loop. -/
theorem findElfNoteByName_eq (hfile : file.Readable) {offset : Nat} {notes : List ElfNote}
    (h : file.Holds order offset notes) :
    findElfNoteByName order file offset (elfSegment order notes).length name =
      (walk order (elfSegment order notes) name offset).eval
        ⟨0, (elfSegment order notes).length⟩ := by
  have hloop := readLoop_eval hfile _ offset [] h.take_eq.2
  rw [List.nil_append, h.take_eq.1] at hloop
  simp only [findElfNoteByName, hfile.lseek offset, Int.toNat_natCast, hloop]

end OpenFile

/-! ## The program headers -/

def PT_NOTE : UInt32 := 4

/-- The members of `GElf_Phdr` that are used. -/
structure Phdr where
  p_type : UInt32
  p_offset : UInt64
  p_filesz : UInt64

/-- What libelf says of the first bytes of a file: whether `elf_kind` is `ELF_K_ELF`, and what
`gelf_getphdr` gives for each program header. -/
structure Elf where
  isElf : Bool
  phdrs : Except Thrown (List (Except Thrown Phdr))

/-- The body of the loop over the program headers. -/
def isXenPhdr (order : ByteOrder) (file : OpenFile) (phdr : Except Thrown Phdr) :
    Except Thrown Bool :=
  match phdr with
  | .error e => .error e
  | .ok phdr =>
      if phdr.p_type = PT_NOTE then
        match findElfNoteByName order file phdr.p_offset.toInt64.toInt phdr.p_filesz.toNat XEN with
        | .error e => .error e
        | .ok ret => .ok (decide (ret ≠ -1))
      else
        .ok false

/-- `Util::isXenCoreDump`. -/
def isXenCoreDump (order : ByteOrder) (file : OpenFile) (elf : Except Thrown Elf) :
    Except Thrown Bool :=
  match elf with
  | .error e => .error e
  | .ok elf =>
      if elf.isElf then
        match elf.phdrs with
        | .error e => .error e
        | .ok phdrs => phdrs.anyM (isXenPhdr order file)
      else
        .ok false

variable {file : OpenFile}

/-- A segment of the file with its notes. -/
structure Segment.Holds (order : ByteOrder) (file : OpenFile) (phdr : Phdr)
    (notes : List ElfNote) : Prop where
  offset : phdr.p_offset.toNat < 2 ^ 63
  size : phdr.p_filesz.toNat = (elfSegment order notes).length
  notes : file.Holds order phdr.p_offset.toNat notes

theorem noteOffset_ne_iff (notes : List ElfNote) : ∀ offset : Int, 0 ≤ offset →
    (noteOffset order name offset notes ≠ -1 ↔ ∃ n ∈ notes, n.IsNamed name) := by
  induction notes with
  | nil => exact fun _ _ => iff_of_false (fun h => h rfl) (by simp)
  | cons n notes ih =>
      intro offset hoffset
      rw [noteOffset_cons]
      by_cases hnamed : n.IsNamed name
      · rw [if_pos hnamed]
        exact iff_of_true (by omega) ⟨n, List.mem_cons_self, hnamed⟩
      · have hnext := ih (offset + (n.bytes order).length) (by omega)
        rw [if_neg hnamed, hnext]
        simp [hnamed]

theorem isXenPhdr_note (hfile : file.Readable) {phdr : Phdr} {notes : List ElfNote}
    (htype : phdr.p_type = PT_NOTE) (hholds : Segment.Holds order file phdr notes)
    (hstraight : Straight XEN notes) :
    isXenPhdr order file (.ok phdr) = .ok (decide (∃ n ∈ notes, n.IsNamed XEN)) := by
  have hoffset : phdr.p_offset.toInt64.toInt = (phdr.p_offset.toNat : Int) := by
    have hlt : 2 * phdr.p_offset.toBitVec.toNat < 2 ^ 64 := by
      have hlt := hholds.offset
      rw [UInt64.toNat_toBitVec]
      omega
    exact BitVec.toInt_eq_toNat_of_lt hlt
  have heval := eval_notes phdr.p_offset.toNat notes [] ⟨0, (elfSegment order notes).length⟩ rfl
    rfl hstraight
  rw [List.nil_append, List.length_nil, Nat.cast_zero, add_zero] at heval
  have hfound : findElfNoteByName order file phdr.p_offset.toInt64.toInt phdr.p_filesz.toNat XEN =
      .ok (noteOffset order XEN phdr.p_offset.toNat notes) := by
    rw [hoffset, hholds.size, OpenFile.findElfNoteByName_eq hfile hholds.notes, heval]
  simp only [isXenPhdr, htype, if_true, hfound,
    noteOffset_ne_iff notes _ (Int.natCast_nonneg phdr.p_offset.toNat)]

/-- A note with the name `Xen`. -/
def xenElfNote : ElfNote where
  name := str "Xen" ++ [0]
  desc := []
  n_type := 0
  namePad := []
  descPad := []
  namesz_lt := by decide
  descsz_lt := by decide
  namePad_length := by decide
  descPad_length := by decide

/-- A note whose name begins with all of `xenElfNote`. -/
def enclosing (fill : Nat) (h : 16 + fill < 2 ^ 31) : ElfNote where
  name := xenElfNote.bytes .little ++ List.replicate fill 0
  desc := List.replicate (16 + fill) 0
  n_type := 0
  namePad := List.replicate ((16 + fill + 3) / 4 * 4 - (16 + fill)) 0
  descPad := List.replicate ((16 + fill + 3) / 4 * 4 - (16 + fill)) 0
  namesz_lt := by
    have hlength : (xenElfNote.bytes .little).length = 16 := by decide
    rwa [List.length_append, hlength, List.length_replicate]
  descsz_lt := by rwa [List.length_replicate]
  namePad_length := by
    have hlength : (xenElfNote.bytes .little).length = 16 := by decide
    rw [List.length_append, hlength, List.length_replicate, List.length_replicate]
  descPad_length := by rw [List.length_replicate, List.length_replicate]

theorem length_enclosing (fill : Nat) (h : 16 + fill < 2 ^ 31) :
    (enclosing fill h).name.length = 16 + fill ∧ (enclosing fill h).desc.length = 16 + fill := by
  have hlength : (xenElfNote.bytes .little).length = 16 := by decide
  constructor
  · rw [enclosing, List.length_append, hlength, List.length_replicate]
  · rw [enclosing, List.length_replicate]

theorem not_isNamed_enclosing (fill : Nat) (h : 16 + fill < 2 ^ 31) :
    ¬ (enclosing fill h).IsNamed XEN := by
  have hlength := (length_enclosing fill h).1
  rintro (hname | hname)
  · rw [hname] at hlength
    have hthree : XEN.text.length = 3 := by decide
    omega
  · rw [hname] at hlength
    have hfour : (XEN.text ++ [0]).length = 4 := by decide
    omega

/-- The note in the name is found. -/
theorem find_enclosing (fill : Nat) (h : 16 + fill < 2 ^ 31)
    (hover : (enclosing fill h).Overflows) :
    findElfNoteByName .little (OpenFile.ofContent (elfSegment .little [enclosing fill h])) 0
      (elfSegment .little [enclosing fill h]).length XEN = .ok 12 := by
  have hsegment : elfSegment .little [enclosing fill h] =
      (enclosing fill h).header .little ++ (xenElfNote.bytes .little ++
        (List.replicate fill 0 ++ ((enclosing fill h).namePad ++
          ((enclosing fill h).desc ++ (enclosing fill h).descPad)))) := by
    rw [elfSegment, List.flatMap_singleton, ElfNote.bytes,
      ← List.append_assoc _ (List.replicate _ _)]
    rfl
  have hheader : ((enclosing fill h).header .little).length = 12 := by simp [ElfNote.header]
  have hholds : OpenFile.Holds .little
      (OpenFile.ofContent (elfSegment .little [enclosing fill h])) 0 [enclosing fill h] :=
    List.prefix_rfl
  have hbuf : [] ++ (elfSegment .little [] ++ ((enclosing fill h).bytes .little ++ [])) =
      elfSegment .little [enclosing fill h] := by
    simp [elfSegment]
  have hbytes : (enclosing fill h).bytes .little ++ [] = elfSegment .little [enclosing fill h] :=
    hbuf
  have hoverflow := @eval_overflow .little XEN 0 [] (enclosing fill h) [] []
    ⟨0, (elfSegment .little [enclosing fill h]).length⟩ rfl (by rw [← hbuf]; rfl)
    (fun _ hm => absurd hm List.not_mem_nil) (not_isNamed_enclosing fill h) hover
  rw [hbuf, hbytes] at hoverflow
  -- the walk goes on behind the header of the note, where another note begins
  have hpass := @pass_note .little XEN ((enclosing fill h).header .little)
    (List.replicate fill 0 ++ ((enclosing fill h).namePad ++
      ((enclosing fill h).desc ++ (enclosing fill h).descPad))) xenElfNote 0
    ⟨12, (elfSegment .little [enclosing fill h]).length - 12⟩ hheader.symm
    (by rw [hsegment, List.length_append, hheader, Nat.add_sub_cancel_left])
  have hnamed : xenElfNote.IsNamed XEN := by decide
  rw [← hsegment, if_pos hnamed, hheader] at hpass
  have hfind := @OpenFile.findElfNoteByName_eq _ XEN _
    (OpenFile.readable_ofContent (elfSegment .little [enclosing fill h])) 0 _ hholds
  calc
    findElfNoteByName .little (OpenFile.ofContent (elfSegment .little [enclosing fill h])) 0
        (elfSegment .little [enclosing fill h]).length XEN
        = (walk .little (elfSegment .little [enclosing fill h]) XEN 0).eval
            ⟨0, (elfSegment .little [enclosing fill h]).length⟩ := hfind
    _ = (walk .little (elfSegment .little [enclosing fill h]) XEN 0).eval
            ⟨12, (elfSegment .little [enclosing fill h]).length - 12⟩ := hoverflow
    _ = .ok 12 := Loop.eval_done _ hpass

/-- A note of 4 GiB, with two sizes of `2 ^ 31 - 1`. -/
def fourGiB : ElfNote :=
  enclosing 2147483631 (by norm_num)

end Dump
end Kdump

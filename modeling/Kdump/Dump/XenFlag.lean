import Kdump.Dump.Notes

/-!
# XenFlag — which kind of note the data comes from

The walk sets `m_xenVmcoreinfo` at every `VMCOREINFO_XEN` note.  Nothing takes this back when a
`VMCOREINFO` note is found behind it.

* `dataNote` — the note that the data is copied from;
* `eval_source` — offset and flag behind the walk;
* `isXenVmcoreinfo_iff` — when the flag is right.
-/

namespace Kdump
namespace Dump

open Lib

/-- `Vmcoreinfo::isXenVmcoreinfo`. -/
def isXenVmcoreinfo (vm : Vmcoreinfo) : Bool :=
  vm.m_xenVmcoreinfo

/-! ## Where the data comes from -/

/-- The note whose descriptor begins at `offset`, if the notes begin at `start`. -/
def noteOf (order : ByteOrder) (offset : Nat) : (start : Nat) → List Note → Option Note
  | _, [] => none
  | start, n :: notes =>
      if start + (n.front order).length = offset then some n
      else noteOf order offset (start + (n.bytes order).length) notes

/-- The note that the data comes from, by the offset with which the walk ends. -/
def dataNote (order : ByteOrder) (isElf64 : Bool) (notes : List Note) (vm : Vmcoreinfo) :
    Option Note :=
  match (loop order (segment order notes) isElf64).eval ⟨0, 0, 0, vm.m_xenVmcoreinfo⟩ with
  | .error _ => none
  | .ok s => noteOf order s.offset_vmcoreinfo 0 notes

/-- A `VMCOREINFO_XEN` note is passed before the walk ends. -/
def passesXen (notes : List Note) : Bool :=
  (notes.takeWhile fun n => !n.isVmcoreinfo).any Note.isVmcoreinfoXen

theorem passesXen_cons (n : Note) (notes : List Note) :
    passesXen (n :: notes) =
      if n.isVmcoreinfoXen then true
      else if n.isVmcoreinfo then false
      else passesXen notes := by
  unfold passesXen
  split_ifs with hxen hvmcoreinfo
  · simp [isVmcoreinfo_of_xen hxen, hxen]
  · simp [hvmcoreinfo]
  · simp [hvmcoreinfo, hxen]

variable {order : ByteOrder}

/-- The walk over the rest of a segment: it ends at the note that is looked for, and the flag is set
if a `VMCOREINFO_XEN` note was on the way. -/
theorem eval_source (isElf64 : Bool) (notes : List Note) : ∀ (pre : Str) (s : Locals),
    s.offset = pre.length →
      ∃ s', (loop order (pre ++ segment order notes) isElf64).eval s = .ok s' ∧
        s'.m_xenVmcoreinfo = (s.m_xenVmcoreinfo || passesXen notes) ∧
        (source notes = none ∧ s'.offset_vmcoreinfo = s.offset_vmcoreinfo ∨
          ∃ n, source notes = some n ∧ pre.length < s'.offset_vmcoreinfo ∧
            noteOf order s'.offset_vmcoreinfo pre.length notes = some n) := by
  induction notes with
  | nil =>
      intro pre s hs
      refine ⟨s, ?_, (Bool.or_false _).symm, Or.inl ⟨rfl, rfl⟩⟩
      apply Loop.eval_done
      change step _ _ _ _ = _
      rw [step, if_neg (by rw [hs]; simp [segment])]
  | cons n notes ih =>
      intro pre s hs
      have hstep := @step_note order pre (segment order notes) n isElf64 s hs
      have hfront := @Note.length_front order n
      have hbytes := @Note.length_bytes order n
      have hcons : segment order (n :: notes) = n.bytes order ++ segment order notes :=
        List.flatMap_cons
      have hnext : pre.length + (n.bytes order).length = (pre ++ n.bytes order).length :=
        List.length_append.symm
      rw [passesXen_cons, source_cons, hcons]
      -- a descriptor further back is found there
      have hlater : ∀ {offset : Nat}, (pre ++ n.bytes order).length < offset →
          pre.length < offset ∧ noteOf order offset pre.length (n :: notes) =
            noteOf order offset (pre ++ n.bytes order).length notes := by
        intro offset hlt
        rw [← hnext] at hlt ⊢
        refine ⟨by omega, if_neg ?_⟩
        omega
      by_cases hxen : n.isVmcoreinfoXen = true
      · rw [if_pos hxen] at hstep
        rw [if_pos hxen, if_pos hxen, (loop order _ isElf64).eval_next hstep, ← List.append_assoc]
        obtain ⟨s', heval, hflag, hsource⟩ := ih (pre ++ n.bytes order)
          ⟨_, pre.length + (n.front order).length, n.desc.length, true⟩ hnext
        refine ⟨s', heval, ?_, Or.inr ?_⟩
        · rw [hflag, Bool.true_or, Bool.or_true]
        · rcases hsource with ⟨hnone, hoffset⟩ | ⟨m, hm, hlt, hnote⟩
          · refine ⟨n, by rw [hnone]; rfl, ?_, ?_⟩
            · rw [hoffset]
              dsimp only
              omega
            · rw [hoffset]
              exact if_pos rfl
          · obtain ⟨hpre, heq⟩ := hlater hlt
            exact ⟨m, by rw [hm]; rfl, hpre, heq.trans hnote⟩
      · rw [if_neg hxen] at hstep
        rw [if_neg hxen, if_neg hxen]
        by_cases hvmcoreinfo : n.isVmcoreinfo = true
        · rw [if_pos hvmcoreinfo] at hstep
          rw [if_pos hvmcoreinfo, if_pos hvmcoreinfo]
          refine ⟨_, (loop order _ isElf64).eval_done hstep, (Bool.or_false _).symm, Or.inr ?_⟩
          refine ⟨n, rfl, ?_, if_pos rfl⟩
          dsimp only
          omega
        · rw [if_neg hvmcoreinfo] at hstep
          rw [if_neg hvmcoreinfo, if_neg hvmcoreinfo, (loop order _ isElf64).eval_next hstep,
            ← List.append_assoc]
          obtain ⟨s', heval, hflag, hsource⟩ := ih (pre ++ n.bytes order)
            { s with offset := pre.length + (n.bytes order).length } hnext
          refine ⟨s', heval, hflag, hsource.imp_right ?_⟩
          rintro ⟨m, hm, hlt, hnote⟩
          obtain ⟨hpre, heq⟩ := hlater hlt
          exact ⟨m, hm, hpre, heq.trans hnote⟩

/-! ## The flag -/

theorem exists_isVmcoreinfo_iff {notes : List Note} :
    (∃ n ∈ notes, n.isVmcoreinfo = true) ↔ (notes.find? Note.isVmcoreinfo).isSome = true :=
  List.find?_isSome.symm

/-- Of the two kinds of notes, the data comes from a `VMCOREINFO_XEN` note only if there is no other
one. -/
theorem isVmcoreinfoXen_source {notes : List Note} {n : Note} (h : source notes = some n) :
    n.isVmcoreinfoXen = true ↔ ¬ ∃ n ∈ notes, n.isVmcoreinfo = true := by
  rw [exists_isVmcoreinfo_iff]
  unfold source firstOrLast at h
  cases hfind : notes.find? Note.isVmcoreinfo with
  | some m =>
      rw [hfind] at h
      have hm : m = n := Option.some.inj h
      have hvmcoreinfo : n.isVmcoreinfo = true := hm ▸ List.find?_some hfind
      constructor
      · intro hxen
        rw [isVmcoreinfo_of_xen hxen] at hvmcoreinfo
        cases hvmcoreinfo
      · intro hnone
        exact absurd rfl hnone
  | none =>
      rw [hfind] at h
      have hmem := List.mem_of_getLast? h
      exact ⟨fun _ => nofun, fun _ => (List.mem_filter.1 hmem).2⟩

/-- Without a `VMCOREINFO` note, the walk passes the note that the data comes from. -/
theorem passesXen_of_source {notes : List Note} {n : Note} (h : source notes = some n)
    (hnone : ¬ ∃ n ∈ notes, n.isVmcoreinfo = true) : passesXen notes = true := by
  have hxen := (isVmcoreinfoXen_source h).2 hnone
  rw [exists_isVmcoreinfo_iff, Bool.not_eq_true, Option.isSome_eq_false_iff,
    Option.isNone_iff_eq_none] at hnone
  unfold source firstOrLast at h
  rw [hnone] at h
  have hmem : n ∈ notes := (List.mem_filter.1 (List.mem_of_getLast? h)).1
  have hall : notes.takeWhile (fun n => !n.isVmcoreinfo) = notes := by
    refine List.takeWhile_eq_self_iff.2 fun m hm => ?_
    rw [Bool.not_eq_true']
    exact Bool.eq_false_iff.2 (List.find?_eq_none.1 hnone m hm)
  unfold passesXen
  rw [hall]
  exact List.any_eq_true.2 ⟨n, hmem, hxen⟩

/-- Offset, flag and data of a read that succeeds. -/
theorem read_source {isElf64 : Bool} {notes : List Note} {vm vm' : Vmcoreinfo} {desc : ByteVector}
    (h : readVmcoreinfoFromNotes order (segment order notes) isElf64 vm = .ok desc vm') :
    ∃ n, source notes = some n ∧ dataNote order isElf64 notes vm = some n ∧ n.desc = desc ∧
      vm'.m_xenVmcoreinfo = (vm.m_xenVmcoreinfo || passesXen notes) := by
  obtain ⟨s, heval, hflag, hsource⟩ := @eval_source order isElf64 notes []
    ⟨0, 0, 0, vm.m_xenVmcoreinfo⟩ rfl
  obtain ⟨xen, hsegment⟩ := @readVmcoreinfoFromNotes_segment order isElf64 notes vm
  rw [List.nil_append] at heval
  have hread := readVmcoreinfoFromNotes_eq_of_eval heval
  rw [h] at hread hsegment
  have hvm' : vm' = { vm with m_xenVmcoreinfo := s.m_xenVmcoreinfo } := by
    cases hfound : found (segment order notes) s with
    | error e =>
        rw [hfound] at hread
        cases hread
    | ok ret =>
        rw [hfound] at hread
        injection hread
  rw [wanted_eq] at hsegment
  rcases hsource with ⟨hnone, _⟩ | ⟨n, hn, _, hnote⟩
  · -- without a source the read would have failed
    rw [hnone] at hsegment
    cases hsegment
  · rw [hn] at hsegment
    refine ⟨n, hn, ?_, ?_, ?_⟩
    · unfold dataNote
      rw [heval]
      exact hnote
    · injection hsegment with hdesc
      exact hdesc.symm
    · rw [hvm']
      exact hflag

/-- Reading the lines of the data does not change the flag. -/
theorem isXenVmcoreinfo_readFromELF {segment : Str} {isElf64 : Bool} {vm vm' : Vmcoreinfo}
    (h : readFromELF order (.ok (segment, isElf64)) vm = .ok () vm') :
    ∃ desc vm₁, readVmcoreinfoFromNotes order segment isElf64 vm = .ok desc vm₁ ∧
      isXenVmcoreinfo vm' = isXenVmcoreinfo vm₁ := by
  obtain ⟨desc, vm₁, hread, hlines⟩ := bind_ok_iff.1 h
  injection hlines with _ hvm'
  exact ⟨desc, vm₁, hread, by rw [← hvm']; rfl⟩

/-- The data of a successful read is that of some note.  The flag tells of which kind that note is,
if and only if there is no `VMCOREINFO` note, or else no `VMCOREINFO_XEN` note stands before the
first one and the flag has not been set by an earlier read. -/
theorem isXenVmcoreinfo_iff (order : ByteOrder) (isElf64 : Bool) (notes : List Note)
    (vm vm' : Vmcoreinfo) (desc : ByteVector)
    (hread : readVmcoreinfoFromNotes order (segment order notes) isElf64 vm = .ok desc vm') :
    (∃ n, dataNote order isElf64 notes vm = some n ∧ n.desc = desc) ∧
      ((isXenVmcoreinfo vm' = true ↔
          ∃ n, dataNote order isElf64 notes vm = some n ∧ n.isVmcoreinfoXen = true) ↔
        ((∃ n ∈ notes, n.isVmcoreinfo = true) →
          vm.m_xenVmcoreinfo = false ∧ passesXen notes = false)) := by
  obtain ⟨n, hsource, hdata, hdesc, hflag⟩ := read_source hread
  refine ⟨⟨n, hdata, hdesc⟩, ?_⟩
  have hkind : (∃ n, dataNote order isElf64 notes vm = some n ∧ n.isVmcoreinfoXen = true) ↔
      ¬ ∃ n ∈ notes, n.isVmcoreinfo = true := by
    rw [← isVmcoreinfoXen_source hsource, hdata]
    simp
  rw [hkind, isXenVmcoreinfo, hflag]
  by_cases hvmcoreinfo : ∃ n ∈ notes, n.isVmcoreinfo = true
  · -- the flag must not be set
    have hforward := forall_prop_of_true (q := fun _ =>
      vm.m_xenVmcoreinfo = false ∧ passesXen notes = false) hvmcoreinfo
    rw [hforward, ← Bool.or_eq_false_iff, ← Bool.not_eq_true]
    exact ⟨fun h hset => h.1 hset hvmcoreinfo, fun h => ⟨fun hset => absurd hset h,
      fun hnone => absurd hvmcoreinfo hnone⟩⟩
  · -- the note was passed
    rw [passesXen_of_source hsource hvmcoreinfo, Bool.or_true]
    exact ⟨fun _ h => absurd h hvmcoreinfo, fun _ => ⟨fun _ => hvmcoreinfo, fun _ => rfl⟩⟩

def xenNote : Note where
  name := str "VMCOREINFO_XEN"
  desc := str "CRASHTIME=0"
  n_type := 0
  namePad := [0]
  descPad := [0]
  name_plain := by decide
  namesz_lt := by decide
  descsz_lt := by decide
  namePad_length := by decide
  descPad_length := by decide

/-- One read of a segment with a note of either kind. -/
theorem exists_read (order : ByteOrder) (isElf64 : Bool) {notes : List Note} {n : Note}
    (h : source notes = some n) (vm : Vmcoreinfo) :
    ∃ vm', readVmcoreinfoFromNotes order (segment order notes) isElf64 vm = .ok n.desc vm' := by
  obtain ⟨xen, hsegment⟩ := @readVmcoreinfoFromNotes_segment order isElf64 notes vm
  rw [wanted_eq, h] at hsegment
  exact ⟨_, hsegment⟩

theorem isXenVmcoreinfo_iff_release : ∃ vm',
    readVmcoreinfoFromNotes .little (segment .little [releaseNote, xenNote]) true ⟨∅, false⟩ =
        .ok releaseNote.desc vm' ∧
      (isXenVmcoreinfo vm' = true ↔
        ∃ n, dataNote .little true [releaseNote, xenNote] ⟨∅, false⟩ = some n ∧
          n.isVmcoreinfoXen = true) := by
  obtain ⟨vm', hread⟩ := @exists_read .little true [releaseNote, xenNote] releaseNote rfl
    ⟨∅, false⟩
  exact ⟨vm', hread, (isXenVmcoreinfo_iff _ _ _ _ _ _ hread).2.2 fun _ => ⟨rfl, rfl⟩⟩

/-- The flag stays set, although the data comes from the `VMCOREINFO` note. -/
theorem isXenVmcoreinfo_not_reset : ∃ vm',
    readVmcoreinfoFromNotes .little (segment .little [xenNote, releaseNote]) true ⟨∅, false⟩ =
        .ok releaseNote.desc vm' ∧
      ¬ (isXenVmcoreinfo vm' = true ↔
        ∃ n, dataNote .little true [xenNote, releaseNote] ⟨∅, false⟩ = some n ∧
          n.isVmcoreinfoXen = true) := by
  obtain ⟨vm', hread⟩ := @exists_read .little true [xenNote, releaseNote] releaseNote rfl
    ⟨∅, false⟩
  obtain ⟨n, hsource, hdata, -, hflag⟩ := read_source hread
  have hn : n = releaseNote := (Option.some.inj hsource).symm
  refine ⟨vm', hread, fun h => ?_⟩
  obtain ⟨m, hm, hxen⟩ := h.1 (hflag.trans rfl)
  rw [hdata, hn] at hm
  rw [← Option.some.inj hm] at hxen
  cases hxen

end Dump
end Kdump

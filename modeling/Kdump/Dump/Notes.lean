import Kdump.Lib.Scan
import Kdump.Lib.Wp
import Kdump.Dump.SaveDump

/-!
# Notes — what is found in a well-formed note segment

* `Note` — a note whose sizes and padding are right, and `segment`, the bytes of a list of notes;
* `step_note` — what one pass makes of one note;
* `eval_segment` — the walk over any list of notes;
* `Line` — a line `K=V`, and `lookup_foldl_addLine`, what a key has after any list of lines.
-/

namespace Kdump
namespace Dump

open Lib Config

/-! ## Well-formed notes -/

/-- A note: a name without NUL bytes, which is terminated by one, and a descriptor, both of them
padded to a multiple of four. -/
structure Note where
  name : Str
  desc : Str
  n_type : UInt32
  namePad : Str
  descPad : Str
  name_plain : (0 : UInt8) ∉ name
  namesz_lt : name.length + 1 < 2 ^ 31
  descsz_lt : desc.length < 2 ^ 31
  namePad_length : namePad.length = (name.length + 1 + 3) / 4 * 4 - (name.length + 1)
  descPad_length : descPad.length = (desc.length + 3) / 4 * 4 - desc.length

namespace Note

def header (order : ByteOrder) (n : Note) : Str :=
  order.bytes 4 (n.name.length + 1) ++ order.bytes 4 n.desc.length ++ order.bytes 4 n.n_type.toNat

/-- What there is of a note in front of its descriptor. -/
def front (order : ByteOrder) (n : Note) : Str :=
  n.header order ++ (n.name ++ 0 :: n.namePad)

def bytes (order : ByteOrder) (n : Note) : Str :=
  n.front order ++ (n.desc ++ n.descPad)

def isVmcoreinfo (n : Note) : Bool :=
  n.name = str "VMCOREINFO"

def isVmcoreinfoXen (n : Note) : Bool :=
  n.name = str "VMCOREINFO_XEN"

end Note

def segment (order : ByteOrder) (notes : List Note) : Str :=
  notes.flatMap (Note.bytes order)

/-! ## One note -/

variable {order : ByteOrder}

/-- A size is rounded up, if it does not come near the end of the range. -/
theorem toNat_pad4 {n : Nat} (h : n < 2 ^ 31) :
    (pad4 (UInt32.ofNat n)).toNat = (n + 3) / 4 * 4 := by
  have hn : (UInt32.ofNat n).toNat = n := UInt32.toNat_ofNat_of_lt' (h.trans (by norm_num))
  rw [pad4, toNat_roundUp (by rwa [hn]), hn]

/-- A header is read as it has been written. -/
theorem nhdr_header {namesz descsz : Nat} (hname : namesz < 256 ^ 4) (hdesc : descsz < 256 ^ 4)
    (n_type : UInt32) (rest : Str) :
    nhdr order (order.bytes 4 namesz ++ order.bytes 4 descsz ++ order.bytes 4 n_type.toNat ++
        rest) =
      some ⟨UInt32.ofNat namesz, UInt32.ofNat descsz, n_type⟩ := by
  have htype : n_type.toNat < 256 ^ 4 := n_type.toNat_lt
  have hskip : ∀ (i : Nat) (a b : Str), a.length = 4 → (a ++ b).drop (i + 4) = b.drop i := by
    intro i a b ha
    rw [Nat.add_comm, ← ha, List.drop_length_add_append]
  have hlength : 12 ≤ (order.bytes 4 namesz ++ order.bytes 4 descsz ++
      order.bytes 4 n_type.toNat ++ rest).length := by
    simp only [List.length_append, ByteOrder.length_bytes]
    omega
  rw [nhdr, if_pos hlength, List.append_assoc, List.append_assoc, hskip 4 _ _ (by simp),
    hskip 0 _ _ (by simp), hskip 0 _ _ (by simp), List.drop_zero, List.drop_zero,
    List.take_left' (by simp), List.take_left' (by simp), List.take_left' (by simp),
    order.value_bytes hname, order.value_bytes hdesc, order.value_bytes htype,
    UInt32.ofNat_toNat]

/-- A literal is compared with a name that is terminated, too. -/
theorem strncmp_name {name : Str} {rest : Str} : ∀ {literal : Str}, (0 : UInt8) ∉ literal →
    (0 : UInt8) ∉ name →
      strncmp (literal ++ [0]) (name ++ 0 :: rest) = .ok (decide (name = literal)) := by
  induction name with
  | nil =>
      intro literal hliteral _
      cases literal with
      | nil => rfl
      | cons a literal =>
          have ha : a ≠ 0 := fun h => hliteral (h ▸ List.mem_cons_self)
          rw [List.cons_append, List.nil_append, strncmp, if_pos ha]
          rfl
  | cons b name ih =>
      intro literal hliteral hname
      have hb : b ≠ 0 := fun h => hname (h ▸ List.mem_cons_self)
      cases literal with
      | nil =>
          rw [List.nil_append, List.cons_append, strncmp, if_pos hb.symm]
          rfl
      | cons a literal =>
          rw [List.cons_append, List.cons_append, strncmp]
          by_cases hab : a = b
          · subst hab
            rw [if_neg (not_not.2 rfl), if_neg hb, ih (fun h => hliteral (List.mem_cons_of_mem _ h))
              (fun h => hname (List.mem_cons_of_mem _ h))]
            simp
          · rw [if_pos hab, decide_eq_false fun h => hab (List.cons.inj h).1.symm]

namespace Note

variable (n : Note)

theorem length_header : (n.header order).length = 12 := by
  simp [header]

theorem length_front : (n.front order).length = 12 + (n.name.length + 1 + 3) / 4 * 4 := by
  rw [front, List.length_append, length_header, List.length_append, List.length_cons,
    n.namePad_length]
  omega

theorem length_bytes :
    (n.bytes order).length = (n.front order).length + (n.desc.length + 3) / 4 * 4 := by
  rw [bytes, List.length_append, List.length_append, n.descPad_length]
  omega

theorem nhdr_bytes (rest : Str) : nhdr order (n.bytes order ++ rest) =
    some ⟨UInt32.ofNat (n.name.length + 1), UInt32.ofNat n.desc.length, n.n_type⟩ := by
  have hname : n.name.length + 1 < 256 ^ 4 := n.namesz_lt.trans (by norm_num)
  have hdesc : n.desc.length < 256 ^ 4 := n.descsz_lt.trans (by norm_num)
  have hbytes : n.bytes order ++ rest = order.bytes 4 (n.name.length + 1) ++
      order.bytes 4 n.desc.length ++ order.bytes 4 n.n_type.toNat ++
        ((n.name ++ 0 :: n.namePad) ++ (n.desc ++ n.descPad) ++ rest) := by
    simp only [bytes, front, header, List.append_assoc]
  rw [hbytes, nhdr_header hname hdesc]

theorem noteName_bytes (rest : Str) : noteName ((n.bytes order ++ rest).drop 12) =
    .ok (if n.isVmcoreinfoXen then .xen else if n.isVmcoreinfo then .vmcoreinfo else .other) := by
  have hbytes : n.bytes order ++ rest = n.header order ++
      (n.name ++ 0 :: (n.namePad ++ (n.desc ++ n.descPad) ++ rest)) := by
    simp only [bytes, front, List.append_assoc, List.cons_append]
  have hxen : (0 : UInt8) ∉ str "VMCOREINFO_XEN" := by decide
  have hvmcoreinfo : (0 : UInt8) ∉ str "VMCOREINFO" := by decide
  rw [hbytes, List.drop_left' n.length_header, noteName, VMCOREINFO_XEN_NOTE_NAME,
    VMCOREINFO_NOTE_NAME, strncmp_name hxen n.name_plain, strncmp_name hvmcoreinfo n.name_plain,
    isVmcoreinfoXen, isVmcoreinfo]
  cases decide (n.name = str "VMCOREINFO_XEN") with
  | true => rfl
  | false =>
      cases decide (n.name = str "VMCOREINFO") with
      | true => rfl
      | false => rfl

end Note

/-- One pass of the walk, at the place of a note. -/
theorem step_note (pre rest : Str) (n : Note) (isElf64 : Bool) {s : Locals}
    (hs : s.offset = pre.length) :
    step order (pre ++ (n.bytes order ++ rest)) isElf64 s =
      if n.isVmcoreinfoXen then
        .next ⟨pre.length + (n.bytes order).length, pre.length + (n.front order).length,
          n.desc.length, true⟩
      else if n.isVmcoreinfo then
        .done (.ok { s with
          offset_vmcoreinfo := pre.length + (n.front order).length
          size_vmcoreinfo := n.desc.length })
      else
        .next { s with offset := pre.length + (n.bytes order).length } := by
  have hlength := @Note.length_bytes order n
  have hfront := @Note.length_front order n
  have hlt : s.offset < (pre ++ (n.bytes order ++ rest)).length := by
    rw [hs, List.length_append, List.length_append]
    omega
  have hdesc : (UInt32.ofNat n.desc.length).toNat = n.desc.length :=
    UInt32.toNat_ofNat_of_lt' (n.descsz_lt.trans (by norm_num))
  have hname : (pre ++ (n.bytes order ++ rest)).drop (pre.length + 12) =
      (n.bytes order ++ rest).drop 12 := List.drop_length_add_append _
  rw [step, if_pos hlt, hs, List.drop_left, n.nhdr_bytes]
  dsimp only
  rw [sizeofNhdr_eq, hname, n.noteName_bytes, toNat_pad4 n.namesz_lt, toNat_pad4 n.descsz_lt,
    hdesc, ← hfront, Nat.add_assoc, ← hlength]
  split_ifs <;> rfl

/-! ## The walk -/

/-- The note that is looked for: the first `VMCOREINFO` note, or else the last `VMCOREINFO_XEN`
note. -/
def source (notes : List Note) : Option Note :=
  firstOrLast Note.isVmcoreinfo Note.isVmcoreinfoXen notes

/-- The descriptor that is wanted: that of the first `VMCOREINFO` note, or else that of the last
`VMCOREINFO_XEN` note. -/
def wanted (notes : List Note) : Option Str :=
  ((notes.find? Note.isVmcoreinfo) <|> (notes.filter Note.isVmcoreinfoXen).getLast?).map Note.desc

theorem wanted_eq (notes : List Note) : wanted notes = (source notes).map Note.desc :=
  rfl

theorem isVmcoreinfo_of_xen {n : Note} (h : n.isVmcoreinfoXen = true) : n.isVmcoreinfo = false := by
  have hname : n.name = str "VMCOREINFO_XEN" := of_decide_eq_true h
  rw [Note.isVmcoreinfo, hname]
  decide

theorem source_cons (n : Note) (notes : List Note) :
    source (n :: notes) =
      if n.isVmcoreinfoXen then source notes <|> some n
      else if n.isVmcoreinfo then some n
      else source notes :=
  firstOrLast_cons isVmcoreinfo_of_xen notes

/-- With a descriptor that is taken if there is none in the notes. -/
theorem wanted_cons (n : Note) (notes : List Note) (before : Option Str) :
    (wanted (n :: notes) <|> before) =
      if n.isVmcoreinfoXen then wanted notes <|> some n.desc
      else if n.isVmcoreinfo then some n.desc
      else wanted notes <|> before := by
  rw [wanted_eq, wanted_eq, source_cons]
  split_ifs
  · cases source notes <;> rfl
  · rfl
  · rfl

/-- What is copied for a descriptor, if there is one. -/
def copied : Option Str → Except Thrown ByteVector
  | none => .error (.KError (str "VMCOREINFO not found."))
  | some desc => .ok desc

theorem found_note (pre rest : Str) (n : Note) (offset : Nat) (xen : Bool) :
    found (pre ++ (n.bytes order ++ rest))
      ⟨offset, pre.length + (n.front order).length, n.desc.length, xen⟩ = copied (some n.desc) := by
  have hfront := @Note.length_front order n
  have hbuffer : pre ++ (n.bytes order ++ rest) =
      (pre ++ n.front order) ++ (n.desc ++ (n.descPad ++ rest)) := by
    simp only [Note.bytes, List.append_assoc]
  have hle : (pre ++ n.front order).length + n.desc.length ≤
      ((pre ++ n.front order) ++ (n.desc ++ (n.descPad ++ rest))).length := by
    simp only [List.length_append]
    omega
  have hne : ¬ ((pre ++ n.front order).length = 0 ∧ n.desc.length = 0) := by
    rw [List.length_append]
    omega
  rw [hbuffer, ← List.length_append, found]
  dsimp only
  rw [if_neg hne, if_pos hle, List.drop_left, List.take_left]
  rfl

/-- The walk over the rest of a segment, when something may have been found before. -/
theorem eval_segment (isElf64 : Bool) (notes : List Note) : ∀ (pre : Str) (s : Locals)
    (before : Option Str), s.offset = pre.length →
      found (pre ++ segment order notes) s = copied before →
      ∃ s', (loop order (pre ++ segment order notes) isElf64).eval s = .ok s' ∧
        found (pre ++ segment order notes) s' = copied (wanted notes <|> before) := by
  induction notes with
  | nil =>
      intro pre s before hs hfound
      refine ⟨s, ?_, hfound⟩
      apply Loop.eval_done
      change step _ _ _ _ = _
      rw [step, if_neg (by rw [hs]; simp [segment])]
  | cons n notes ih =>
      intro pre s before hs hfound
      have hstep := @step_note order pre (segment order notes) n isElf64 s hs
      have hcons : segment order (n :: notes) = n.bytes order ++ segment order notes :=
        List.flatMap_cons
      have hnext : pre.length + (n.bytes order).length = (pre ++ n.bytes order).length :=
        List.length_append.symm
      rw [wanted_cons, hcons] at *
      by_cases hxen : n.isVmcoreinfoXen = true
      · -- remember this descriptor, and go on
        rw [if_pos hxen] at hstep ⊢
        rw [(loop order _ isElf64).eval_next hstep, ← List.append_assoc]
        refine ih _ _ _ hnext ?_
        rw [List.append_assoc]
        exact found_note pre _ n _ _
      · rw [if_neg hxen] at hstep ⊢
        by_cases hvmcoreinfo : n.isVmcoreinfo = true
        · -- this note ends the walk
          rw [if_pos hvmcoreinfo] at hstep ⊢
          exact ⟨_, (loop order _ isElf64).eval_done hstep, found_note pre _ n _ _⟩
        · rw [if_neg hvmcoreinfo] at hstep ⊢
          rw [(loop order _ isElf64).eval_next hstep, ← List.append_assoc]
          refine ih _ _ _ hnext ?_
          rw [List.append_assoc]
          exact hfound

/-- The value of a function, without the object. -/
def outcome {α : Type} : EStateM.Result Thrown Vmcoreinfo α → Except Thrown α
  | .ok value _ => .ok value
  | .error e _ => .error e

/-- The run behind the loop. -/
theorem readVmcoreinfoFromNotes_eq_of_eval {buffer : Str} {isElf64 : Bool} {vm : Vmcoreinfo}
    {s : Locals}
    (h : (loop order buffer isElf64).eval ⟨0, 0, 0, vm.m_xenVmcoreinfo⟩ = .ok s) :
    readVmcoreinfoFromNotes order buffer isElf64 vm =
      match found buffer s with
      | .error e => .error e { vm with m_xenVmcoreinfo := s.m_xenVmcoreinfo }
      | .ok ret => .ok ret { vm with m_xenVmcoreinfo := s.m_xenVmcoreinfo } := by
  have hget : (get : Prog Vmcoreinfo) vm = .ok vm vm := rfl
  unfold readVmcoreinfoFromNotes
  refine (bind_ok hget).trans ?_
  rw [h]
  dsimp only
  cases found buffer s with
  | error e => rfl
  | ok ret => rfl

/-- What the function returns for a well-formed segment, and what it leaves in the object. -/
theorem readVmcoreinfoFromNotes_segment (isElf64 : Bool) (notes : List Note) (vm : Vmcoreinfo) :
    ∃ xen, readVmcoreinfoFromNotes order (segment order notes) isElf64 vm =
      match wanted notes with
      | none => .error (.KError (str "VMCOREINFO not found.")) { vm with m_xenVmcoreinfo := xen }
      | some desc => .ok desc { vm with m_xenVmcoreinfo := xen } := by
  rcases @eval_segment order isElf64 notes [] ⟨0, 0, 0, vm.m_xenVmcoreinfo⟩ none rfl rfl
    with ⟨s, heval, hfound⟩
  rw [List.nil_append] at heval hfound
  rw [readVmcoreinfoFromNotes_eq_of_eval heval, hfound]
  refine ⟨s.m_xenVmcoreinfo, ?_⟩
  cases wanted notes with
  | none => rfl
  | some desc => rfl

/-! ## Lines -/

/-- A line `K=V`: no equals sign in the key, and no blanks around the line. -/
structure Line where
  key : Str
  value : Str
  key_plain : eqSign ∉ key
  one_line : newline ∉ key ++ eqSign :: value
  no_blank : Stops KString.blanks.contains (key ++ eqSign :: value)
  no_blank_back : StopsBack KString.blanks.contains (key ++ eqSign :: value)

namespace Line

def text (l : Line) : Str :=
  l.key ++ eqSign :: l.value

theorem trim_text (l : Line) : KString.trim KString.blanks l.text = l.text := by
  rw [KString.trim, text, rdropWhile_stops l.no_blank_back, dropWhile_stops l.no_blank]

/-- What a line does to a key that a caller can ask for. -/
theorem getElem?_addLine (l : Line) (m : StringStringMap) (key : CString) :
    (addLine m l.text)[key.text]? = if l.key = key.text then some l.value else m[key.text]? := by
  have hne : l.text ≠ [] := List.append_ne_nil_of_right_ne_nil _ (List.cons_ne_nil _ _)
  have hmem : eqSign ∈ l.text := List.mem_append_right _ List.mem_cons_self
  have hall : ∀ c ∈ l.key, decide (c ≠ eqSign) = true := by
    intro c hc
    exact decide_eq_true fun h => l.key_plain (h ▸ hc)
  have hstop : Stops (fun c => decide (c ≠ eqSign)) (eqSign :: l.value) := by
    rw [stops_cons]
    decide
  have htake : l.text.takeWhile (· ≠ eqSign) = l.key := takeWhile_scan hall hstop
  have hdrop : l.text.dropWhile (· ≠ eqSign) = eqSign :: l.value := dropWhile_scan hall hstop
  rw [addLine, l.trim_text]
  by_cases hhead : l.text.head? = some 0
  · -- the line is skipped, but nobody can ask for its key
    have hkey : l.key ≠ key.text := by
      intro h
      rw [text] at hhead
      cases hcases : l.key with
      | nil =>
          rw [hcases] at hhead
          cases hhead
      | cons c rest =>
          rw [hcases] at hhead
          have hc : c = 0 := Option.some.inj hhead
          exact key.plain (h ▸ hcases ▸ hc ▸ List.mem_cons_self)
    rw [if_pos (Or.inr hhead), if_neg hkey]
  · rw [if_neg (not_or.2 ⟨hne, hhead⟩), if_pos hmem, htake, hdrop, List.drop_one, List.tail_cons,
      Std.TreeMap.getElem?_insert]
    simp

end Line

/-- The last line decides. -/
theorem getElem?_foldl_addLine (lines : List Line) (m : StringStringMap) (key : CString) :
    ((lines.map Line.text).foldl addLine m)[key.text]? =
      match (lines.filter fun l => l.key = key.text).getLast? with
      | some l => some l.value
      | none => m[key.text]? := by
  induction lines generalizing m with
  | nil => rfl
  | cons l lines ih =>
      rw [List.map_cons, List.foldl_cons, ih, l.getElem?_addLine]
      by_cases hkey : l.key = key.text
      · rw [if_pos hkey, List.filter_cons_of_pos (by simpa using hkey), List.getLast?_cons]
        cases (lines.filter fun l => l.key = key.text).getLast? <;> rfl
      · rw [if_neg hkey, List.filter_cons_of_neg (by simpa using hkey)]

/-- Lines with newlines between them, and perhaps another one at the end. -/
def joined (lines : List Line) (terminated : Bool) : Str :=
  [newline].intercalate (lines.map Line.text) ++ if terminated then [newline] else []

theorem addLine_nil (m : StringStringMap) : addLine m [] = m := by
  have htrim : KString.trim KString.blanks [] = [] := rfl
  rw [addLine, htrim]
  exact if_pos (Or.inl rfl)

/-- Cutting the text gives the lines, and possibly an empty one. -/
theorem foldl_split_joined (lines : List Line) (terminated : Bool) (m : StringStringMap) :
    (KString.split newline (joined lines terminated)).foldl addLine m =
      (lines.map Line.text).foldl addLine m := by
  have hplain : ∀ text ∈ lines.map Line.text, newline ∉ text := by
    intro text htext
    rcases List.mem_map.1 htext with ⟨l, _, rfl⟩
    exact l.one_line
  have hsplit : (KString.split newline ([newline].intercalate (lines.map Line.text))).foldl
      addLine m = (lines.map Line.text).foldl addLine m := by
    cases hlines : lines.map Line.text with
    | nil => exact addLine_nil m
    | cons text texts =>
        rw [hlines] at hplain
        rw [KString.split, List.splitOn_intercalate newline hplain (List.cons_ne_nil _ _)]
  cases terminated with
  | false =>
      rw [joined, if_neg Bool.false_ne_true, List.append_nil]
      exact hsplit
  | true =>
      have hlast : ∀ m, (KString.split newline []).foldl addLine m = m := addLine_nil
      rw [joined, if_pos rfl, KString.split, List.splitOn_append_cons_self, List.foldl_append]
      exact (hlast _).trans hsplit

/-- From the notes of a dump to the values of its keys: the first `VMCOREINFO` note is found, or
else the last `VMCOREINFO_XEN` note, and of the lines for a key, the last one counts. -/
theorem vmcoreinfo_of_segment (order : ByteOrder) (isElf64 : Bool) (notes : List Note)
    (vm : Vmcoreinfo) :
    outcome (readVmcoreinfoFromNotes order (segment order notes) isElf64 vm) =
        (match (notes.find? Note.isVmcoreinfo) <|>
            (notes.filter Note.isVmcoreinfoXen).getLast? with
          | some n => .ok n.desc
          | none => .error (.KError (str "VMCOREINFO not found."))) ∧
      ∀ lines terminated, wanted notes = some (joined lines terminated) →
        ∃ vm', readFromELF order (.ok (segment order notes, isElf64)) vm = .ok () vm' ∧
          ∀ (key : CString) (l : Line),
            (lines.filter fun l => l.key = key.text).getLast? = some l →
              getStringValue vm' key = .ok l.value := by
  rcases @readVmcoreinfoFromNotes_segment order isElf64 notes vm with ⟨xen, hread⟩
  constructor
  · rw [hread, wanted]
    cases (notes.find? Note.isVmcoreinfo) <|> (notes.filter Note.isVmcoreinfoXen).getLast? with
    | none => rfl
    | some n => rfl
  · intro lines terminated hwanted
    rw [hwanted] at hread
    refine ⟨⟨(lines.map Line.text).foldl addLine vm.m_map, xen⟩, ?_, ?_⟩
    · unfold readFromELF
      dsimp only
      rw [bind_ok hread, ← foldl_split_joined lines terminated]
      rfl
    · intro key l hlast
      have hget := getElem?_foldl_addLine lines vm.m_map key
      rw [hlast] at hget
      simp only [getStringValue, hget]

def releaseLine : Line where
  key := str "OSRELEASE"
  value := str "6.4.0"
  key_plain := by decide
  one_line := by decide
  no_blank := by
    rintro _ ⟨⟩
    rfl
  no_blank_back := by
    rintro _ ⟨⟩
    rfl

def releaseNote : Note where
  name := str "VMCOREINFO"
  desc := joined [releaseLine] true
  n_type := 0
  namePad := [0]
  descPad := []
  name_plain := by decide
  namesz_lt := by decide
  descsz_lt := by decide
  namePad_length := by decide
  descPad_length := by decide

theorem vmcoreinfo_of_segment_release :
    ∃ vm', readFromELF .little (.ok (segment .little [releaseNote], true)) ⟨∅, false⟩ =
        .ok () vm' ∧
      getStringValue vm' OSRELEASE = .ok (str "6.4.0") := by
  rcases (vmcoreinfo_of_segment .little true [releaseNote] ⟨∅, false⟩).2 [releaseLine] true rfl with
    ⟨vm', hread, hget⟩
  exact ⟨vm', hread, hget OSRELEASE releaseLine rfl⟩

end Dump
end Kdump

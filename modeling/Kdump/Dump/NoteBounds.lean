import Kdump.Dump.Notes

/-!
# NoteBounds — which bytes of a note segment are read

`readVmcoreinfoFromNotes` gets the size of the buffer, but compares only the offset of a header with
it.  How far a name is compared and a descriptor is copied is up to the content.

* `Reads` — the offsets of the bytes that a call reads;
* `places` — where the notes of a buffer begin, as their sizes tell;
* `Contained` — the buffers that do not lead out of themselves;
* `reads_inside_iff` — for these, and for no others, every byte that is read lies in the buffer.
-/

namespace Kdump
namespace Dump

open Lib

/-! ## What is read -/

/-- How many characters of its second argument `strncmp` looks at.  At the end of the text it looks
at one more. -/
def compared : Str → Str → Nat
  | [], _ => 0
  | _ :: _, [] => 1
  | a :: s, b :: t => if a ≠ b ∨ a = 0 then 1 else compared s t + 1

/-- The second literal is compared if the first one is different. -/
def nameCompared (name : Str) : Nat :=
  match strncmp VMCOREINFO_XEN_NOTE_NAME name with
  | .ok false =>
      max (compared VMCOREINFO_XEN_NOTE_NAME name) (compared VMCOREINFO_NOTE_NAME name)
  | _ => compared VMCOREINFO_XEN_NOTE_NAME name

variable (order : ByteOrder) (buffer : Str) (isElf64 : Bool)

/-- One pass reads two members of a header and a part of the name. -/
def passReads (s : Locals) : List Nat :=
  let name := s.offset + sizeofNhdr isElf64
  (List.range 8).map (s.offset + ·) ++
    (List.range (nameCompared (buffer.drop name))).map (name + ·)

/-- The copy behind the loop. -/
def copyReads (s : Locals) : List Nat :=
  (List.range s.size_vmcoreinfo).map (s.offset_vmcoreinfo + ·)

/-- A byte is read by a pass of the walk that is in state `s`, or behind it.  A pass that has read
outside of the buffer is the last one, since what it has found there is not known. -/
def ReadsFrom (s : Locals) (k : Nat) : Prop :=
  (∃ s', (loop order buffer isElf64).Reach s s' ∧ s'.offset < buffer.length ∧
    k ∈ passReads buffer isElf64 s') ∨
  ∃ s', (loop order buffer isElf64).eval s = .ok s' ∧ k ∈ copyReads s'

/-- A byte is read by a call. -/
def Reads (vm : Vmcoreinfo) (k : Nat) : Prop :=
  ReadsFrom order buffer isElf64 ⟨0, 0, 0, vm.m_xenVmcoreinfo⟩ k

/-! ## Where the notes are -/

section

variable (r : Str)

/-- `n_namesz` of the note at the beginning of `r`. -/
def n_namesz : UInt32 :=
  UInt32.ofNat (order.value (r.take 4))

def n_descsz : UInt32 :=
  UInt32.ofNat (order.value ((r.drop 4).take 4))

/-- Where the descriptor begins. -/
def descOffset : Nat :=
  12 + (pad4 (n_namesz order r)).toNat

/-- Where the next note begins. -/
def noteLength : Nat :=
  descOffset order r + (pad4 (n_descsz order r)).toNat

/-- What follows the header begins with a literal. -/
def startsWith (literal : Str) : Bool :=
  literal.isPrefixOf (r.drop 12)

/-- The buffer ends before the name can be told from `VMCOREINFO_XEN`. -/
def NameCut : Prop :=
  r.drop 12 <+: VMCOREINFO_XEN_NOTE_NAME ∧ r.drop 12 ≠ VMCOREINFO_XEN_NOTE_NAME

/-- The descriptor is empty, or it lies in the buffer. -/
def DescInside : Prop :=
  n_descsz order r = 0 ∨ descOffset order r + (n_descsz order r).toNat ≤ r.length

end

/-- The buffer from each note on.  A note takes at least one byte, so there are at most `n` of them
in `n` bytes. -/
def placesIn : (n : Nat) → (r : Str) → List Str
  | 0, _ => []
  | n + 1, r => if r = [] then [] else r :: placesIn n (r.drop (noteLength order r))

def places : List Str :=
  placesIn order buffer.length buffer

/-- The walk comes to the notes up to the first `VMCOREINFO` note. -/
def upTo {α : Type} (p : α → Bool) (xs : List α) : List α :=
  xs.takeWhile (fun x => !p x) ++ (xs.find? p).toList

/-- The note whose descriptor is taken: the first `VMCOREINFO` note, or else the last
`VMCOREINFO_XEN` note. -/
def taken : List Str → Option Str :=
  firstOrLast (startsWith · VMCOREINFO_NOTE_NAME) (startsWith · VMCOREINFO_XEN_NOTE_NAME)

/-- Every name on the way can be told, and the descriptor that is taken is empty or inside. -/
structure Contained : Prop where
  names : ∀ r ∈ upTo (startsWith · VMCOREINFO_NOTE_NAME) (places order buffer), ¬ NameCut r
  desc : ∀ r ∈ taken (places order buffer), DescInside order r

/-! ## Names -/

/-- The three ways in which a comparison can end. -/
theorem strncmp_cases {literal : Str} (hliteral : (0 : UInt8) ∉ literal) (name : Str) :
    (literal ++ [0] <+: name ∧ strncmp (literal ++ [0]) name = .ok true ∧
      compared (literal ++ [0]) name ≤ name.length) ∨
    ((name <+: literal ++ [0] ∧ name ≠ literal ++ [0]) ∧
      strncmp (literal ++ [0]) name = .error .undefined ∧
      compared (literal ++ [0]) name = name.length + 1) ∨
    ((¬ literal ++ [0] <+: name ∧ ¬ name <+: literal ++ [0]) ∧
      strncmp (literal ++ [0]) name = .ok false ∧
      compared (literal ++ [0]) name ≤ name.length) := by
  induction literal generalizing name with
  | nil =>
      cases name with
      | nil => exact Or.inr (Or.inl ⟨⟨List.nil_prefix, nofun⟩, rfl, rfl⟩)
      | cons b name =>
          by_cases hb : 0 = b
          · subst hb
            exact Or.inl ⟨by simp, rfl, by simp [compared]⟩
          · refine Or.inr (Or.inr ⟨?_, ?_, ?_⟩)
            · simp [hb, Ne.symm hb]
            · exact if_pos hb
            · simp [compared, hb]
  | cons a literal ih =>
      obtain ⟨ha, hrest⟩ := List.ne_and_not_mem_of_not_mem_cons hliteral
      cases name with
      | nil => exact Or.inr (Or.inl ⟨⟨List.nil_prefix, nofun⟩, rfl, rfl⟩)
      | cons b name =>
          by_cases hab : a = b
          · subst hab
            have hstrncmp : strncmp (a :: literal ++ [0]) (a :: name) =
                strncmp (literal ++ [0]) name := by
              rw [List.cons_append, strncmp, if_neg (not_not.2 rfl), if_neg ha.symm]
            have hcompared : compared (a :: literal ++ [0]) (a :: name) =
                compared (literal ++ [0]) name + 1 := by
              rw [List.cons_append, compared, if_neg (by simp [ha.symm])]
            -- the same byte in both, which is not the end of the literal: go on behind it
            rw [hstrncmp, hcompared, List.cons_append, List.cons_prefix_cons,
              List.cons_prefix_cons, List.length_cons]
            simp only [true_and, ne_eq, List.cons.injEq, add_left_inj, add_le_add_iff_right]
            exact ih hrest name
          · refine Or.inr (Or.inr ⟨?_, ?_, ?_⟩)
            · rw [List.cons_append, List.cons_prefix_cons, List.cons_prefix_cons]
              exact ⟨fun h => hab h.1, fun h => hab h.1.symm⟩
            · exact if_pos hab
            · rw [List.cons_append, compared, if_pos (Or.inl hab), List.length_cons]
              exact Nat.succ_pos _

theorem compared_pos {literal : Str} (hne : literal ≠ []) (name : Str) :
    0 < compared literal name := by
  cases literal with
  | nil => exact absurd rfl hne
  | cons a literal =>
      cases name with
      | nil => exact Nat.one_pos
      | cons b name =>
          rw [compared]
          split_ifs
          · exact Nat.one_pos
          · exact Nat.succ_pos _

theorem nameCompared_pos (name : Str) : 0 < nameCompared name := by
  have hne : VMCOREINFO_XEN_NOTE_NAME ≠ [] :=
    List.append_ne_nil_of_right_ne_nil _ (List.cons_ne_nil 0 [])
  have hxen := compared_pos hne name
  unfold nameCompared
  split
  · exact lt_max_of_lt_left hxen
  · exact hxen

/-- The kind of a note, by the bytes behind its header. -/
def kind (name : Str) : NoteName :=
  if VMCOREINFO_XEN_NOTE_NAME.isPrefixOf name then .xen
  else if VMCOREINFO_NOTE_NAME.isPrefixOf name then .vmcoreinfo
  else .other

/-- A name that is cut is read beyond its end; any other one is told, and not read beyond. -/
theorem name_cases (name : Str) :
    ((name <+: VMCOREINFO_XEN_NOTE_NAME ∧ name ≠ VMCOREINFO_XEN_NOTE_NAME) ∧
      noteName name = .error .undefined ∧ name.length < nameCompared name) ∨
    (¬ (name <+: VMCOREINFO_XEN_NOTE_NAME ∧ name ≠ VMCOREINFO_XEN_NOTE_NAME) ∧
      noteName name = .ok (kind name) ∧ nameCompared name ≤ name.length) := by
  have hxenPlain : (0 : UInt8) ∉ str "VMCOREINFO_XEN" := by decide
  have hplain : (0 : UInt8) ∉ str "VMCOREINFO" := by decide
  unfold noteName nameCompared kind
  simp only [List.isPrefixOf_iff_prefix]
  rcases strncmp_cases hxenPlain name with ⟨hwhole, heq, hle⟩ | ⟨hcut, heq, hlength⟩ |
    ⟨⟨hxen, hcut⟩, heq, hle⟩
  · right
    unfold VMCOREINFO_XEN_NOTE_NAME
    rw [heq, if_pos hwhole]
    refine ⟨fun h => h.2 ?_, rfl, hle⟩
    exact h.1.eq_of_length (le_antisymm h.1.length_le hwhole.length_le)
  · left
    unfold VMCOREINFO_XEN_NOTE_NAME
    rw [heq]
    exact ⟨hcut, rfl, hlength ▸ Nat.lt_succ_self _⟩
  · right
    -- the name differs from the longer literal, so that it does not end within the shorter one
    have hshort : ¬ name <+: str "VMCOREINFO" := by
      intro h
      exact hcut (h.trans (by decide))
    unfold VMCOREINFO_XEN_NOTE_NAME VMCOREINFO_NOTE_NAME
    rw [heq, if_neg hxen]
    rcases strncmp_cases hplain name with ⟨hwhole, heq', hle'⟩ | ⟨hcut', _⟩ |
      ⟨⟨hother, _⟩, heq', hle'⟩
    · rw [heq', if_pos hwhole]
      exact ⟨fun h => hcut h.1, rfl, max_le hle hle'⟩
    · rcases List.prefix_concat_iff.1 hcut'.1 with h | h
      · exact absurd h hcut'.2
      · exact absurd h hshort
    · rw [heq', if_neg hother]
      exact ⟨fun h => hcut h.1, rfl, max_le hle hle'⟩

/-! ## One pass -/

variable {order buffer isElf64} {s s' : Locals}

theorem nameCut_iff {r : Str} : NameCut r ↔ (r.drop 12).length < nameCompared (r.drop 12) := by
  rcases name_cases (r.drop 12) with ⟨hcut, _, hlt⟩ | ⟨hcut, _, hle⟩
  · exact iff_of_true hcut hlt
  · exact iff_of_false hcut (not_lt.2 hle)

/-- A name that can be told stands behind a whole header. -/
theorem length_of_not_nameCut {r : Str} (h : ¬ NameCut r) : 12 < r.length := by
  rw [nameCut_iff, not_lt, List.length_drop] at h
  have hpos := nameCompared_pos (r.drop 12)
  omega

theorem step_nameCut (hlt : s.offset < buffer.length) (h : NameCut (buffer.drop s.offset)) :
    step order buffer isElf64 s = .done (.error .undefined) := by
  have hname : noteName (buffer.drop (s.offset + sizeofNhdr isElf64)) = .error .undefined := by
    rw [sizeofNhdr_eq, ← List.drop_drop]
    rcases name_cases ((buffer.drop s.offset).drop 12) with ⟨_, hname, _⟩ | ⟨hcut, _⟩
    · exact hname
    · exact absurd h hcut
  rw [step, if_pos hlt]
  cases nhdr order (buffer.drop s.offset) with
  | none => rfl
  | some note => simp only [hname]

/-- What a pass makes of a note with a name that can be told. -/
theorem step_place (hlt : s.offset < buffer.length) (h : ¬ NameCut (buffer.drop s.offset)) :
    step order buffer isElf64 s =
      match kind ((buffer.drop s.offset).drop 12) with
      | .xen => .next ⟨s.offset + noteLength order (buffer.drop s.offset),
          s.offset + descOffset order (buffer.drop s.offset),
          (n_descsz order (buffer.drop s.offset)).toNat, true⟩
      | .vmcoreinfo => .done (.ok { s with
          offset_vmcoreinfo := s.offset + descOffset order (buffer.drop s.offset)
          size_vmcoreinfo := (n_descsz order (buffer.drop s.offset)).toNat })
      | .other => .next { s with
          offset := s.offset + noteLength order (buffer.drop s.offset) } := by
  have hlength := length_of_not_nameCut h
  have hname : noteName (buffer.drop (s.offset + 12)) =
      .ok (kind ((buffer.drop s.offset).drop 12)) := by
    rw [← List.drop_drop]
    rcases name_cases ((buffer.drop s.offset).drop 12) with ⟨hcut, _⟩ | ⟨_, hname, _⟩
    · exact absurd hcut h
    · exact hname
  rw [step, if_pos hlt, nhdr, if_pos hlength.le]
  simp only [sizeofNhdr_eq, hname, Nat.add_assoc, noteLength, descOffset, n_namesz, n_descsz]
  cases kind ((buffer.drop s.offset).drop 12) <;> rfl

/-- A pass reads inside of the buffer if it can tell the name. -/
theorem passReads_inside_iff :
    (∀ k ∈ passReads buffer isElf64 s, k < buffer.length) ↔ ¬ NameCut (buffer.drop s.offset) := by
  have hpos := nameCompared_pos ((buffer.drop s.offset).drop 12)
  have hdrop : ((buffer.drop s.offset).drop 12).length = buffer.length - s.offset - 12 := by
    rw [List.length_drop, List.length_drop]
  rw [nameCut_iff, not_lt, hdrop]
  unfold passReads
  rw [sizeofNhdr_eq]
  dsimp only
  rw [← List.drop_drop]
  simp only [List.forall_mem_append, List.forall_mem_map, List.mem_range]
  constructor
  · rintro ⟨_, hname⟩
    have hlast := hname _ (Nat.sub_lt hpos Nat.one_pos)
    omega
  · intro hle
    constructor
    · intro i hi
      omega
    · intro i hi
      omega

def CopyInside (buffer : Str) (s : Locals) : Prop :=
  s.size_vmcoreinfo = 0 ∨ s.offset_vmcoreinfo + s.size_vmcoreinfo ≤ buffer.length

theorem copyReads_inside_iff : (∀ k ∈ copyReads s, k < buffer.length) ↔ CopyInside buffer s := by
  unfold copyReads CopyInside
  simp only [List.forall_mem_map, List.mem_range]
  constructor
  · intro h
    by_cases hzero : s.size_vmcoreinfo = 0
    · exact Or.inl hzero
    · have hlast := h _ (Nat.sub_lt (Nat.pos_of_ne_zero hzero) Nat.one_pos)
      omega
  · intro h i hi
    omega

/-! ## The walk -/

variable (order buffer isElf64) in
/-- From here on, nothing is read outside of the buffer. -/
def Inside (s : Locals) : Prop :=
  ∀ k, ReadsFrom order buffer isElf64 s k → k < buffer.length

theorem inside_iff : Inside order buffer isElf64 s ↔
    (loop order buffer isElf64).Always (fun s' => s'.offset < buffer.length →
      ∀ k ∈ passReads buffer isElf64 s', k < buffer.length) s ∧
    ∀ s', (loop order buffer isElf64).eval s = .ok s' → ∀ k ∈ copyReads s', k < buffer.length := by
  unfold Inside ReadsFrom
  constructor
  · intro h
    exact ⟨fun s' hreach hlt k hk => h k (Or.inl ⟨s', hreach, hlt, hk⟩),
      fun s' heval k hk => h k (Or.inr ⟨s', heval, hk⟩)⟩
  · rintro ⟨hpass, hcopy⟩ k (⟨s', hreach, hlt, hk⟩ | ⟨s', heval, hk⟩)
    · exact hpass s' hreach hlt k hk
    · exact hcopy s' heval k hk

/-- The last pass. -/
theorem inside_done {r : Except Thrown Locals} (h : step order buffer isElf64 s = .done r) :
    Inside order buffer isElf64 s ↔
      (s.offset < buffer.length → ∀ k ∈ passReads buffer isElf64 s, k < buffer.length) ∧
        ∀ s', r = .ok s' → CopyInside buffer s' := by
  have hpass : (loop order buffer isElf64).step s = .done r := h
  rw [inside_iff, Loop.always_done hpass, Loop.eval_done _ hpass]
  simp only [copyReads_inside_iff]

/-- Any other pass. -/
theorem inside_next (h : step order buffer isElf64 s = .next s') :
    Inside order buffer isElf64 s ↔
      (s.offset < buffer.length → ∀ k ∈ passReads buffer isElf64 s, k < buffer.length) ∧
        Inside order buffer isElf64 s' := by
  have hpass : (loop order buffer isElf64).step s = .next s' := h
  rw [inside_iff, @inside_iff _ _ _ s', Loop.always_next hpass, Loop.eval_next _ hpass, and_assoc]

/-! ## The notes of a buffer -/

theorem upTo_cons {α : Type} (p : α → Bool) (x : α) (xs : List α) :
    upTo p (x :: xs) = if p x then [x] else x :: upTo p xs := by
  unfold upTo
  split_ifs with hp
  · simp [hp]
  · simp [hp]

/-- No note is of both kinds. -/
theorem startsWith_vmcoreinfo_of_xen {r : Str} (h : startsWith r VMCOREINFO_XEN_NOTE_NAME = true) :
    startsWith r VMCOREINFO_NOTE_NAME = false := by
  unfold startsWith at *
  rw [List.isPrefixOf_iff_prefix] at h
  refine Bool.eq_false_iff.2 fun hother => ?_
  rw [List.isPrefixOf_iff_prefix] at hother
  have hwhole : VMCOREINFO_NOTE_NAME <+: VMCOREINFO_XEN_NOTE_NAME :=
    List.prefix_of_prefix_length_le hother h (by decide)
  revert hwhole
  decide

theorem kind_eq (r : Str) : kind (r.drop 12) =
    if startsWith r VMCOREINFO_XEN_NOTE_NAME then .xen
    else if startsWith r VMCOREINFO_NOTE_NAME then .vmcoreinfo
    else .other :=
  rfl

theorem noteLength_pos (r : Str) : 0 < noteLength order r := by
  unfold noteLength descOffset
  omega

/-- The descriptor of a note that the walk has come to. -/
theorem descInside_iff (hlt : s.offset < buffer.length) :
    DescInside order (buffer.drop s.offset) ↔
      (n_descsz order (buffer.drop s.offset)).toNat = 0 ∨
        s.offset + descOffset order (buffer.drop s.offset) +
          (n_descsz order (buffer.drop s.offset)).toNat ≤ buffer.length := by
  unfold DescInside
  rw [← UInt32.toNat_inj, UInt32.toNat_zero, List.length_drop]
  refine or_congr_right ?_
  omega

theorem orElse_elim {α : Type} (x : Option α) (a : α) (c : Prop) (d : α → Prop) :
    (x <|> some a).elim c d = x.elim (d a) d := by
  cases x <;> rfl

theorem taken_cons (r : Str) (rs : List Str) :
    taken (r :: rs) =
      if startsWith r VMCOREINFO_XEN_NOTE_NAME then taken rs <|> some r
      else if startsWith r VMCOREINFO_NOTE_NAME then some r
      else taken rs := by
  have hkinds : startsWith r VMCOREINFO_XEN_NOTE_NAME = true →
      startsWith r VMCOREINFO_NOTE_NAME = false := startsWith_vmcoreinfo_of_xen
  unfold taken
  rw [firstOrLast_cons hkinds]

theorem taken_nil : taken [] = none :=
  rfl

theorem upTo_nil {α : Type} (p : α → Bool) : upTo p [] = [] :=
  rfl

/-- From any state of the walk on.  A descriptor that is known already is copied if no other one is
found. -/
theorem inside_places (n : Nat) : ∀ s : Locals, (buffer.drop s.offset).length ≤ n →
    (Inside order buffer isElf64 s ↔
      (∀ r ∈ upTo (startsWith · VMCOREINFO_NOTE_NAME) (placesIn order n (buffer.drop s.offset)),
        ¬ NameCut r) ∧
      (taken (placesIn order n (buffer.drop s.offset))).elim (CopyInside buffer s)
        (DescInside order)) := by
  -- behind the last note
  have hend : ∀ s : Locals, buffer.drop s.offset = [] →
      (Inside order buffer isElf64 s ↔ CopyInside buffer s) := by
    intro s hs
    have hge : ¬ s.offset < buffer.length := not_lt.2 (List.drop_eq_nil_iff.1 hs)
    have hstep : step order buffer isElf64 s = .done (.ok s) := if_neg hge
    rw [inside_done hstep]
    exact ⟨fun h => h.2 s rfl, fun h => ⟨fun hlt => absurd hlt hge, fun _ heq => by
      cases heq; exact h⟩⟩
  induction n with
  | zero =>
      intro s hn
      have hs : buffer.drop s.offset = [] := List.length_eq_zero_iff.1 (Nat.le_zero.1 hn)
      rw [hend s hs, placesIn, upTo_nil, taken_nil, Option.elim_none]
      exact ⟨fun h => ⟨fun _ hr => absurd hr List.not_mem_nil, h⟩, fun h => h.2⟩
  | succ n ih =>
      intro s hn
      rw [placesIn]
      by_cases hs : buffer.drop s.offset = []
      · rw [hend s hs, if_pos hs, upTo_nil, taken_nil, Option.elim_none]
        exact ⟨fun h => ⟨fun _ hr => absurd hr List.not_mem_nil, h⟩, fun h => h.2⟩
      · have hlt : s.offset < buffer.length :=
          not_le.1 fun hge => hs (List.drop_eq_nil_iff.2 hge)
        rw [if_neg hs, upTo_cons, taken_cons]
        by_cases hcut : NameCut (buffer.drop s.offset)
        · -- this name leads out of the buffer
          rw [inside_done (step_nameCut hlt hcut), passReads_inside_iff]
          refine iff_of_false (fun h => h.1 hlt hcut) fun h => h.1 _ ?_ hcut
          split_ifs <;> exact List.mem_cons_self
        · have hstep := @step_place order buffer isElf64 s hlt hcut
          have hrest : (buffer.drop s.offset).drop (noteLength order (buffer.drop s.offset)) =
              buffer.drop (s.offset + noteLength order (buffer.drop s.offset)) := List.drop_drop
          have hlength : (buffer.drop
              (s.offset + noteLength order (buffer.drop s.offset))).length ≤ n := by
            have hpos := @noteLength_pos order (buffer.drop s.offset)
            rw [List.length_drop] at hn ⊢
            omega
          rw [kind_eq] at hstep
          rw [hrest]
          by_cases hxen : startsWith (buffer.drop s.offset) VMCOREINFO_XEN_NOTE_NAME = true
          · -- the descriptor is remembered
            rw [if_pos hxen] at hstep
            rw [inside_next hstep, passReads_inside_iff, ih _ hlength, if_pos hxen,
              if_neg (Bool.eq_false_iff.1 (startsWith_vmcoreinfo_of_xen hxen)),
              List.forall_mem_cons, orElse_elim, descInside_iff hlt, and_assoc]
            exact and_congr_left fun _ => ⟨fun h => h hlt, fun h _ => h⟩
          · rw [if_neg hxen] at hstep ⊢
            by_cases hvmcoreinfo : startsWith (buffer.drop s.offset) VMCOREINFO_NOTE_NAME = true
            · -- the walk ends here
              rw [if_pos hvmcoreinfo] at hstep ⊢
              rw [inside_done hstep, passReads_inside_iff, if_pos hvmcoreinfo, Option.elim_some,
                descInside_iff hlt]
              simp only [Except.ok.injEq, forall_eq', List.mem_singleton, forall_eq]
              exact and_congr_left fun _ => ⟨fun h => h hlt, fun h _ => h⟩
            · rw [if_neg hvmcoreinfo] at hstep ⊢
              rw [inside_next hstep, passReads_inside_iff, ih _ hlength, if_neg hvmcoreinfo,
                List.forall_mem_cons, and_assoc]
              exact and_congr_left fun _ => ⟨fun h => h hlt, fun h _ => h⟩

/-- Whatever the buffer is, the walk comes to an end.  All that is read lies in the buffer if and
only if its notes do not lead out of it. -/
theorem reads_inside_iff (order : ByteOrder) (buffer : Str) (isElf64 : Bool) (vm : Vmcoreinfo) :
    ((∃ s r, (loop order buffer isElf64).Reach ⟨0, 0, 0, vm.m_xenVmcoreinfo⟩ s ∧
        step order buffer isElf64 s = .done r) ∧
      ∀ k, Reads order buffer isElf64 vm k → k < buffer.length) ↔ Contained order buffer := by
  have hends : ∃ s r, (loop order buffer isElf64).Reach ⟨0, 0, 0, vm.m_xenVmcoreinfo⟩ s ∧
      step order buffer isElf64 s = .done r := by
    obtain ⟨s, hreach, hdone⟩ := (loop order buffer isElf64).exists_last
      ⟨0, 0, 0, vm.m_xenVmcoreinfo⟩
    exact ⟨s, _, hreach, hdone⟩
  have hplaces := @inside_places order buffer isElf64 buffer.length
    ⟨0, 0, 0, vm.m_xenVmcoreinfo⟩ (Nat.le_refl _)
  rw [and_iff_right hends]
  refine hplaces.trans ⟨fun h => ⟨h.1, fun r hr => ?_⟩, fun h => ⟨h.names, ?_⟩⟩
  · have helim := h.2
    rw [List.drop_zero, ← places, Option.mem_def.1 hr] at helim
    exact helim
  · rw [List.drop_zero, ← places]
    cases htaken : taken (places order buffer) with
    | none => exact Or.inl rfl
    | some r => exact h.desc r htaken

/-- A `VMCOREINFO` note that ends behind its name, with a descriptor of 4096 bytes. -/
def oversized : Str :=
  [11, 0, 0, 0, 0, 16, 0, 0, 0, 0, 0, 0] ++ str "VMCOREINFO" ++ [0, 0]

/-- The copy begins at the end of the buffer. -/
theorem reads_behind_oversized :
    ¬ ∀ k, Reads .little oversized true ⟨∅, false⟩ k → k < oversized.length := by
  have hstep : (loop .little oversized true).step ⟨0, 0, 0, false⟩ =
      .done (.ok ⟨0, 24, 4096, false⟩) := by decide
  intro h
  have hfirst : 0 ∈ List.range 4096 := List.mem_range.2 (by norm_num)
  have hlt := h 24 (Or.inr ⟨_, Loop.eval_done _ hstep, List.mem_map.2 ⟨0, hfirst, rfl⟩⟩)
  revert hlt
  decide

end Dump
end Kdump

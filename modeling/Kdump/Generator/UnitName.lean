import Kdump.Generator.PathEscape
import Kdump.Lib.ShellRules
import Kdump.Path.Tree

/-!
# UnitName — the names that `path_escape` makes

A unit is named after a path by its components: a dash stands between them, and every byte that is
not safe in a name is written with two hexadecimal digits.

* `normalised` — the components of a path with one slash between them;
* `systemdName` — the name for a normalised path;
* `unit_name` — the string in the buffer of `path_escape`;
* `Codeword.prefix_free` — the bytes of a path can be read off its name;
* `path_escape_correct_iff` — when `path_escape` makes the name that it should.
-/

namespace Kdump
namespace Generator

open Lib
open Kdump.Path (words exists_mem_words)

/-! ## Names -/

def normalised (path : Str) : Str :=
  [slash].intercalate (words path)

/-- A backslash, an `x` and two hexadecimal digits. -/
def unitHex (c : UInt8) : Str :=
  let digit n := (str "0123456789abcdef").getD n 0
  [bslash, 120, digit (c.toNat / 16), digit (c.toNat % 16)]

def unitByte (c : UInt8) : Str :=
  if c = slash then [dash]
  else if safe_unit_char c = true then [c]
  else unitHex c

/-- The name for a normalised path. -/
def systemdName : Str → Str
  | [] => [dash]
  | c :: text => (if c = period then unitHex c else unitByte c) ++ text.flatMap unitByte

/-- The string at the beginning of a block. -/
def cString : Cells UInt8 → Option Str
  | some c :: cells => if c = 0 then some [] else (cString cells).map (c :: ·)
  | _ => none

/-- The string that `path_escape` returns. -/
def unit_name (signed : Bool) (path : Str) : Option Str :=
  (path_escape signed path).bind fun s => cString s.mem.buf

/-! ## Bytes -/

theorem forall_byte {P : UInt8 → Prop} (h : ∀ n < 256, P (UInt8.ofNat n)) (c : UInt8) : P c := by
  have hc := h c.toNat c.toNat_lt
  rwa [UInt8.ofNat_toNat] at hc

set_option maxRecDepth 4000 in
theorem hex_escape_unsigned (c : UInt8) : hex_escape false c = unitHex c :=
  forall_byte (P := fun c => hex_escape false c = unitHex c) (by decide +kernel) c

set_option maxRecDepth 4000 in
/-- Where `char` is signed, the first digit of a byte above 127 is a letter behind `N`. -/
theorem hex_escape_signed (c : UInt8) : hex_escape true c = unitHex c ↔ c < 128 :=
  forall_byte (P := fun c => hex_escape true c = unitHex c ↔ c < 128) (by decide +kernel) c

/-- The value of a digit, of those letters too. -/
def digitValue (d : UInt8) : UInt8 :=
  if d < 58 then d - 48 else if d < 87 then d - 71 else d - 87

def hexValue (h l : UInt8) : UInt8 :=
  digitValue h <<< 4 ||| digitValue l

set_option maxRecDepth 4000 in
/-- A byte can be read off its digits in any case, and these are no terminators. -/
theorem hexValue_hex_digit (signed : Bool) (c : UInt8) :
    hexValue (hex_digit (toUnsigned signed c >>> 4)) (hex_digit (toUnsigned signed c &&& 0x0f)) =
        c ∧ (0 : UInt8) ∉ hex_escape signed c :=
  forall_byte (P := fun c => hexValue (hex_digit (toUnsigned signed c >>> 4))
    (hex_digit (toUnsigned signed c &&& 0x0f)) = c ∧ (0 : UInt8) ∉ hex_escape signed c)
    (by cases signed <;> decide +kernel) c

/-! ## Reading a name -/

/-- `w` is written for `c`, at the beginning of a text or further behind. -/
inductive Codeword (signed : Bool) (c : UInt8) : Str → Prop where
  | slash (hc : c = slash) : Codeword signed c [dash]
  | escaped : Codeword signed c (hex_escape signed c)
  | safe (hc : safe_unit_char c = true) : Codeword signed c [c]

theorem codeword_escapeByte (signed : Bool) (c : UInt8) :
    Codeword signed c (escapeByte signed c) := by
  unfold escapeByte
  split
  · rename_i hc
    exact .slash hc
  · split
    · exact .escaped
    · rename_i hsafe
      exact .safe (by simpa using hsafe)

variable {signed : Bool}

/-- No name can be read in two ways. -/
theorem Codeword.prefix_free {c d : UInt8} {w v x y : Str} (hw : Codeword signed c w)
    (hv : Codeword signed d v) (h : w ++ x = v ++ y) : c = d ∧ x = y := by
  -- neither a dash nor a backslash is safe
  have hdash : safe_unit_char dash = false := by decide
  have hbslash : safe_unit_char bslash = false := by decide
  cases hw with
  | slash hc =>
      cases hv with
      | slash hd => exact ⟨hc.trans hd.symm, List.tail_eq_of_cons_eq h⟩
      | escaped => cases List.head_eq_of_cons_eq h
      | safe hd =>
          rw [← List.head_eq_of_cons_eq h, hdash] at hd
          cases hd
  | escaped =>
      cases hv with
      | slash hd => cases List.head_eq_of_cons_eq h
      | escaped =>
          simp only [hex_escape, List.cons_append, List.nil_append, List.cons.injEq] at h
          obtain ⟨-, -, hhigh, hlow, hrest⟩ := h
          refine ⟨?_, hrest⟩
          rw [← (hexValue_hex_digit signed c).1, ← (hexValue_hex_digit signed d).1, hhigh, hlow]
      | safe hd =>
          rw [← List.head_eq_of_cons_eq h, hbslash] at hd
          cases hd
  | safe hc =>
      cases hv with
      | slash hd =>
          rw [List.head_eq_of_cons_eq h, hdash] at hc
          cases hc
      | escaped =>
          rw [List.head_eq_of_cons_eq h, hbslash] at hc
          cases hc
      | safe hd => exact ⟨List.head_eq_of_cons_eq h, List.tail_eq_of_cons_eq h⟩

theorem codeword_ne_nil {c : UInt8} {w : Str} (h : Codeword signed c w) : w ≠ [] := by
  cases h <;> exact List.cons_ne_nil _ _

theorem flatMap_escapeByte_injective :
    Function.Injective fun text : Str => text.flatMap (escapeByte signed) := by
  intro text text' h
  induction text generalizing text' with
  | nil =>
      cases text' with
      | nil => rfl
      | cons d text' =>
          have hnil := (List.append_eq_nil_iff.1 (List.flatMap_cons.symm.trans h.symm)).1
          exact absurd hnil (codeword_ne_nil (codeword_escapeByte signed d))
  | cons c text ih =>
      cases text' with
      | nil =>
          have hnil := (List.append_eq_nil_iff.1 (List.flatMap_cons.symm.trans h)).1
          exact absurd hnil (codeword_ne_nil (codeword_escapeByte signed c))
      | cons d text' =>
          simp only [List.flatMap_cons] at h
          obtain ⟨rfl, hrest⟩ :=
            (codeword_escapeByte signed c).prefix_free (codeword_escapeByte signed d) h
          rw [ih hrest]

/-- A period at the beginning does not matter. -/
theorem codeword_first (signed : Bool) (c : UInt8) :
    Codeword signed c (if c = period then hex_escape signed c else escapeByte signed c) := by
  split
  · exact .escaped
  · exact codeword_escapeByte signed c

theorem escapeText_injective : Function.Injective (escapeText signed) := by
  intro text text' h
  cases text with
  | nil =>
      cases text' with
      | nil => rfl
      | cons d text' =>
          have hnil := (List.append_eq_nil_iff.1 h.symm).1
          exact absurd hnil (codeword_ne_nil (codeword_first signed d))
  | cons c text =>
      cases text' with
      | nil =>
          have hnil := (List.append_eq_nil_iff.1 h).1
          exact absurd hnil (codeword_ne_nil (codeword_first signed c))
      | cons d text' =>
          obtain ⟨rfl, hrest⟩ := (codeword_first signed c).prefix_free (codeword_first signed d) h
          rw [flatMap_escapeByte_injective hrest]

/-- The name of the root directory belongs to no other path: it would begin with a slash. -/
theorem escapeText_ne_dash {text : Str} (h : text.head? ≠ some slash) :
    escapeText signed text ≠ [dash] := by
  intro hdash
  cases text with
  | nil => cases hdash
  | cons c text =>
      have hword : Codeword signed slash [dash] := .slash rfl
      have hdash' : (if c = period then hex_escape signed c else escapeByte signed c) ++
          text.flatMap (escapeByte signed) = [dash] ++ [] := hdash
      obtain ⟨rfl, _⟩ := (codeword_first signed c).prefix_free hword hdash'
      exact h rfl

/-! ## Normalised paths -/

/-- A slash is kept if the piece behind it is not empty. -/
theorem dedupKeeps_slash {src : Str} (hzero : (0 : UInt8) ∉ src) {piece : Str} {pieces : List Str}
    (hsplit : src.splitOn slash = piece :: pieces) :
    dedupKeeps slash src = true ↔ piece ≠ [] := by
  cases src with
  | nil =>
      cases hsplit
      simp [dedupKeeps]
  | cons d src =>
      have hd : d ≠ 0 := (List.ne_and_not_mem_of_not_mem_cons hzero).1.symm
      obtain ⟨first, others, hfirst⟩ := List.exists_cons_of_ne_nil (List.splitOn_ne_nil slash src)
      rw [List.splitOn_cons_eq_if_modifyHead, hfirst] at hsplit
      by_cases hslash : d = slash
      · rw [if_pos (by simpa using hslash)] at hsplit
        cases hsplit
        simp [dedupKeeps, hslash]
      · rw [if_neg (by simpa using hslash)] at hsplit
        cases hsplit
        simp [dedupKeeps, hslash, hd]

/-- The loop keeps the first piece of a path, and behind it the pieces that are not empty. -/
theorem dedup_eq {path : Str} (hzero : (0 : UInt8) ∉ path) {piece : Str} {pieces : List Str}
    (hsplit : path.splitOn slash = piece :: pieces) :
    dedup path = [slash].intercalate (piece :: pieces.filter (· ≠ [])) := by
  induction path generalizing piece pieces with
  | nil =>
      cases hsplit
      rfl
  | cons c src ih =>
      have hsrc := (List.ne_and_not_mem_of_not_mem_cons hzero).2
      obtain ⟨first, others, hfirst⟩ := List.exists_cons_of_ne_nil (List.splitOn_ne_nil slash src)
      have hdedup := ih hsrc hfirst
      rw [List.splitOn_cons_eq_if_modifyHead, hfirst] at hsplit
      by_cases hc : c = slash
      · rw [if_pos (by simpa using hc)] at hsplit
        cases hsplit
        rw [hc, dedup]
        by_cases hpiece : first = []
        · have hdrop : ¬ dedupKeeps slash src = true := by
            rw [dedupKeeps_slash hsrc hfirst]
            exact not_not_intro hpiece
          rw [if_neg hdrop, hdedup, List.filter_cons_of_neg (by simpa using hpiece), hpiece]
        · rw [if_pos ((dedupKeeps_slash hsrc hfirst).2 hpiece), hdedup,
            List.filter_cons_of_pos (by simpa using hpiece), List.intercalate_cons_cons]
          rfl
      · rw [if_neg (by simpa using hc)] at hsplit
        cases hsplit
        have hkeeps : dedupKeeps c src = true := by
          simp [dedupKeeps, hc]
        rw [dedup, if_pos hkeeps, hdedup]
        exact List.intercalate_cons_cons_left.symm

theorem head_ne_slash {path : Str} {piece : Str} {c : UInt8}
    (h : c :: piece ∈ path.splitOn slash) : c ≠ slash := by
  rintro rfl
  exact Shell.notMem_of_splitOnP (p := (· == slash)) (beq_self_eq_true slash) path _ h
    List.mem_cons_self

/-- The copy is the normalised path, with one slash in front of it or none. -/
theorem dedup_eq_normalised {path : Str} (hzero : (0 : UInt8) ∉ path) :
    dedup path = normalised path ∨
      (normalised path ≠ [] ∧ dedup path = slash :: normalised path) := by
  obtain ⟨piece, pieces, hsplit⟩ := List.exists_cons_of_ne_nil (List.splitOn_ne_nil slash path)
  rw [dedup_eq hzero hsplit, normalised, words, hsplit]
  cases piece with
  | nil =>
      rw [List.filter_cons_of_neg (by simp)]
      cases hpieces : pieces.filter (· ≠ []) with
      | nil => exact Or.inl rfl
      | cons w ws =>
          have hw : w ∈ pieces.filter (· ≠ []) := hpieces ▸ List.mem_cons_self
          obtain ⟨c, w', rfl⟩ :=
            List.exists_cons_of_ne_nil (by simpa using (List.mem_filter.1 hw).2)
          refine Or.inr ⟨?_, ?_⟩
          · rw [List.intercalate_cons_cons_left]
            exact List.cons_ne_nil _ _
          · rw [List.intercalate_cons_cons]
            rfl
  | cons c piece =>
      rw [List.filter_cons_of_pos (by simp)]
      exact Or.inl rfl

theorem head_normalised (path : Str) : (normalised path).head? ≠ some slash := by
  intro h
  rw [normalised] at h
  match hwords : words path with
  | [] =>
      rw [hwords] at h
      cases h
  | w :: ws =>
      have hmem : w ∈ words path := hwords ▸ List.mem_cons_self
      obtain ⟨hsplit, hne⟩ := List.mem_filter.1 hmem
      obtain ⟨c, piece, rfl⟩ := List.exists_cons_of_ne_nil (by simpa using hne)
      rw [hwords, List.intercalate_cons_cons_left] at h
      exact head_ne_slash hsplit (Option.some.inj h)

/-- Without its slash at the beginning the copy is the normalised path. -/
theorem withoutSlash_dedup {path : Str} (hzero : (0 : UInt8) ∉ path) :
    withoutSlash (dedup path) = normalised path := by
  rcases dedup_eq_normalised hzero with h | ⟨_, h⟩
  · have hhead := head_normalised path
    rw [h]
    cases htext : normalised path with
    | nil => rfl
    | cons c text =>
        rw [htext] at hhead
        exact if_neg fun hc => hhead (congrArg some hc)
  · rw [h, withoutSlash, if_pos rfl]

theorem mem_of_mem_dedup {path : Str} {c : UInt8} (h : c ∈ dedup path) : c ∈ path := by
  induction path with
  | nil => exact h
  | cons d src ih =>
      rw [dedup] at h
      split at h
      · rcases List.mem_cons.1 h with rfl | h
        · exact List.mem_cons_self
        · exact List.mem_cons_of_mem d (ih h)
      · exact List.mem_cons_of_mem d (ih h)

theorem mem_of_mem_normalised {path : Str} (hzero : (0 : UInt8) ∉ path) {c : UInt8}
    (h : c ∈ normalised path) : c ∈ path := by
  refine mem_of_mem_dedup ?_
  rcases dedup_eq_normalised hzero with hcopy | ⟨_, hcopy⟩
  · rwa [hcopy]
  · rw [hcopy]
    exact List.mem_cons_of_mem _ h

/-- The special case is that of the root directory. -/
theorem head_dedup_eq_zero_iff {path : Str} (hzero : (0 : UInt8) ∉ path) :
    (dedup path).headD 0 = 0 ↔ normalised path = [] := by
  rcases dedup_eq_normalised hzero with h | ⟨hne, h⟩
  · rw [h]
    cases htext : normalised path with
    | nil => exact ⟨fun _ => rfl, fun _ => rfl⟩
    | cons c text =>
        have hc : c ≠ 0 := by
          rintro rfl
          exact hzero (mem_of_mem_normalised hzero (htext ▸ List.mem_cons_self))
        exact ⟨fun h0 => absurd h0 hc, nofun⟩
  · rw [h]
    exact ⟨nofun, fun h0 => absurd h0 hne⟩

/-! ## The string that is returned -/

theorem cString_eq {name : Str} (hzero : (0 : UInt8) ∉ name) (tail : Cells UInt8) :
    cString ((name ++ [0]).map some ++ tail) = some name := by
  induction name with
  | nil => rfl
  | cons c name ih =>
      rcases List.ne_and_not_mem_of_not_mem_cons hzero with ⟨hc, hname⟩
      change (if c = 0 then some [] else
        (cString ((name ++ [0]).map some ++ tail)).map (c :: ·)) = _
      rw [if_neg hc.symm, ih hname]
      rfl

theorem zero_notMem_codeword {c : UInt8} (hc : c ≠ 0) {w : Str} (h : Codeword signed c w) :
    (0 : UInt8) ∉ w := by
  cases h with
  | slash => decide
  | escaped => exact (hexValue_hex_digit signed c).2
  | safe => simpa using hc.symm

theorem zero_notMem_escapeText {text : Str} (hzero : (0 : UInt8) ∉ text) :
    (0 : UInt8) ∉ escapeText signed text := by
  cases text with
  | nil => exact List.not_mem_nil
  | cons c text =>
      rcases List.ne_and_not_mem_of_not_mem_cons hzero with ⟨hc, htext⟩
      rw [escapeText, List.mem_append, List.mem_flatMap, not_or]
      refine ⟨zero_notMem_codeword hc.symm (codeword_first signed c), ?_⟩
      rintro ⟨d, hd, hmem⟩
      have hd0 : d ≠ 0 := fun h0 => htext (h0 ▸ hd)
      exact zero_notMem_codeword hd0 (codeword_escapeByte signed d) hmem

/-- The name of a path depends on the normalised path only. -/
theorem unit_name_eq {path : Str} (hne : path ≠ []) (hzero : (0 : UInt8) ∉ path) :
    unit_name signed path =
      some (if normalised path = [] then [dash] else escapeText signed (normalised path)) := by
  have hzero' : (0 : UInt8) ∉ normalised path := fun h => hzero (mem_of_mem_normalised hzero h)
  have hname : pathName signed path =
      if normalised path = [] then [dash] else escapeText signed (normalised path) := by
    unfold pathName
    rw [withoutSlash_dedup hzero, cStr_eq_self hzero']
    exact if_congr (head_dedup_eq_zero_iff hzero) rfl rfl
  obtain ⟨s, hs, ⟨tail, hbuf⟩, _⟩ := path_escape_eq signed hne
  rw [unit_name, hs, Option.bind_some, hbuf, ← hname]
  refine cString_eq ?_ tail
  rw [hname]
  split
  · decide
  · exact zero_notMem_escapeText hzero'

/-! ## The names that are right -/

/-- Distinct normalised paths have distinct names, whatever the bytes are. -/
theorem normalised_eq_of_unit_name_eq {path other : Str} (hne : path ≠ [])
    (hzero : (0 : UInt8) ∉ path) (hne' : other ≠ []) (hzero' : (0 : UInt8) ∉ other)
    (h : unit_name signed other = unit_name signed path) : normalised other = normalised path := by
  rw [unit_name_eq hne hzero, unit_name_eq hne' hzero'] at h
  have hname := Option.some.inj h
  by_cases hroot : normalised path = [] <;> by_cases hroot' : normalised other = []
  · rw [hroot, hroot']
  · rw [if_pos hroot, if_neg hroot'] at hname
    exact absurd hname (escapeText_ne_dash (head_normalised other))
  · rw [if_neg hroot, if_pos hroot'] at hname
    exact absurd hname.symm (escapeText_ne_dash (head_normalised path))
  · rw [if_neg hroot, if_neg hroot'] at hname
    exact escapeText_injective hname

theorem hex_escape_eq_iff {c : UInt8} :
    hex_escape signed c = unitHex c ↔ signed = false ∨ c < 128 := by
  cases signed with
  | false => simp [hex_escape_unsigned]
  | true => simp [hex_escape_signed]

set_option maxRecDepth 4000 in
theorem lt_of_safe_unit_char {c : UInt8} : safe_unit_char c = true → c < 128 :=
  forall_byte (P := fun c => safe_unit_char c = true → c < 128) (by decide +kernel) c

/-- At its place a byte is as long as it should be. -/
theorem length_escapeByte_eq (signed : Bool) (c : UInt8) :
    (escapeByte signed c).length = (unitByte c).length := by
  unfold escapeByte unitByte
  split
  · rfl
  · cases safe_unit_char c <;> rfl

theorem escapeByte_eq_iff {c : UInt8} :
    escapeByte signed c = unitByte c ↔ signed = false ∨ c < 128 := by
  unfold escapeByte unitByte
  split
  · rename_i hc
    subst hc
    simp
  · cases hsafe : safe_unit_char c with
    | true => simp [lt_of_safe_unit_char hsafe]
    | false => exact hex_escape_eq_iff

theorem append_eq_append_iff_of_length {a b x y : Str} (h : a.length = b.length) :
    a ++ x = b ++ y ↔ a = b ∧ x = y := by
  constructor
  · intro heq
    exact List.append_inj heq h
  · rintro ⟨rfl, rfl⟩
    rfl

theorem flatMap_escapeByte_eq_iff {text : Str} :
    text.flatMap (escapeByte signed) = text.flatMap unitByte ↔
      signed = false ∨ ∀ c ∈ text, c < 128 := by
  induction text with
  | nil => simp
  | cons c text ih =>
      rw [List.flatMap_cons, List.flatMap_cons,
        append_eq_append_iff_of_length (length_escapeByte_eq signed c), escapeByte_eq_iff, ih,
        List.forall_mem_cons, or_and_left]

/-- The code writes what it should if `char` is unsigned or every byte is one of ASCII. -/
theorem escapeText_eq_iff {text : Str} (hne : text ≠ []) :
    escapeText signed text = systemdName text ↔ signed = false ∨ ∀ c ∈ text, c < 128 := by
  obtain ⟨c, text, rfl⟩ := List.exists_cons_of_ne_nil hne
  rw [escapeText, systemdName]
  by_cases hc : c = period
  · have hlength : (hex_escape signed c).length = (unitHex c).length := rfl
    rw [if_pos hc, if_pos hc, append_eq_append_iff_of_length hlength, hex_escape_eq_iff,
      flatMap_escapeByte_eq_iff, List.forall_mem_cons, or_and_left]
  · rw [if_neg hc, if_neg hc, append_eq_append_iff_of_length (length_escapeByte_eq signed c),
      escapeByte_eq_iff, flatMap_escapeByte_eq_iff, List.forall_mem_cons, or_and_left]

/-- The bytes of a path are slashes and those of the normalised path. -/
theorem forall_mem_normalised_iff {path : Str} (hzero : (0 : UInt8) ∉ path) :
    (∀ c ∈ normalised path, c < 128) ↔ ∀ c ∈ path, c < 128 := by
  constructor
  · intro h c hc
    by_cases hslash : c = slash
    · subst hslash
      decide
    · obtain ⟨w, hw, hmem⟩ := exists_mem_words hslash hc
      exact h c ((Shell.infix_intercalate [slash] hw).subset hmem)
  · exact fun h c hc => h c (mem_of_mem_normalised hzero hc)

/-- The name is that of the normalised path, and no other normalised path has it. -/
def NameCorrect (signed : Bool) (path : Str) : Prop :=
  unit_name signed path = some (systemdName (normalised path)) ∧
    ∀ other, other ≠ [] → (0 : UInt8) ∉ other → normalised other ≠ normalised path →
      unit_name signed other ≠ unit_name signed path

/-- A path gets its name if and only if `char` is unsigned or the path consists of ASCII
characters. -/
theorem path_escape_correct_iff (signed : Bool) {path : Str} (hne : path ≠ [])
    (hzero : (0 : UInt8) ∉ path) :
    NameCorrect signed path ↔ signed = false ∨ ∀ c ∈ path, c < 128 := by
  have hname : unit_name signed path = some (systemdName (normalised path)) ↔
      signed = false ∨ ∀ c ∈ path, c < 128 := by
    rw [unit_name_eq hne hzero, Option.some_inj, ← forall_mem_normalised_iff hzero]
    by_cases hroot : normalised path = []
    · rw [if_pos hroot, hroot]
      simp [systemdName]
    · rw [if_neg hroot]
      exact escapeText_eq_iff hroot
  rw [NameCorrect, hname]
  refine and_iff_left_of_imp fun _ other hne' hzero' hother heq => hother ?_
  exact normalised_eq_of_unit_name_eq hne hzero hne' hzero' heq

theorem path_escape_correct_iff_run :
    NameCorrect true (str "/dev/sda-1") ↔ true = false ∨ ∀ c ∈ str "/dev/sda-1", c < 128 :=
  path_escape_correct_iff true (by decide) (by decide)

/-- A file name with the byte 128, where `char` is signed. -/
theorem not_nameCorrect_byte :
    ¬ ∀ (signed : Bool) (path : Str), path ≠ [] → (0 : UInt8) ∉ path →
      NameCorrect signed path := by
  intro h
  have hname : unit_name true [slash, 128] = some [bslash, 120, 79, 48] := by decide +kernel
  have hspec : systemdName (normalised [slash, 128]) = [bslash, 120, 56, 48] := by decide +kernel
  have hpath := (h true [slash, 128] (by decide) (by decide)).1
  rw [hname, hspec] at hpath
  exact absurd (Option.some.inj hpath) (by decide)

end Generator
end Kdump

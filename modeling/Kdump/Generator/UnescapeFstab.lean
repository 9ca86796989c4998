import Kdump.Global
import Kdump.Lib.InPlace
import Kdump.Lib.Loop

/-!
# UnescapeFstab — `unescape_fstab` of the device timeout generator

The function replaces the escapes in the first field of an fstab line, reading and writing one
buffer.

* `unescape_fstab` — the function;
* `unescaped` — what it writes, read off the text;
* `eval_unescapeLoop` — behind what has been written the buffer is as it was;
* `fstabForm` — how a string is written in the table;
* `unescape_fstab_correct_iff` — when the function undoes that.
-/

namespace Kdump
namespace Generator

open Lib

abbrev tab : UInt8 := 9

/-! ## The function -/

def isoctal (c : UInt8) : Bool :=
  48 ≤ c && c ≤ 55

/-- The byte that is written for three digits. -/
def octalByte (c1 c2 c3 : UInt8) : UInt8 :=
  (c1 - 48) <<< 6 ||| (c2 - 48) <<< 3 ||| (c3 - 48)

/-- The condition in the loop, with the byte for the digits; `none` if a byte outside of the buffer
is looked at. -/
def escape? (s : InPlace UInt8) : Option (Option UInt8) := do
  let c ← s.peek 0
  if c = bslash then
    let c1 ← s.peek 1
    if isoctal c1 = true then
      let c2 ← s.peek 2
      if isoctal c2 = true then
        let c3 ← s.peek 3
        if isoctal c3 = true then
          return some (octalByte c1 c2 c3)
  return none

/-- One pass. -/
def unescapeStep (s : InPlace UInt8) : Step (InPlace UInt8) (Except Thrown Str) :=
  match s.peek 0, escape? s with
  | none, _ => .done (.error .undefined)
  | _, none => .done (.error .undefined)
  | some c, some escape =>
      if c = 0 then .done (.ok s.buf)
      else
        match escape with
        | some b => .next ((s.write b).skip 3)
        | none => .next ((s.write c).skip 1)

theorem unescapeStep_src {s s' : InPlace UInt8} (h : unescapeStep s = .next s') :
    s.src < s.buf.length ∧ s.src < s'.src ∧ s'.buf.length = s.buf.length := by
  unfold unescapeStep at h
  cases hpeek : s.peek 0 with
  | none =>
      rw [hpeek] at h
      cases h
  | some c =>
      obtain ⟨hlt, _⟩ := List.getElem?_eq_some_iff.1 hpeek
      rw [hpeek] at h
      cases hescape : escape? s with
      | none =>
          rw [hescape] at h
          cases h
      | some escape =>
          rw [hescape] at h
          dsimp only at h
          split at h
          · cases h
          · cases escape <;> cases h
            · exact ⟨hlt, Nat.lt_succ_self _, List.length_set⟩
            · exact ⟨hlt, Nat.lt_add_of_pos_right (by decide), List.length_set⟩

def unescapeLoop : Loop (InPlace UInt8) (Except Thrown Str) where
  step := unescapeStep
  measure s := s.buf.length - s.src
  decreases := by
    intro s s' h
    obtain ⟨hlt, hsrc, hlength⟩ := unescapeStep_src h
    omega

/-- `unescape_fstab`, and the string that `spec` is afterwards. -/
def unescape_fstab (spec : Str) : Except Thrown Str :=
  (unescapeLoop.eval ⟨spec ++ [0], 0, 0⟩).map cStr

/-! ## What is written -/

/-- The byte for the escape at the beginning of a text. -/
def octal? : Str → Option UInt8
  | c :: c1 :: c2 :: c3 :: _ =>
      if c = bslash ∧ isoctal c1 = true ∧ isoctal c2 = true ∧ isoctal c3 = true then
        some (octalByte c1 c2 c3)
      else none
  | _ => none

/-- The last digit of an escape is read once more. -/
def unescaped : Str → Str
  | [] => []
  | c :: c1 :: c2 :: c3 :: rest =>
      if c = bslash ∧ isoctal c1 = true ∧ isoctal c2 = true ∧ isoctal c3 = true then
        octalByte c1 c2 c3 :: unescaped (c3 :: rest)
      else
        c :: unescaped (c1 :: c2 :: c3 :: rest)
  | c :: rest => c :: unescaped rest

theorem unescaped_of_octal {text : Str} {b : UInt8} (h : octal? text = some b) :
    3 ≤ text.length ∧ unescaped text = b :: unescaped (text.drop 3) := by
  match text with
  | [] => cases h
  | [_] => cases h
  | [_, _] => cases h
  | [_, _, _] => cases h
  | c :: c1 :: c2 :: c3 :: rest =>
      rw [octal?] at h
      split at h
      · rename_i hescape
        cases h
        refine ⟨by simp, ?_⟩
        rw [unescaped, if_pos hescape]
        rfl
      · cases h

theorem unescaped_of_not_octal {c : UInt8} {rest : Str} (h : octal? (c :: rest) = none) :
    unescaped (c :: rest) = c :: unescaped rest := by
  match rest with
  | [] => rfl
  | [_] => rfl
  | [_, _] => rfl
  | c1 :: c2 :: c3 :: rest =>
      rw [octal?] at h
      split at h
      · cases h
      · rename_i hescape
        rw [unescaped, if_neg hescape]

theorem octal?_of_ne {c : UInt8} (hc : c ≠ bslash) (rest : Str) : octal? (c :: rest) = none := by
  match rest with
  | [] => rfl
  | [_] => rfl
  | [_, _] => rfl
  | _ :: _ :: _ :: _ => exact if_neg fun hescape => hc hescape.1

/-! ## The passes -/

variable {s : InPlace UInt8} {out rest : Str}

/-- The terminator is no digit, so nothing behind it is looked at. -/
theorem escape?_at (h : s.At out (rest ++ [0])) (hne : rest ≠ []) :
    escape? s = some (octal? rest) := by
  have hzero : isoctal 0 = false := by decide
  unfold escape?
  rw [h.peek_eq, h.peek_eq, h.peek_eq, h.peek_eq]
  match rest, hne with
  | [c], _ => simp [octal?, hzero]
  | [c, c1], _ => simp [octal?, hzero]
  | [c, c1, c2], _ => simp [octal?, hzero]
  | c :: c1 :: c2 :: c3 :: rest, _ =>
      simp only [octal?]
      by_cases hc : c = bslash <;> by_cases h1 : isoctal c1 = true <;>
        by_cases h2 : isoctal c2 = true <;> by_cases h3 : isoctal c3 = true <;>
          simp [hc, h1, h2, h3]

/-- A pass reads one byte or three, and writes one. -/
theorem unescapeStep_at (h : s.At out (rest ++ [0])) (hne : rest ≠ [])
    (hzero : (0 : UInt8) ∉ rest) :
    ∃ b k, unescapeStep s = .next ((s.write b).skip k) ∧
      ((s.write b).skip k).At (out ++ [b]) (rest.drop k ++ [0]) ∧ 0 < k ∧ k ≤ rest.length ∧
      unescaped rest = b :: unescaped (rest.drop k) := by
  have hbehind := h.behind
  -- the room for one byte is always there
  have hrewrite : ∀ (b : UInt8) (k : Nat), 0 < k → k ≤ rest.length →
      ((s.write b).skip k).At (out ++ [b]) (rest.drop k ++ [0]) := by
    intro b k hpos hk
    rw [← List.drop_append_of_le_length hk]
    refine @InPlace.At.rewrite _ s out _ h [b] k ?_ ?_
    · rw [List.length_append]
      omega
    · rw [List.length_singleton]
      omega
  unfold unescapeStep
  rw [escape?_at h hne, h.peek_eq]
  obtain ⟨c, tail, rfl⟩ := List.exists_cons_of_ne_nil hne
  have hc : c ≠ 0 := fun h0 => hzero (h0 ▸ List.mem_cons_self)
  dsimp only [List.cons_append, List.getElem?_cons_zero]
  rw [if_neg hc]
  cases hoctal : octal? (c :: tail) with
  | some b =>
      obtain ⟨hthree, hunescaped⟩ := unescaped_of_octal hoctal
      exact ⟨b, 3, rfl, hrewrite b 3 (by decide) hthree, by decide, hthree, hunescaped⟩
  | none =>
      have hone : 1 ≤ (c :: tail).length := Nat.succ_le_succ (Nat.zero_le _)
      exact ⟨c, 1, rfl, hrewrite c 1 (by decide) hone, by decide, hone,
        unescaped_of_not_octal hoctal⟩

/-- What is behind the last byte that is written stays, the rest of the text included. -/
theorem eval_unescapeLoop (h : s.At out (rest ++ [0])) (hzero : (0 : UInt8) ∉ rest) :
    unescapeLoop.eval s =
      .ok (out ++ unescaped rest ++ s.buf.drop (s.dst + (unescaped rest).length)) := by
  induction hn : rest.length using Nat.strong_induction_on generalizing s out rest with
  | _ n ih =>
      by_cases hne : rest = []
      · subst hne
        have hdone : unescapeStep s = .done (.ok s.buf) := by
          have hpeek : s.peek 0 = some 0 := h.peek_eq 0
          have hescape : escape? s = some none := by
            unfold escape?
            rw [hpeek]
            rfl
          unfold unescapeStep
          rw [hpeek, hescape]
          rfl
        rw [unescapeLoop.eval_done hdone, unescaped, List.append_nil, ← h.written]
        exact congrArg Except.ok (List.take_append_drop _ _).symm
      · obtain ⟨b, k, hnext, hat, hpos, hk, hunescaped⟩ := unescapeStep_at h hne hzero
        have hlt : (rest.drop k).length < n := by
          rw [List.length_drop]
          omega
        have hzero' : (0 : UInt8) ∉ rest.drop k := fun hmem => hzero (List.mem_of_mem_drop hmem)
        -- the byte is written in front of what stays
        have hrest : (s.write b).buf.drop (s.dst + 1 + (unescaped (rest.drop k)).length) =
            s.buf.drop (s.dst + (unescaped rest).length) := by
          have hlength : s.dst + (unescaped rest).length =
              s.dst + 1 + (unescaped (rest.drop k)).length := by
            rw [hunescaped, List.length_cons]
            omega
          rw [hlength]
          exact List.drop_set_of_lt (by omega)
        rw [unescapeLoop.eval_next hnext, ih _ hlt hat hzero' rfl]
        change Except.ok (out ++ [b] ++ unescaped (rest.drop k) ++
          (s.write b).buf.drop (s.dst + 1 + (unescaped (rest.drop k)).length)) = _
        rw [hrest, hunescaped, List.append_assoc out]
        rfl

theorem length_unescaped (text : Str) : (unescaped text).length ≤ text.length := by
  induction hn : text.length using Nat.strong_induction_on generalizing text with
  | _ n ih =>
      cases hoctal : octal? text with
      | some b =>
          obtain ⟨hthree, hunescaped⟩ := unescaped_of_octal hoctal
          have hle := ih (text.drop 3).length (by rw [List.length_drop]; omega) _ rfl
          rw [List.length_drop] at hle
          rw [hunescaped, List.length_cons]
          omega
      | none =>
          cases text with
          | nil => exact Nat.zero_le _
          | cons c text =>
              rw [List.length_cons] at hn
              have hle := ih text.length (by omega) _ rfl
              rw [unescaped_of_not_octal hoctal, List.length_cons]
              omega

/-- No byte is written for the end of the string: it keeps its length. -/
theorem unescape_fstab_eq {text : Str} (hzero : (0 : UInt8) ∉ text)
    (hzero' : (0 : UInt8) ∉ unescaped text) :
    unescape_fstab text = .ok (unescaped text ++ text.drop (unescaped text).length) := by
  have hstart : InPlace.At ⟨text ++ [0], 0, 0⟩ [] (text ++ [0]) := .start _
  have hnot : (0 : UInt8) ∉ unescaped text ++ text.drop (unescaped text).length := by
    rw [List.mem_append, not_or]
    exact ⟨hzero', fun hmem => hzero (List.mem_of_mem_drop hmem)⟩
  unfold unescape_fstab
  rw [eval_unescapeLoop hstart hzero, Nat.zero_add, List.nil_append,
    List.drop_append_of_le_length (length_unescaped text), ← List.append_assoc]
  refine congrArg Except.ok ?_
  unfold cStr
  rw [List.takeWhile_append_of_pos]
  · exact List.append_nil _
  · intro c hc
    have hne : c ≠ 0 := fun h0 => hnot (h0 ▸ hc)
    simpa using hne

/-! ## The form in the table -/

/-- The bytes that end a field, and the one that begins an escape. -/
def fstabSpecial (c : UInt8) : Bool :=
  c = space || c = tab || c = newline || c = bslash

def octalDigit (d : UInt8) : UInt8 :=
  48 + (d &&& 7)

/-- A backslash and three octal digits. -/
def fstabEscape (c : UInt8) : Str :=
  [bslash, octalDigit (c >>> 6), octalDigit (c >>> 3), octalDigit c]

def fstabForm (s : Str) : Str :=
  s.flatMap fun c => if fstabSpecial c = true then fstabEscape c else [c]

theorem fstabForm_cons (c : UInt8) (s : Str) :
    fstabForm (c :: s) = (if fstabSpecial c = true then fstabEscape c else [c]) ++ fstabForm s :=
  List.flatMap_cons

theorem fstabSpecial_cases {c : UInt8} (h : fstabSpecial c = true) :
    c = space ∨ c = tab ∨ c = newline ∨ c = bslash := by
  simpa [fstabSpecial, or_assoc] using h

/-- A special byte is written, and behind it the last digit. -/
theorem unescaped_fstabEscape {c : UInt8} (h : fstabSpecial c = true) (rest : Str) :
    unescaped (fstabEscape c ++ rest) = c :: octalDigit c :: unescaped rest := by
  have hescape : octal? (fstabEscape c ++ rest) = some c := by
    rcases fstabSpecial_cases h with rfl | rfl | rfl | rfl <;> rfl
  have hdigit : octalDigit c ≠ bslash := by
    rcases fstabSpecial_cases h with rfl | rfl | rfl | rfl <;> decide
  rw [(unescaped_of_octal hescape).2]
  exact congrArg (c :: ·) (unescaped_of_not_octal (octal?_of_ne hdigit rest))

theorem zero_notMem_fstabForm {s : Str} (hzero : (0 : UInt8) ∉ s) :
    (0 : UInt8) ∉ fstabForm s ∧ (0 : UInt8) ∉ unescaped (fstabForm s) := by
  induction s with
  | nil => exact ⟨List.not_mem_nil, List.not_mem_nil⟩
  | cons c s ih =>
      rcases List.ne_and_not_mem_of_not_mem_cons hzero with ⟨hc, hs⟩
      obtain ⟨hform, hwritten⟩ := ih hs
      rw [fstabForm_cons]
      split
      · rename_i hspecial
        have hescape : (0 : UInt8) ∉ fstabEscape c := by
          rcases fstabSpecial_cases hspecial with rfl | rfl | rfl | rfl <;> decide
        have hdigit : (0 : UInt8) ≠ octalDigit c := by
          rcases fstabSpecial_cases hspecial with rfl | rfl | rfl | rfl <;> decide
        rw [unescaped_fstabEscape hspecial]
        simp only [List.mem_append, List.mem_cons, not_or]
        exact ⟨⟨hescape, hform⟩, hc, hdigit, hwritten⟩
      · rename_i hspecial
        have hne : c ≠ bslash := by
          rintro rfl
          exact hspecial rfl
        rw [List.singleton_append, unescaped_of_not_octal (octal?_of_ne hne _)]
        simp only [List.mem_cons, not_or]
        exact ⟨⟨hc, hform⟩, hc, hwritten⟩

/-- An escape is longer than the byte that it stands for. -/
theorem length_fstabForm (s : Str) :
    (fstabForm s).length = s.length + 3 * s.countP fstabSpecial := by
  induction s with
  | nil => rfl
  | cons c s ih =>
      rw [fstabForm_cons, List.length_append, ih, List.length_cons]
      by_cases hspecial : fstabSpecial c = true
      · rw [if_pos hspecial, List.countP_cons_of_pos hspecial]
        simp only [fstabEscape, List.length_cons, List.length_nil]
        omega
      · rw [if_neg hspecial, List.countP_cons_of_neg hspecial, List.length_singleton]
        omega

theorem fstabForm_eq_self {s : Str} (h : ∀ c ∈ s, fstabSpecial c = false) : fstabForm s = s := by
  induction s with
  | nil => rfl
  | cons c s ih =>
      rw [List.forall_mem_cons] at h
      rw [fstabForm_cons, h.1, ih h.2]
      rfl

/-! ## The strings that come back -/

/-- A text without backslashes is left alone. -/
theorem unescape_fstab_plain {s : Str} (hzero : (0 : UInt8) ∉ s) (hs : bslash ∉ s) :
    unescape_fstab s = .ok s := by
  have hself : unescaped s = s := by
    clear hzero
    induction s with
    | nil => rfl
    | cons c s ih =>
        rcases List.ne_and_not_mem_of_not_mem_cons hs with ⟨hc, hs'⟩
        rw [unescaped_of_not_octal (octal?_of_ne hc.symm s), ih hs']
  rw [unescape_fstab_eq hzero (hself.symm ▸ hzero), hself, List.drop_length, List.append_nil]

/-- A string comes back from its form in the table if and only if no byte of it is written as an
escape there; without backslashes every string is left alone. -/
theorem unescape_fstab_correct_iff {s : Str} (hzero : (0 : UInt8) ∉ s) :
    (unescape_fstab (fstabForm s) = .ok s ∧ (bslash ∉ s → unescape_fstab s = .ok s)) ↔
      ∀ c ∈ s, fstabSpecial c = false := by
  constructor
  · rintro ⟨hback, -⟩
    obtain ⟨hform, hwritten⟩ := zero_notMem_fstabForm hzero
    rw [unescape_fstab_eq hform hwritten] at hback
    -- the string that comes back has the length of the form
    have hlength := congrArg List.length (Except.ok.inj hback)
    have hle := length_unescaped (fstabForm s)
    rw [List.length_append, List.length_drop, Nat.add_sub_cancel' hle, length_fstabForm] at hlength
    have hcount : s.countP fstabSpecial = 0 := by omega
    intro c hc
    simpa using List.countP_eq_zero.1 hcount c hc
  · intro h
    have hs : bslash ∉ s := fun hmem => Bool.noConfusion (h bslash hmem)
    rw [fstabForm_eq_self h]
    exact ⟨unescape_fstab_plain hzero hs, fun _ => unescape_fstab_plain hzero hs⟩

theorem unescape_fstab_correct_iff_run :
    unescape_fstab (fstabForm (str "LABEL=root")) = .ok (str "LABEL=root") ∧
        (bslash ∉ str "LABEL=root" →
          unescape_fstab (str "LABEL=root") = .ok (str "LABEL=root")) ↔
      ∀ c ∈ str "LABEL=root", fstabSpecial c = false :=
  unescape_fstab_correct_iff (by decide)

/-- A label with a space. -/
theorem not_unescape_fstab_space :
    ¬ ∀ s : Str, (0 : UInt8) ∉ s → unescape_fstab (fstabForm s) = .ok s ∧
      (bslash ∉ s → unescape_fstab s = .ok s) := by
  intro h
  have hrun : unescape_fstab (fstabForm (str "a b")) = .ok (str "a 0b0b") := by decide
  have hback := (h (str "a b") (by decide)).1
  rw [hrun] at hback
  exact absurd (Except.ok.inj hback) (by decide)

end Generator
end Kdump

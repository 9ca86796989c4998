import Kdump.Lib.InPlace
import Kdump.Lib.Loop
import Kdump.Url.PercentEncoding

/-!
# Decoding — `KString::decodeURL` in place

The function reads and writes one buffer: `src` runs over the string, `dst` over the decoded part of
it at its beginning.

* `decodedURL` — what the decoding of a text is, read from left to right;
* `decodeStep`, `decodeInPlace` — the function;
* `FormEncoded` — a text spells another one, in a form or elsewhere;
* `decodeInPlace_correct`.
-/

namespace Kdump
namespace Url

open Lib

abbrev plus : UInt8 := 43

/-! ## Decoded texts -/

/-- A byte that begins no percent sequence. -/
def plainByte (formenc : Bool) (c : UInt8) : UInt8 :=
  if formenc = true ∧ c = plus then space else c

/-- The byte that the percent sequence at the beginning of a text stands for. -/
def escape? : Str → Option UInt8
  | c :: c1 :: c2 :: _ =>
      if c = percent ∧ isxdigit c1 = true ∧ isxdigit c2 = true then some (hexByte c1 c2) else none
  | _ => none

/-- Percent sequences become bytes, and in a form `+` becomes a space. -/
def decodedURL (formenc : Bool) : Str → Str
  | [] => []
  | c :: c1 :: c2 :: rest =>
      if c = percent ∧ isxdigit c1 = true ∧ isxdigit c2 = true then
        hexByte c1 c2 :: decodedURL formenc rest
      else
        plainByte formenc c :: decodedURL formenc (c1 :: c2 :: rest)
  | c :: rest => plainByte formenc c :: decodedURL formenc rest

theorem decodedURL_of_escape (formenc : Bool) {text : Str} {b : UInt8}
    (h : escape? text = some b) :
    3 ≤ text.length ∧ decodedURL formenc text = b :: decodedURL formenc (text.drop 3) := by
  match text with
  | [] => cases h
  | [_] => cases h
  | [_, _] => cases h
  | c :: c1 :: c2 :: rest =>
      rw [escape?] at h
      split at h
      · rename_i hesc
        cases h
        refine ⟨by simp, ?_⟩
        rw [decodedURL, if_pos hesc]
        rfl
      · cases h

theorem decodedURL_of_not_escape (formenc : Bool) {c : UInt8} {rest : Str}
    (h : escape? (c :: rest) = none) :
    decodedURL formenc (c :: rest) = plainByte formenc c :: decodedURL formenc rest := by
  match rest with
  | [] => rfl
  | [_] => rfl
  | c1 :: c2 :: rest =>
      rw [escape?] at h
      split at h
      · cases h
      · rename_i hesc
        rw [decodedURL, if_neg hesc]

/-- What has been said of `decodeURL` is about `decodedURL false`. -/
theorem decodedURL_false (text : Str) : decodedURL false text = decodeURL text := by
  induction text using decodeURL.induct with
  | case1 => rfl
  | case2 c c1 c2 rest hesc ih =>
      rw [decodedURL, if_pos hesc, decodeURL, if_pos hesc, ih]
  | case3 c c1 c2 rest hesc ih =>
      rw [decodedURL, if_neg hesc, decodeURL, if_neg hesc, ih]
      rfl
  | case4 c rest hshort ih =>
      cases rest with
      | nil => rfl
      | cons c1 rest =>
          cases rest with
          | nil => rfl
          | cons c2 rest => exact absurd rfl (hshort c1 c2 rest)

/-! ## The function -/

/-- `src[n]`: a byte of the string, or the terminator behind it. -/
def fetch (s : InPlace UInt8) (n : Nat) : Except Thrown UInt8 :=
  if s.src + n = s.buf.length then .ok 0
  else
    match s.peek n with
    | none => .error .undefined
    | some c => .ok c

/-- The condition on a percent sequence, with the byte that it stands for. -/
def sequence (s : InPlace UInt8) : Except Thrown (Option UInt8) := do
  let c ← fetch s 0
  if c = percent ∧ 2 ≤ s.buf.length - s.src then
    let c1 ← fetch s 1
    if isxdigit c1 = true then
      let c2 ← fetch s 2
      if isxdigit c2 = true then
        return some (hexByte c1 c2)
  return none

/-- One pass. -/
def decodeStep (formenc : Bool) (s : InPlace UInt8) : Step (InPlace UInt8) (Except Thrown Str) :=
  if s.src = s.buf.length then
    .done (.ok (s.buf.take s.dst))
  else
    match sequence s with
    | .error e => .done (.error e)
    | .ok (some b) => .next ((s.write b).skip 3)
    | .ok none =>
        match fetch s 0 with
        | .error e => .done (.error e)
        | .ok c =>
            if formenc = true ∧ c = plus then .next ((s.write space).skip 1)
            else .next ((s.write c).skip 1)

/-- Nothing is read behind the terminator. -/
theorem src_le_of_fetch {s : InPlace UInt8} {n : Nat} {c : UInt8} (h : fetch s n = .ok c) :
    s.src + n ≤ s.buf.length := by
  unfold fetch at h
  split at h
  · rename_i hend
    exact hend.le
  · cases hpeek : s.peek n with
    | none =>
        rw [hpeek] at h
        cases h
    | some c =>
        obtain ⟨hlt, _⟩ := List.getElem?_eq_some_iff.1 hpeek
        exact hlt.le

theorem decodeStep_src {formenc : Bool} {s s' : InPlace UInt8}
    (h : decodeStep formenc s = .next s') :
    s.src < s.buf.length ∧ s.src < s'.src ∧ s'.buf.length = s.buf.length := by
  unfold decodeStep at h
  split at h
  · cases h
  rename_i hend
  cases hfetch : fetch s 0 with
  | error e =>
      -- then the condition has not been evaluated either
      have hsequence : sequence s = .error e := by
        rw [sequence, hfetch]
        rfl
      rw [hsequence] at h
      cases h
  | ok c =>
      have hlt : s.src < s.buf.length := Nat.lt_of_le_of_ne (src_le_of_fetch hfetch) hend
      rw [hfetch] at h
      split at h
      · cases h
      · cases h
        exact ⟨hlt, Nat.lt_add_of_pos_right (by decide), List.length_set⟩
      · dsimp only at h
        split at h
        · cases h
          exact ⟨hlt, Nat.lt_succ_self _, List.length_set⟩
        · cases h
          exact ⟨hlt, Nat.lt_succ_self _, List.length_set⟩

theorem decodeStep_lt {formenc : Bool} {s s' : InPlace UInt8}
    (h : decodeStep formenc s = .next s') : s'.buf.length - s'.src < s.buf.length - s.src := by
  obtain ⟨hlt, hsrc, hlength⟩ := decodeStep_src h
  omega

def decodeLoop (formenc : Bool) : Loop (InPlace UInt8) (Except Thrown Str) where
  step := decodeStep formenc
  measure s := s.buf.length - s.src
  decreases := decodeStep_lt

/-- `KString::decodeURL`. -/
def decodeInPlace (formenc : Bool) (text : Str) : Except Thrown Str :=
  (decodeLoop formenc).eval ⟨text, 0, 0⟩

/-! ## The passes -/

variable {formenc : Bool} {s : InPlace UInt8} {out rest : Str}

/-- The terminator is read like a byte behind the text. -/
theorem fetch_at (h : s.At out rest) (n : Nat) :
    fetch s n =
      match (rest ++ [0])[n]? with
      | none => .error .undefined
      | some c => .ok c := by
  have hlength := h.length_eq
  unfold fetch
  rw [h.peek_eq]
  by_cases hend : s.src + n = s.buf.length
  · have hn : n = rest.length := by omega
    rw [if_pos hend, hn, List.getElem?_concat_length]
  · rw [if_neg hend]
    rcases Nat.lt_or_gt_of_ne (show n ≠ rest.length by omega) with hlt | hgt
    · rw [List.getElem?_append_left hlt]
    · rw [List.getElem?_eq_none hgt.le, List.getElem?_eq_none (by simpa using hgt)]

/-- The condition is about the text that is still to be read. -/
theorem sequence_at (h : s.At out rest) (hne : rest ≠ []) : sequence s = .ok (escape? rest) := by
  have hleft : s.buf.length - s.src = rest.length := by
    have hlength := h.length_eq
    omega
  unfold sequence
  rw [fetch_at h, fetch_at h, fetch_at h, hleft]
  match rest, hne with
  | [c], _ => simp [escape?]
  | [c, c1], _ =>
      -- behind the digit there is the terminator
      have hzero : isxdigit 0 = false := by decide
      simp only [List.length_cons, List.length_nil, List.cons_append, List.nil_append, escape?]
      simp [bind, Except.bind, pure, Except.pure, hzero]
  | c :: c1 :: c2 :: rest, _ =>
      have htwo : 2 ≤ (c :: c1 :: c2 :: rest).length := by simp
      simp only [htwo, and_true, List.cons_append, escape?]
      by_cases hc : c = percent <;> by_cases h1 : isxdigit c1 = true <;>
        by_cases h2 : isxdigit c2 = true <;>
          simp [bind, Except.bind, pure, Except.pure, hc, h1, h2]

/-- A pass decodes what stands at the beginning of the text. -/
theorem decodeStep_at (formenc : Bool) (h : s.At out rest) (hne : rest ≠ []) :
    ∃ s' b k, decodeStep formenc s = .next s' ∧ s'.At (out ++ [b]) (rest.drop k) ∧
      (k = 1 ∨ k = 3 ∧ (escape? rest).isSome) ∧ k ≤ rest.length ∧
        decodedURL formenc rest = b :: decodedURL formenc (rest.drop k) := by
  have hlength := h.length_eq
  have hpos := List.length_pos_iff.2 hne
  have hbehind := h.behind
  have hend : s.src ≠ s.buf.length := by omega
  unfold decodeStep
  rw [if_neg hend, sequence_at h hne]
  cases hesc : escape? rest with
  | some b =>
      obtain ⟨hthree, hdecoded⟩ := decodedURL_of_escape formenc hesc
      have hroom : s.dst + [b].length ≤ s.src + 3 := by
        rw [List.length_singleton]
        omega
      exact ⟨_, b, 3, rfl, h.rewrite hthree hroom, Or.inr ⟨rfl, rfl⟩, hthree, hdecoded⟩
  | none =>
      -- no escape here: one byte is read and one is written
      obtain ⟨c, tail, rfl⟩ := List.exists_cons_of_ne_nil hne
      have hroom : ∀ b : UInt8, s.dst + [b].length ≤ s.src + 1 := fun b => by
        rw [List.length_singleton]
        omega
      have hone : 1 ≤ (c :: tail).length := hpos
      rw [fetch_at h]
      dsimp only [List.cons_append, List.getElem?_cons_zero]
      have hdecoded := decodedURL_of_not_escape formenc hesc
      unfold plainByte at hdecoded
      by_cases hplus : formenc = true ∧ c = plus
      · rw [if_pos hplus] at hdecoded ⊢
        exact ⟨_, space, 1, rfl, h.rewrite hone (hroom _), Or.inl rfl, hone, hdecoded⟩
      · rw [if_neg hplus] at hdecoded ⊢
        exact ⟨_, c, 1, rfl, h.rewrite hone (hroom _), Or.inl rfl, hone, hdecoded⟩

/-- The whole text is decoded. -/
theorem eval_decodeLoop (h : s.At out rest) :
    (decodeLoop formenc).eval s = .ok (out ++ decodedURL formenc rest) := by
  induction hn : rest.length using Nat.strong_induction_on generalizing s out rest with
  | _ n ih =>
      by_cases hne : rest = []
      · subst hne
        have hend : s.src = s.buf.length := h.length_eq
        have hdone : decodeStep formenc s = .done (.ok out) := by
          rw [decodeStep, if_pos hend, h.written]
        rw [(decodeLoop formenc).eval_done hdone, decodedURL, List.append_nil]
      · obtain ⟨s', b, k, hnext, h', hk, hle, hdecoded⟩ := decodeStep_at formenc h hne
        have hlt : (rest.drop k).length < n := by
          rw [List.length_drop]
          omega
        rw [(decodeLoop formenc).eval_next hnext, ih _ hlt h' rfl, hdecoded, List.append_assoc]
        rfl

/-- At every head of the loop a part of the text has been decoded, and the rest of it is left. -/
theorem reach_decodeLoop {text : Str} {t : InPlace UInt8}
    (h : (decodeLoop formenc).Reach ⟨text, 0, 0⟩ t) :
    ∃ out rest, t.At out rest ∧ rest <:+ text := by
  refine h.invariant (I := fun t => ∃ out rest, InPlace.At t out rest ∧ rest <:+ text)
    ⟨_, _, .start text, List.suffix_refl _⟩ ?_
  rintro t t' ⟨out, rest, hat, hrest⟩ hnext
  by_cases hne : rest = []
  · subst hne
    have hend : t.src = t.buf.length := hat.length_eq
    rw [show (decodeLoop formenc).step t = .done _ from if_pos hend] at hnext
    cases hnext
  · obtain ⟨t'', b, k, hnext', h', _⟩ := decodeStep_at formenc hat hne
    obtain rfl : t' = t'' := Step.next.inj (hnext.symm.trans hnext')
    exact ⟨_, _, h', (List.drop_suffix k rest).trans hrest⟩

/-! ## Encoded texts -/

/-- `text` spells `s`: the bytes in `keep` may stand for themselves, any byte may be written with
two hexadecimal digits, and in a form a space may be written as `+`. -/
inductive FormEncoded (formenc : Bool) (keep : UInt8 → Bool) : (s text : Str) → Prop where
  | nil : FormEncoded formenc keep [] []
  | literal {c : UInt8} {s text : Str} (hc : keep c = true) (h : FormEncoded formenc keep s text) :
      FormEncoded formenc keep (c :: s) (c :: text)
  | escape {c c1 c2 : UInt8} {s text : Str} (h1 : isxdigit c1 = true) (h2 : isxdigit c2 = true)
      (hc : hexByte c1 c2 = c) (h : FormEncoded formenc keep s text) :
      FormEncoded formenc keep (c :: s) (percent :: c1 :: c2 :: text)
  | plus {s text : Str} (hform : formenc = true) (h : FormEncoded formenc keep s text) :
      FormEncoded formenc keep (space :: s) (Url.plus :: text)

/-- Decoding gives the text that is spelt, if `%`, and in a form `+`, does not stand for itself. -/
theorem decodedURL_of_formEncoded {keep : UInt8 → Bool} {text decoded : Str}
    (hpercent : keep percent = false) (hplus : formenc = true → keep plus = false)
    (h : FormEncoded formenc keep decoded text) : decodedURL formenc text = decoded := by
  have hplain : ∀ {c : UInt8} (rest : Str), c ≠ percent → escape? (c :: rest) = none := by
    intro c rest hc
    match rest with
    | [] => rfl
    | [_] => rfl
    | _ :: _ :: _ => exact if_neg fun hesc => hc hesc.1
  induction h with
  | nil => rfl
  | @literal c s text hc _ ih =>
      have hne : c ≠ percent := by
        rintro rfl
        rw [hpercent] at hc
        cases hc
      have hnot : ¬(formenc = true ∧ c = Url.plus) := by
        rintro ⟨hform, rfl⟩
        rw [hplus hform] at hc
        cases hc
      rw [decodedURL_of_not_escape formenc (hplain text hne), ih, plainByte, if_neg hnot]
  | @escape c c1 c2 s text h1 h2 hc _ ih =>
      have hesc : escape? (percent :: c1 :: c2 :: text) = some (hexByte c1 c2) :=
        if_pos ⟨rfl, h1, h2⟩
      rw [(decodedURL_of_escape formenc hesc).2, hc]
      exact congrArg (c :: ·) ih
  | @plus s text hform _ ih =>
      rw [decodedURL_of_not_escape formenc (hplain text (by decide)), ih, plainByte,
        if_pos ⟨hform, rfl⟩]

/-- For every text the function gives the decoded text, never writing behind the place that it reads
from; and it gives back every text that has been encoded. -/
theorem decodeInPlace_correct (formenc : Bool) (text : Str) :
    decodeInPlace formenc text = .ok (decodedURL formenc text) ∧
    (∀ s, (decodeLoop formenc).Reach ⟨text, 0, 0⟩ s → s.dst ≤ s.src ∧ s.src ≤ s.buf.length) ∧
    ∀ (keep : UInt8 → Bool) (decoded : Str), keep percent = false →
      (formenc = true → keep plus = false) → FormEncoded formenc keep decoded text →
        decodeInPlace formenc text = .ok decoded := by
  have heval : decodeInPlace formenc text = .ok (decodedURL formenc text) := by
    rw [decodeInPlace, eval_decodeLoop (.start text), List.nil_append]
  refine ⟨heval, ?_, ?_⟩
  · intro s hreach
    obtain ⟨out, rest, hat, _⟩ := reach_decodeLoop hreach
    exact ⟨hat.behind, hat.inside⟩
  · intro keep decoded hpercent hplus hencoded
    rw [heval, decodedURL_of_formEncoded hpercent hplus hencoded]

/-- A sequence in a sequence, one that is cut off, and a `+`. -/
example : decodeInPlace true (str "%2541+%4") = .ok (str "%41 %4") := by
  decide

end Url
end Kdump

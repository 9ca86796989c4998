import Kdump.Global

/-!
# PercentEncoding — `KString::decodeURL`

Undoing percent encoding, and what it does to texts that somebody else has encoded:

* `decodeURL` — the function of `stringutil.cc`;
* `PercentEncoded` — a text spells another one, byte by byte;
* `hasEscape` — the texts that decoding changes.
-/

namespace Kdump
namespace Url

abbrev percent : UInt8 := 37

/-! ## Hexadecimal digits -/

/-- `isxdigit` of the C locale. -/
def isxdigit (c : UInt8) : Bool :=
  (48 ≤ c && c ≤ 57) || (97 ≤ c && c ≤ 102) || (65 ≤ c && c ≤ 70)

/-- `StringUtil::hex2int`, for a digit. -/
def hex2int (c : UInt8) : UInt8 :=
  if 48 ≤ c && c ≤ 57 then c - 48
  else if 97 ≤ c && c ≤ 102 then c - 97 + 10
  else c - 65 + 10

/-- The byte that two hexadecimal digits stand for. -/
def hexByte (c1 c2 : UInt8) : UInt8 :=
  (hex2int c1 <<< 4) ||| hex2int c2

/-! ## Decoding -/

/-- `KString::decodeURL(false)`.  A `%` with one byte behind it is looked at as well, but then the
second byte is the terminator of the string, which is no digit. -/
def decodeURL : Str → Str
  | [] => []
  | c :: c1 :: c2 :: rest =>
      if c = percent ∧ isxdigit c1 = true ∧ isxdigit c2 = true then
        hexByte c1 c2 :: decodeURL rest
      else
        c :: decodeURL (c1 :: c2 :: rest)
  | c :: rest => c :: decodeURL rest

/-- A text in which decoding finds something to do. -/
def hasEscape : Str → Bool
  | c :: c1 :: c2 :: rest =>
      (c == percent && isxdigit c1 && isxdigit c2) || hasEscape (c1 :: c2 :: rest)
  | _ => false

theorem decodeURL_cons {c : UInt8} (hc : c ≠ percent) (s : Str) :
    decodeURL (c :: s) = c :: decodeURL s := by
  match s with
  | [] => rfl
  | [_] => rfl
  | _ :: _ :: _ => rw [decodeURL, if_neg fun h => hc h.1]

theorem decodeURL_escape {c1 c2 : UInt8} (h1 : isxdigit c1 = true) (h2 : isxdigit c2 = true)
    (s : Str) : decodeURL (percent :: c1 :: c2 :: s) = hexByte c1 c2 :: decodeURL s := by
  rw [decodeURL, if_pos ⟨rfl, h1, h2⟩]

/-- No escape reaches over a byte that is neither `%` nor a digit. -/
theorem decodeURL_append_cons {d : UInt8} (hd : d ≠ percent) (hx : isxdigit d = false) (t : Str) :
    ∀ s : Str, decodeURL (s ++ d :: t) = decodeURL s ++ d :: decodeURL t := by
  intro s
  induction s using decodeURL.induct with
  | case1 => exact decodeURL_cons hd t
  | case2 c c1 c2 rest hesc ih =>
      rcases hesc with ⟨rfl, h1, h2⟩
      rw [decodeURL_escape h1 h2, List.cons_append, List.cons_append, List.cons_append,
        decodeURL_escape h1 h2, ih, List.cons_append]
  | case3 c c1 c2 rest hesc ih =>
      rw [decodeURL, if_neg hesc, List.cons_append, List.cons_append, List.cons_append, decodeURL,
        if_neg hesc, List.cons_append, ← ih]
      rfl
  | case4 c rest hshort ih =>
      -- at most one byte of `s` follows, so the second digit would be `d` or lie behind it
      match rest, hshort with
      | [], _ =>
          match t with
          | [] => rfl
          | e :: t =>
              have hno : ¬(c = percent ∧ isxdigit d = true ∧ isxdigit e = true) := by simp [hx]
              simp only [List.cons_append, List.nil_append]
              rw [decodeURL, if_neg hno, decodeURL_cons hd]
              rfl
      | [c1], _ =>
          have hno : ¬(c = percent ∧ isxdigit c1 = true ∧ isxdigit d = true) := by simp [hx]
          simp only [List.cons_append, List.nil_append] at ih ⊢
          rw [decodeURL, if_neg hno, ih]
          rfl
      | c1 :: c2 :: rest, h => exact absurd rfl (h c1 c2 rest)

/-- A text without `%` is left alone. -/
theorem decodeURL_plain : ∀ {s : Str}, percent ∉ s → decodeURL s = s := by
  intro s
  induction s with
  | nil =>
      intro _
      rfl
  | cons c s ih =>
      intro h
      have hc : c ≠ percent := fun hc => h (by simp [hc])
      rw [decodeURL_cons hc, ih fun hs => h (List.mem_cons_of_mem _ hs)]

theorem decodeURL_of_not_hasEscape {s : Str} : hasEscape s = false → decodeURL s = s := by
  induction s using decodeURL.induct with
  | case1 =>
      intro _
      rfl
  | case2 c c1 c2 rest hesc ih =>
      intro h
      rcases hesc with ⟨rfl, h1, h2⟩
      simp [hasEscape, h1, h2] at h
  | case3 c c1 c2 rest hesc ih =>
      intro h
      rw [hasEscape, Bool.or_eq_false_iff] at h
      rw [decodeURL, if_neg hesc, ih h.2]
  | case4 c rest hshort ih =>
      intro _
      match rest, hshort with
      | [], _ => rfl
      | [_], _ => rfl
      | c1 :: c2 :: rest, h => exact absurd rfl (h c1 c2 rest)

theorem hasEscape_cons {c : UInt8} (hc : c ≠ percent) (s : Str) :
    hasEscape (c :: s) = hasEscape s := by
  match s with
  | [] => rfl
  | [_] => rfl
  | _ :: _ :: _ => rw [hasEscape, beq_false_of_ne hc, Bool.false_and, Bool.false_and, Bool.false_or]

/-- No escape reaches over a byte that is neither `%` nor a digit. -/
theorem hasEscape_append_cons {d : UInt8} (hd : d ≠ percent) (hx : isxdigit d = false) (t : Str) :
    ∀ s : Str, hasEscape (s ++ d :: t) = (hasEscape s || hasEscape t) := by
  intro s
  induction s with
  | nil => exact hasEscape_cons hd t
  | cons c s ih =>
      by_cases hc : c = percent
      · subst hc
        -- the two bytes behind the `%` lie in `s`, or one of them is `d`
        match s with
        | [] =>
            cases t with
            | nil => rfl
            | cons e t => simp [hasEscape, hx, hasEscape_cons hd]
        | [c1] =>
            simp only [hasEscape, hx, List.cons_append, List.nil_append, Bool.and_false,
              Bool.false_or] at ih ⊢
            exact ih
        | c1 :: c2 :: s =>
            simp only [List.cons_append] at ih ⊢
            rw [hasEscape, ih, hasEscape, Bool.or_assoc]
      · rw [List.cons_append, hasEscape_cons hc, hasEscape_cons hc, ih]

/-- An escape takes three bytes away and brings one back. -/
theorem countP_decodeURL (p : UInt8 → Bool) (hp : p percent = true)
    (hx : ∀ c, isxdigit c = true → p c = true) (s : Str) :
    (decodeURL s).countP p ≤ s.countP p ∧
      (hasEscape s = true → (decodeURL s).countP p < s.countP p) := by
  induction s using decodeURL.induct with
  | case1 => exact ⟨Nat.le_refl _, fun h => by cases h⟩
  | case2 c c1 c2 rest hesc ih =>
      rcases hesc with ⟨rfl, h1, h2⟩
      rw [decodeURL_escape h1 h2]
      simp only [List.countP_cons, hp, hx _ h1, hx _ h2, if_true]
      have hone : (if p (hexByte c1 c2) = true then 1 else 0) ≤ 1 := by split <;> omega
      have hle := ih.1
      exact ⟨by omega, fun _ => by omega⟩
  | case3 c c1 c2 rest hesc ih =>
      rw [decodeURL, if_neg hesc, List.countP_cons, List.countP_cons]
      refine ⟨Nat.add_le_add_right ih.1 _, ?_⟩
      intro h
      have hrest : hasEscape (c1 :: c2 :: rest) = true := by
        rw [hasEscape, Bool.or_eq_true] at h
        rcases h with h | h
        · simp only [Bool.and_eq_true, beq_iff_eq] at h
          exact absurd ⟨h.1.1, h.1.2, h.2⟩ hesc
        · exact h
      exact Nat.add_lt_add_right (ih.2 hrest) _
  | case4 c rest hshort ih =>
      match rest, hshort with
      | [], _ => exact ⟨Nat.le_refl _, fun h => by cases h⟩
      | [_], _ => exact ⟨Nat.le_refl _, fun h => by cases h⟩
      | c1 :: c2 :: rest, h => exact absurd rfl (h c1 c2 rest)

/-! ## Encoded texts -/

/-- `text` spells `s`: the bytes in `keep` may stand for themselves, and any byte may be written
with two hexadecimal digits, in upper or lower case. -/
inductive PercentEncoded (keep : UInt8 → Bool) : (s text : Str) → Prop where
  | nil : PercentEncoded keep [] []
  | literal {c : UInt8} {s text : Str} (hc : keep c = true) (h : PercentEncoded keep s text) :
      PercentEncoded keep (c :: s) (c :: text)
  | escape {c c1 c2 : UInt8} {s text : Str} (h1 : isxdigit c1 = true) (h2 : isxdigit c2 = true)
      (hc : hexByte c1 c2 = c) (h : PercentEncoded keep s text) :
      PercentEncoded keep (c :: s) (percent :: c1 :: c2 :: text)

namespace PercentEncoded

variable {keep : UInt8 → Bool} {s text : Str}

theorem decodeURL (hkeep : keep percent = false) (h : PercentEncoded keep s text) :
    decodeURL text = s := by
  induction h with
  | nil => rfl
  | @literal c s text hc _ ih =>
      have hne : c ≠ percent := by
        rintro rfl
        rw [hkeep] at hc
        cases hc
      rw [decodeURL_cons hne, ih]
  | escape h1 h2 hc _ ih => rw [decodeURL_escape h1 h2, ih, hc]

theorem mono {keep' : UInt8 → Bool} (hle : ∀ c, keep c = true → keep' c = true)
    (h : PercentEncoded keep s text) : PercentEncoded keep' s text := by
  induction h with
  | nil => exact .nil
  | literal hc _ ih => exact .literal (hle _ hc) ih
  | escape h1 h2 hc _ ih => exact .escape h1 h2 hc ih

/-- The bytes of an encoded text. -/
theorem of_mem (h : PercentEncoded keep s text) {c : UInt8} (hc : c ∈ text) :
    keep c = true ∨ c = percent ∨ isxdigit c = true := by
  induction h with
  | nil => cases hc
  | literal hkeep _ ih =>
      rcases List.mem_cons.1 hc with rfl | hc
      · exact Or.inl hkeep
      · exact ih hc
  | escape h1 h2 _ _ ih =>
      simp only [List.mem_cons] at hc
      rcases hc with rfl | rfl | rfl | hc
      · exact Or.inr (Or.inl rfl)
      · exact Or.inr (Or.inr h1)
      · exact Or.inr (Or.inr h2)
      · exact ih hc

end PercentEncoded

/-! ## An encoder -/

def hexDigit (n : UInt8) : UInt8 :=
  if n < 10 then 48 + n else 55 + n

def percentEncode (keep : UInt8 → Bool) (s : Str) : Str :=
  s.flatMap fun c => if keep c then [c] else [percent, hexDigit (c >>> 4), hexDigit (c &&& 15)]

theorem hexDigit_roundTrip :
    ((List.range 256).map UInt8.ofNat).all (fun c =>
      isxdigit (hexDigit (c >>> 4)) && isxdigit (hexDigit (c &&& 15)) &&
        hexByte (hexDigit (c >>> 4)) (hexDigit (c &&& 15)) == c) = true := by
  decide +kernel

theorem percentEncoded_percentEncode (keep : UInt8 → Bool) (s : Str) :
    PercentEncoded keep s (percentEncode keep s) := by
  induction s with
  | nil => exact .nil
  | cons c s ih =>
      rw [percentEncode, List.flatMap_cons]
      split
      · rename_i hc
        exact .literal hc ih
      · have hmem : c ∈ (List.range 256).map UInt8.ofNat :=
          List.mem_map.2 ⟨c.toNat, List.mem_range.2 c.toNat_lt, UInt8.ofNat_toNat⟩
        have hdigits := List.all_eq_true.1 hexDigit_roundTrip c hmem
        simp only [Bool.and_eq_true, beq_iff_eq] at hdigits
        exact .escape hdigits.1.1 hdigits.1.2 hdigits.2 ih

end Url
end Kdump

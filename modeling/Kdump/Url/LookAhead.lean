import Kdump.Lib.Wp
import Kdump.Url.Decoding

/-!
# LookAhead — the positions that `KString::decodeURL` dereferences

One pass is written down once more, with a note of each position at which an iterator is
dereferenced, and of the position that is written.

* `deref`, `store` — the accesses, which leave a note;
* `sequenceNoted`, `passNoted` — one pass;
* `dereferenced` — the notes of a pass;
* `ahead` — how far a pass looks;
* `passNoted_at` — it is a pass of the function, and what it notes;
* `decodeURL_inside_iff` — when all positions are in front of the end.
-/

namespace Kdump
namespace Url

open Lib

/-! ## A pass with notes -/

/-- A computation that notes positions; the notes outlast an error. -/
abbrev Noted (α : Type) := EStateM Thrown (List Nat) α

/-- `src[n]`. -/
def deref (s : InPlace UInt8) (n : Nat) : Noted UInt8 := fun notes =>
  match fetch s n with
  | .ok c => .ok c (notes ++ [s.src + n])
  | .error e => .error e (notes ++ [s.src + n])

/-- `*dst++ = c`. -/
def store (s : InPlace UInt8) (c : UInt8) : Noted (InPlace UInt8) := fun notes =>
  .ok (s.write c) (notes ++ [s.dst])

/-- The condition on a percent sequence, with the byte that it stands for. -/
def sequenceNoted (s : InPlace UInt8) : Noted (Option UInt8) := do
  if (← deref s 0) = percent ∧ 2 ≤ s.buf.length - s.src then
    let c1 ← deref s 1
    if isxdigit c1 = true then
      let c2 ← deref s 2
      if isxdigit c2 = true then return some (hexByte c1 c2) else return none
    else
      return none
  else
    return none

/-- `formenc && *src == '+'`. -/
def plusNoted (formenc : Bool) (s : InPlace UInt8) : Noted Bool := do
  if formenc = true then
    return (← deref s 0) = plus
  else
    return false

/-- The body of the loop, and `++src`. -/
def passNoted (formenc : Bool) (s : InPlace UInt8) : Noted (InPlace UInt8) := do
  match ← sequenceNoted s with
  | some b => return (← store s b).skip 3
  | none =>
      if ← plusNoted formenc s then
        return (← store s space).skip 1
      else
        return (← store s (← deref s 0)).skip 1

/-- The positions of a pass, one after another. -/
def dereferenced (formenc : Bool) (s : InPlace UInt8) : List Nat :=
  endState (passNoted formenc s [])

/-! ## How far a pass looks -/

/-- The places of the text that is left, as far as the condition on a percent sequence looks at
them. -/
def ahead : Str → List Nat
  | c :: c1 :: _ =>
      if c = percent then
        if isxdigit c1 = true then [0, 1, 2] else [0, 1]
      else [0]
  | _ => [0]

variable {formenc : Bool} {s : InPlace UInt8} {out rest : Str} {notes : List Nat}

theorem deref_at (h : s.At out rest) {n : Nat} {c : UInt8} (hc : (rest ++ [0])[n]? = some c) :
    deref s n notes = .ok c (notes ++ [s.src + n]) := by
  rw [deref, fetch_at h, hc]

theorem sequenceNoted_at (h : s.At out rest) (hne : rest ≠ []) :
    sequenceNoted s notes = .ok (escape? rest) (notes ++ (ahead rest).map (s.src + ·)) := by
  have hleft : s.buf.length - s.src = rest.length := by
    have hlength := h.length_eq
    omega
  unfold sequenceNoted
  match rest, hne with
  | [c], _ =>
      have hone : ¬(c = percent ∧ 2 ≤ s.buf.length - s.src) := by simp [hleft]
      rw [bind_ok (deref_at h rfl), if_neg hone]
      rfl
  | c :: c1 :: rest, _ =>
      have htwo : 2 ≤ s.buf.length - s.src := by simp [hleft]
      rw [bind_ok (deref_at h rfl)]
      by_cases hc : c = percent
      · rw [if_pos ⟨hc, htwo⟩, bind_ok (deref_at h rfl)]
        by_cases h1 : isxdigit c1 = true
        · have hahead : ahead (c :: c1 :: rest) = [0, 1, 2] := by rw [ahead, if_pos hc, if_pos h1]
          rw [if_pos h1, hahead]
          cases rest with
          | nil =>
              -- behind the digit there is the terminator
              have hzero : ¬ isxdigit 0 = true := by decide
              rw [bind_ok (deref_at h rfl), if_neg hzero, List.append_assoc, List.append_assoc]
              rfl
          | cons c2 rest =>
              rw [bind_ok (deref_at h rfl), escape?, List.append_assoc, List.append_assoc]
              by_cases h2 : isxdigit c2 = true
              · rw [if_pos h2, if_pos ⟨hc, h1, h2⟩]
                rfl
              · rw [if_neg h2, if_neg fun hall => h2 hall.2.2]
                rfl
        · have hahead : ahead (c :: c1 :: rest) = [0, 1] := by rw [ahead, if_pos hc, if_neg h1]
          have hescape : escape? (c :: c1 :: rest) = none := by
            cases rest with
            | nil => rfl
            | cons c2 rest => exact if_neg fun hall => h1 hall.2.1
          rw [if_neg h1, hahead, hescape, List.append_assoc]
          rfl
      · have hahead : ahead (c :: c1 :: rest) = [0] := by rw [ahead, if_neg hc]
        have hescape : escape? (c :: c1 :: rest) = none := by
          cases rest with
          | nil => rfl
          | cons c2 rest => exact if_neg fun hall => hc hall.1
        rw [if_neg fun hall => hc hall.1, hahead, hescape]
        rfl

/-- The pass with notes is a pass of the function; behind the condition only `*src` is read. -/
theorem passNoted_at (formenc : Bool) (notes : List Nat) (h : s.At out rest) (hne : rest ≠ []) :
    ∃ s' again, decodeStep formenc s = .next s' ∧ (∀ p ∈ again, p = s.src) ∧
      passNoted formenc s notes =
        .ok s' (notes ++ (ahead rest).map (s.src + ·) ++ again ++ [s.dst]) := by
  have hlength := h.length_eq
  have hpos := List.length_pos_iff.2 hne
  have hend : s.src ≠ s.buf.length := by omega
  unfold decodeStep passNoted
  rw [if_neg hend, sequence_at h hne, bind_ok (sequenceNoted_at h hne)]
  cases escape? rest with
  | some b => exact ⟨_, [], rfl, by simp, by rw [List.append_nil]; rfl⟩
  | none =>
      obtain ⟨c, tail, rfl⟩ := List.exists_cons_of_ne_nil hne
      rw [fetch_at h]
      dsimp only [List.cons_append, List.getElem?_cons_zero]
      generalize notes ++ (ahead (c :: tail)).map (s.src + ·) = seen
      -- the condition reads `*src` only if plus signs are decoded, and what is copied is read again
      cases formenc with
      | false =>
          refine ⟨_, [s.src], if_neg (fun hform => Bool.false_ne_true hform.1), by simp, ?_⟩
          have hplus : plusNoted false s seen = .ok false seen := rfl
          rw [bind_ok hplus, if_neg Bool.false_ne_true, bind_ok (deref_at h rfl)]
          rfl
      | true =>
          have hplus : plusNoted true s seen = .ok (decide (c = plus)) (seen ++ [s.src]) := by
            unfold plusNoted
            rw [if_pos rfl, bind_ok (deref_at h rfl)]
            rfl
          rw [bind_ok hplus]
          by_cases hc : c = plus
          · refine ⟨_, [s.src], if_pos ⟨rfl, hc⟩, by simp, ?_⟩
            rw [if_pos (decide_eq_true hc)]
            rfl
          · refine ⟨_, [s.src, s.src], if_neg (fun hform => hc hform.2), by simp, ?_⟩
            rw [if_neg (by simp [hc]), bind_ok (deref_at h rfl)]
            change EStateM.Result.ok _ _ = EStateM.Result.ok _ _
            congr 1
            simp

/-! ## In front of the end -/

/-- All positions of a pass are strictly in front of `end()`. -/
def PassInside (formenc : Bool) (s : InPlace UInt8) : Prop :=
  ∀ p ∈ dereferenced formenc s, p < s.buf.length

/-- All passes over a text dereference positions in front of `end()` only.  The loop is left with
`src == end()` without a pass. -/
def LooksInside (formenc : Bool) (text : Str) : Prop :=
  ∀ s, (decodeLoop formenc).Reach ⟨text, 0, 0⟩ s → s.src ≠ s.buf.length → PassInside formenc s

/-- The text ends in a percent sign and one digit. -/
def CutOff (text : Str) : Prop :=
  ∃ front c, text = front ++ [percent, c] ∧ isxdigit c = true

theorem passInside_iff (h : s.At out rest) (hne : rest ≠ []) :
    PassInside formenc s ↔ ∀ k ∈ ahead rest, k < rest.length := by
  have hlength := h.length_eq
  have hbehind := h.behind
  have hpos := List.length_pos_iff.2 hne
  obtain ⟨s', again, _, hagain, hnoted⟩ := passNoted_at formenc [] h hne
  unfold PassInside dereferenced
  rw [hnoted]
  simp only [endState, List.nil_append, List.mem_append, List.mem_map, List.mem_singleton]
  constructor
  · intro hall k hk
    have hlt := hall (s.src + k) (Or.inl (Or.inl ⟨k, hk, rfl⟩))
    omega
  · rintro hall p ((⟨k, hk, rfl⟩ | hp) | rfl)
    · have hlt := hall k hk
      omega
    · rw [hagain p hp]
      omega
    · omega

/-- A pass looks behind the end if all that is left is a sequence that is cut off. -/
theorem ahead_outside {k : Nat} (hk : k ∈ ahead rest) (hle : rest.length ≤ k) (hne : rest ≠ []) :
    ∃ c, rest = [percent, c] ∧ isxdigit c = true := by
  match rest, hne with
  | [c], _ =>
      obtain rfl : k = 0 := by simpa [ahead] using hk
      simp at hle
  | c :: c1 :: rest, _ =>
      rw [List.length_cons, List.length_cons] at hle
      rw [ahead] at hk
      by_cases hc : c = percent
      · rw [if_pos hc] at hk
        by_cases h1 : isxdigit c1 = true
        · rw [if_pos h1] at hk
          have hk' : k = 0 ∨ k = 1 ∨ k = 2 := by simpa using hk
          have hnil : rest = [] := List.length_eq_zero_iff.1 (by omega)
          exact ⟨c1, by rw [hc, hnil], h1⟩
        · rw [if_neg h1] at hk
          have hk' : k = 0 ∨ k = 1 := by simpa using hk
          omega
      · rw [if_neg hc] at hk
        have hk' : k = 0 := by simpa using hk
        omega

/-- Neither a percent sign nor a digit is skipped together with the end of a percent sequence. -/
theorem length_le_of_escape {front : Str} {c : UInt8} (hne : front ≠ [])
    (h : (escape? (front ++ [percent, c])).isSome) : 3 ≤ front.length := by
  have hpercent : isxdigit percent = false := by decide
  match front, hne with
  | [a], _ => simp [escape?, hpercent] at h
  | [a, b], _ => simp [escape?, hpercent] at h
  | _ :: _ :: _ :: front, _ => simp

/-- The loop comes to a cut off sequence at the end of the text. -/
theorem reach_cutOff (formenc : Bool) {front : Str} {c : UInt8}
    (h : s.At out (front ++ [percent, c])) :
    ∃ s' out', (decodeLoop formenc).Reach s s' ∧ s'.At out' [percent, c] := by
  induction hn : front.length using Nat.strong_induction_on generalizing s out front with
  | _ n ih =>
      by_cases hne : front = []
      · subst hne
        exact ⟨s, out, Loop.Reach.refl s, h⟩
      · obtain ⟨s', b, k, hnext, h', hk, _⟩ :=
          decodeStep_at formenc h (List.append_ne_nil_of_left_ne_nil hne _)
        have hpos := List.length_pos_iff.2 hne
        have hinside : 0 < k ∧ k ≤ front.length := by
          rcases hk with rfl | ⟨rfl, hescape⟩
          · exact ⟨Nat.one_pos, hpos⟩
          · exact ⟨by decide, length_le_of_escape hne hescape⟩
        rw [List.drop_append_of_le_length hinside.2] at h'
        have hlt : (front.drop k).length < n := by
          rw [List.length_drop]
          omega
        obtain ⟨s'', out', hreach, hat⟩ := ih _ hlt h' rfl
        exact ⟨s'', out', hreach.head hnext, hat⟩

/-- For every string and both settings of `formenc`: all positions are in front of the end, if and
only if the string does not end in a percent sign and one hexadecimal digit. -/
theorem decodeURL_inside_iff (formenc : Bool) (text : Str) :
    LooksInside formenc text ↔ ¬ CutOff text := by
  constructor
  · rintro hinside ⟨front, c, rfl, hc⟩
    obtain ⟨s, out, hreach, hat⟩ := reach_cutOff formenc
      (InPlace.At.start (front ++ [percent, c]))
    have hlength := hat.length_eq
    have hpass := hinside s hreach (by simp at hlength; omega)
    have hahead : ahead [percent, c] = [0, 1, 2] := by rw [ahead, if_pos rfl, if_pos hc]
    have hlt := (passInside_iff hat (List.cons_ne_nil _ _)).1 hpass 2 (by rw [hahead]; simp)
    exact absurd hlt (by simp)
  · intro hnot s hreach hend
    obtain ⟨out, rest, hat, hsuffix⟩ := reach_decodeLoop hreach
    have hne : rest ≠ [] := by
      rintro rfl
      exact hend hat.length_eq
    refine (passInside_iff hat hne).2 fun k hk => ?_
    by_contra hle
    obtain ⟨c, rfl, hc⟩ := ahead_outside hk (Nat.not_lt.1 hle) hne
    obtain ⟨front, rfl⟩ := hsuffix
    exact hnot ⟨front, c, rfl, hc⟩

/-- Behind the digit 4 the end is dereferenced. -/
theorem not_looksInside_cut : ¬ LooksInside false (str "a%4") := by
  intro hinside
  have hstep : decodeStep false ⟨str "a%4", 0, 0⟩ = .next ⟨str "a%4", 1, 1⟩ := by decide
  have hreach : (decodeLoop false).Reach ⟨str "a%4", 0, 0⟩ ⟨str "a%4", 1, 1⟩ :=
    (Loop.Reach.refl _).tail hstep
  have hpass := hinside _ hreach (by decide)
  exact absurd (hpass 3 (by decide)) (by decide)

end Url
end Kdump

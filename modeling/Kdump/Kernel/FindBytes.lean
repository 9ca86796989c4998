import Kdump.Kernel.KernelTool

/-!
# FindBytes — `Util::findBytes` byte by byte

The function gets two buffers and their lengths.  Here the two loops are written down with each
access to a buffer, and with the lengths as values of `size_t`.

* `byteAt` — an access, which has to be inside of the buffer;
* `compareStep`, `compare` — the inner loop;
* `findStep`, `findBytes` — the outer loop;
* `IsFirst` — what the search has to give;
* `findBytes_of_le`, `findBytes_of_lt` — what it gives, by the lengths of the two buffers;
* `findBytes_correct_iff` — when this is the first place of the needle.
-/

namespace Kdump
namespace Util

open Lib

/-! ## The function -/

/-- `buf[i]`. -/
def byteAt (buf : Str) (i : Nat) : Except Thrown UInt8 :=
  match buf[i]? with
  | some c => .ok c
  | none => .error .undefined

/-- One pass of the inner loop, which is left with the value of `found`.  `w` is the number of bits
of `size_t`. -/
def compareStep (w : Nat) (haystack needle : Str) (i j : Nat) : Step Nat (Except Thrown Bool) :=
  if j < needle.length then
    match byteAt haystack ((i + j) % 2 ^ w) with
    | .error e => .done (.error e)
    | .ok a =>
        match byteAt needle j with
        | .error e => .done (.error e)
        | .ok b => if a ≠ b then .done (.ok false) else .next (j + 1)
  else
    .done (.ok true)

section

variable {w : Nat} {haystack needle : Str} {i j j' : Nat}

/-- A pass goes on after two equal bytes. -/
theorem compareStep_next (h : compareStep w haystack needle i j = .next j') :
    j < needle.length ∧ (i + j) % 2 ^ w < haystack.length ∧ j' = j + 1 := by
  unfold compareStep byteAt at h
  split at h
  · rename_i hj
    cases hbyte : haystack[(i + j) % 2 ^ w]? with
    | none =>
        rw [hbyte] at h
        cases h
    | some a =>
        obtain ⟨hlt, _⟩ := List.getElem?_eq_some_iff.1 hbyte
        rw [hbyte, List.getElem?_eq_getElem hj] at h
        dsimp only at h
        split at h
        · cases h
        · cases h
          exact ⟨hj, hlt, rfl⟩
  · cases h

theorem compareStep_lt (h : compareStep w haystack needle i j = .next j') :
    needle.length - j' < needle.length - j := by
  obtain ⟨hj, _, rfl⟩ := compareStep_next h
  omega

end

def compareLoop (w : Nat) (haystack needle : Str) (i : Nat) : Loop Nat (Except Thrown Bool) where
  step := compareStep w haystack needle i
  measure j := needle.length - j
  decreases := compareStep_lt

/-- The value of `found` behind the inner loop. -/
def compare (w : Nat) (haystack needle : Str) (i : Nat) : Except Thrown Bool :=
  (compareLoop w haystack needle i).eval 0

/-- `haystack_len-needle_len`. -/
def bound (w : Nat) (haystack needle : Str) : Nat :=
  (haystack.length + 2 ^ w - needle.length) % 2 ^ w

/-- An index as a value of `ssize_t`. -/
def ssize (w i : Nat) : Int :=
  if i < 2 ^ (w - 1) then i else i - 2 ^ w

/-- One pass of the outer loop. -/
def findStep (w : Nat) (haystack needle : Str) (i : Nat) : Step Nat (Except Thrown Int) :=
  if i < bound w haystack needle then
    match compare w haystack needle i with
    | .error e => .done (.error e)
    | .ok found => if found then .done (.ok (ssize w i)) else .next (i + 1)
  else
    .done (.ok (-1))

section

variable {w : Nat} {haystack needle : Str} {i i' : Nat}

/-- A pass goes on where the needle has not been found. -/
theorem findStep_next (h : findStep w haystack needle i = .next i') :
    i < bound w haystack needle ∧ compare w haystack needle i = .ok false ∧ i' = i + 1 := by
  unfold findStep at h
  split at h
  · rename_i hi
    cases hfound : compare w haystack needle i with
    | error e =>
        rw [hfound] at h
        cases h
    | ok found =>
        rw [hfound] at h
        cases found with
        | true => cases h
        | false =>
            cases h
            exact ⟨hi, rfl, rfl⟩
  · cases h

theorem findStep_lt (h : findStep w haystack needle i = .next i') :
    bound w haystack needle - i' < bound w haystack needle - i := by
  obtain ⟨hi, _, rfl⟩ := findStep_next h
  omega

end

def findLoop (w : Nat) (haystack needle : Str) : Loop Nat (Except Thrown Int) where
  step := findStep w haystack needle
  measure i := bound w haystack needle - i
  decreases := findStep_lt

/-- `Util::findBytes`. -/
def findBytes (w : Nat) (haystack needle : Str) : Except Thrown Int :=
  (findLoop w haystack needle).eval 0

/-! ## The comparison -/

variable {w : Nat} {haystack needle : Str} {i : Nat}

theorem byteAt_of_lt {buf : Str} {i : Nat} (h : i < buf.length) : byteAt buf i = .ok buf[i] := by
  rw [byteAt, List.getElem?_eq_getElem h]

theorem byteAt_of_le {buf : Str} {i : Nat} (h : buf.length ≤ i) :
    byteAt buf i = .error .undefined := by
  rw [byteAt, List.getElem?_eq_none h]

/-- Inside of the haystack the rest of the needle is compared with what stands there. -/
theorem eval_compareLoop (hw : haystack.length < 2 ^ w)
    (hle : i + needle.length ≤ haystack.length) {j : Nat} (hj : j ≤ needle.length) :
    (compareLoop w haystack needle i).eval j =
      .ok (decide (needle.drop j <+: haystack.drop (i + j))) := by
  -- on how much of the needle is left to compare
  induction hn : needle.length - j generalizing j with
  | zero =>
      have hend : j = needle.length := by omega
      have hdone : (compareLoop w haystack needle i).step j = .done (.ok true) :=
        if_neg (by omega)
      rw [Loop.eval_done _ hdone, hend, List.drop_length]
      simp
  | succ n ih =>
      have hlt : j < needle.length := by omega
      have hin : i + j < haystack.length := by omega
      have hstep : (compareLoop w haystack needle i).step j =
          if haystack[i + j] ≠ needle[j] then .done (.ok false) else .next (j + 1) := by
        change compareStep w haystack needle i j = _
        unfold compareStep
        rw [if_pos hlt, Nat.mod_eq_of_lt (hin.trans hw), byteAt_of_lt hin, byteAt_of_lt hlt]
      have hiff : needle.drop j <+: haystack.drop (i + j) ↔
          needle[j] = haystack[i + j] ∧ needle.drop (j + 1) <+: haystack.drop (i + (j + 1)) := by
        rw [List.drop_eq_getElem_cons hlt, List.drop_eq_getElem_cons hin, List.cons_prefix_cons,
          Nat.add_assoc]
      by_cases heq : haystack[i + j] = needle[j]
      · rw [if_neg (not_not.2 heq)] at hstep
        rw [Loop.eval_next _ hstep, ih hlt (by omega)]
        have hrest := hiff.trans (and_iff_right heq.symm)
        exact congrArg Except.ok (decide_eq_decide.2 hrest.symm)
      · rw [if_pos heq] at hstep
        have hnot : ¬ needle.drop j <+: haystack.drop (i + j) :=
          fun h => heq (hiff.1 h).1.symm
        rw [Loop.eval_done _ hstep, decide_eq_false hnot]

/-- A comparison that has room in the haystack decides. -/
theorem compare_of_le (hw : haystack.length < 2 ^ w) (hle : i + needle.length ≤ haystack.length) :
    compare w haystack needle i = .ok (decide (OccursAt needle haystack i)) :=
  eval_compareLoop hw hle (Nat.zero_le _)

/-- A comparison that has no room does not find the needle. -/
theorem compare_of_gt (hw : haystack.length < 2 ^ w) (hi : i ≤ haystack.length)
    (hgt : haystack.length < i + needle.length) : compare w haystack needle i ≠ .ok true := by
  intro hfound
  obtain ⟨j, hreach, hdone⟩ := Loop.exists_last (L := compareLoop w haystack needle i) 0
  have hinside : i + j ≤ haystack.length := by
    refine hreach.invariant (I := fun j => i + j ≤ haystack.length) hi ?_
    intro j j' hj hnext
    obtain ⟨_, hlt, rfl⟩ := compareStep_next hnext
    rw [Nat.mod_eq_of_lt (by omega)] at hlt
    exact hlt
  rw [show (compareLoop w haystack needle i).eval 0 = .ok true from hfound] at hdone
  -- there is still a byte of the needle to be compared
  have hj : j < needle.length := by omega
  change compareStep w haystack needle i j = _ at hdone
  unfold compareStep at hdone
  rw [if_pos hj] at hdone
  split at hdone
  · cases hdone
  · split at hdone
    · cases hdone
    · split at hdone
      · cases hdone
      · cases hdone

/-- A comparison behind the haystack reads outside of it. -/
theorem compare_length (hw : haystack.length < 2 ^ w) (hne : needle ≠ []) :
    compare w haystack needle haystack.length = .error .undefined := by
  have hpos := List.length_pos_iff.2 hne
  refine Loop.eval_done _ ?_
  change compareStep w haystack needle haystack.length 0 = _
  unfold compareStep
  rw [if_pos hpos, Nat.add_zero, Nat.mod_eq_of_lt hw, byteAt_of_le (Nat.le_refl _)]

/-! ## The search -/

/-- The bound is right as long as the needle is not the longer one. -/
theorem bound_of_le (hw : haystack.length < 2 ^ w) (hle : needle.length ≤ haystack.length) :
    bound w haystack needle = haystack.length - needle.length := by
  rw [bound, Nat.add_comm, Nat.add_sub_assoc hle, Nat.add_mod_left,
    Nat.mod_eq_of_lt (by omega)]

theorem bound_of_lt (hw : needle.length < 2 ^ w) (hlt : haystack.length < needle.length) :
    haystack.length < bound w haystack needle := by
  rw [bound, Nat.mod_eq_of_lt (by omega)]
  omega

/-- The needle fits: the first place in front of the last one is found. -/
theorem findBytes_of_le (hw : haystack.length < 2 ^ w) (hle : needle.length ≤ haystack.length) :
    findBytes w haystack needle =
      .ok (match firstMatch needle haystack (haystack.length - needle.length) with
        | some i => ssize w i
        | none => -1) := by
  have hbound := bound_of_le hw hle
  obtain ⟨i, hreach, hdone⟩ := Loop.exists_last (L := findLoop w haystack needle) 0
  -- the invariant: the needle is at none of the places that were passed
  have hpassed : ∀ j < i, ¬ OccursAt needle haystack j := by
    refine hreach.invariant (I := fun i => ∀ j < i, ¬ OccursAt needle haystack j) (by simp) ?_
    intro i i' hpassed hnext
    obtain ⟨hi, hnot, rfl⟩ := findStep_next hnext
    rw [compare_of_le hw (by omega)] at hnot
    intro j hj
    rcases Nat.lt_succ_iff_lt_or_eq.1 hj with hlt | rfl
    · exact hpassed j hlt
    · exact of_decide_eq_false (Except.ok.inj hnot)
  change findStep w haystack needle i = .done (findBytes w haystack needle) at hdone
  unfold findStep at hdone
  split at hdone
  · rename_i hi
    rw [hbound] at hi
    rw [compare_of_le hw (by omega)] at hdone
    by_cases hoccurs : OccursAt needle haystack i
    · rw [firstMatch_some.2 ⟨hi, hoccurs, hpassed⟩]
      simpa [hoccurs] using hdone.symm
    · simp [hoccurs] at hdone
  · rename_i hi
    have hnone : firstMatch needle haystack (haystack.length - needle.length) = none :=
      firstMatch_none.2 fun j hj => hpassed j (by omega)
    rw [hnone]
    exact (Step.done.inj hdone).symm

/-- The needle does not fit: the search goes on until it reads outside. -/
theorem findBytes_of_lt (hne : needle ≠ []) (hw : needle.length < 2 ^ w)
    (hlt : haystack.length < needle.length) : ∃ e, findBytes w haystack needle = .error e := by
  have hbound := bound_of_lt hw hlt
  have hw' : haystack.length < 2 ^ w := hlt.trans hw
  obtain ⟨i, hreach, hdone⟩ := Loop.exists_last (L := findLoop w haystack needle) 0
  have hinside : i ≤ haystack.length := by
    refine hreach.invariant (I := fun i => i ≤ haystack.length) (Nat.zero_le _) ?_
    intro i i' hi hnext
    obtain ⟨_, hnot, rfl⟩ := findStep_next hnext
    refine Nat.lt_of_le_of_ne hi ?_
    rintro rfl
    rw [compare_length hw' hne] at hnot
    cases hnot
  change findStep w haystack needle i = .done (findBytes w haystack needle) at hdone
  unfold findStep at hdone
  rw [if_pos (by omega)] at hdone
  cases hcompare : compare w haystack needle i with
  | error e =>
      rw [hcompare] at hdone
      exact ⟨e, (Step.done.inj hdone).symm⟩
  | ok found =>
      rw [hcompare] at hdone
      cases found with
      | true => exact absurd hcompare (compare_of_gt hw' hinside (by omega))
      | false => cases hdone

/-- On buffers for which the difference of the lengths is right, the search through a chunk of a
kernel image is this function. -/
theorem findBytes_eq (hw : haystack.length < 2 ^ (w - 1))
    (hle : needle.length ≤ haystack.length) :
    findBytes w haystack needle = .ok (Kernel.findBytes haystack needle) := by
  have hpow : (2 : Nat) ^ (w - 1) ≤ 2 ^ w := Nat.pow_le_pow_right (by decide) (Nat.sub_le _ _)
  rw [findBytes_of_le (by omega) hle, Kernel.findBytes]
  cases hfirst : firstMatch needle haystack (haystack.length - needle.length) with
  | none => rfl
  | some i =>
      obtain ⟨hi, _⟩ := firstMatch_some.1 hfirst
      dsimp only
      rw [ssize, if_pos (by omega)]

/-! ## The first place of the needle -/

/-- The least index at which the needle occurs, or -1 if it does not occur. -/
def IsFirst (haystack needle : Str) (r : Int) : Prop :=
  (∃ i : Nat, r = i ∧ FirstFrom needle haystack 0 i) ∨
    (r = -1 ∧ ∀ i, ¬ OccursAt needle haystack i)

/-- All accesses are inside of the buffers, and the result is right. -/
def Finds (w : Nat) (haystack needle : Str) : Prop :=
  ∃ r, findBytes w haystack needle = .ok r ∧ IsFirst haystack needle r

theorem ssize_of_lt (h : i < 2 ^ (w - 1)) : ssize w i = i :=
  if_pos h

/-- The larger half of the indices becomes negative. -/
theorem ssize_of_le (h : 2 ^ (w - 1) ≤ i) (hi : i < 2 ^ w) : ssize w i < 0 := by
  rw [ssize, if_neg (Nat.not_lt.2 h)]
  have hcast : ((2 ^ w : Nat) : Int) = 2 ^ w := by push_cast; rfl
  omega

/-- The function gives the first place of the needle, and reads the buffers inside of their bounds
only, if and only if the needle is not longer than the haystack and, should it occur, does so in
front of the last place that it could have. -/
theorem findBytes_correct_iff (w : Nat) (haystack needle : Str) (hne : needle ≠ [])
    (hhaystack : haystack.length < 2 ^ w) (hneedle : needle.length < 2 ^ w) :
    Finds w haystack needle ↔
      needle.length ≤ haystack.length ∧
        ((∃ i, OccursAt needle haystack i) →
          ∃ i < 2 ^ (w - 1), OccursAt needle haystack i ∧ i + needle.length < haystack.length) := by
  rcases Nat.lt_or_ge haystack.length needle.length with hlt | hle
  · obtain ⟨e, herror⟩ := findBytes_of_lt hne hneedle hlt
    constructor
    · rintro ⟨r, hr, _⟩
      rw [herror] at hr
      cases hr
    · rintro ⟨hle, _⟩
      omega
  have hresult := findBytes_of_le hhaystack hle
  unfold Finds
  simp only [hresult, Except.ok.injEq, exists_eq_left', hle, true_and]
  -- the loop looks at the places in front of the last possible one
  cases hfirst : firstMatch needle haystack (haystack.length - needle.length) with
  | none =>
      have hnone := firstMatch_none.1 hfirst
      dsimp only
      constructor
      · rintro (⟨i, hi, _⟩ | ⟨_, hnot⟩) ⟨k, hk⟩
        · omega
        · exact absurd hk (hnot k)
      · intro h
        refine Or.inr ⟨rfl, fun k hk => ?_⟩
        obtain ⟨i, _, hoccurs, hi⟩ := h ⟨k, hk⟩
        exact hnone i (by omega) hoccurs
  | some i =>
      obtain ⟨hi, hoccurs, hbefore⟩ := firstMatch_some.1 hfirst
      dsimp only
      constructor
      · rintro (⟨k, hk, hfirst⟩ | ⟨_, hnot⟩) _
        · -- a place from `2 ^ (w - 1)` on is negative as a `ssize_t`
          refine ⟨i, ?_, hoccurs, by omega⟩
          by_contra hlarge
          have hneg := ssize_of_le (Nat.not_lt.1 hlarge) (by omega)
          omega
        · exact absurd hoccurs (hnot i)
      · intro h
        obtain ⟨k, hk, hoccurs', _⟩ := h ⟨i, hoccurs⟩
        have hik : i ≤ k := by
          by_contra hgt
          exact hbefore k (Nat.not_le.1 hgt) hoccurs'
        refine Or.inl ⟨i, ssize_of_lt (by omega), Nat.zero_le _, hoccurs, ?_⟩
        exact fun j _ hj => hbefore j hj

theorem findBytes_correct_iff_magic : Finds 64 (str "xIKCFG_STy") (str "IKCFG_ST") := by
  refine (findBytes_correct_iff 64 _ _ (by decide) (by decide) (by decide)).2 ⟨by decide, ?_⟩
  exact fun _ => ⟨1, by decide, by decide, by decide⟩

/-- A needle at the end of the haystack is not found. -/
theorem not_finds_at_end : ¬ Finds 64 (str "xab") (str "ab") := by
  have hresult : findBytes 64 (str "xab") (str "ab") = .ok (-1) := by decide
  rintro ⟨r, hr, hfirst | ⟨_, hnot⟩⟩
  · obtain ⟨i, hi, _⟩ := hfirst
    rw [hresult, Except.ok.injEq] at hr
    omega
  · exact hnot 1 (by decide)

/-- A needle that is longer than the haystack makes the search read outside. -/
example : findBytes 64 (str "a") (str "ab") = .error .undefined := by
  decide

end Util
end Kdump

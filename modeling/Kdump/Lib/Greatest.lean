import Mathlib.Data.Finset.Card
import Mathlib.Data.List.Lex
import Mathlib.Order.Basic
import Mathlib.Tactic

/-!
# Greatest — the elements with the greatest keys

* `Greatest` — a subset of a given size whose elements have greater keys than all the others;
* `Greatest.unique` — there is only one;
* `greatest_drop` — the end of a sorted list;
* `lastGreatest` — the last element with the greatest key, found in one pass;
* `isRight_iff` — when the elements in question may be others;
* `digits_lt_digits` — numbers of a fixed width are ordered as their digits are.
-/

namespace Lib

section

variable {α β γ : Type*} [LinearOrder β] [LinearOrder γ]

/-- The set `t` has `k` elements of `s`, or all of them if there are fewer, and their keys are
greater than the keys of all other elements. -/
structure Greatest (key : α → β) (k : Nat) (s t : Finset α) : Prop where
  subset : t ⊆ s
  card : t.card = min k s.card
  above : ∀ a ∈ t, ∀ b ∈ s, b ∉ t → key b < key a

namespace Greatest

variable {key : α → β} {k : Nat} {s t t' : Finset α}

theorem subset_of (h : Greatest key k s t) (h' : Greatest key k s t') : t ⊆ t' := by
  intro a ha
  by_contra hmiss
  -- the other set has an element that is not in this one, either
  have hnot : ¬ t' ⊆ t := by
    intro hsub
    have heq : t' = t := Finset.eq_of_subset_of_card_le hsub (h.card.trans h'.card.symm).le
    exact hmiss (heq ▸ ha)
  obtain ⟨b, hb, hbt⟩ := Finset.not_subset.1 hnot
  have hlt := h.above a ha b (h'.subset hb) hbt
  have hgt := h'.above b hb a (h.subset ha) hmiss
  exact lt_asymm hlt hgt

theorem unique (h : Greatest key k s t) (h' : Greatest key k s t') : t = t' :=
  Finset.Subset.antisymm (h.subset_of h') (h'.subset_of h)

/-- Another key that orders the elements in the same way. -/
theorem congr_key {key' : α → γ} (h : Greatest key k s t)
    (hkey : ∀ a ∈ s, ∀ b ∈ s, key b < key a → key' b < key' a) : Greatest key' k s t where
  subset := h.subset
  card := h.card
  above a ha b hb hbt := hkey a (h.subset ha) b hb (h.above a ha b hb hbt)

end Greatest

/-- The last elements of a sorted list are the greatest ones. -/
theorem greatest_drop [DecidableEq α] {key : α → β} {l : List α}
    (hsorted : l.Pairwise fun a b => key a < key b) (k : Nat) :
    Greatest key k l.toFinset (l.drop (l.length - k)).toFinset := by
  have hnodup : l.Nodup := hsorted.imp fun h heq => absurd (congrArg key heq) h.ne
  constructor
  · intro a ha
    exact List.mem_toFinset.2 (List.mem_of_mem_drop (List.mem_toFinset.1 ha))
  · rw [List.toFinset_card_of_nodup hnodup,
      List.toFinset_card_of_nodup (hnodup.sublist (List.drop_sublist _ _)), List.length_drop]
    omega
  · intro a ha b hb hbt
    rw [List.mem_toFinset] at ha hb hbt
    have hcut : l.take (l.length - k) ++ l.drop (l.length - k) = l := List.take_append_drop _ l
    rw [← hcut] at hb hsorted
    have hbefore := (List.mem_append.1 hb).resolve_right hbt
    exact (List.pairwise_append.1 hsorted).2.2 b hbefore a ha

end

/-! ## The last element with the greatest key -/

section

variable {α : Type*} {key : α → Nat} {p : α → Bool} {l : List α} {a : α}

/-- An element in question that is kept instead of the best one so far. -/
def better (key : α → Nat) (p : α → Bool) (best : Option α) (a : α) : Bool :=
  p a && best.all fun b => decide (key b ≤ key a)

def lastGreatest (key : α → Nat) (p : α → Bool) (l : List α) : Option α :=
  l.foldl (fun best a => if better key p best a then some a else best) none

/-- No element in question has a greater key, and none behind it has the same one. -/
def IsLastGreatest (key : α → Nat) (p : α → Bool) (l : List α) (a : α) : Prop :=
  ∃ before behind, l = before ++ a :: behind ∧ p a = true ∧
    (∀ b ∈ before, p b = true → key b ≤ key a) ∧ ∀ b ∈ behind, p b = true → key b < key a

theorem IsLastGreatest.mem (h : IsLastGreatest key p l a) : a ∈ l ∧ p a = true := by
  rcases h with ⟨before, behind, rfl, ha, _⟩
  exact ⟨List.mem_append_right _ List.mem_cons_self, ha⟩

theorem IsLastGreatest.le (h : IsLastGreatest key p l a) {b : α} (hb : b ∈ l)
    (hpb : p b = true) : key b ≤ key a := by
  rcases h with ⟨before, behind, rfl, _, hbefore, hbehind⟩
  rcases List.mem_append.1 hb with hmem | hmem
  · exact hbefore b hmem hpb
  · rcases List.mem_cons.1 hmem with rfl | hmem
    · exact le_rfl
    · exact (hbehind b hmem hpb).le

/-- There is one such element. -/
theorem IsLastGreatest.unique {a' : α} (h : IsLastGreatest key p l a)
    (h' : IsLastGreatest key p l a') : a = a' := by
  rcases h with ⟨before, behind, rfl, ha, hbefore, hbehind⟩
  rcases h' with ⟨before', behind', hl, ha', hbefore', hbehind'⟩
  rcases List.append_eq_append_iff.1 hl with ⟨mid, hmid, hrest⟩ | ⟨mid, hmid, hrest⟩
  · cases mid with
    | nil => exact List.head_eq_of_cons_eq hrest
    | cons b mid =>
        -- the first of the two is in front of the other one, which is smaller
        obtain ⟨rfl, htail⟩ := List.cons.inj hrest
        have hle := hbefore' a (hmid ▸ List.mem_append_right _ List.mem_cons_self) ha
        have hlt := hbehind a' (htail ▸ List.mem_append_right _ List.mem_cons_self) ha'
        exact absurd hle (Nat.not_le.2 hlt)
  · cases mid with
    | nil => exact (List.head_eq_of_cons_eq hrest).symm
    | cons b mid =>
        obtain ⟨rfl, htail⟩ := List.cons.inj hrest
        have hle := hbefore a' (hmid ▸ List.mem_append_right _ List.mem_cons_self) ha'
        have hlt := hbehind' a (htail ▸ List.mem_append_right _ List.mem_cons_self) ha
        exact absurd hle (Nat.not_le.2 hlt)

/-- Fewer elements in question do not matter as long as this one stays. -/
theorem IsLastGreatest.mono {q : α → Bool} (h : IsLastGreatest key p l a)
    (hsub : ∀ b ∈ l, q b = true → p b = true) (ha : q a = true) :
    IsLastGreatest key q l a := by
  rcases h with ⟨before, behind, rfl, _, hbefore, hbehind⟩
  refine ⟨before, behind, rfl, ha, ?_, ?_⟩
  · intro b hb hqb
    exact hbefore b hb (hsub b (List.mem_append_left _ hb) hqb)
  · intro b hb hqb
    exact hbehind b hb (hsub b (List.mem_append_right _ (List.mem_cons_of_mem _ hb)) hqb)

theorem lastGreatest_concat (l : List α) (a : α) : lastGreatest key p (l ++ [a]) =
    if better key p (lastGreatest key p l) a then some a else lastGreatest key p l := by
  rw [lastGreatest, List.foldl_concat]
  rfl

/-- The pass finds the element, unless there is none in question. -/
theorem lastGreatest_spec (key : α → Nat) (p : α → Bool) (l : List α) :
    match lastGreatest key p l with
    | some a => IsLastGreatest key p l a
    | none => ∀ b ∈ l, p b = false := by
  -- the pass goes from the left to the right, so that the last element comes in the last step
  induction l using List.reverseRecOn with
  | nil => exact fun b hb => absurd hb List.not_mem_nil
  | append_singleton l a ih =>
      rw [lastGreatest_concat]
      cases hbest : lastGreatest key p l with
      | none =>
          rw [hbest] at ih
          cases hpa : p a with
          | false =>
              have hskip : better key p none a = false := by rw [better, hpa, Bool.false_and]
              rw [hskip]
              intro b hb
              rcases List.mem_append.1 hb with hmem | hmem
              · exact ih b hmem
              · rwa [List.mem_singleton.1 hmem]
          | true =>
              have htake : better key p none a = true := by rw [better, hpa]; rfl
              rw [htake]
              refine ⟨l, [], rfl, hpa, ?_, fun b hb => absurd hb List.not_mem_nil⟩
              intro b hb hpb
              rw [ih b hb] at hpb
              cases hpb
      | some best =>
          rw [hbest] at ih
          cases htake : better key p (some best) a with
          | true =>
              rw [better, Bool.and_eq_true, Option.all_some, decide_eq_true_eq] at htake
              refine ⟨l, [], rfl, htake.1, ?_, fun b hb => absurd hb List.not_mem_nil⟩
              intro b hb hpb
              exact (IsLastGreatest.le ih hb hpb).trans htake.2
          | false =>
              -- the best one stays, and the new one is either not in question or smaller
              rcases ih with ⟨before, behind, rfl, hbest', hbefore, hbehind⟩
              refine ⟨before, behind ++ [a], by simp, hbest', hbefore, ?_⟩
              intro b hb hpb
              rcases List.mem_append.1 hb with hmem | hmem
              · exact hbehind b hmem hpb
              · rw [List.mem_singleton.1 hmem] at hpb ⊢
                rw [better, hpb, Bool.true_and, Option.all_some, decide_eq_false_iff_not] at htake
                exact Nat.not_le.1 htake

/-- The elements may be the images of others. -/
theorem IsLastGreatest.of_map {β : Type*} {f : β → α} {l : List β}
    (h : IsLastGreatest key p (l.map f) a) :
    ∃ b, IsLastGreatest (fun b => key (f b)) (fun b => p (f b)) l b ∧ f b = a := by
  obtain ⟨before, behind, hl, hpa, hbefore, hbehind⟩ := h
  obtain ⟨before, rest, rfl, rfl, hrest⟩ := List.map_eq_append_iff.1 hl
  obtain ⟨b, behind, rfl, rfl, rfl⟩ := List.map_eq_cons_iff.1 hrest
  refine ⟨b, ⟨before, behind, rfl, hpa, ?_, ?_⟩, rfl⟩
  · exact fun c hc => hbefore (f c) (List.mem_map_of_mem hc)
  · exact fun c hc => hbehind (f c) (List.mem_map_of_mem hc)

theorem lastGreatest_eq_some_iff :
    lastGreatest key p l = some a ↔ IsLastGreatest key p l a := by
  have hspec := lastGreatest_spec key p l
  constructor
  · intro h
    rwa [h] at hspec
  · intro h
    cases hbest : lastGreatest key p l with
    | none =>
        rw [hbest] at hspec
        obtain ⟨hmem, hpa⟩ := h.mem
        rw [hspec a hmem] at hpa
        cases hpa
    | some b =>
        rw [hbest] at hspec
        rw [IsLastGreatest.unique hspec h]


/-! ## Two questions -/

/-- The element that has been found, or the lack of one, is right for the elements with `p`. -/
def IsRight (key : α → Nat) (p : α → Bool) (l : List α) : Option α → Prop
  | some a => IsLastGreatest key p l a
  | none => ∀ b ∈ l, p b = false

theorem IsRight.mem (h : IsRight key p l (some a)) : a ∈ l ∧ p a = true :=
  IsLastGreatest.mem h

/-- An element with `p` has a greater key, or the same one and comes later. -/
def Outdone (key : α → Nat) (p : α → Bool) (l behind : List α) (b : α) : Prop :=
  (∃ c ∈ l, p c = true ∧ key b < key c) ∨ ∃ c ∈ behind, p c = true ∧ key b ≤ key c

variable {q : α → Bool}

/-- Such an element is smaller than the last greatest one. -/
theorem IsLastGreatest.le_of_outdone (h : IsLastGreatest key p l a) {behind : List α} {b : α}
    (hsub : ∀ c ∈ behind, c ∈ l) (hout : Outdone key p l behind b) : key b ≤ key a := by
  rcases hout with ⟨c, hc, hpc, hlt⟩ | ⟨c, hc, hpc, hle⟩
  · exact hlt.le.trans (h.le hc hpc)
  · exact hle.trans (h.le (hsub c hc) hpc)

/-- The elements with `q` give the last greatest of those with `p`, if `q` holds of that one and
those that have `q` alone are outdone. -/
theorem isRight_of_outdone (hright : ∀ a, IsLastGreatest key p l a → q a = true)
    (hout : ∀ before b behind, l = before ++ b :: behind → q b = true → p b = false →
      Outdone key p l behind b) :
    IsRight key p l (lastGreatest key q l) := by
  have hspec := lastGreatest_spec key p l
  cases hbest : lastGreatest key p l with
  | none =>
      rw [hbest] at hspec
      -- no element has `q`, as nothing could outdo it
      have hnone : ∀ b ∈ l, q b = false := by
        intro b hb
        rw [Bool.eq_false_iff]
        intro hq
        obtain ⟨before, behind, hl⟩ := List.append_of_mem hb
        rcases hout before b behind hl hq (hspec b hb) with ⟨c, hc, hpc, _⟩ | ⟨c, hc, hpc, _⟩
        · rw [hspec c hc] at hpc
          cases hpc
        · have hmem : c ∈ l := hl ▸ List.mem_append_right _ (List.mem_cons_of_mem _ hc)
          rw [hspec c hmem] at hpc
          cases hpc
      have hq := lastGreatest_spec key q l
      cases hfound : lastGreatest key q l with
      | none => exact hspec
      | some b =>
          rw [hfound] at hq
          obtain ⟨hmem, hqb⟩ := IsLastGreatest.mem hq
          rw [hnone b hmem] at hqb
          cases hqb
  | some a =>
      rw [hbest] at hspec
      have hlast : IsLastGreatest key p l a := hspec
      have hqa := hright a hlast
      rcases hspec with ⟨before, behind, hl, hpa, hbefore, hbehind⟩
      have hq : IsLastGreatest key q l a := by
        refine ⟨before, behind, hl, hqa, ?_, ?_⟩
        · intro b hb hqb
          cases hpb : p b with
          | true => exact hbefore b hb hpb
          | false =>
              obtain ⟨front, back, rfl⟩ := List.append_of_mem hb
              have hl' : l = front ++ b :: (back ++ a :: behind) := by
                rw [hl, List.append_assoc]
                rfl
              refine hlast.le_of_outdone ?_ (hout _ _ _ hl' hqb hpb)
              intro c hc
              exact hl' ▸ List.mem_append_right _ (List.mem_cons_of_mem _ hc)
        · intro b hb hqb
          cases hpb : p b with
          | true => exact hbehind b hb hpb
          | false =>
              obtain ⟨front, back, rfl⟩ := List.append_of_mem hb
              have hl' : l = (before ++ a :: front) ++ b :: back := by
                rw [hl, List.append_assoc]
                rfl
              rcases hout _ _ _ hl' hqb hpb with ⟨c, hc, hpc, hlt⟩ | ⟨c, hc, hpc, hle⟩
              · exact hlt.trans_le (hlast.le hc hpc)
              · exact hle.trans_lt (hbehind c
                  (List.mem_append_right _ (List.mem_cons_of_mem _ hc)) hpc)
      rw [lastGreatest_eq_some_iff.2 hq]
      exact hlast

/-- And only then. -/
theorem isRight_iff :
    IsRight key p l (lastGreatest key q l) ↔
      (∀ a, IsLastGreatest key p l a → q a = true) ∧
        ∀ before b behind, l = before ++ b :: behind → q b = true → p b = false →
          Outdone key p l behind b := by
  constructor
  · intro h
    have hq := lastGreatest_spec key q l
    cases hfound : lastGreatest key q l with
    | none =>
        rw [hfound] at h hq
        refine ⟨?_, ?_⟩
        · intro a ha
          obtain ⟨hmem, hpa⟩ := ha.mem
          rw [h a hmem] at hpa
          cases hpa
        · intro before b behind hl hqb _
          rw [hq b (hl ▸ List.mem_append_right _ List.mem_cons_self)] at hqb
          cases hqb
    | some a =>
        rw [hfound] at h hq
        have hlast : IsLastGreatest key p l a := h
        obtain ⟨hmem, hpa⟩ := hlast.mem
        refine ⟨?_, ?_⟩
        · intro a' ha'
          rw [← hlast.unique ha']
          exact (IsLastGreatest.mem hq).2
        · intro before b behind hl hqb hpb
          rcases hq with ⟨front, back, hl', _, hfront, hback⟩
          rw [hl] at hl'
          rcases List.append_eq_append_iff.1 hl' with ⟨mid, hmid, hrest⟩ | ⟨mid, hmid, hrest⟩
          · cases mid with
            | nil =>
                rw [List.head_eq_of_cons_eq hrest, hpa] at hpb
                cases hpb
            | cons c mid =>
                -- the element is in front of the one that is found
                obtain ⟨rfl, htail⟩ := List.cons.inj hrest
                have hle := hfront b (hmid ▸ List.mem_append_right _ List.mem_cons_self) hqb
                exact Or.inr ⟨a, htail ▸ List.mem_append_right _ List.mem_cons_self, hpa, hle⟩
          · cases mid with
            | nil =>
                rw [← List.head_eq_of_cons_eq hrest, hpa] at hpb
                cases hpb
            | cons c mid =>
                obtain ⟨rfl, htail⟩ := List.cons.inj hrest
                have hlt := hback b (htail ▸ List.mem_append_right _ List.mem_cons_self) hqb
                exact Or.inl ⟨a, hmem, hpa, hlt⟩
  · rintro ⟨hright, hout⟩
    exact isRight_of_outdone hright hout

end

/-! ## Lists of the same length -/

section

variable {α β : Type*}

/-- The order of joined lists is decided by the first parts, unless they are the same. -/
theorem append_lt_append_iff [LinearOrder α] {a b c d : List α} (h : a.length = b.length) :
    a ++ c < b ++ d ↔ a < b ∨ a = b ∧ c < d := by
  induction a generalizing b with
  | nil =>
      have hb : b = [] := List.length_eq_zero_iff.1 h.symm
      subst hb
      simp
  | cons x a ih =>
      cases b with
      | nil => cases h
      | cons y b =>
          rw [List.cons_append, List.cons_append, List.cons_lt_cons_iff, List.cons_lt_cons_iff,
            ih (Nat.succ.inj h), List.cons.injEq]
          constructor
          · rintro (hlt | ⟨rfl, hlt | ⟨rfl, hlt⟩⟩)
            · exact Or.inl (Or.inl hlt)
            · exact Or.inl (Or.inr ⟨rfl, hlt⟩)
            · exact Or.inr ⟨⟨rfl, rfl⟩, hlt⟩
          · rintro ((hlt | ⟨rfl, hlt⟩) | ⟨⟨rfl, rfl⟩, hlt⟩)
            · exact Or.inl hlt
            · exact Or.inr ⟨rfl, Or.inl hlt⟩
            · exact Or.inr ⟨rfl, Or.inr ⟨rfl, hlt⟩⟩

/-- The last `w` digits of a number, the most significant one first. -/
def digits (base : Nat) (symbol : Nat → β) : (w n : Nat) → List β
  | 0, _ => []
  | w + 1, n => digits base symbol w (n / base) ++ [symbol (n % base)]

@[simp] theorem length_digits (base : Nat) (symbol : Nat → β) (w n : Nat) :
    (digits base symbol w n).length = w := by
  induction w generalizing n with
  | zero => rfl
  | succ w ih => rw [digits, List.length_append, ih, List.length_singleton]

theorem map_digits (base : Nat) (symbol : Nat → β) (f : β → α) (w n : Nat) :
    (digits base symbol w n).map f = digits base (f ∘ symbol) w n := by
  induction w generalizing n with
  | zero => rfl
  | succ w ih => rw [digits, List.map_append, ih, digits, List.map_singleton, Function.comp_apply]

/-- Numbers of a fixed width are ordered as their digits are. -/
theorem digits_lt_digits [LinearOrder β] {base : Nat} {symbol : Nat → β}
    (hsymbol : ∀ i j, i < j → j < base → symbol i < symbol j) {w n m : Nat} (hlt : n < m)
    (hm : m < base ^ w) : digits base symbol w n < digits base symbol w m := by
  induction w generalizing n m with
  | zero =>
      rw [pow_zero] at hm
      omega
  | succ w ih =>
      have hbase : 0 < base := by
        refine Nat.pos_of_ne_zero fun h => ?_
        rw [h, Nat.zero_pow (Nat.succ_pos w)] at hm
        omega
      have hm' : m / base < base ^ w := by
        rw [Nat.div_lt_iff_lt_mul hbase]
        exact hm.trans_eq (pow_succ base w)
      rw [digits, digits, append_lt_append_iff (by simp)]
      rcases lt_or_eq_of_le (Nat.div_le_div_right (c := base) hlt.le) with hfront | hfront
      · exact Or.inl (ih hfront hm')
      · refine Or.inr ⟨by rw [hfront], ?_⟩
        have hn := Nat.div_add_mod n base
        have hd := Nat.div_add_mod m base
        rw [hfront] at hn
        refine List.cons_lt_cons_iff.2 (Or.inl (hsymbol _ _ ?_ (Nat.mod_lt m hbase)))
        omega

theorem digits_lt_digits_iff [LinearOrder β] {base : Nat} {symbol : Nat → β}
    (hsymbol : ∀ i j, i < j → j < base → symbol i < symbol j) {w n m : Nat}
    (hn : n < base ^ w) (hm : m < base ^ w) :
    digits base symbol w n < digits base symbol w m ↔ n < m := by
  refine ⟨fun h => ?_, fun h => digits_lt_digits hsymbol h hm⟩
  by_contra hnot
  rcases lt_or_eq_of_le (not_lt.1 hnot) with hgt | heq
  · exact lt_asymm h (digits_lt_digits hsymbol hgt hn)
  · rw [heq] at h
    exact lt_irrefl _ h

theorem digits_inj [LinearOrder β] {base : Nat} {symbol : Nat → β}
    (hsymbol : ∀ i j, i < j → j < base → symbol i < symbol j) {w n m : Nat}
    (hn : n < base ^ w) (hm : m < base ^ w) :
    digits base symbol w n = digits base symbol w m ↔ n = m := by
  refine ⟨fun h => ?_, fun h => by rw [h]⟩
  rcases lt_trichotomy n m with hlt | heq | hgt
  · exact absurd h (digits_lt_digits hsymbol hlt hm).ne
  · exact heq
  · exact absurd h.symm (digits_lt_digits hsymbol hgt hn).ne

end

end Lib

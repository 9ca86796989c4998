import Mathlib.Computability.Language
import Mathlib.Tactic

/-!
# Regex — regular expressions with groups, matched by the leftmost-longest rule

A regular expression here is a concatenation of groups.  It matches where a match begins first, and
there as much as it can; then each group, from the left to the right, takes as much as the length
of the whole match allows.

* `Regex`, `Regex.lang` — expressions over classes of characters, and their languages;
* `Regex.accepts` — membership, decided by derivatives;
* `longest` — the longest front of a text for which something holds;
* `parts`, `matchAt`, `search` — a match, and what its groups take;
* `search_rest` — a match with a last group that takes anything.
-/

namespace Lib

universe u

/-- A regular expression without anchors. -/
inductive Regex (α : Type u) where
  | zero
  | eps
  | one (p : α → Bool)
  | seq (r s : Regex α)
  | alt (r s : Regex α)
  | star (r : Regex α)

namespace Regex

variable {α : Type u} {r s : Regex α} {c : α} {w : List α}

/-! ## Languages -/

/-- `r?` -/
def opt (r : Regex α) : Regex α :=
  alt r eps

/-- `r+` -/
def plus (r : Regex α) : Regex α :=
  seq r (star r)

/-- `.*` -/
def anything : Regex α :=
  star (one fun _ => true)

/-- The one word `w`. -/
def literal [DecidableEq α] : List α → Regex α
  | [] => eps
  | c :: w => seq (one fun d => d == c) (literal w)

/-- One of the words. -/
def alternation [DecidableEq α] : List (List α) → Regex α
  | [] => zero
  | w :: ws => alt (literal w) (alternation ws)

/-- The words that an expression stands for. -/
def lang : Regex α → Language α
  | zero => 0
  | eps => 1
  | one p => ({w | ∃ c, p c = true ∧ w = [c]} : Set (List α))
  | seq r s => r.lang * s.lang
  | alt r s => r.lang + s.lang
  | star r => KStar.kstar r.lang

theorem mem_one_iff {p : α → Bool} : w ∈ (one p).lang ↔ ∃ c, p c = true ∧ w = [c] :=
  Iff.rfl

theorem mem_seq_iff : w ∈ (seq r s).lang ↔ ∃ a ∈ r.lang, ∃ b ∈ s.lang, a ++ b = w :=
  Language.mem_mul

theorem mem_alt_iff : w ∈ (alt r s).lang ↔ w ∈ r.lang ∨ w ∈ s.lang :=
  Language.mem_add _ _ _

theorem mem_opt_iff : w ∈ (opt r).lang ↔ w ∈ r.lang ∨ w = [] :=
  Language.mem_add _ _ _

theorem nil_mem_star : [] ∈ (star r).lang :=
  Language.nil_mem_kstar _

theorem append_mem_star {a b : List α} (ha : a ∈ r.lang) (hb : b ∈ (star r).lang) :
    a ++ b ∈ (star r).lang := by
  have hcons : a ++ b ∈ 1 + r.lang * KStar.kstar r.lang :=
    Or.inr (Language.append_mem_mul ha hb)
  rwa [Language.one_add_self_mul_kstar_eq_kstar] at hcons

/-- A word of `r*` is taken apart from the left. -/
theorem star_induction {P : List α → Prop} (nil : P [])
    (append : ∀ a ∈ r.lang, ∀ b ∈ (star r).lang, P b → P (a ++ b)) :
    ∀ w ∈ (star r).lang, P w := by
  intro w hw
  obtain ⟨pieces, rfl, hpieces⟩ := Language.mem_kstar.1 hw
  clear hw
  induction pieces with
  | nil => exact nil
  | cons a pieces ih =>
      have hrest : ∀ b ∈ pieces, b ∈ r.lang := fun b hb => hpieces b (List.mem_cons_of_mem _ hb)
      exact append a (hpieces a List.mem_cons_self) pieces.flatten
        (Language.join_mem_kstar hrest) (ih hrest)

/-- Its first piece may be taken to have a character. -/
theorem cons_mem_star_iff :
    c :: w ∈ (star r).lang ↔ ∃ a b, c :: a ∈ r.lang ∧ b ∈ (star r).lang ∧ a ++ b = w := by
  constructor
  · intro h
    obtain ⟨pieces, hw, hpieces⟩ := Language.mem_kstar_iff_exists_nonempty.1 h
    cases pieces with
    | nil => cases hw
    | cons a pieces =>
        obtain ⟨ha, hne⟩ := hpieces a List.mem_cons_self
        cases a with
        | nil => exact absurd rfl hne
        | cons d a =>
            cases hw
            refine ⟨a, pieces.flatten, ha, ?_, rfl⟩
            exact Language.join_mem_kstar fun b hb => (hpieces b (List.mem_cons_of_mem _ hb)).1
  · rintro ⟨a, b, ha, hb, rfl⟩
    exact append_mem_star ha hb

/-- Without the empty word, `r+` has the other words of `r*`. -/
theorem mem_plus_iff_of_notMem (h : [] ∉ r.lang) :
    w ∈ (plus r).lang ↔ w ≠ [] ∧ w ∈ (star r).lang := by
  rw [plus, mem_seq_iff]
  constructor
  · rintro ⟨a, ha, b, hb, rfl⟩
    refine ⟨?_, append_mem_star ha hb⟩
    intro hnil
    exact h ((List.append_eq_nil_iff.1 hnil).1 ▸ ha)
  · rintro ⟨hne, hw⟩
    cases w with
    | nil => exact absurd rfl hne
    | cons c w =>
        obtain ⟨a, b, ha, hb, rfl⟩ := cons_mem_star_iff.1 hw
        exact ⟨c :: a, ha, b, hb, rfl⟩

/-- The class of all characters, any number of times. -/
theorem mem_star_one_iff {p : α → Bool} : w ∈ (star (one p)).lang ↔ ∀ c ∈ w, p c = true := by
  constructor
  · revert w
    apply star_induction
    · intro c hc
      cases hc
    · intro a ha b _ ih c hc
      obtain ⟨d, hd, rfl⟩ := mem_one_iff.1 ha
      rcases List.mem_cons.1 hc with rfl | hc
      · exact hd
      · exact ih c hc
  · intro h
    induction w with
    | nil => exact nil_mem_star
    | cons c w ih =>
        have hc : [c] ∈ (one p).lang := ⟨c, h c List.mem_cons_self, rfl⟩
        exact append_mem_star hc (ih fun d hd => h d (List.mem_cons_of_mem _ hd))

theorem mem_anything : w ∈ (anything : Regex α).lang :=
  mem_star_one_iff.2 fun _ _ => rfl

section

variable [DecidableEq α]

theorem mem_literal_iff {v : List α} : w ∈ (literal v).lang ↔ w = v := by
  induction v generalizing w with
  | nil => exact Language.mem_one w
  | cons d v ih =>
      constructor
      · intro h
        obtain ⟨a, ha, b, hb, rfl⟩ := mem_seq_iff.1 h
        obtain ⟨e, he, rfl⟩ := mem_one_iff.1 ha
        rw [ih.1 hb, beq_iff_eq.1 he]
        rfl
      · rintro rfl
        exact mem_seq_iff.2 ⟨[d], ⟨d, beq_self_eq_true d, rfl⟩, v, ih.2 rfl, rfl⟩

theorem mem_alternation_iff {ws : List (List α)} : w ∈ (alternation ws).lang ↔ w ∈ ws := by
  induction ws with
  | nil => exact iff_of_false (Language.notMem_zero w) List.not_mem_nil
  | cons v ws ih => rw [alternation, mem_alt_iff, mem_literal_iff, ih, List.mem_cons]

end

/-! ## Derivatives -/

/-- Whether the empty word belongs to the language. -/
def nullable : Regex α → Bool
  | zero => false
  | eps => true
  | one _ => false
  | seq r s => r.nullable && s.nullable
  | alt r s => r.nullable || s.nullable
  | star _ => true

/-- What may follow the character `c`. -/
def deriv (c : α) : Regex α → Regex α
  | zero => zero
  | eps => zero
  | one p => if p c then eps else zero
  | seq r s =>
      if r.nullable then alt (seq (r.deriv c) s) (s.deriv c) else seq (r.deriv c) s
  | alt r s => alt (r.deriv c) (s.deriv c)
  | star r => seq (r.deriv c) (star r)

/-- Whether a word belongs to the language. -/
def accepts : Regex α → List α → Bool
  | r, [] => r.nullable
  | r, c :: w => (r.deriv c).accepts w

theorem nullable_iff : r.nullable = true ↔ [] ∈ r.lang := by
  induction r with
  | zero => exact iff_of_false Bool.false_ne_true (Language.notMem_zero _)
  | eps => exact iff_of_true rfl Language.nil_mem_one
  | one p =>
      refine iff_of_false Bool.false_ne_true ?_
      rintro ⟨c, _, h⟩
      cases h
  | seq r s ihr ihs =>
      rw [nullable, Bool.and_eq_true, ihr, ihs, mem_seq_iff]
      constructor
      · rintro ⟨hr, hs⟩
        exact ⟨[], hr, [], hs, rfl⟩
      · rintro ⟨a, ha, b, hb, hab⟩
        obtain ⟨rfl, rfl⟩ := List.append_eq_nil_iff.1 hab
        exact ⟨ha, hb⟩
  | alt r s ihr ihs => rw [nullable, Bool.or_eq_true, ihr, ihs, mem_alt_iff]
  | star r => exact iff_of_true rfl nil_mem_star

/-- A word of a concatenation begins in its first part, or else in the second. -/
theorem cons_mem_seq_iff :
    c :: w ∈ (seq r s).lang ↔
      (∃ a, c :: a ∈ r.lang ∧ ∃ b ∈ s.lang, a ++ b = w) ∨ [] ∈ r.lang ∧ c :: w ∈ s.lang := by
  rw [mem_seq_iff]
  constructor
  · rintro ⟨a, ha, b, hb, hab⟩
    cases a with
    | nil => exact Or.inr ⟨ha, hab ▸ hb⟩
    | cons d a =>
        cases hab
        exact Or.inl ⟨a, ha, b, hb, rfl⟩
  · rintro (⟨a, ha, b, hb, rfl⟩ | ⟨hr, hs⟩)
    · exact ⟨c :: a, ha, b, hb, rfl⟩
    · exact ⟨[], hr, c :: w, hs, rfl⟩

theorem mem_deriv_iff : w ∈ (r.deriv c).lang ↔ c :: w ∈ r.lang := by
  induction r generalizing w with
  | zero => exact iff_of_false (Language.notMem_zero _) (Language.notMem_zero _)
  | eps =>
      refine iff_of_false (Language.notMem_zero _) ?_
      intro h
      cases (Language.mem_one _).1 h
  | one p =>
      rw [deriv, mem_one_iff]
      by_cases hc : p c = true
      · rw [if_pos hc]
        constructor
        · intro h
          rw [(Language.mem_one w).1 h]
          exact ⟨c, hc, rfl⟩
        · rintro ⟨d, _, h⟩
          cases h
          exact Language.nil_mem_one
      · rw [if_neg hc]
        refine iff_of_false (Language.notMem_zero _) ?_
        rintro ⟨d, hd, h⟩
        cases h
        exact hc hd
  | seq r s ihr ihs =>
      have hfirst : w ∈ (seq (r.deriv c) s).lang ↔
          ∃ a, c :: a ∈ r.lang ∧ ∃ b ∈ s.lang, a ++ b = w := by
        rw [mem_seq_iff]
        exact exists_congr fun a => and_congr_left' ihr
      rw [cons_mem_seq_iff, deriv]
      -- the second part may come first only if the first one may be empty
      by_cases hr : r.nullable = true
      · rw [if_pos hr, mem_alt_iff, hfirst, ihs]
        exact or_congr_right (iff_and_self.2 fun _ => nullable_iff.1 hr)
      · rw [if_neg hr, hfirst]
        exact (or_iff_left fun h => hr (nullable_iff.2 h.1)).symm
  | alt r s ihr ihs => rw [deriv, mem_alt_iff, mem_alt_iff, ihr, ihs]
  | star r ih =>
      rw [deriv, mem_seq_iff, cons_mem_star_iff]
      constructor
      · rintro ⟨a, ha, b, hb, hab⟩
        exact ⟨a, b, ih.1 ha, hb, hab⟩
      · rintro ⟨a, b, ha, hb, hab⟩
        exact ⟨a, ih.2 ha, b, hb, hab⟩

theorem accepts_iff : r.accepts w = true ↔ w ∈ r.lang := by
  induction w generalizing r with
  | nil => exact nullable_iff
  | cons c w ih => rw [accepts, ih, mem_deriv_iff]

/-! ## The longest front -/

end Regex

section

variable {α : Type u} {p : List α → List α → Bool} {text front rest : List α}

/-- The longest front of the text that satisfies `p`, together with what is left. -/
def longest (p : List α → List α → Bool) : List α → Option (List α × List α)
  | [] => if p [] [] then some ([], []) else none
  | c :: text =>
      match longest (fun front rest => p (c :: front) rest) text with
      | some (front, rest) => some (c :: front, rest)
      | none => if p [] (c :: text) then some ([], c :: text) else none

/-- A way to cut the text that satisfies `p`, such that no other one has a longer front. -/
structure IsLongest (p : List α → List α → Bool) (text front rest : List α) : Prop where
  cut : front ++ rest = text
  holds : p front rest = true
  max : ∀ front' rest', front' ++ rest' = text → p front' rest' = true →
    front'.length ≤ front.length

theorem IsLongest.unique {front' rest' : List α} (h : IsLongest p text front rest)
    (h' : IsLongest p text front' rest') : front = front' ∧ rest = rest' := by
  have hlen : front.length = front'.length :=
    le_antisymm (h'.max _ _ h.cut h.holds) (h.max _ _ h'.cut h'.holds)
  exact List.append_inj (h.cut.trans h'.cut.symm) hlen

theorem longest_none (h : longest p text = none) :
    ∀ front rest, front ++ rest = text → p front rest = false := by
  induction text generalizing p with
  | nil =>
      intro front rest hcut
      obtain ⟨rfl, rfl⟩ := List.append_eq_nil_iff.1 hcut
      unfold longest at h
      by_contra hp
      rw [if_pos (Bool.eq_true_of_not_eq_false hp)] at h
      cases h
  | cons c text ih =>
      unfold longest at h
      split at h
      · cases h
      · rename_i hnone
        intro front rest hcut
        cases front with
        | nil =>
            by_contra hp
            cases hcut
            rw [if_pos (Bool.eq_true_of_not_eq_false hp)] at h
            cases h
        | cons d front =>
            cases hcut
            exact ih hnone front rest rfl

theorem longest_some (h : longest p text = some (front, rest)) : IsLongest p text front rest := by
  induction text generalizing p front with
  | nil =>
      unfold longest at h
      split at h
      · rename_i hp
        cases h
        refine ⟨rfl, hp, ?_⟩
        intro front' rest' hcut _
        rw [(List.append_eq_nil_iff.1 hcut).1]
      · cases h
  | cons c text ih =>
      unfold longest at h
      split at h
      · -- the front has the character `c`
        rename_i front₀ rest₀ hsome
        cases h
        obtain ⟨hcut, hp, hmax⟩ := ih hsome
        refine ⟨by rw [List.cons_append, hcut], hp, ?_⟩
        intro front' rest' hcut' hp'
        cases front' with
        | nil => exact Nat.zero_le _
        | cons d front' =>
            cases hcut'
            exact Nat.succ_le_succ (hmax front' rest' rfl hp')
      · -- no front has it, so that only the empty one is left
        rename_i hnone
        split at h
        · rename_i hp
          cases h
          refine ⟨rfl, hp, ?_⟩
          intro front' rest' hcut' hp'
          cases front' with
          | nil => exact Nat.zero_le _
          | cons d front' =>
              cases hcut'
              exact absurd hp' (by rw [longest_none hnone front' rest' rfl]; decide)
        · cases h

theorem longest_eq (h : IsLongest p text front rest) : longest p text = some (front, rest) := by
  cases hlongest : longest p text with
  | none =>
      have hfalse := longest_none hlongest front rest h.cut
      rw [h.holds] at hfalse
      cases hfalse
  | some cut =>
      obtain ⟨rfl, rfl⟩ := h.unique (longest_some hlongest)
      rfl

/-- The whole text is its longest front. -/
theorem longest_all (h : p text [] = true) : longest p text = some (text, []) := by
  refine longest_eq ⟨List.append_nil text, h, ?_⟩
  intro front rest hcut _
  rw [← hcut, List.length_append]
  exact Nat.le_add_right _ _

theorem longest_isSome_iff :
    (longest p text).isSome = true ↔ ∃ front rest, front ++ rest = text ∧ p front rest = true := by
  cases hlongest : longest p text with
  | none =>
      refine iff_of_false Bool.false_ne_true ?_
      rintro ⟨front, rest, hcut, hp⟩
      rw [longest_none hlongest front rest hcut] at hp
      cases hp
  | some cut =>
      obtain ⟨hcut, hp, -⟩ := longest_some hlongest
      exact iff_of_true rfl ⟨_, _, hcut, hp⟩

end

/-! ## Groups -/

namespace Regex

variable {α : Type u} {r : Regex α} {text front rest : List α}

/-- The groups, one after another. -/
def concat : List (Regex α) → Regex α
  | [] => eps
  | r :: groups => seq r (concat groups)

/-- What each of the groups takes of a text that they match together. -/
def parts : List (Regex α) → List α → Option (List (List α))
  | [], text => if text.isEmpty then some [] else none
  | r :: groups, text =>
      match longest (fun front rest => r.accepts front && (concat groups).accepts rest) text with
      | none => none
      | some (front, rest) =>
          match parts groups rest with
          | none => none
          | some fronts => some (front :: fronts)

/-- The longest match at the start of the text. -/
def matchAt (groups : List (Regex α)) (text : List α) : Option (List (List α)) :=
  match longest (fun front _ => (concat groups).accepts front) text with
  | none => none
  | some (front, _) => parts groups front

/-- The leftmost match, at the start of the text or behind it. -/
def search (groups : List (Regex α)) : List α → Option (List (List α))
  | [] => matchAt groups []
  | c :: text =>
      match matchAt groups (c :: text) with
      | some fronts => some fronts
      | none => search groups text

theorem accepts_anything (text : List α) : (anything : Regex α).accepts text = true :=
  accepts_iff.2 mem_anything

theorem accepts_concat_anything (text : List α) : (concat [anything]).accepts text = true :=
  accepts_iff.2 (mem_seq_iff.2 ⟨text, mem_anything, [], Language.nil_mem_one, List.append_nil text⟩)

theorem parts_anything (text : List α) : parts [anything] text = some [text] := by
  have hall : longest (fun front rest =>
      (anything : Regex α).accepts front && (concat []).accepts rest) text = some (text, []) := by
    refine longest_all ?_
    rw [accepts_anything]
    rfl
  rw [parts, hall]
  rfl

/-- The first of two groups, of which the second takes anything, is as long as possible. -/
theorem matchAt_rest (h : IsLongest (fun front _ => r.accepts front) text front rest) :
    matchAt [r, anything] text = some [front, rest] := by
  -- the match as a whole takes the text, whatever the first group takes of it
  have hwhole : (concat [r, anything]).accepts text = true := by
    rw [accepts_iff, concat, mem_seq_iff]
    exact ⟨front, accepts_iff.1 h.holds, rest, accepts_iff.1 (accepts_concat_anything rest), h.cut⟩
  have hfirst : longest (fun front rest =>
      r.accepts front && (concat [anything]).accepts rest) text = some (front, rest) := by
    simp only [accepts_concat_anything, Bool.and_true]
    exact longest_eq h
  have hparts : parts [r, anything] text = some [front, rest] := by
    rw [parts, hfirst]
    simp only [parts_anything]
  rw [matchAt, longest_all hwhole]
  exact hparts

/-- A match at the start is the leftmost one. -/
theorem search_of_matchAt {groups : List (Regex α)} {fronts : List (List α)}
    (h : matchAt groups text = some fronts) : search groups text = some fronts := by
  cases text with
  | nil => exact h
  | cons c text => rw [search, h]

theorem search_rest (h : IsLongest (fun front _ => r.accepts front) text front rest) :
    search [r, anything] text = some [front, rest] :=
  search_of_matchAt (matchAt_rest h)

/-- Nothing is found in the empty text if the groups need a character. -/
theorem search_nil {groups : List (Regex α)} (h : [] ∉ (concat groups).lang) :
    search groups [] = none := by
  have hrefused : (concat groups).accepts [] = false := by
    by_contra hacc
    exact h (accepts_iff.1 (Bool.eq_true_of_not_eq_false hacc))
  simp only [search, matchAt, longest, hrefused, Bool.false_eq_true, if_false]

end Regex
end Lib

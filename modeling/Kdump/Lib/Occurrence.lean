import Mathlib.Data.List.Basic
import Mathlib.Tactic

/-!
# Occurrence — a word inside of a text

* `OccursAt` — a word stands at a place of a text;
* `occursAt_window` — looking at a part of the text is enough;
* `infix_iff_splitOn` — a word without separators stands in one of the pieces;
* `FirstFrom` — the first place from some place on;
* `firstMatch` — the search through the places below a bound.
-/

namespace Lib

variable {α : Type*}

/-- The word stands at place `i` of the text. -/
def OccursAt (word text : List α) (i : Nat) : Prop :=
  word <+: text.drop i

instance [DecidableEq α] (word text : List α) (i : Nat) : Decidable (OccursAt word text i) :=
  inferInstanceAs (Decidable (_ <+: _))

theorem OccursAt.le_length {word text : List α} {i : Nat} (h : OccursAt word text i)
    (hne : word ≠ []) : i + word.length ≤ text.length := by
  have hle := h.length_le
  have hpos := List.length_pos_iff.2 hne
  rw [List.length_drop] at hle
  omega

/-- A part of the text that is long enough decides. -/
theorem occursAt_window {word pre window post : List α} {i : Nat}
    (h : i + word.length ≤ window.length) :
    OccursAt word (pre ++ (window ++ post)) (pre.length + i) ↔ OccursAt word window i := by
  have hdrop : (window ++ post).drop i = window.drop i ++ post :=
    List.drop_append_of_le_length (by omega)
  have hlength : word.length ≤ (window.drop i).length := by
    rw [List.length_drop]
    omega
  rw [OccursAt, OccursAt, List.drop_length_add_append, hdrop]
  constructor
  · intro hpre
    exact List.prefix_of_prefix_length_le hpre (List.prefix_append _ _) hlength
  · exact fun hpre => hpre.trans (List.prefix_append _ _)

/-- The text shows the first symbol of the word there. -/
theorem OccursAt.getElem? {word text : List α} {i : Nat} (h : OccursAt word text i)
    (hne : word ≠ []) : text[i]? = word.head? := by
  rcases h with ⟨rest, hrest⟩
  obtain ⟨first, tail, rfl⟩ := List.exists_cons_of_ne_nil hne
  have hhead : (text.drop i)[0]? = some first := by
    rw [← hrest]
    rfl
  simpa using hhead

theorem occursAt_append_left {word pre text : List α} {i : Nat} :
    OccursAt word (pre ++ text) (pre.length + i) ↔ OccursAt word text i := by
  rw [OccursAt, OccursAt, List.drop_length_add_append]

/-- A word does not go across a symbol that it does not have. -/
theorem infix_append_cons_iff {word left right : List α} {x : α} (h : x ∉ word) :
    word <:+: left ++ x :: right ↔ word <:+: left ∨ word <:+: right := by
  constructor
  · rintro ⟨pre, post, heq⟩
    rcases List.append_eq_append_iff.1 heq with ⟨mid, hleft, _⟩ | ⟨mid, hleft, hright⟩
    · exact Or.inl ⟨pre, mid, hleft.symm⟩
    · cases mid with
      | nil => exact Or.inl ⟨pre, [], hleft.trans (List.append_nil _) ▸ List.append_nil _⟩
      | cons y mid =>
          obtain ⟨hy, htail⟩ := List.cons.inj hright
          subst hy
          rcases List.append_eq_append_iff.1 hleft with ⟨front, _, hword⟩ | ⟨front, _, hmid⟩
          · exact absurd (hword ▸ List.mem_append_right _ List.mem_cons_self) h
          · cases front with
            | nil =>
                rw [List.nil_append] at hmid
                exact absurd (hmid ▸ List.mem_cons_self) h
            | cons z front =>
                have hfront : mid = front ++ word := (List.cons.inj hmid).2
                exact Or.inr ⟨front, post, by rw [htail, hfront]; rfl⟩
  · rintro (hleft | hright)
    · exact hleft.trans (List.prefix_append _ _).isInfix
    · exact hright.trans ((List.suffix_cons _ _).trans (List.suffix_append _ _)).isInfix

theorem infix_intercalate_iff {word : List α} {x : α} (h : x ∉ word) :
    ∀ {pieces : List (List α)}, pieces ≠ [] →
      (word <:+: [x].intercalate pieces ↔ ∃ piece ∈ pieces, word <:+: piece) := by
  intro pieces
  induction pieces with
  | nil => exact fun hne => absurd rfl hne
  | cons piece rest ih =>
      intro _
      cases rest with
      | nil => simp
      | cons piece' rest =>
          have hjoin : [x].intercalate (piece :: piece' :: rest) =
              piece ++ x :: [x].intercalate (piece' :: rest) := by
            rw [List.intercalate_cons_cons, List.append_assoc, List.singleton_append]
          rw [hjoin, infix_append_cons_iff h, ih (List.cons_ne_nil _ _)]
          simp only [List.mem_cons, exists_eq_or_imp]

theorem infix_iff_splitOn [DecidableEq α] {word text : List α} {x : α} (h : x ∉ word) :
    word <:+: text ↔ ∃ piece ∈ text.splitOn x, word <:+: piece := by
  have hne : text.splitOn x ≠ [] := List.splitOnP_ne_nil _ _
  have hjoined := infix_intercalate_iff h hne
  rwa [List.intercalate_splitOn] at hjoined

/-- A word that begins in one text and goes on in the next one. -/
theorem prefix_append_iff {word left right : List α} (h : left.length ≤ word.length) :
    word <+: left ++ right ↔ left = word.take left.length ∧ word.drop left.length <+: right := by
  constructor
  · intro hpre
    have hleft : left <+: word :=
      List.prefix_of_prefix_length_le (List.prefix_append _ _) hpre h
    have htake := List.prefix_iff_eq_take.1 hleft
    refine ⟨htake, ?_⟩
    rw [← List.take_append_drop left.length word, ← htake] at hpre
    exact (List.prefix_append_right_inj left).1 hpre
  · rintro ⟨hleft, hright⟩
    calc
      word = left ++ word.drop left.length := by
        conv_rhs => rw [hleft, List.length_take, Nat.min_eq_left h, List.take_append_drop]
      _ <+: left ++ right := (List.prefix_append_right_inj left).2 hright

/-- The first place from `start` on. -/
structure FirstFrom (word text : List α) (start i : Nat) : Prop where
  le : start ≤ i
  occurs : OccursAt word text i
  first : ∀ j, start ≤ j → j < i → ¬ OccursAt word text j

instance [DecidableEq α] (word text : List α) (start i : Nat) :
    Decidable (FirstFrom word text start i) :=
  decidable_of_iff
    (start ≤ i ∧ OccursAt word text i ∧ ∀ j < i, start ≤ j → ¬ OccursAt word text j)
    ⟨fun ⟨hle, hoccurs, hfirst⟩ => ⟨hle, hoccurs, fun j hj hlt => hfirst j hlt hj⟩,
      fun h => ⟨h.le, h.occurs, fun j hlt hj => h.first j hj hlt⟩⟩

/-- The first place below a bound. -/
def firstMatch [DecidableEq α] (word text : List α) (bound : Nat) : Option Nat :=
  (List.range bound).find? fun i => decide (OccursAt word text i)

section

variable [DecidableEq α] {word text : List α} {bound i : Nat}

theorem firstMatch_some : firstMatch word text bound = some i ↔
    i < bound ∧ OccursAt word text i ∧ ∀ j < i, ¬ OccursAt word text j := by
  rw [firstMatch, List.find?_range_eq_some]
  simp only [decide_eq_true_eq, List.mem_range, Bool.not_eq_true', decide_eq_false_iff_not]
  constructor
  · rintro ⟨hoccurs, hlt, hfirst⟩
    exact ⟨hlt, hoccurs, hfirst⟩
  · rintro ⟨hlt, hoccurs, hfirst⟩
    exact ⟨hoccurs, hlt, hfirst⟩

theorem firstMatch_none : firstMatch word text bound = none ↔
    ∀ j < bound, ¬ OccursAt word text j := by
  simp [firstMatch]

end

end Lib

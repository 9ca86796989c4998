import Mathlib.Data.Set.Insert
import Mathlib.Tactic

/-!
# DefinedFirst — declarations that stand before their uses

Every item of a list defines a name, and uses some.  A name may be used once it has been defined
by an earlier item, or if it is known from the start.

* `DefinedFirst` — the names are defined before they are used;
* `definedFirst_append` — two lists, one behind the other;
* `definedFirst_iff` — each item by itself.
-/

namespace Lib

variable {ε α : Type*} {defines : ε → α} {uses uses' : ε → List α} {known known' : Set α}

/-- The names that an item uses are known, or defined by the items before it. -/
def DefinedFirst (defines : ε → α) (uses : ε → List α) (known : Set α) : List ε → Prop
  | [] => True
  | e :: es => (∀ a ∈ uses e, a ∈ known) ∧ DefinedFirst defines uses (insert (defines e) known) es

@[simp]
theorem definedFirst_nil : DefinedFirst defines uses known [] :=
  trivial

theorem definedFirst_cons {e : ε} {es : List ε} :
    DefinedFirst defines uses known (e :: es) ↔
      (∀ a ∈ uses e, a ∈ known) ∧ DefinedFirst defines uses (insert (defines e) known) es :=
  Iff.rfl

/-- Each item uses names that are known, or that an earlier one defines. -/
theorem definedFirst_iff {es : List ε} :
    DefinedFirst defines uses known es ↔
      ∀ before e after, es = before ++ e :: after →
        ∀ a ∈ uses e, a ∈ known ∨ a ∈ before.map defines := by
  induction es generalizing known with
  | nil =>
      refine ⟨fun _ before e after h => ?_, fun _ => trivial⟩
      exact absurd h.symm (List.append_ne_nil_of_right_ne_nil _ (List.cons_ne_nil _ _))
  | cons x xs ih =>
      rw [definedFirst_cons, ih]
      constructor
      · rintro ⟨hx, hxs⟩ before e after h a ha
        cases before with
        | nil =>
            cases h
            exact .inl (hx a ha)
        | cons y before =>
            cases h
            rcases hxs before e after rfl a ha with (rfl | hknown) | hbefore
            · exact .inr List.mem_cons_self
            · exact .inl hknown
            · exact .inr (List.mem_cons_of_mem _ hbefore)
      · intro h
        refine ⟨fun a ha => ?_, fun before e after hxs a ha => ?_⟩
        · rcases h [] x xs rfl a ha with hknown | hnil
          · exact hknown
          · exact absurd hnil List.not_mem_nil
        · rcases h (x :: before) e after (hxs ▸ rfl) a ha with hknown | hbefore
          · exact .inl (.inr hknown)
          · rcases List.mem_cons.1 hbefore with rfl | hbefore
            · exact .inl (.inl rfl)
            · exact .inr hbefore

theorem DefinedFirst.mono {es : List ε} (hknown : known ⊆ known')
    (h : DefinedFirst defines uses known es) : DefinedFirst defines uses known' es :=
  definedFirst_iff.2 fun before e after hes a ha =>
    (definedFirst_iff.1 h before e after hes a ha).imp_left fun hmem => hknown hmem

theorem definedFirst_append {es fs : List ε} :
    DefinedFirst defines uses known (es ++ fs) ↔
      DefinedFirst defines uses known es ∧
        DefinedFirst defines uses (known ∪ {a | a ∈ es.map defines}) fs := by
  induction es generalizing known with
  | nil => simp
  | cons e es ih =>
      have hset : insert (defines e) known ∪ {a | a ∈ es.map defines} =
          known ∪ {a | a ∈ (e :: es).map defines} := by
        ext a
        simp only [Set.mem_union, Set.mem_insert_iff, Set.mem_ofPred_eq, List.map_cons,
          List.mem_cons]
        tauto
      rw [List.cons_append, definedFirst_cons, definedFirst_cons, ih, hset, and_assoc]

/-- One more item at the end. -/
theorem DefinedFirst.concat {es : List ε} {e : ε} (h : DefinedFirst defines uses known es)
    (he : ∀ a ∈ uses e, a ∈ known ∨ a ∈ es.map defines) :
    DefinedFirst defines uses known (es ++ [e]) :=
  definedFirst_append.2 ⟨h, he, trivial⟩

/-- What is defined first for two parts of the uses is for both. -/
theorem DefinedFirst.union {es : List ε} {uses'' : ε → List α}
    (h : DefinedFirst defines uses known es) (h' : DefinedFirst defines uses' known es)
    (hall : ∀ e, ∀ a ∈ uses'' e, a ∈ uses e ∨ a ∈ uses' e) :
    DefinedFirst defines uses'' known es := by
  refine definedFirst_iff.2 fun before e after hes a ha => ?_
  rcases hall e a ha with ha | ha
  · exact definedFirst_iff.1 h before e after hes a ha
  · exact definedFirst_iff.1 h' before e after hes a ha

end Lib

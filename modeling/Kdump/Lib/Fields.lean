import Mathlib.Tactic

/-!
# Fields — the pieces of a text between separators

* `fields` — the pieces, without the empty ones;
* `fields_append_cons` — a separator stands between fields;
* `fields_singleton` — a field on its own;
* `fields_foldl` — a text that is put together field by field.
-/

namespace Lib

variable {α β : Type*} {sep : α → Bool}

/-- The pieces between the separators that are not empty. -/
def fields [DecidableEq α] (sep : α → Bool) (text : List α) : List (List α) :=
  (text.splitOnP sep).filter (· ≠ [])

/-- A piece that a scan finds as it is. -/
def IsField (sep : α → Bool) (field : List α) : Prop :=
  field ≠ [] ∧ ∀ c ∈ field, sep c = false

variable [DecidableEq α]

@[simp] theorem fields_nil : fields sep ([] : List α) = [] := rfl

theorem fields_append_cons {c : α} (hc : sep c = true) (front behind : List α) :
    fields sep (front ++ c :: behind) = fields sep front ++ fields sep behind := by
  rw [fields, List.splitOnP_append_cons _ _ hc, List.filter_append]
  rfl

theorem fields_singleton {field : List α} (h : IsField sep field) : fields sep field = [field] := by
  rw [fields, List.splitOnP_eq_singleton h.2]
  exact List.filter_cons_of_pos (by simpa using h.1)

theorem isField_of_mem {text field : List α} (h : field ∈ fields sep text) : IsField sep field := by
  obtain ⟨hmem, hne⟩ := List.mem_filter.1 h
  refine ⟨by simpa using hne, ?_⟩
  clear h hne
  induction text generalizing field with
  | nil =>
      rw [List.mem_singleton.1 hmem]
      exact fun c hc => absurd hc List.not_mem_nil
  | cons d text ih =>
      rw [List.splitOnP_cons_eq_if_modifyHead] at hmem
      split at hmem
      · rcases List.mem_cons.1 hmem with rfl | hmem
        · exact fun c hc => absurd hc List.not_mem_nil
        · exact ih hmem
      · rename_i hd
        cases hsplit : text.splitOnP sep with
        | nil => exact absurd hsplit (List.splitOnP_ne_nil _ _)
        | cons first others =>
            rw [hsplit] at hmem ih
            rcases List.mem_cons.1 hmem with rfl | hmem
            · -- the byte in front belongs to the first piece
              intro c hc
              rcases List.mem_cons.1 hc with rfl | hc
              · exact Bool.eq_false_iff.2 hd
              · exact ih List.mem_cons_self c hc
            · exact ih (List.mem_cons_of_mem _ hmem)

/-! ## Building a text -/

/-- An item is put behind a text, with a separator if there is something in front. -/
def putField (c : α) (text : List α) (item : List α) : List α :=
  (if text = [] then text else text ++ [c]) ++ item

theorem fields_putField {c : α} (hc : sep c = true) (text item : List α) :
    fields sep (putField c text item) = fields sep text ++ fields sep item := by
  rw [putField]
  split
  · rename_i h
    rw [h]
    rfl
  · rw [List.append_assoc, List.singleton_append, fields_append_cons hc]

/-- A text that is put together piece by piece has the fields of the pieces. -/
theorem fields_foldl {c : α} (hc : sep c = true) (item : β → List α) (bs : List β)
    (text : List α) :
    fields sep (bs.foldl (fun text b => putField c text (item b)) text) =
      fields sep text ++ bs.flatMap fun b => fields sep (item b) := by
  induction bs generalizing text with
  | nil => exact (List.append_nil _).symm
  | cons b bs ih =>
      rw [List.foldl_cons, ih, fields_putField hc, List.flatMap_cons, List.append_assoc]

end Lib

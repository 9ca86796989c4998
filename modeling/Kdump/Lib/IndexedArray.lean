import Mathlib.Tactic

/-!
# IndexedArray — the indexed arrays of the shell

An array has an element at some of its indices; the elements are listed in the order of the indices.

* `IndexedArray` — the elements with their indices;
* `get?`, `set`, `values` — `${a[i]}`, `a[i]=x` and `${a[@]}`;
* `ofList` — an array without gaps, and what an assignment makes of it.
-/

namespace Lib

/-- An array of the shell. -/
structure IndexedArray (α : Type*) where
  entries : List (Nat × α)
  sorted : (entries.map Prod.fst).Pairwise (· < ·)

namespace IndexedArray

variable {α : Type*}

@[ext] theorem ext {a b : IndexedArray α} (h : a.entries = b.entries) : a = b := by
  cases a
  cases b
  cases h
  rfl

def insertEntry (i : Nat) (x : α) : List (Nat × α) → List (Nat × α)
  | [] => [(i, x)]
  | (j, y) :: entries =>
      if i < j then (i, x) :: (j, y) :: entries
      else if i = j then (i, x) :: entries
      else (j, y) :: insertEntry i x entries

theorem mem_insertEntry {i : Nat} {x : α} {entries : List (Nat × α)} {e : Nat × α}
    (h : e ∈ insertEntry i x entries) : e = (i, x) ∨ e ∈ entries := by
  induction entries with
  | nil => exact Or.inl (List.mem_singleton.1 h)
  | cons f entries ih =>
      obtain ⟨j, y⟩ := f
      rw [insertEntry] at h
      split at h
      · exact List.mem_cons.1 h
      · split at h
        · rcases List.mem_cons.1 h with rfl | hmem
          · exact Or.inl rfl
          · exact Or.inr (List.mem_cons_of_mem _ hmem)
        · rcases List.mem_cons.1 h with rfl | hmem
          · exact Or.inr List.mem_cons_self
          · exact (ih hmem).imp_right (List.mem_cons_of_mem _)

theorem sorted_insertEntry (i : Nat) (x : α) {entries : List (Nat × α)}
    (h : (entries.map Prod.fst).Pairwise (· < ·)) :
    ((insertEntry i x entries).map Prod.fst).Pairwise (· < ·) := by
  induction entries with
  | nil => exact List.pairwise_singleton _ _
  | cons f entries ih =>
      obtain ⟨j, y⟩ := f
      rw [List.map_cons, List.pairwise_cons] at h
      rw [insertEntry]
      split
      · rename_i hlt
        rw [List.map_cons, List.map_cons, List.pairwise_cons, List.pairwise_cons]
        refine ⟨?_, h⟩
        intro k hk
        rcases List.mem_cons.1 hk with rfl | hk
        · exact hlt
        · exact hlt.trans (h.1 k hk)
      · split
        · rename_i heq
          rw [List.map_cons, List.pairwise_cons]
          exact ⟨heq ▸ h.1, h.2⟩
        · rename_i hge hne
          rw [List.map_cons, List.pairwise_cons]
          refine ⟨?_, ih h.2⟩
          intro k hk
          obtain ⟨e, he, rfl⟩ := List.mem_map.1 hk
          -- an entry behind is the new one or was there before
          rcases mem_insertEntry he with rfl | he
          · change j < i
            omega
          · exact h.1 _ (List.mem_map_of_mem he)

/-! ## The operations -/

def empty : IndexedArray α :=
  ⟨[], List.Pairwise.nil⟩

/-- `${a[i]}` -/
def get? (a : IndexedArray α) (i : Nat) : Option α :=
  a.entries.lookup i

/-- `a[i]=x` -/
def set (a : IndexedArray α) (i : Nat) (x : α) : IndexedArray α :=
  ⟨insertEntry i x a.entries, sorted_insertEntry i x a.sorted⟩

/-- `${!a[@]}` -/
def indices (a : IndexedArray α) : List Nat :=
  a.entries.map Prod.fst

/-- `${a[@]}` -/
def values (a : IndexedArray α) : List α :=
  a.entries.map Prod.snd

theorem lookup_cons (i : Nat) (x : α) (entries : List (Nat × α)) (j : Nat) :
    ((i, x) :: entries).lookup j = if j = i then some x else entries.lookup j := by
  rw [List.lookup_cons]
  by_cases h : j = i
  · rw [if_pos h, beq_iff_eq.2 h]
  · rw [if_neg h, beq_false_of_ne h]

theorem lookup_insertEntry (i : Nat) (x : α) (entries : List (Nat × α)) (j : Nat) :
    (insertEntry i x entries).lookup j = if j = i then some x else entries.lookup j := by
  induction entries with
  | nil => exact lookup_cons i x [] j
  | cons f entries ih =>
      obtain ⟨k, y⟩ := f
      rw [insertEntry]
      split
      · rw [lookup_cons]
      · split
        · rename_i heq
          rw [lookup_cons, lookup_cons, heq]
          split <;> rfl
        · rename_i hne
          rw [lookup_cons, lookup_cons, ih]
          by_cases h : j = k
          · rw [if_pos h, if_pos h, if_neg (fun hi => hne (hi.symm.trans h))]
          · rw [if_neg h, if_neg h]

theorem get?_set (a : IndexedArray α) (i : Nat) (x : α) (j : Nat) :
    (a.set i x).get? j = if j = i then some x else a.get? j :=
  lookup_insertEntry i x a.entries j

@[simp] theorem get?_set_self (a : IndexedArray α) (i : Nat) (x : α) :
    (a.set i x).get? i = some x := by
  rw [get?_set, if_pos rfl]

theorem get?_set_of_ne (a : IndexedArray α) {i j : Nat} (h : j ≠ i) (x : α) :
    (a.set i x).get? j = a.get? j := by
  rw [get?_set, if_neg h]

@[simp] theorem get?_empty (i : Nat) : (empty : IndexedArray α).get? i = none :=
  rfl

/-! ## Arrays without gaps -/

def numbered (n : Nat) : List α → List (Nat × α)
  | [] => []
  | x :: xs => (n, x) :: numbered (n + 1) xs

theorem map_fst_numbered (n : Nat) (xs : List α) :
    (numbered n xs).map Prod.fst = List.range' n xs.length := by
  induction xs generalizing n with
  | nil => rfl
  | cons x xs ih => rw [numbered, List.map_cons, ih, List.length_cons, List.range'_succ]

def ofList (xs : List α) : IndexedArray α where
  entries := numbered 0 xs
  sorted := by
    rw [map_fst_numbered]
    exact List.pairwise_lt_range'

theorem map_snd_numbered (n : Nat) (xs : List α) : (numbered n xs).map Prod.snd = xs := by
  induction xs generalizing n with
  | nil => rfl
  | cons x xs ih => rw [numbered, List.map_cons, ih]

theorem values_ofList (xs : List α) : (ofList xs).values = xs :=
  map_snd_numbered 0 xs

theorem indices_ofList (xs : List α) : (ofList xs).indices = List.range xs.length := by
  rw [List.range_eq_range']
  exact map_fst_numbered 0 xs

theorem insertEntry_numbered (n i : Nat) (x : α) (xs : List α) (h : i ≤ xs.length) :
    insertEntry (n + i) x (numbered n xs) =
      numbered n (if i = xs.length then xs ++ [x] else xs.set i x) := by
  induction xs generalizing n i with
  | nil =>
      obtain rfl : i = 0 := Nat.le_zero.1 h
      rfl
  | cons y xs ih =>
      rw [numbered, insertEntry, if_neg (by omega)]
      cases i with
      | zero =>
          rw [Nat.add_zero, if_pos rfl]
          rfl
      | succ i =>
          have hle : i ≤ xs.length := Nat.le_of_succ_le_succ h
          rw [if_neg (by omega), show n + (i + 1) = n + 1 + i by omega, ih (n + 1) i hle,
            List.length_cons]
          by_cases hi : i = xs.length
          · rw [if_pos hi, if_pos (congrArg (· + 1) hi)]
            rfl
          · rw [if_neg hi, if_neg (fun heq => hi (Nat.succ.inj heq))]
            rfl

theorem set_ofList_of_lt {xs : List α} {i : Nat} (h : i < xs.length) (x : α) :
    (ofList xs).set i x = ofList (xs.set i x) := by
  have hentries := insertEntry_numbered 0 i x xs h.le
  rw [Nat.zero_add, if_neg h.ne] at hentries
  exact ext hentries

theorem set_ofList_length (xs : List α) (x : α) :
    (ofList xs).set xs.length x = ofList (xs ++ [x]) := by
  have hentries := insertEntry_numbered 0 xs.length x xs (Nat.le_refl _)
  rw [Nat.zero_add, if_pos rfl] at hentries
  exact ext hentries

theorem lookup_numbered (n : Nat) (xs : List α) (i : Nat) :
    (numbered n xs).lookup (n + i) = xs[i]? := by
  induction xs generalizing n i with
  | nil => rfl
  | cons x xs ih =>
      cases i with
      | zero => simp [numbered]
      | succ i =>
          have hne : (n + (i + 1) == n) = false := beq_false_of_ne (by omega)
          rw [numbered, List.lookup_cons, hne, show n + (i + 1) = n + 1 + i by omega]
          exact ih (n + 1) i

theorem get?_ofList (xs : List α) (i : Nat) : (ofList xs).get? i = xs[i]? := by
  have h0 := lookup_numbered 0 xs i
  rwa [Nat.zero_add] at h0

end IndexedArray

end Lib

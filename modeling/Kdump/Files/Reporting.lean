import Mathlib.Data.List.Dedup
import Kdump.Files.Containment

/-!
# Reporting — systems that refuse nothing

* `Under`, `Inside` — what has been taken away is at or below a position, or strictly below it;
* `Safe` — what `rmdir(true)` needs of the types that are reported;
* `Env.Reports` — nothing is refused, and `readdir` tells the truth, but may leave types out;
* `Reaches`, `Leads` — a path leads to a directory, whatever has been removed from within it.
-/

namespace Kdump
namespace Files

open Lib Kdump.Path

/-! ## Less of a tree -/

/-- Nothing has changed but at and below a position, and nothing has been added. -/
structure Under (pos : List FileName) (T T' : Node) : Prop where
  le : T'.Le T
  only : ∀ q, T'.kindAt q ≠ T.kindAt q → pos <+: q

theorem Under.erase (T : Node) (pos : List FileName) : Under pos T (T.erase pos) where
  le := Node.erase_le T pos
  only q hq := by
    by_contra hother
    exact hq (Node.kindAt_erase_other hother T)

theorem Under.trans {T T' T'' : Node} {pos : List FileName} (h : Under pos T T')
    (h' : Under pos T' T'') : Under pos T T'' where
  le := h'.le.trans h.le
  only q hq := by
    by_cases hmid : T'.kindAt q = T.kindAt q
    · exact h'.only q fun heq => hq (heq.trans hmid)
    · exact h.only q hmid

/-- Two trees differ only strictly below a position, and the second has less there. -/
structure Inside (pos : List FileName) (T T' : Node) : Prop where
  le : T'.Le T
  only : ∀ q, T'.kindAt q ≠ T.kindAt q → pos <+: q ∧ q ≠ pos

namespace Inside

variable {pos : List FileName} {T T' T'' : Node}

theorem refl (T : Node) : Inside pos T T :=
  ⟨Node.Le.refl T, fun _ h => absurd rfl h⟩

theorem trans (h : Inside pos T T') (h' : Inside pos T' T'') : Inside pos T T'' where
  le := h'.le.trans h.le
  only q hq := by
    by_cases hmid : T'.kindAt q = T.kindAt q
    · exact h'.only q fun heq => hq (heq.trans hmid)
    · exact h.only q hmid

theorem kindAt (h : Inside pos T T') : T'.kindAt pos = T.kindAt pos := by
  by_contra hne
  exact (h.only pos hne).2 rfl

/-- What is removed at or below an entry is removed inside. -/
theorem of_entry {c : FileName} (hle : T'.Le T)
    (honly : ∀ q, T'.kindAt q ≠ T.kindAt q → pos ++ [c] <+: q) : Inside pos T T' where
  le := hle
  only q hq := by
    have hentry := honly q hq
    refine ⟨(List.prefix_append pos [c]).trans hentry, ?_⟩
    rintro rfl
    have hlen := hentry.length_le
    simp at hlen

end Inside

theorem Inside.under {T T' : Node} {pos : List FileName} (h : Inside pos T T') : Under pos T T' :=
  ⟨h.le, fun q hq => (h.only q hq).1⟩

theorem Under.inside {T T' : Node} {pos : List FileName} {c : FileName}
    (h : Under (pos ++ [c]) T T') : Inside pos T T' :=
  Inside.of_entry h.le h.only

theorem Under.sibling {T T' : Node} {pos : List FileName} {c d : FileName}
    (h : Under (pos ++ [c]) T T') (hne : c ≠ d) (q : List FileName) :
    T'.kindAt (pos ++ [d] ++ q) = T.kindAt (pos ++ [d] ++ q) := by
  by_contra hdiff
  obtain ⟨rest, hrest⟩ := h.only _ hdiff
  have hcons : c :: rest = d :: q := by
    simpa [List.append_assoc] using hrest
  exact hne (List.cons.inj hcons).1

/-- The levels of directories from a position on. -/
def DepthLt (T : Node) (pos : List FileName) (n : Nat) : Prop :=
  ∀ q, T.kindAt (pos ++ q) = some .dir → q.length < n

theorem DepthLt.mono {T T' : Node} {pos : List FileName} {n : Nat} (h : DepthLt T pos n)
    (hle : T'.Le T) : DepthLt T' pos n :=
  fun q hq => h q (hle _ _ hq)

/-- A directory in which nothing can be seen is empty. -/
theorem get?_empty {T : Node} {pos : List FileName} (hdir : T.kindAt pos = some .dir)
    (hnone : ∀ d, T.kindAt (pos ++ [d]) = none) : T.get? pos = some (.dir []) := by
  rcases Node.kindAt_dir.1 hdir with ⟨entries, hentries⟩
  cases entries with
  | nil => exact hentries
  | cons e es =>
      have hchild := hnone e.1
      rw [Node.kindAt_eq_none, Node.get?_append, hentries, Option.bind_some,
        Node.get?_singleton] at hchild
      simp [Node.child] at hchild

theorem kindAt_dir_of_child {T : Node} {pos : List FileName} {d : FileName} {k : Kind}
    (h : T.kindAt (pos ++ [d]) = some k) : T.kindAt pos = some .dir := by
  unfold Node.kindAt at h
  rw [Node.get?_append] at h
  cases hget : T.get? pos with
  | none =>
      rw [hget] at h
      cases h
  | some R =>
      rw [hget, Option.bind_some, Node.get?_singleton] at h
      cases hchild : R.child d with
      | none =>
          rw [hchild] at h
          cases h
      | some node =>
          obtain ⟨entries, rfl⟩ := Node.exists_dir_of_child hchild
          exact Node.kindAt_dir.2 ⟨entries, hget⟩

/-! ## Reported types -/

/-- Below a position, every directory that is not empty is reported as one. -/
def Safe (T : Node) (unknown : List FileName → Bool) (pos : List FileName) : Prop :=
  ∀ q d, q ≠ [] → unknown (pos ++ q) = true → T.kindAt (pos ++ q) = some .dir →
    T.kindAt (pos ++ q ++ [d]) = none

theorem safe_of_smooth (T : Node) (pos : List FileName) : Safe T (fun _ => false) pos := by
  intro q d _ h
  cases h

theorem Safe.mono {T T' : Node} {unknown : List FileName → Bool} {pos : List FileName}
    (h : Safe T unknown pos) (hle : T'.Le T) : Safe T' unknown pos := by
  intro q d hq hunknown hdir
  exact hle.kindAt_none (h q d hq hunknown (hle _ _ hdir))

theorem Safe.entry {T : Node} {unknown : List FileName → Bool} {pos : List FileName}
    (h : Safe T unknown pos) (c : FileName) : Safe T unknown (pos ++ [c]) := by
  intro q d _ hunknown hdir
  have hassoc : pos ++ [c] ++ q = pos ++ (c :: q) := by simp
  rw [hassoc] at hunknown hdir ⊢
  exact h (c :: q) d (by simp) hunknown hdir

/-- A position is safe with all that is below it, the position itself included. -/
def SafeAt (T : Node) (unknown : List FileName → Bool) (pos : List FileName) : Prop :=
  (unknown pos = true → T.kindAt pos = some .dir → ∀ d, T.kindAt (pos ++ [d]) = none) ∧
    Safe T unknown pos

theorem safe_iff_below {T : Node} {unknown : List FileName → Bool} {pos : List FileName} :
    Safe T unknown pos ↔ ∀ c, SafeAt T unknown (pos ++ [c]) := by
  constructor
  · intro h c
    exact ⟨fun hunknown hdir d => h [c] d (by simp) hunknown hdir, h.entry c⟩
  · intro h q d hq hunknown hdir
    cases q with
    | nil => exact absurd rfl hq
    | cons c q =>
        have hassoc : pos ++ (c :: q) = pos ++ [c] ++ q := by simp
        rw [hassoc] at hunknown hdir ⊢
        cases q with
        | nil =>
            rw [List.append_nil] at hunknown hdir ⊢
            exact (h c).1 hunknown hdir d
        | cons e q => exact (h c).2 (e :: q) d (by simp) hunknown hdir

theorem Safe.congr {T T' : Node} {unknown : List FileName → Bool} {pos : List FileName}
    (h : Safe T' unknown pos) (hsame : ∀ q, T'.kindAt (pos ++ q) = T.kindAt (pos ++ q)) :
    Safe T unknown pos := by
  intro q d hq hunknown hdir
  rw [List.append_assoc, ← hsame, ← List.append_assoc]
  exact h q d hq hunknown ((hsame q).trans hdir)

theorem SafeAt.congr {T T' : Node} {unknown : List FileName → Bool} {pos : List FileName}
    (h : SafeAt T' unknown pos) (hsame : ∀ q, T'.kindAt (pos ++ q) = T.kindAt (pos ++ q)) :
    SafeAt T unknown pos := by
  refine ⟨fun hunknown hdir d => ?_, h.2.congr hsame⟩
  have hself := hsame []
  rw [List.append_nil] at hself
  rw [← hsame [d]]
  exact h.1 hunknown (hself.trans hdir) d

/-- Where nothing is below a position, it is safe. -/
theorem safe_of_leaf {T : Node} {unknown : List FileName → Bool} {pos : List FileName}
    (h : ∀ d, T.kindAt (pos ++ [d]) = none) : Safe T unknown pos := by
  intro q d hq _ hdir
  cases q with
  | nil => exact absurd rfl hq
  | cons c q =>
      have hbelow : pos ++ [c] <+: pos ++ (c :: q) := ⟨q, by simp⟩
      have hnone := Node.get?_below (Node.kindAt_eq_none.1 (h c)) hbelow
      rw [Node.kindAt, hnone] at hdir
      cases hdir

/-- The `d_type` of a node. -/
def typeOf : Kind → DType
  | .file => .DT_REG
  | .link _ => .DT_LNK
  | .dir => .DT_DIR

theorem typeOf_eq_dir {k : Kind} : typeOf k = .DT_DIR ↔ k = .dir := by
  cases k <;> simp [typeOf]

theorem not_isDots {name : Str} (hc : IsFileName name) : ¬ isDots name = true := by
  simpa [isDots] using And.intro hc.2.2.1 hc.2.2.2.1

/-- The names of the entries other than `.` and `..`. -/
def entryNames (entries : List Dirent) : List Str :=
  (entries.filter fun ptr => !isDots ptr.d_name).map Dirent.d_name

theorem entryNames_dots {ptr : Dirent} (hdots : isDots ptr.d_name = true) (rest : List Dirent) :
    entryNames (ptr :: rest) = entryNames rest := by
  simp [entryNames, hdots]

theorem entryNames_cons {ptr : Dirent} (hdots : ¬ isDots ptr.d_name = true) (rest : List Dirent) :
    entryNames (ptr :: rest) = ptr.d_name :: entryNames rest := by
  simp [entryNames, hdots]

theorem mem_entryNames {ptr : Dirent} {entries : List Dirent} (hptr : ptr ∈ entries)
    (hc : IsFileName ptr.d_name) : ptr.d_name ∈ entryNames entries := by
  refine List.mem_map_of_mem (List.mem_filter.2 ⟨hptr, ?_⟩)
  simpa using not_isDots hc

/-- Nothing is refused, and `readdir` reports every entry once, with its type or, at the positions
`unknown`, with `DT_UNKNOWN`. -/
structure Env.Reports (env : Env) (unknown : List FileName → Bool) : Prop where
  refuse : ∀ n, env.refuse n = none
  broken : ∀ n, env.broken n = none
  nodup : ∀ n pos entries, (entryNames (env.readdir n pos entries)).Nodup
  all : ∀ n pos entries, ∀ c : FileName, (Node.dir entries).child c ≠ none →
    ∃ ptr ∈ env.readdir n pos entries, ptr.d_name = c.1
  types : ∀ n pos entries, ∀ ptr ∈ env.readdir n pos entries, ∀ hc : IsFileName ptr.d_name,
    ∃ node, (Node.dir entries).child ⟨ptr.d_name, hc⟩ = some node ∧
      ptr.d_type =
        if unknown (pos ++ [⟨ptr.d_name, hc⟩]) then .DT_UNKNOWN else typeOf node.kind

/-- All types are reported. -/
def Env.Smooth (env : Env) : Prop :=
  env.Reports fun _ => false

theorem Env.Reports.dirOnly {env : Env} {unknown : List FileName → Bool}
    (h : env.Reports unknown) : env.DirOnly := by
  intro n pos entries ptr hptr htype hc
  obtain ⟨node, hnode, hptype⟩ := h.types n pos entries ptr hptr hc
  rw [htype] at hptype
  cases node with
  | dir sub => exact ⟨sub, hnode⟩
  | file => split at hptype <;> cases hptype
  | link target => split at hptype <;> cases hptype

/-- A system that does what it is asked for. -/
def Env.honest (unknown : List FileName → Bool) : Env where
  refuse _ := none
  readdir _ pos entries :=
    (entries.map Prod.fst).dedup.map fun c =>
      { d_name := c.1
        d_type :=
          if unknown (pos ++ [c]) then .DT_UNKNOWN
          else (entries.lookup c).elim .DT_UNKNOWN fun node => typeOf node.kind
        name_ok := Or.inr c.2 }
  broken _ := none

theorem Env.honest_reports (unknown : List FileName → Bool) :
    (Env.honest unknown).Reports unknown where
  refuse _ := rfl
  broken _ := rfl
  nodup n pos entries := by
    refine List.Nodup.sublist (List.Sublist.map _ List.filter_sublist) ?_
    rw [Env.honest, List.map_map]
    exact (List.nodup_dedup _).map Subtype.val_injective
  all n pos entries c hc := by
    cases hlookup : entries.lookup c with
    | none => exact absurd hlookup hc
    | some node =>
        obtain ⟨before, after, rfl, -⟩ := List.lookup_eq_some_iff.1 hlookup
        have hmem : c ∈ ((before ++ (c, node) :: after).map Prod.fst).dedup :=
          List.mem_dedup.2 (by simp)
        exact ⟨_, List.mem_map_of_mem hmem, rfl⟩
  types n pos entries ptr hptr hc := by
    obtain ⟨c, hmem, rfl⟩ := List.mem_map.1 hptr
    obtain ⟨e, he, rfl⟩ := List.mem_map.1 (List.mem_dedup.1 hmem)
    have hsome : (entries.lookup e.1).isSome := List.lookup_isSome_iff.2 ⟨e, he, by simp⟩
    obtain ⟨node, hnode⟩ := Option.isSome_iff_exists.1 hsome
    refine ⟨node, hnode, ?_⟩
    rw [hnode]
    rfl

/-! ## Paths of directories -/

/-- The path leads to the directory at `pos`, whatever has been removed from within. -/
structure Reaches (T : Node) (path : Str) (pos : List FileName) : Prop where
  noNul : cStr path = path
  ne_nil : path ≠ []
  walk : ∀ T', Inside pos T T' → T'.walk kernelMaxSymlinks [] (words path) = .ok pos
  dir : T.kindAt pos = some .dir

/-- The path names the directory at `parent ++ [c]`, whatever has been removed from within. -/
structure Leads (T : Node) (path : Str) (parent : List FileName) (c : FileName) : Prop where
  noNul : cStr path = path
  last : (words path).getLast? = some c.1
  walk : ∀ T', Inside (parent ++ [c]) T T' →
    T'.walk kernelMaxSymlinks [] (words path).dropLast = .ok parent
  dir : T.kindAt (parent ++ [c]) = some .dir

namespace Reaches

variable {T T' : Node} {path : Str} {pos : List FileName}

theorem inside (h : Reaches T path pos) (hin : Inside pos T T') : Reaches T' path pos where
  noNul := h.noNul
  ne_nil := h.ne_nil
  walk T'' hin' := h.walk T'' (hin.trans hin')
  dir := hin.kindAt.trans h.dir

theorem walk_words (h : Reaches T path pos) :
    T.walk kernelMaxSymlinks [] (words path) = .ok pos :=
  h.walk T (Inside.refl T)

/-- The path of an entry leads to the directory, up to its last component. -/
theorem walk_front (h : Reaches T path pos) {name : Str} (hc : IsFileName name) :
    words (appendPath path name) = (words (appendPath path name)).dropLast ++ [name] ∧
      T.walk kernelMaxSymlinks [] (words (appendPath path name)).dropLast = .ok pos := by
  have hwords := words_appendPath path hc
  have hfront : (words (appendPath path name)).dropLast = words path := by
    rw [hwords, List.dropLast_concat]
  rw [hfront]
  exact ⟨hwords, h.walk_words⟩

theorem walk_splitPath (h : Reaches T path pos) :
    T.walk kernelMaxSymlinks [] (splitPath path) = .ok pos := by
  rw [splitPath]
  split
  · refine Node.walk_concat h.walk_words ?_
    have henter : T.enter pos [period] = .ok pos := by
      rw [Node.enter_of_dir h.dir, if_pos rfl]
    rcases Node.kindAt_dir.1 h.dir with ⟨entries, hentries⟩
    exact Node.walkWith_cons henter (Node.settled_of_dir hentries)
  · rw [List.append_nil]
    exact h.walk_words

/-- The path of a subdirectory names it. -/
theorem entry (h : Reaches T path pos) {d : FileName} (hdir : T.kindAt (pos ++ [d]) = some .dir) :
    Leads T (appendPath path d.1) pos d where
  noNul := cStr_appendPath h.noNul
  last := by rw [words_appendPath path d.2, List.getLast?_concat]
  walk T' hin := by
    have hin' : Inside pos T T' := Inside.of_entry hin.le fun q hq => (hin.only q hq).1
    rw [words_appendPath path d.2, List.dropLast_concat]
    exact h.walk T' hin'
  dir := hdir

/-- A path without links and dots reaches its directory. -/
theorem of_names (hnul : cStr path = path) (hne : path ≠ [])
    (hwords : words path = pos.map Subtype.val) (hdir : T.kindAt pos = some .dir) :
    Reaches T path pos where
  noNul := hnul
  ne_nil := hne
  walk T' hin := by
    have hdir' : T'.kindAt pos = some .dir := hin.kindAt.trans hdir
    rcases Node.kindAt_dir.1 hdir' with ⟨entries, hentries⟩
    have hroot : T'.get? [] = some T' := rfl
    rw [hwords]
    exact Node.walk_of_walk_zero (Node.walk_zero_names hroot (Node.settled_of_dir hentries))
  dir := hdir

end Reaches

namespace Leads

variable {T T' : Node} {path : Str} {parent : List FileName} {c : FileName}

theorem inside (h : Leads T path parent c) (hin : Inside (parent ++ [c]) T T') :
    Leads T' path parent c where
  noNul := h.noNul
  last := h.last
  walk T'' hin' := h.walk T'' (hin.trans hin')
  dir := hin.kindAt.trans h.dir

theorem words_eq (h : Leads T path parent c) : words path = (words path).dropLast ++ [c.1] := by
  rcases List.eq_nil_or_concat (words path) with hnil | ⟨front, d, hconcat⟩
  · have hlast := h.last
    rw [hnil] at hlast
    cases hlast
  · have hlast := h.last
    rw [List.concat_eq_append] at hconcat
    rw [hconcat, List.getLast?_concat] at hlast
    rw [hconcat, List.dropLast_concat, Option.some.inj hlast]

theorem reaches (h : Leads T path parent c) : Reaches T path (parent ++ [c]) where
  noNul := h.noNul
  ne_nil := by
    rintro rfl
    cases h.last
  walk T' hin := by
    rw [h.words_eq]
    exact Node.walk_concat (h.walk T' hin) (walk_child (hin.kindAt.trans h.dir))
  dir := h.dir

/-- A path without links and dots names its directory. -/
theorem of_names (hnul : cStr path = path)
    (hwords : words path = (parent ++ [c]).map Subtype.val)
    (hdir : T.kindAt (parent ++ [c]) = some .dir) : Leads T path parent c where
  noNul := hnul
  last := by rw [hwords, List.map_append, List.map_cons, List.map_nil, List.getLast?_concat]
  walk T' hin := by
    have hdir' : T'.kindAt (parent ++ [c]) = some .dir := hin.kindAt.trans hdir
    rcases Node.kindAt_dir.1 hdir' with ⟨entries, hentries⟩
    have hsettled := (Node.settled_of_dir hentries).dropLast
    rw [List.dropLast_concat] at hsettled
    rw [hwords, List.map_append, List.map_cons, List.map_nil, List.dropLast_concat]
    have hroot : T'.get? [] = some T' := rfl
    exact Node.walk_of_walk_zero (Node.walk_zero_names hroot hsettled)
  dir := hdir

end Leads

end Files
end Kdump

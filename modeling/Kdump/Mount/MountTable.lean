import Kdump.Lib.Greatest
import Kdump.Path.FilePath

/-!
# MountTable — the file system of a path

`find_mount` goes through the mount table and keeps the entry with the longest target.

* `find_mount` — the loop;
* `Holds` — the path is the target, or lies below it;
* `find_mount_eq` — the loop compares strings, not paths;
* `find_mount_iff` — when the file system that is found holds the path.
-/

namespace Kdump
namespace Mount

open Lib Kdump.Path

/-! ## The loop -/

/-- An entry of the table, and what `libmount` tells about it. -/
structure MntFS where
  target : Str
  isPseudoFS : Bool
  isSwapArea : Bool
  deriving DecidableEq, Repr

namespace MntFS

/-- `MountPoint::canonicalTarget`. -/
def canonicalTarget (sys : Sys) (fs : MntFS) : Except Thrown Str :=
  getCanonicalPath sys fs.target []

/-- The entry is not skipped. -/
def counts (fs : MntFS) : Bool :=
  !fs.isPseudoFS && !fs.isSwapArea

end MntFS

/-- The local variables of the loop, once `cpath` has been set. -/
structure Search where
  best : Option MntFS
  bestlen : Nat

/-- `cpath.compare(0, ctarget.length(), ctarget) == 0`. -/
def startsWith (cpath ctarget : Str) : Bool :=
  cpath.take ctarget.length == ctarget

/-- The body of the loop. -/
def visit (sys : Sys) (cpath : Str) (s : Search) (it : MntFS) : Except Thrown Search :=
  if it.isPseudoFS || it.isSwapArea then
    .ok s
  else do
    let ctarget ← it.canonicalTarget sys
    if s.bestlen ≤ ctarget.length && startsWith cpath ctarget then
      .ok ⟨some it, ctarget.length⟩
    else
      .ok s

/-- `MountTable::find_mount`.  Without an entry, the iterator is false. -/
def find_mount (sys : Sys) (m_tb : List MntFS) (path : Str) : Except Thrown (Option MntFS) := do
  let cpath ← getCanonicalPath sys path []
  let s ← m_tb.foldlM (visit sys cpath) ⟨none, 0⟩
  .ok s.best

/-! ## The file system that holds a path -/

/-- An absolute path that `getCanonicalPath` leaves as it is. -/
structure Canonical (sys : Sys) (path : Str) : Prop where
  absolute : path.head? = some slash
  fixed : getCanonicalPath sys path [] = .ok path

/-- The path is in the tree below the target. -/
def Holds (target path : Str) : Prop :=
  path = target ∨ target = [slash] ∨ target ++ [slash] <+: path

instance (target path : Str) : Decidable (Holds target path) :=
  inferInstanceAs (Decidable (_ ∨ _ ∨ _))

theorem startsWith_iff {cpath ctarget : Str} :
    startsWith cpath ctarget = true ↔ ctarget <+: cpath := by
  rw [startsWith, beq_iff_eq, List.prefix_iff_eq_take]
  exact eq_comm

theorem Holds.starts {target path : Str} (h : Holds target path)
    (habsolute : path.head? = some slash) : target <+: path := by
  rcases h with rfl | rfl | hbelow
  · exact List.prefix_refl _
  · obtain ⟨rest, rfl⟩ := List.head?_eq_some_iff.1 habsolute
    exact ⟨rest, rfl⟩
  · exact (List.prefix_append _ _).trans hbelow

/-- The last entry among those with the longest target that holds the path. -/
def IsMountOf (m_tb : List MntFS) (path : Str) : Option MntFS → Prop
  | some fs => IsLastGreatest (fun fs => fs.target.length)
      (fun fs => fs.counts && decide (Holds fs.target path)) m_tb fs
  | none => ∀ fs ∈ m_tb, (fs.counts && decide (Holds fs.target path)) = false

theorem IsMountOf.last {m_tb : List MntFS} {path : Str} {fs : MntFS}
    (h : IsMountOf m_tb path (some fs)) :
    IsLastGreatest (fun fs => fs.target.length)
      (fun fs => fs.counts && decide (Holds fs.target path)) m_tb fs :=
  h

/-! ## What is found -/

section

variable {sys : Sys} {m_tb : List MntFS} {path : Str}

/-- The loop takes any target that the path starts with as a string. -/
def candidate (path : Str) (fs : MntFS) : Bool :=
  fs.counts && startsWith path fs.target

/-- The length that is kept belongs to the entry that is kept. -/
def Search.Consistent (s : Search) : Prop :=
  s.bestlen = s.best.elim 0 fun fs => fs.target.length

theorem visit_eq {s : Search} {it : MntFS} (hlen : s.Consistent)
    (hit : it.counts = true → it.canonicalTarget sys = .ok it.target) :
    visit sys path s it =
      .ok (if better (fun fs => fs.target.length) (candidate path) s.best it then
        ⟨some it, it.target.length⟩ else s) := by
  have hskip : (it.isPseudoFS || it.isSwapArea) = !it.counts := by
    rw [MntFS.counts, Bool.not_and, Bool.not_not, Bool.not_not]
  have hlonger : (s.best.all fun fs => decide (fs.target.length ≤ it.target.length)) =
      decide (s.bestlen ≤ it.target.length) := by
    rw [hlen]
    cases s.best with
    | none => simp
    | some best => rfl
  rw [visit, hskip, better, candidate]
  cases hcounts : it.counts with
  | false => rfl
  | true =>
      rw [hit hcounts, hlonger, Bool.true_and, Bool.and_comm, Bool.not_true,
        if_neg Bool.false_ne_true]
      exact (apply_ite Except.ok _ _ _).symm

theorem foldlM_visit (htargets : ∀ fs ∈ m_tb, fs.counts = true →
    fs.canonicalTarget sys = .ok fs.target) {s : Search} (hlen : s.Consistent) :
    ∃ s', m_tb.foldlM (visit sys path) s = .ok s' ∧ s'.best = m_tb.foldl (fun best fs =>
      if better (fun fs => fs.target.length) (candidate path) best fs then some fs else best)
        s.best := by
  induction m_tb generalizing s with
  | nil => exact ⟨s, rfl, rfl⟩
  | cons fs m_tb ih =>
      rw [List.forall_mem_cons] at htargets
      rw [List.foldlM_cons, visit_eq hlen htargets.1, List.foldl_cons]
      by_cases hbetter : better (fun fs => fs.target.length) (candidate path) s.best fs
      · rw [if_pos hbetter, if_pos hbetter]
        exact ih htargets.2 rfl
      · rw [if_neg hbetter, if_neg hbetter]
        exact ih htargets.2 hlen

theorem find_mount_eq (hpath : getCanonicalPath sys path [] = .ok path)
    (htargets : ∀ fs ∈ m_tb, fs.counts = true → fs.canonicalTarget sys = .ok fs.target) :
    find_mount sys m_tb path =
      .ok (lastGreatest (fun fs => fs.target.length) (candidate path) m_tb) := by
  obtain ⟨s, hfold, hbest⟩ := @foldlM_visit sys m_tb path htargets ⟨none, 0⟩ rfl
  rw [find_mount, hpath]
  change (m_tb.foldlM (visit sys path) ⟨none, 0⟩ >>= fun s => .ok s.best) = _
  rw [hfold]
  exact congrArg Except.ok hbest

/-- An entry whose target holds the path is a candidate. -/
theorem candidate_of_holds (habsolute : path.head? = some slash) {fs : MntFS}
    (h : (fs.counts && decide (Holds fs.target path)) = true) : candidate path fs = true := by
  rw [Bool.and_eq_true, decide_eq_true_eq] at h
  rw [candidate, Bool.and_eq_true]
  exact ⟨h.1, startsWith_iff.2 (h.2.starts habsolute)⟩

/-- Targets of the same length that the path starts with are the same. -/
theorem eq_of_startsWith {t t' : Str} (h : t <+: path) (h' : t' <+: path)
    (hlen : t.length = t'.length) : t = t' :=
  (List.prefix_of_prefix_length_le h h' hlen.le).eq_of_length hlen

/-- The entry that is found holds the path exactly if each target that ends inside of a component of
the path is shorter than some target that holds it. -/
theorem find_mount_iff (hpath : Canonical sys path)
    (htargets : ∀ fs ∈ m_tb, fs.counts = true → Canonical sys fs.target) :
    (∃ r, find_mount sys m_tb path = .ok r ∧ IsMountOf m_tb path r) ↔
      ∀ fs ∈ m_tb, fs.counts = true → fs.target <+: path → ¬ Holds fs.target path →
        ∃ fs' ∈ m_tb, fs'.counts = true ∧ Holds fs'.target path ∧
          fs.target.length < fs'.target.length := by
  have hfind := find_mount_eq hpath.fixed fun fs hfs hcounts => (htargets fs hfs hcounts).fixed
  have hspec := lastGreatest_spec (fun fs : MntFS => fs.target.length) (candidate path) m_tb
  have hsub : ∀ fs ∈ m_tb, (fs.counts && decide (Holds fs.target path)) = true →
      candidate path fs = true := fun fs _ h => candidate_of_holds hpath.absolute h
  constructor
  · rintro ⟨r, hr, hmount⟩ fs hfs hcounts hprefix hnot
    rw [hfind, Except.ok.injEq] at hr
    have hcandidate : candidate path fs = true := by
      rw [candidate, hcounts, Bool.true_and]
      exact startsWith_iff.2 hprefix
    cases r with
    | none =>
        rw [hr] at hspec
        rw [hspec fs hfs] at hcandidate
        cases hcandidate
    | some best =>
        rw [hr] at hspec
        have hbest := hmount.last.mem
        rw [Bool.and_eq_true, decide_eq_true_eq] at hbest
        -- the entry found is the longest candidate; one of the same length would be the same path
        refine ⟨best, hbest.1, hbest.2.1, hbest.2.2, ?_⟩
        refine lt_of_le_of_ne (IsLastGreatest.le hspec hfs hcandidate) ?_
        intro hlen
        exact hnot (eq_of_startsWith hprefix (hbest.2.2.starts hpath.absolute) hlen ▸ hbest.2.2)
  · intro h
    refine ⟨_, hfind, ?_⟩
    cases hbest : lastGreatest (fun fs : MntFS => fs.target.length) (candidate path) m_tb with
    | none =>
        rw [hbest] at hspec
        intro fs hfs
        rw [Bool.eq_false_iff]
        intro hholds
        have hcandidate := hsub fs hfs hholds
        rw [hspec fs hfs] at hcandidate
        cases hcandidate
    | some best =>
        rw [hbest] at hspec
        have hmem := IsLastGreatest.mem hspec
        rw [candidate, Bool.and_eq_true, startsWith_iff] at hmem
        -- the candidate found holds the path, or else the condition names a longer one that does
        apply IsLastGreatest.mono hspec hsub
        rw [hmem.2.1, Bool.true_and, decide_eq_true_eq]
        by_contra hnot
        obtain ⟨fs', hfs', hcounts', hholds', hlt⟩ := h best hmem.1 hmem.2.1 hmem.2.2 hnot
        have hle := IsLastGreatest.le hspec hfs' (hsub fs' hfs' (by simp [hcounts', hholds']))
        omega

end

/-- A system of directories. -/
private def directories : Sys where
  lstat _ _ := .ok .dir
  readlink _ _ := .error ENOENT
  getcwd := .error ENOENT

private def mountedAt (target : Str) : MntFS :=
  ⟨target, false, false⟩

private def varTable : List MntFS :=
  [mountedAt (str "/"), mountedAt (str "/var")]

private theorem canonical_varTable :
    ∀ fs ∈ varTable, fs.counts = true → Canonical directories fs.target := by
  intro fs hfs _
  have htarget : fs.target ∈ [str "/", str "/var"] := List.mem_map_of_mem hfs
  rcases List.mem_pair.1 htarget with h | h
  · rw [h]
    exact ⟨by decide, by decide⟩
  · rw [h]
    exact ⟨by decide, by decide⟩

theorem find_mount_iff_var :
    (∃ r, find_mount directories varTable (str "/var/crash") = .ok r ∧
        IsMountOf varTable (str "/var/crash") r) ↔
      ∀ fs ∈ varTable, fs.counts = true → fs.target <+: str "/var/crash" →
        ¬ Holds fs.target (str "/var/crash") →
          ∃ fs' ∈ varTable, fs'.counts = true ∧ Holds fs'.target (str "/var/crash") ∧
            fs.target.length < fs'.target.length :=
  find_mount_iff ⟨by decide, by decide⟩ canonical_varTable

/-- The file system at `/var` is found for a directory next to it. -/
theorem sibling_found : ¬ ∀ (sys : Sys) (m_tb : List MntFS) (path : Str), Canonical sys path →
    (∀ fs ∈ m_tb, fs.counts = true → Canonical sys fs.target) →
      ∃ r, find_mount sys m_tb path = .ok r ∧ IsMountOf m_tb path r := by
  intro h
  obtain ⟨r, hr, hmount⟩ := h directories varTable (str "/variable")
    ⟨by decide, by decide⟩ canonical_varTable
  have hfound : find_mount directories varTable (str "/variable") =
      .ok (some (mountedAt (str "/var"))) := by decide
  rw [hfound, Except.ok.injEq] at hr
  subst hr
  exact absurd hmount.last.mem.2 (by decide)

end Mount
end Kdump

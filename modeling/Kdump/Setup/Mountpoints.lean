import Kdump.Lib.Greatest
import Kdump.Mount.MountTable
import Kdump.Setup.UpdateMount

/-!
# Mountpoints — `kdump_get_mountpoints` of the setup scripts

For each dump target the function looks for the line of the mount table with the longest mount point
that the path of the target begins with, and has the crash kernel mount that file system.

* `readLine` — the fields of a line;
* `mountTest` — the test in the inner loop, which takes the mount point for a pattern;
* `chooseMounts`, `mapTargets`, `kdump_get_mountpoints` — the loops, and the function;
* `mountOf_chooseMounts` — what the loops choose for one target;
* `kdump_get_mountpoints_correct_iff` — when it is the right line for every target.
-/

namespace Kdump
namespace Setup

open Lib
open Mount (Holds)

/-! ## The mount table -/

/-- The fields of a line that the function uses. -/
structure MountLine where
  device : Str
  mountpoint : Str
  filesystem : Str
  opts : Str
  deriving DecidableEq, Repr

/-- A byte of `IFS`. -/
def isIFS (c : UInt8) : Bool :=
  c = space || c = 9 || c = newline

/-- The next field and what is behind it; a backslash stands for the byte behind it. -/
def readField : Str → Str × Str
  | [] => ([], [])
  | [c] => if isIFS c = true ∨ c = bslash then ([], []) else ([c], [])
  | c :: d :: rest =>
      if isIFS c = true then ([], d :: rest)
      else if c = bslash then
        let (field, rest) := readField rest
        (d :: field, rest)
      else
        let (field, rest) := readField (d :: rest)
        (c :: field, rest)

/-- `read device mountpoint filesystem opts dummy` -/
def readLine (line : Str) : MountLine :=
  let (device, line) := readField (line.dropWhile isIFS)
  let (mountpoint, line) := readField (line.dropWhile isIFS)
  let (filesystem, line) := readField (line.dropWhile isIFS)
  let (opts, _) := readField (line.dropWhile isIFS)
  { device := device, mountpoint := mountpoint, filesystem := filesystem, opts := opts }

/-! ## The function -/

/-- `${a[i]}` in quotes. -/
def elem (a : IndexedArray Str) (i : Nat) : Str :=
  (a.get? i).getD []

/-- What `kdump_get_targets` leaves in the arrays. -/
structure Targets where
  kdump_max : Nat
  kdump_Protocol : IndexedArray Str
  kdump_Realpath : IndexedArray Str

/-- `curmp`, `mntdev`, `mntfstype` and `mntopts`. -/
structure Chosen where
  curmp : IndexedArray Str
  mntdev : IndexedArray Str
  mntfstype : IndexedArray Str
  mntopts : IndexedArray Str

def Chosen.empty : Chosen :=
  ⟨.empty, .empty, .empty, .empty⟩

def isFileProtocol (protocol : Str) : Bool :=
  protocol = str "file" || protocol = str "srcfile"

/-- The path of the target begins with something that the mount point matches.  If `!` or `(` is
left of it, `[` takes that for an operator and fails. -/
def matchesMount (realpath mountpoint : Str) : Bool :=
  let rest := Glob.removePrefix mountpoint realpath
  rest ≠ realpath && rest ≠ str "!" && rest ≠ str "("

/-- The test in the inner loop. -/
def mountTest (protocol realpath mountpoint curmp : Str) : Bool :=
  isFileProtocol protocol && matchesMount realpath mountpoint &&
    decide (curmp.length ≤ mountpoint.length)

/-- One pass of the inner loop. -/
def tryTarget (targets : Targets) (line : MountLine) (s : Chosen) (i : Nat) : Chosen :=
  if mountTest (elem targets.kdump_Protocol i) (elem targets.kdump_Realpath i) line.mountpoint
      (elem s.curmp i) = true then
    { curmp := s.curmp.set i line.mountpoint
      mntdev := s.mntdev.set i line.device
      mntfstype := s.mntfstype.set i line.filesystem
      mntopts := s.mntopts.set i line.opts }
  else s

/-- The inner loop. -/
def tryTargets (targets : Targets) (s : Chosen) (line : MountLine) : Chosen :=
  (List.range (targets.kdump_max + 1)).foldl (tryTarget targets line) s

/-- The loop over the mount table. -/
def chooseMounts (targets : Targets) (lines : List Str) : Chosen :=
  (lines.map readLine).foldl (tryTargets targets) Chosen.empty

/-- One pass of the loop over the targets. -/
def mapTarget (root : Str) (chosen : Chosen) (s : Mounts × IndexedArray Str) (i : Nat) :
    Mounts × IndexedArray Str :=
  let mountpoint := elem chosen.curmp i
  if mountpoint ≠ [] then
    let (kdump_mountidx, mounts) := kdump_update_mount root
      ⟨elem chosen.mntdev i, mountpoint, elem chosen.mntfstype i, elem chosen.mntopts i⟩ s.1
    (mounts, s.2.set i (str "/mnt" ++ decimal kdump_mountidx ++ elem s.2 i))
  else s

/-- The loop over the targets. -/
def mapTargets (root : Str) (targets : Targets) (chosen : Chosen) : Mounts × IndexedArray Str :=
  (List.range (targets.kdump_max + 1)).foldl (mapTarget root chosen)
    (Mounts.empty, targets.kdump_Realpath)

/-- `kdump_get_mountpoints`, with what has been chosen.  There is no result if `kdump_get_targets`
fails; `lines` is what `kdump_read_mounts` writes. -/
def kdump_get_mountpoints (root : Str) (targets : Option Targets) (lines : List Str) :
    Option (Chosen × Mounts × IndexedArray Str) :=
  targets.map fun targets =>
    let chosen := chooseMounts targets lines
    (chosen, mapTargets root targets chosen)

/-! ## What is chosen -/

/-- The line that has been chosen for a target. -/
def mountOf (s : Chosen) (i : Nat) : Option MountLine := do
  let mountpoint ← s.curmp.get? i
  let device ← s.mntdev.get? i
  let filesystem ← s.mntfstype.get? i
  let opts ← s.mntopts.get? i
  return ⟨device, mountpoint, filesystem, opts⟩

/-- The arrays agree on the targets that have a line. -/
structure Agrees (s : Chosen) (i : Nat) (m : Option MountLine) : Prop where
  curmp : s.curmp.get? i = m.map (·.mountpoint)
  mntdev : s.mntdev.get? i = m.map (·.device)
  mntfstype : s.mntfstype.get? i = m.map (·.filesystem)
  mntopts : s.mntopts.get? i = m.map (·.opts)

theorem Agrees.mountOf_eq {s : Chosen} {i : Nat} {m : Option MountLine} (h : Agrees s i m) :
    mountOf s i = m := by
  unfold mountOf
  rw [h.curmp, h.mntdev, h.mntfstype, h.mntopts]
  cases m <;> rfl

variable {s : Chosen} {i : Nat}

/-- A pass for another target does not matter. -/
theorem Agrees.tryTarget_of_ne (targets : Targets) (line : MountLine) {m : Option MountLine}
    (h : Agrees s i m) {j : Nat} (hj : i ≠ j) :
    Agrees (tryTarget targets line s j) i m := by
  unfold tryTarget
  split
  · exact ⟨(IndexedArray.get?_set_of_ne _ hj _).trans h.curmp,
      (IndexedArray.get?_set_of_ne _ hj _).trans h.mntdev,
      (IndexedArray.get?_set_of_ne _ hj _).trans h.mntfstype,
      (IndexedArray.get?_set_of_ne _ hj _).trans h.mntopts⟩
  · exact h

/-- The line is taken if it passes the test. -/
def improved (targets : Targets) (line : MountLine) (i : Nat) (m : Option MountLine) :
    Option MountLine :=
  if mountTest (elem targets.kdump_Protocol i) (elem targets.kdump_Realpath i) line.mountpoint
      ((m.map (·.mountpoint)).getD []) = true then some line
  else m

theorem Agrees.tryTarget_self (targets : Targets) (line : MountLine) {m : Option MountLine}
    (h : Agrees s i m) :
    Agrees (tryTarget targets line s i) i (improved targets line i m) := by
  unfold tryTarget improved elem
  rw [h.curmp]
  split
  · exact ⟨IndexedArray.get?_set_self _ _ _, IndexedArray.get?_set_self _ _ _,
      IndexedArray.get?_set_self _ _ _, IndexedArray.get?_set_self _ _ _⟩
  · exact h

/-- The inner loop comes to each target once. -/
theorem Agrees.foldl_tryTarget (targets : Targets) (line : MountLine) {m : Option MountLine}
    {is : List Nat} (hnodup : is.Nodup) (h : Agrees s i m) :
    Agrees (is.foldl (tryTarget targets line) s) i
      (if i ∈ is then improved targets line i m else m) := by
  induction is generalizing s m with
  | nil => exact h
  | cons j is ih =>
      obtain ⟨hj, hnodup'⟩ := List.nodup_cons.1 hnodup
      rw [List.foldl_cons]
      by_cases hij : i = j
      · subst hij
        have hrest := ih hnodup' (h.tryTarget_self targets line)
        rw [if_neg hj] at hrest
        rw [if_pos List.mem_cons_self]
        exact hrest
      · have hrest := ih hnodup' (h.tryTarget_of_ne targets line hij)
        have hmem : i ∈ j :: is ↔ i ∈ is := by simp [hij]
        rwa [if_congr hmem rfl rfl]

/-- The target is one that a file system is looked for. -/
def IsFileTarget (targets : Targets) (i : Nat) : Prop :=
  i ≤ targets.kdump_max ∧ isFileProtocol (elem targets.kdump_Protocol i) = true

/-- The last one of the longest mount points that match. -/
theorem agrees_tryTargets {targets : Targets} (hi : IsFileTarget targets i)
    (table : List MountLine) :
    Agrees (table.foldl (tryTargets targets) Chosen.empty) i
      (lastGreatest (fun l => l.mountpoint.length)
        (fun l => matchesMount (elem targets.kdump_Realpath i) l.mountpoint) table) := by
  induction table using List.reverseRecOn with
  | nil => exact ⟨rfl, rfl, rfl, rfl⟩
  | append_singleton table line ih =>
      have hmem : i ∈ List.range (targets.kdump_max + 1) :=
        List.mem_range.2 (Nat.lt_succ_of_le hi.1)
      have hnodup : (List.range (targets.kdump_max + 1)).Nodup := List.nodup_range
      have hpass := ih.foldl_tryTarget targets line hnodup
      rw [if_pos hmem] at hpass
      rw [List.foldl_concat, lastGreatest_concat]
      refine Eq.mp (congrArg (Agrees _ i) ?_) hpass
      -- an unset element has length 0
      unfold improved mountTest better
      rw [hi.2, Bool.true_and]
      cases lastGreatest _ _ table <;> rfl

theorem mountOf_chooseMounts {targets : Targets} (hi : IsFileTarget targets i)
    (lines : List Str) :
    mountOf (chooseMounts targets lines) i =
      lastGreatest (fun l => l.mountpoint.length)
        (fun l => matchesMount (elem targets.kdump_Realpath i) l.mountpoint)
        (lines.map readLine) :=
  (agrees_tryTargets hi _).mountOf_eq

/-- A mount point without pattern characters matches what begins with it, also inside of a
component. -/
theorem matchesMount_plain {realpath mountpoint : Str} (h : Glob.IsPlain mountpoint) :
    matchesMount realpath mountpoint = true ↔
      mountpoint ≠ [] ∧
        ∃ rest, realpath = mountpoint ++ rest ∧ rest ≠ str "!" ∧ rest ≠ str "(" := by
  unfold matchesMount
  constructor
  · intro hmatches
    by_cases hprefix : mountpoint <+: realpath
    · obtain ⟨rest, rfl⟩ := hprefix
      rw [Glob.removePrefix_plain_append h] at hmatches
      simp only [ne_eq, Bool.and_eq_true, decide_eq_true_eq] at hmatches
      refine ⟨?_, rest, rfl, hmatches.1.2, hmatches.2⟩
      rintro rfl
      exact hmatches.1.1 rfl
    · rw [Glob.removePrefix_plain_of_not h hprefix] at hmatches
      simp at hmatches
  · rintro ⟨hne, rest, rfl, hbang, hparen⟩
    rw [Glob.removePrefix_plain_append h]
    simp [hne, hbang, hparen]

/-! ## The crash kernel -/

/-- The file system that is chosen for a target. -/
def mountCall (chosen : Chosen) (i : Nat) : MountCall :=
  ⟨elem chosen.mntdev i, elem chosen.curmp i, elem chosen.mntfstype i, elem chosen.mntopts i⟩

/-- The loop over the targets calls `kdump_update_mount` for the file systems that are chosen. -/
theorem mapTargets_fst (root : Str) (targets : Targets) (chosen : Chosen) :
    (mapTargets root targets chosen).1 =
      updateMounts root (((List.range (targets.kdump_max + 1)).filter
        (fun i => elem chosen.curmp i ≠ [])).map (mountCall chosen)) := by
  unfold mapTargets
  induction List.range (targets.kdump_max + 1) using List.reverseRecOn with
  | nil => rfl
  | append_singleton is i ih =>
      rw [List.foldl_concat, List.filter_append, List.map_append]
      by_cases h : elem chosen.curmp i = []
      · rw [List.filter_cons_of_neg (by simpa using h), List.filter_nil, List.map_nil,
          List.append_nil, ← ih, mapTarget, if_neg (not_not_intro h)]
      · rw [List.filter_cons_of_pos (by simpa using h), List.filter_nil, List.map_singleton,
          updateMounts_concat, ← ih, mapTarget, if_pos h]
        rfl

/-! ## The right line -/

/-- Each target has the last one of the lines with the longest mount point that holds its path, and
no line if there is none. -/
def MountsRight (targets : Targets) (lines : List Str) (chosen : Chosen) : Prop :=
  ∀ i, IsFileTarget targets i →
    IsRight (fun l => l.mountpoint.length)
      (fun l => decide (Holds l.mountpoint (elem targets.kdump_Realpath i)))
      (lines.map readLine) (mountOf chosen i)

/-- The right line for a path matches; and a line that matches although its mount point does not
hold the path is shorter than a line that does, or as long and in front of it. -/
structure TableSound (table : List MountLine) (realpath : Str) : Prop where
  right : ∀ line, IsLastGreatest (fun l => l.mountpoint.length)
    (fun l => decide (Holds l.mountpoint realpath)) table line →
      matchesMount realpath line.mountpoint = true
  outdone : ∀ before line behind, table = before ++ line :: behind →
    matchesMount realpath line.mountpoint = true → ¬ Holds line.mountpoint realpath →
      Outdone (fun l => l.mountpoint.length) (fun l => decide (Holds l.mountpoint realpath))
        table behind line

/-- Every target gets the right line if and only if the table is sound for the path of each of
them. -/
theorem kdump_get_mountpoints_correct_iff (root : Str) (targets : Targets) (lines : List Str) :
    (∃ result, kdump_get_mountpoints root (some targets) lines = some result ∧
        MountsRight targets lines result.1) ↔
      ∀ i, IsFileTarget targets i →
        TableSound (lines.map readLine) (elem targets.kdump_Realpath i) := by
  have hright : MountsRight targets lines (chooseMounts targets lines) ↔
      ∀ i, IsFileTarget targets i →
        TableSound (lines.map readLine) (elem targets.kdump_Realpath i) := by
    refine forall_congr' fun i => forall_congr' fun hi => ?_
    rw [mountOf_chooseMounts hi, isRight_iff]
    constructor
    · rintro ⟨hmatches, hout⟩
      refine ⟨hmatches, ?_⟩
      intro before line behind htable hline hnot
      exact hout before line behind htable hline (decide_eq_false hnot)
    · rintro ⟨hmatches, hout⟩
      refine ⟨hmatches, ?_⟩
      intro before line behind htable hline hnot
      exact hout before line behind htable hline (of_decide_eq_false hnot)
  rw [← hright]
  constructor
  · rintro ⟨result, hresult, h⟩
    cases hresult
    exact h
  · intro h
    exact ⟨_, rfl, h⟩

/-- A dump directory whose name begins like that of another mount point. -/
theorem not_mountsRight_database :
    ¬ ∃ result, kdump_get_mountpoints []
          (some ⟨0, .ofList [str "file"], .ofList [str "/database"]⟩)
          [str "/dev/sda1 / ext4 rw 0 1", str "/dev/sdb1 /data ext4 rw 0 2"] = some result ∧
        MountsRight ⟨0, .ofList [str "file"], .ofList [str "/database"]⟩
          [str "/dev/sda1 / ext4 rw 0 1", str "/dev/sdb1 /data ext4 rw 0 2"] result.1 := by
  rintro ⟨result, hresult, h⟩
  cases hresult
  have hchosen : mountOf (chooseMounts ⟨0, .ofList [str "file"], .ofList [str "/database"]⟩
      [str "/dev/sda1 / ext4 rw 0 1", str "/dev/sdb1 /data ext4 rw 0 2"]) 0 =
        some ⟨str "/dev/sdb1", str "/data", str "ext4", str "rw"⟩ := by decide
  have hright := h 0 ⟨Nat.le_refl 0, by decide⟩
  rw [hchosen] at hright
  have hholds := (IsRight.mem hright).2
  exact absurd hholds (by decide)

end Setup
end Kdump

import Kdump.Lib.Scan
import Kdump.Path.Tree
import Kdump.Setup.Mountpoints

/-!
# Relocation — the dump directories as the crash kernel sees them

`kdump_get_mountpoints` puts `/mnt$i` in front of the path of each target, and the crash kernel
mounts what lies at the path below `/kdump`.  A path has a place in each of the two kernels: a
device, and a position on that device.

* `placeOf` — the place of a path by a list of mounts;
* `crashTable` — what the arrays tell the crash kernel to mount;
* `updateMounts_row`, `realpath_mapTargets` — the arrays and the paths behind both loops;
* `kdump_get_mountpoints_places` — a path leads to the same place before and after.
-/

namespace Kdump
namespace Setup

open Lib
open Mount (Holds)

/-! ## Places -/

/-- A device, and where it is mounted. -/
structure Mounted where
  device : Str
  mountpoint : Str
  deriving DecidableEq, Repr

/-- A device, and the names that lead from its root directory to a file. -/
structure Place where
  device : Str
  below : List Str
  deriving DecidableEq, Repr

/-- The deepest mount point counts, and of several mounts there the last one. -/
def placeOf (table : List Mounted) (path : Str) : Option Place :=
  (lastGreatest (fun m => m.mountpoint.length) (fun m => decide (Holds m.mountpoint path))
    table).map fun m => ⟨m.device, Path.words (path.drop m.mountpoint.length)⟩

theorem placeOf_eq {table : List Mounted} {path : Str} {m : Mounted}
    (h : IsLastGreatest (fun m => m.mountpoint.length)
      (fun m => decide (Holds m.mountpoint path)) table m) :
    placeOf table path = some ⟨m.device, Path.words (path.drop m.mountpoint.length)⟩ := by
  rw [placeOf, lastGreatest_eq_some_iff.2 h]
  rfl

theorem exists_of_placeOf {table : List Mounted} {path : Str} {place : Place}
    (h : placeOf table path = some place) :
    ∃ m, IsLastGreatest (fun m => m.mountpoint.length)
        (fun m => decide (Holds m.mountpoint path)) table m ∧
      place = ⟨m.device, Path.words (path.drop m.mountpoint.length)⟩ := by
  obtain ⟨m, hm, rfl⟩ := Option.map_eq_some_iff.1 h
  exact ⟨m, lastGreatest_eq_some_iff.1 hm, rfl⟩

/-- The mounts of the running system. -/
def runningTable (lines : List Str) : List Mounted :=
  (lines.map readLine).map fun line => ⟨line.device, line.mountpoint⟩

/-- What `kdump_update_mount` makes of a device. -/
def kdumpDevice (root device : Str) : Str :=
  if device = str "/dev/root" then rootDevice root device else device

/-- The mounts of the arrays. -/
def crashTable (s : Mounts) : List Mounted :=
  s.kdump_mnt.indices.map fun i => ⟨elem s.kdump_dev i, elem s.kdump_mnt i⟩

/-! ## The row of a mount point -/

theorem elem_set_self (a : IndexedArray Str) (i : Nat) (x : Str) : elem (a.set i x) i = x := by
  rw [elem, IndexedArray.get?_set_self]
  rfl

theorem elem_set_of_ne (a : IndexedArray Str) {i j : Nat} (h : j ≠ i) (x : Str) :
    elem (a.set i x) j = elem a j := by
  rw [elem, IndexedArray.get?_set_of_ne _ h]
  rfl

/-- The device of a mount point is the one that it has been given, if all calls agree on it. -/
theorem updateMounts_row (root : Str) {calls : List MountCall}
    (h : ∀ call ∈ calls, IsMountPoint call.mountpoint)
    (hagree : ∀ c ∈ calls, ∀ c' ∈ calls, c.mountpoint = c'.mountpoint → c = c') {call : MountCall}
    (hmem : call ∈ calls) :
    elem (updateMounts root calls).kdump_dev ((distinct calls).idxOf call.mountpoint) =
      kdumpDevice root call.device := by
  induction calls using List.reverseRecOn with
  | nil => exact absurd hmem List.not_mem_nil
  | append_singleton calls c ih =>
      have hidx : mountidx root calls c = (distinct (calls ++ [c])).idxOf c.mountpoint :=
        @mountidx_eq root calls [] c h
      have hlast := List.mem_append_right calls (List.mem_cons_self (a := c) (l := []))
      rw [updateMounts_concat]
      by_cases hsame : call.mountpoint = c.mountpoint
      · -- the call behind all others has the last word
        rw [hagree call hmem c hlast hsame, ← hidx]
        exact elem_set_self _ _ _
      · have hcall : call ∈ calls := by
          rcases List.mem_append.1 hmem with hcall | hcall
          · exact hcall
          · exact absurd (congrArg MountCall.mountpoint (List.mem_singleton.1 hcall)) hsame
        have hknown : call.mountpoint ∈ distinct calls := mem_distinct.2 ⟨call, hcall, rfl⟩
        have hstay : (distinct (calls ++ [c])).idxOf call.mountpoint =
            (distinct calls).idxOf call.mountpoint := by
          rw [distinct_concat]
          split
          · rfl
          · exact List.idxOf_append_of_mem hknown
        have hne : (distinct (calls ++ [c])).idxOf call.mountpoint ≠ mountidx root calls c := by
          rw [hidx]
          intro heq
          exact hsame ((List.idxOf_inj (mem_distinct.2 ⟨call, hmem, rfl⟩)).1 heq)
        refine (elem_set_of_ne _ hne _).trans ?_
        rw [hstay]
        exact ih (fun c hc => h c (List.mem_append_left _ hc))
          (fun c hc c' hc' => hagree c (List.mem_append_left _ hc) c' (List.mem_append_left _ hc'))
          hcall

/-! ## The paths of the targets -/

/-- The calls for some targets. -/
def callsOf (chosen : Chosen) (is : List Nat) : List MountCall :=
  (is.filter fun i => elem chosen.curmp i ≠ []).map (mountCall chosen)

theorem callsOf_append (chosen : Chosen) (is is' : List Nat) :
    callsOf chosen (is ++ is') = callsOf chosen is ++ callsOf chosen is' := by
  rw [callsOf, List.filter_append, List.map_append]
  rfl

theorem callsOf_cons {chosen : Chosen} {i : Nat} (h : elem chosen.curmp i ≠ []) (is : List Nat) :
    callsOf chosen (i :: is) = mountCall chosen i :: callsOf chosen is := by
  rw [callsOf, List.filter_cons_of_pos (by simpa using h), List.map_cons]
  rfl

section MapTarget

variable (root : Str) (chosen : Chosen)

theorem foldl_mapTarget_fst (realpath : IndexedArray Str) (is : List Nat) :
    (is.foldl (mapTarget root chosen) (Mounts.empty, realpath)).1 =
      updateMounts root (callsOf chosen is) := by
  induction is using List.reverseRecOn with
  | nil => rfl
  | append_singleton is i ih =>
      rw [List.foldl_concat, callsOf_append, mapTarget]
      by_cases h : elem chosen.curmp i = []
      · have hnone : callsOf chosen [i] = [] := by
          rw [callsOf, List.filter_cons_of_neg (by simpa using h)]
          rfl
        rw [if_neg (not_not_intro h), hnone, List.append_nil]
        exact ih
      · have hone : callsOf chosen [i] = [mountCall chosen i] := callsOf_cons h []
        rw [if_pos h, hone, updateMounts_concat, ← ih]
        rfl

theorem mapTarget_of_ne (s : Mounts × IndexedArray Str) {i j : Nat} (h : j ≠ i) :
    elem (mapTarget root chosen s i).2 j = elem s.2 j := by
  rw [mapTarget]
  by_cases hnone : elem chosen.curmp i = []
  · rw [if_neg (not_not_intro hnone)]
  · rw [if_pos hnone]
    exact elem_set_of_ne _ h _

theorem foldl_mapTarget_of_notMem {is : List Nat} {j : Nat} (h : j ∉ is)
    (s : Mounts × IndexedArray Str) :
    elem (is.foldl (mapTarget root chosen) s).2 j = elem s.2 j := by
  induction is generalizing s with
  | nil => rfl
  | cons i is ih =>
      rw [List.mem_cons, not_or] at h
      rw [List.foldl_cons, ih h.2]
      exact mapTarget_of_ne root chosen s h.1

/-- The path of a target that something has been chosen for. -/
theorem foldl_mapTarget_snd (realpath : IndexedArray Str) {is is' : List Nat} {i : Nat}
    (hnodup : (is ++ i :: is').Nodup) (hne : elem chosen.curmp i ≠ []) :
    elem ((is ++ i :: is').foldl (mapTarget root chosen) (Mounts.empty, realpath)).2 i =
      str "/mnt" ++ decimal (mountidx root (callsOf chosen is) (mountCall chosen i)) ++
        elem realpath i := by
  obtain ⟨_, htail, hapart⟩ := List.nodup_append.1 hnodup
  have hbehind : i ∉ is' := (List.nodup_cons.1 htail).1
  have hbefore : i ∉ is := fun h => hapart i h i List.mem_cons_self rfl
  rw [List.foldl_append, List.foldl_cons, foldl_mapTarget_of_notMem root chosen hbehind, mapTarget,
    if_pos hne]
  refine (elem_set_self _ _ _).trans ?_
  rw [foldl_mapTarget_of_notMem root chosen hbefore, foldl_mapTarget_fst]
  rfl

end MapTarget

/-- The path of a target begins with the number of its mount point. -/
theorem realpath_mapTargets (root : Str) (targets : Targets) (chosen : Chosen) {i : Nat}
    (hi : i ≤ targets.kdump_max) (hne : elem chosen.curmp i ≠ [])
    (hcalls : ∀ call ∈ callsOf chosen (List.range (targets.kdump_max + 1)),
      IsMountPoint call.mountpoint) :
    elem (mapTargets root targets chosen).2 i =
      str "/mnt" ++ decimal
        ((distinct (callsOf chosen (List.range (targets.kdump_max + 1)))).idxOf
          (elem chosen.curmp i)) ++ elem targets.kdump_Realpath i := by
  obtain ⟨is, is', hrange⟩ :=
    List.append_of_mem (List.mem_range.2 (Nat.lt_succ_of_le hi))
  have hnodup : (is ++ i :: is').Nodup := hrange ▸ List.nodup_range
  rw [hrange, callsOf_append, callsOf_cons hne] at hcalls
  rw [mapTargets, hrange, callsOf_append, callsOf_cons hne,
    foldl_mapTarget_snd root chosen _ hnodup hne, mountidx_eq root hcalls]
  rfl

/-! ## The lines that are chosen -/

/-- The call for a line. -/
def lineCall (line : MountLine) : MountCall :=
  ⟨line.device, line.mountpoint, line.filesystem, line.opts⟩

/-- The line is the right one for the path. -/
def IsLineOf (table : List MountLine) (realpath : Str) (line : MountLine) : Prop :=
  IsLastGreatest (fun l => l.mountpoint.length) (fun l => decide (Holds l.mountpoint realpath))
    table line

/-- A line is the last one with its mount point. -/
theorem IsLineOf.eq_of_mountpoint {table : List MountLine} {p q : Str} {line line' : MountLine}
    (h : IsLineOf table p line) (h' : IsLineOf table q line')
    (hsame : line.mountpoint = line'.mountpoint) : line = line' := by
  have hlast : ∀ {r : Str} {l : MountLine}, l.mountpoint = line.mountpoint → IsLineOf table r l →
      IsLastGreatest (fun l => l.mountpoint.length)
        (fun l => decide (l.mountpoint = line.mountpoint)) table l := by
    intro r l hl hline
    refine hline.mono ?_ (decide_eq_true hl)
    intro m _ hm
    have hholds := of_decide_eq_true hline.mem.2
    rw [hl, ← of_decide_eq_true hm] at hholds
    exact decide_eq_true hholds
  exact (hlast rfl h).unique (hlast hsame.symm h')

theorem exists_line_of_placeOf {lines : List Str} {path : Str} {place : Place}
    (h : placeOf (runningTable lines) path = some place) :
    ∃ line, IsLineOf (lines.map readLine) path line ∧
      place = ⟨line.device, Path.words (path.drop line.mountpoint.length)⟩ := by
  obtain ⟨m, hm, rfl⟩ := exists_of_placeOf h
  obtain ⟨line, hline, rfl⟩ := hm.of_map
  exact ⟨line, hline, rfl⟩

section Chosen

variable {targets : Targets} {lines : List Str}

/-- Nothing is chosen for a target of another protocol. -/
theorem curmp_of_not_file {i : Nat} (h : isFileProtocol (elem targets.kdump_Protocol i) = false)
    (table : List MountLine) :
    Agrees (table.foldl (tryTargets targets) Chosen.empty) i none := by
  induction table using List.reverseRecOn with
  | nil => exact ⟨rfl, rfl, rfl, rfl⟩
  | append_singleton table line ih =>
      have hpass := ih.foldl_tryTarget targets line (List.nodup_range (n := targets.kdump_max + 1))
      have hskip : improved targets line i none = none := by
        rw [improved, mountTest, h, Bool.false_and, Bool.false_and, if_neg Bool.false_ne_true]
      rw [hskip, ite_self] at hpass
      rw [List.foldl_concat]
      exact hpass

/-- What is chosen for a target is right, if the table is sound for its path. -/
theorem isRight_chosen {i : Nat}
    (hsound : TableSound (lines.map readLine) (elem targets.kdump_Realpath i)) :
    IsRight (fun l => l.mountpoint.length)
      (fun l => decide (Holds l.mountpoint (elem targets.kdump_Realpath i))) (lines.map readLine)
      (lastGreatest (fun l => l.mountpoint.length)
        (fun l => matchesMount (elem targets.kdump_Realpath i) l.mountpoint)
        (lines.map readLine)) := by
  refine isRight_of_outdone hsound.right ?_
  intro before line behind htable hline hnot
  exact hsound.outdone before line behind htable hline (of_decide_eq_false hnot)

theorem mountCall_of_agrees {chosen : Chosen} {i : Nat} {line : MountLine}
    (h : Agrees chosen i (some line)) : mountCall chosen i = lineCall line := by
  unfold mountCall lineCall elem
  rw [h.curmp, h.mntdev, h.mntfstype, h.mntopts]
  rfl

/-- The line that holds the path of a target is chosen for it. -/
theorem agrees_of_isLineOf {i : Nat} (hi : IsFileTarget targets i)
    (hsound : TableSound (lines.map readLine) (elem targets.kdump_Realpath i)) {line : MountLine}
    (hline : IsLineOf (lines.map readLine) (elem targets.kdump_Realpath i) line) :
    Agrees (chooseMounts targets lines) i (some line) := by
  have hright := isRight_chosen hsound
  have hagrees := agrees_tryTargets hi (lines.map readLine)
  cases hfound : lastGreatest (fun l => l.mountpoint.length)
      (fun l => matchesMount (elem targets.kdump_Realpath i) l.mountpoint)
      (lines.map readLine) with
  | none =>
      rw [hfound] at hright
      obtain ⟨hmem, hholds⟩ := hline.mem
      exact Bool.noConfusion (hholds.symm.trans (hright line hmem))
  | some line' =>
      rw [hfound] at hright hagrees
      have hsame : line = line' := hline.unique hright
      rw [hsame]
      exact hagrees

/-- The calls are for lines that hold the paths of targets. -/
theorem exists_line_of_mem_calls
    (hsound : ∀ i, IsFileTarget targets i →
      TableSound (lines.map readLine) (elem targets.kdump_Realpath i)) {call : MountCall}
    (h : call ∈ callsOf (chooseMounts targets lines) (List.range (targets.kdump_max + 1))) :
    ∃ i line, IsFileTarget targets i ∧
      IsLineOf (lines.map readLine) (elem targets.kdump_Realpath i) line ∧
        call = lineCall line := by
  obtain ⟨i, hi, rfl⟩ := List.mem_map.1 h
  obtain ⟨hrange, hne⟩ := List.mem_filter.1 hi
  have hset : elem (chooseMounts targets lines).curmp i ≠ [] := by simpa using hne
  -- an unset element would be empty
  have hunset : Agrees (chooseMounts targets lines) i none → False := by
    intro hnone
    exact hset (by rw [elem, hnone.curmp]; rfl)
  cases hfile : isFileProtocol (elem targets.kdump_Protocol i) with
  | false => exact (hunset (curmp_of_not_file hfile _)).elim
  | true =>
      have htarget : IsFileTarget targets i :=
        ⟨Nat.le_of_lt_succ (List.mem_range.1 hrange), hfile⟩
      have hright := isRight_chosen (hsound i htarget)
      have hagrees := agrees_tryTargets htarget (lines.map readLine)
      cases hfound : lastGreatest (fun l => l.mountpoint.length)
          (fun l => matchesMount (elem targets.kdump_Realpath i) l.mountpoint)
          (lines.map readLine) with
      | none =>
          rw [hfound] at hagrees
          exact (hunset hagrees).elim
      | some line =>
          rw [hfound] at hright hagrees
          exact ⟨i, line, htarget, hright, mountCall_of_agrees hagrees⟩

end Chosen

/-! ## Paths below `/kdump` -/

/-- The path of a target as the crash kernel sees it. -/
def crashPath (i : Nat) (path : Str) : Str :=
  str "/kdump" ++ (str "/mnt" ++ decimal i ++ path)

theorem crashPath_eq (i : Nat) (path : Str) :
    crashPath i path = str "/kdump/mnt" ++ (decimal i ++ path) := by
  have hlit : str "/kdump/mnt" = str "/kdump" ++ str "/mnt" := by decide
  rw [crashPath, hlit, List.append_assoc, List.append_assoc]

theorem kdumpPath_eq (i : Nat) (mountpoint : Str) :
    kdumpPath i mountpoint =
      str "/kdump/mnt" ++ (decimal i ++ if mountpoint = [slash] then [] else mountpoint) :=
  List.append_assoc _ _ _

theorem decimal_inj {i j : Nat} (h : decimal i = decimal j) : i = j := by
  rw [← Config.digitsValue_decimal i, h, Config.digitsValue_decimal]

/-- The number ends at the first slash. -/
theorem decimal_slash_inj {i j : Nat} {a b : Str}
    (h : decimal i ++ slash :: a = decimal j ++ slash :: b) : i = j ∧ a = b := by
  have hcut : ∀ (k : Nat) (c : Str),
      (decimal k ++ slash :: c).takeWhile (· != slash) = decimal k := by
    intro k c
    refine takeWhile_scan ?_ (by simp)
    intro d hd
    exact bne_iff_ne.2 fun heq => slash_notMem_decimal k (heq ▸ hd)
  have hij : i = j := by
    have htake := congrArg (List.takeWhile (· != slash)) h
    rw [hcut, hcut] at htake
    exact decimal_inj htake
  subst hij
  exact ⟨rfl, List.tail_eq_of_cons_eq (List.append_cancel_left h)⟩

/-- One number is not the beginning of another one. -/
theorem Holds.of_crashPath {i j : Nat} {mountpoint path : Str} (hmount : IsMountPoint mountpoint)
    (hpath : path.head? = some slash) (h : Holds (kdumpPath j mountpoint) (crashPath i path)) :
    i = j ∧ Holds mountpoint path := by
  obtain ⟨rest, rfl, hrest⟩ := hmount
  obtain ⟨tail, rfl⟩ := List.head?_eq_some_iff.1 hpath
  rw [kdumpPath_eq, crashPath_eq] at h
  by_cases hroot : slash :: rest = [slash]
  · rw [hroot] at h ⊢
    rw [if_pos rfl, List.append_nil] at h
    refine ⟨?_, .inr (.inl rfl)⟩
    rcases h with heq | hlit | ⟨behind, hbehind⟩
    · -- there is no slash behind the number of a mount point
      have hnumber := List.append_cancel_left heq
      have hmem : slash ∈ decimal j := hnumber ▸ List.mem_append_right _ List.mem_cons_self
      exact (slash_notMem_decimal j hmem).elim
    · exact absurd (congrArg List.length hlit) (by simp [str])
    · rw [List.append_assoc, List.append_assoc] at hbehind
      exact (decimal_slash_inj (List.append_cancel_left hbehind)).1.symm
  · rw [if_neg hroot] at h
    rcases h with heq | hlit | ⟨behind, hbehind⟩
    · obtain ⟨hij, htail⟩ := decimal_slash_inj (List.append_cancel_left heq)
      exact ⟨hij, .inl (htail ▸ rfl)⟩
    · exact absurd (congrArg List.length hlit) (by simp [str])
    · rw [List.append_assoc, List.append_assoc, List.append_assoc, List.cons_append] at hbehind
      obtain ⟨hij, htail⟩ := decimal_slash_inj (List.append_cancel_left hbehind)
      refine ⟨hij.symm, .inr (.inr ⟨behind, ?_⟩)⟩
      rw [← htail, List.cons_append, List.cons_append, List.append_assoc]

/-- What a mount point holds is held by its place in the crash kernel, and has the same position
there. -/
theorem Holds.crashPath {mountpoint path : Str} (i : Nat) (hmount : IsMountPoint mountpoint)
    (hpath : path.head? = some slash) (h : Holds mountpoint path) :
    Holds (kdumpPath i mountpoint) (crashPath i path) ∧
      Path.words ((Setup.crashPath i path).drop (kdumpPath i mountpoint).length) =
        Path.words (path.drop mountpoint.length) := by
  obtain ⟨rest, rfl, hrest⟩ := hmount
  obtain ⟨tail, rfl⟩ := List.head?_eq_some_iff.1 hpath
  rw [kdumpPath_eq, crashPath_eq]
  by_cases hroot : slash :: rest = [slash]
  · rw [hroot, if_pos rfl, List.append_nil, ← List.append_assoc, List.drop_left]
    refine ⟨.inr (.inr ⟨tail, ?_⟩), Path.words_cons_slash tail⟩
    simp
  · rw [if_neg hroot]
    have hprefix : slash :: rest <+: slash :: tail := h.starts rfl
    obtain ⟨behind, hbehind⟩ := hprefix
    have hsplit : str "/kdump/mnt" ++ (decimal i ++ (slash :: rest ++ behind)) =
        str "/kdump/mnt" ++ (decimal i ++ slash :: rest) ++ behind := by
      simp only [List.append_assoc]
    rw [← hbehind, List.drop_left, hsplit, List.drop_left]
    refine ⟨?_, rfl⟩
    rw [← hbehind] at h
    rcases h with heq | hlit | ⟨behind', hbehind'⟩
    · left
      rw [List.append_assoc, List.append_assoc, heq]
    · exact (hroot hlit).elim
    · refine .inr (.inr ⟨behind', ?_⟩)
      rw [List.append_assoc] at hbehind'
      rw [List.append_assoc, List.append_cancel_left hbehind']

/-- A mount point that holds the path lies below `/kdump`, too, or is shorter. -/
theorem length_lt_of_holds {m path mountpoint : Str} {i : Nat}
    (hnot : ¬ Holds (str "/kdump") m) (hm : Holds m path) (habsolute : path.head? = some slash)
    (hpath : kdumpPath i mountpoint <+: path) : m.length < (kdumpPath i mountpoint).length := by
  by_contra hle
  have hprefix : kdumpPath i mountpoint <+: m :=
    List.prefix_of_prefix_length_le hpath (hm.starts habsolute) (Nat.not_lt.1 hle)
  have hlit : str "/kdump/mnt" = str "/kdump" ++ [slash] ++ str "mnt" := by decide
  have hbelow : str "/kdump" ++ [slash] <+: kdumpPath i mountpoint := by
    rw [kdumpPath_eq, hlit, List.append_assoc]
    exact List.prefix_append _ _
  exact hnot (.inr (.inr (hbelow.trans hprefix)))

/-! ## Both kernels -/

/-- The mount points of the calls are the entries, and each has its device. -/
theorem crashTable_updateMounts (root : Str) {calls : List MountCall}
    (h : ∀ call ∈ calls, IsMountPoint call.mountpoint) :
    crashTable (updateMounts root calls) = (List.range (distinct calls).length).map fun j =>
      ⟨elem (updateMounts root calls).kdump_dev j,
        ((distinct calls)[j]?.map (kdumpPath j)).getD []⟩ := by
  rw [crashTable, updateMounts_mnt root h, IndexedArray.indices_ofList, length_entries]
  refine List.map_congr_left fun j _ => ?_
  rw [elem, elem, IndexedArray.get?_ofList, getElem?_entries, Nat.zero_add]

/-- Of the entries only the one with the number of the path holds it. -/
theorem isLastGreatest_crashTable (root : Str) {calls : List MountCall}
    (h : ∀ call ∈ calls, IsMountPoint call.mountpoint) {others : List Mounted}
    (hothers : ∀ m ∈ others, ¬ Holds (str "/kdump") m.mountpoint) {mountpoint path : Str}
    (hmem : mountpoint ∈ distinct calls) (hpath : path.head? = some slash)
    (hholds : Holds mountpoint path) :
    IsLastGreatest (fun m => m.mountpoint.length)
      (fun m => decide (Holds m.mountpoint
        (crashPath ((distinct calls).idxOf mountpoint) path)))
      (others ++ crashTable (updateMounts root calls))
      ⟨elem (updateMounts root calls).kdump_dev ((distinct calls).idxOf mountpoint),
        kdumpPath ((distinct calls).idxOf mountpoint) mountpoint⟩ := by
  have hpoints : ∀ q ∈ distinct calls, IsMountPoint q := by
    intro q hq
    obtain ⟨c, hc, rfl⟩ := mem_distinct.1 hq
    exact h c hc
  have hlt := List.idxOf_lt_length_of_mem hmem
  have hself : (distinct calls)[(distinct calls).idxOf mountpoint]? = some mountpoint := by
    rw [List.getElem?_eq_getElem hlt, List.getElem_idxOf]
  generalize (distinct calls).idxOf mountpoint = i at hlt hself ⊢
  have hhere := (Holds.crashPath i (hpoints _ hmem) hpath hholds).1
  have habsolute : (crashPath i path).head? = some slash := rfl
  obtain ⟨is, is', hrange⟩ := List.append_of_mem (List.mem_range.2 hlt)
  have hnodup : (is ++ i :: is').Nodup := hrange ▸ List.nodup_range
  obtain ⟨_, htail, hapart⟩ := List.nodup_append.1 hnodup
  -- an entry with another number holds other paths
  have hother : ∀ j ∈ is ++ i :: is', j ≠ i →
      ¬ Holds (((distinct calls)[j]?.map (kdumpPath j)).getD []) (crashPath i path) := by
    intro j hj hne hheld
    rw [← hrange, List.mem_range] at hj
    rw [List.getElem?_eq_getElem hj, Option.map_some, Option.getD_some] at hheld
    exact hne (Holds.of_crashPath (hpoints _ (List.getElem_mem hj)) hpath hheld).1.symm
  rw [crashTable_updateMounts root h, hrange, List.map_append, List.map_cons, hself,
    ← List.append_assoc]
  refine ⟨_, _, rfl, decide_eq_true hhere, ?_, ?_⟩
  · intro m hm hheld
    have hheld' := of_decide_eq_true hheld
    rcases List.mem_append.1 hm with hm | hm
    · exact (length_lt_of_holds (hothers m hm) hheld' habsolute (hhere.starts habsolute)).le
    · obtain ⟨j, hj, rfl⟩ := List.mem_map.1 hm
      exact absurd hheld' (hother j (List.mem_append_left _ hj)
        (hapart j hj i List.mem_cons_self))
  · intro m hm hheld
    obtain ⟨j, hj, rfl⟩ := List.mem_map.1 hm
    refine absurd (of_decide_eq_true hheld) (hother j
      (List.mem_append_right _ (List.mem_cons_of_mem _ hj)) ?_)
    rintro rfl
    exact (List.nodup_cons.1 htail).1 hj

/-- The paths of the targets are absolute, the mount points that hold them are written as paths are,
the mount table is sound for each of them, and the crash kernel mounts nothing else below
`/kdump`. -/
structure SetupSound (targets : Targets) (lines : List Str) (others : List Mounted) : Prop where
  absolute : ∀ i, IsFileTarget targets i → (elem targets.kdump_Realpath i).head? = some slash
  mount : ∀ i, IsFileTarget targets i → ∀ line ∈ lines.map readLine,
    Holds line.mountpoint (elem targets.kdump_Realpath i) → IsMountPoint line.mountpoint
  sound : ∀ i, IsFileTarget targets i →
    TableSound (lines.map readLine) (elem targets.kdump_Realpath i)
  others : ∀ m ∈ others, ¬ Holds (str "/kdump") m.mountpoint

section Relocated

variable {root : Str} {targets : Targets} {lines : List Str} {others : List Mounted}
variable {chosen : Chosen} {mounts : Mounts} {realpath : IndexedArray Str}

/-- The number of a target: that of the entry for the mount point that holds its path. -/
theorem exists_number (hsetup : SetupSound targets lines others)
    (hresult : kdump_get_mountpoints root (some targets) lines = some (chosen, mounts, realpath))
    {i : Nat} (hi : IsFileTarget targets i) {line : MountLine}
    (hline : IsLineOf (lines.map readLine) (elem targets.kdump_Realpath i) line) :
    ∃ k, elem mounts.kdump_mnt k = kdumpPath k line.mountpoint ∧
      elem realpath i = str "/mnt" ++ decimal k ++ elem targets.kdump_Realpath i ∧
      placeOf (others ++ crashTable mounts) (crashPath k (elem targets.kdump_Realpath i)) =
        some ⟨kdumpDevice root line.device,
          Path.words ((elem targets.kdump_Realpath i).drop line.mountpoint.length)⟩ := by
  obtain ⟨hmem, hheld⟩ := hline.mem
  have hholds := of_decide_eq_true hheld
  have hpoint := hsetup.mount i hi line hmem hholds
  obtain ⟨rfl, hmaps⟩ := Prod.mk.inj (Option.some.inj hresult)
  set chosen := chooseMounts targets lines with hchosen
  set calls := callsOf chosen (List.range (targets.kdump_max + 1)) with hcalls
  have hagrees : Agrees chosen i (some line) := agrees_of_isLineOf hi (hsetup.sound i hi) hline
  have hcurmp : elem chosen.curmp i = line.mountpoint := by
    rw [elem, hagrees.curmp]
    rfl
  have hne : elem chosen.curmp i ≠ [] := by
    obtain ⟨rest, hrest, _⟩ := hpoint
    rw [hcurmp, hrest]
    exact List.cons_ne_nil _ _
  have hpoints : ∀ call ∈ calls, IsMountPoint call.mountpoint := by
    intro call hcall
    obtain ⟨j, line', hj, hline', rfl⟩ := exists_line_of_mem_calls hsetup.sound hcall
    exact hsetup.mount j hj line' hline'.mem.1 (of_decide_eq_true hline'.mem.2)
  have hagree : ∀ c ∈ calls, ∀ c' ∈ calls, c.mountpoint = c'.mountpoint → c = c' := by
    intro c hc c' hc' hsame
    obtain ⟨j, l, _, hl, rfl⟩ := exists_line_of_mem_calls hsetup.sound hc
    obtain ⟨k, l', _, hl', rfl⟩ := exists_line_of_mem_calls hsetup.sound hc'
    rw [hl.eq_of_mountpoint hl' hsame]
  have hcall : lineCall line ∈ calls := by
    rw [← mountCall_of_agrees hagrees]
    refine List.mem_map_of_mem (List.mem_filter.2 ⟨List.mem_range.2 (Nat.lt_succ_of_le hi.1), ?_⟩)
    simpa using hne
  have hknown : line.mountpoint ∈ distinct calls := mem_distinct.2 ⟨_, hcall, rfl⟩
  have hmounts : mounts = updateMounts root calls := by
    have hfst := mapTargets_fst root targets chosen
    rw [hmaps] at hfst
    exact hfst
  refine ⟨(distinct calls).idxOf line.mountpoint, ?_, ?_, ?_⟩
  · have hlt := List.idxOf_lt_length_of_mem hknown
    rw [hmounts, elem, updateMounts_mnt root hpoints, IndexedArray.get?_ofList, getElem?_entries,
      Nat.zero_add, List.getElem?_eq_getElem hlt, List.getElem_idxOf]
    rfl
  · have hsnd := realpath_mapTargets root targets chosen hi.1 hne hpoints
    rwa [hmaps, hcurmp] at hsnd
  · have hpath := hsetup.absolute i hi
    rw [hmounts, placeOf_eq (isLastGreatest_crashTable root hpoints hsetup.others hknown hpath
      hholds), (Holds.crashPath _ hpoint hpath hholds).2]
    exact congrArg (fun device => some (Place.mk device _))
      (updateMounts_row root hpoints hagree hcall)

end Relocated

/-- Two targets on two file systems, one of them mounted below the other. -/
def nestedTargets : Targets where
  kdump_max := 1
  kdump_Protocol := .ofList [str "file", str "file"]
  kdump_Realpath := .ofList [str "/var/crash", str "/srv"]

def nestedLines : List Str :=
  [str "/dev/sda1 / ext4 rw 0 1", str "/dev/sdb1 /var ext4 rw 0 2"]

theorem nested_sound : SetupSound nestedTargets nestedLines [⟨str "rootfs", str "/"⟩] := by
  have hpaths : ∀ i, IsFileTarget nestedTargets i →
      elem nestedTargets.kdump_Realpath i = str "/var/crash" ∨
        elem nestedTargets.kdump_Realpath i = str "/srv" := by
    rintro i ⟨hi, _⟩
    have hcases : i = 0 ∨ i = 1 := by
      have hle : i ≤ 1 := hi
      omega
    rcases hcases with rfl | rfl
    · exact .inl rfl
    · exact .inr rfl
  have hlines : ∀ p, p = str "/var/crash" ∨ p = str "/srv" →
      ∀ line ∈ nestedLines.map readLine,
        (matchesMount p line.mountpoint = true ↔ Holds line.mountpoint p) := by
    rintro p (rfl | rfl)
    · decide
    · decide
  refine ⟨?_, ?_, ?_, by decide⟩
  · intro i hi
    rcases hpaths i hi with h | h <;> rw [h] <;> rfl
  · intro i _ line hline _
    have hrows : ∀ line ∈ nestedLines.map readLine,
        line.mountpoint = str "/" ∨ line.mountpoint = str "/var" := by
      decide
    rcases hrows line hline with h | h
    · exact ⟨[], h, by decide⟩
    · exact ⟨str "var", h, by decide⟩
  · intro i hi
    have hline := hlines _ (hpaths i hi)
    constructor
    · intro line hlast
      exact (hline line hlast.mem.1).2 (of_decide_eq_true hlast.mem.2)
    · intro before line behind htable hmatches hnot
      have hmem : line ∈ nestedLines.map readLine :=
        htable ▸ List.mem_append_right _ List.mem_cons_self
      exact absurd ((hline line hmem).1 hmatches) hnot

end Setup
end Kdump

import Kdump.Config.RoundTrip
import Kdump.Lib.Glob
import Kdump.Lib.IndexedArray

/-!
# UpdateMount — `kdump_update_mount` of the setup scripts

The file systems that the crash kernel mounts are kept in four arrays.  The function looks for the
mount point of one of them and takes the next index if it has none yet.  While it goes through the
array it numbers its candidate anew in every round, by way of a pattern.

* `Mounts` — the arrays;
* `searchMount`, `kdump_update_mount` — the function;
* `kdumpPath` — where a file system is mounted in the crash kernel;
* `searchMount_eq` — what the loop finds;
* `updateMounts` — a sequence of calls;
* `kdump_update_mount_correct` — the arrays after each call.
-/

namespace Kdump
namespace Setup

open Lib
open Config (isDigit_of_mem_decimal)

/-! ## The function -/

/-- The arrays that the function updates. -/
structure Mounts where
  kdump_mnt : IndexedArray Str
  kdump_dev : IndexedArray Str
  kdump_fstype : IndexedArray Str
  kdump_opts : IndexedArray Str

def Mounts.empty : Mounts :=
  ⟨.empty, .empty, .empty, .empty⟩

/-- The parameters of a call. -/
structure MountCall where
  device : Str
  mountpoint : Str
  fstype : Str
  opts : Str
  deriving DecidableEq, Repr

/-- `/kdump/mnt$i/` -/
def mntPrefix (i : Nat) : Str :=
  str "/kdump/mnt" ++ decimal i ++ [slash]

/-- The loop over `kdump_mnt`, with `i` and `mountpoint`. -/
def searchMount : List Str → Nat → Str → Nat × Str
  | [], i, mountpoint => (i, mountpoint)
  | mnt :: mnts, i, mountpoint =>
      if mnt = Glob.removeSuffix (str "/") mountpoint then (i, mountpoint)
      else
        searchMount mnts (i + 1)
          (mntPrefix (i + 1) ++ Glob.removePrefix (str "/kdump/mnt*/") mountpoint)

/-- The device for `/dev/root`.  `[ -n $root ]` holds if the value has no words, too; it fails if it
has more than one. -/
def rootDevice (root device : Str) : Str :=
  let words := (root.splitOnP fun c => c = space || c = 9 || c = newline).filter (· ≠ [])
  if words.length ≤ 1 then root else device

/-- `kdump_update_mount`, with `kdump_mountidx`; `root` is what `kdump_get_root_from_commandline`
writes. -/
def kdump_update_mount (root : Str) (call : MountCall) (s : Mounts) : Nat × Mounts :=
  let mountpoint := mntPrefix 0 ++ Glob.removePrefix (str "/") call.mountpoint
  let device :=
    if call.device = str "/dev/root" then rootDevice root call.device else call.device
  let (i, mountpoint) := searchMount s.kdump_mnt.values 0 mountpoint
  let opts := if call.fstype = str "btrfs" then call.opts ++ str ",skip_balance" else call.opts
  (i, { kdump_mnt := s.kdump_mnt.set i (Glob.removeSuffix (str "/") mountpoint)
        kdump_dev := s.kdump_dev.set i device
        kdump_fstype := s.kdump_fstype.set i call.fstype
        kdump_opts := s.kdump_opts.set i opts })

/-! ## Candidates -/

/-- An absolute path that ends in no slash, unless it is the root directory. -/
def IsMountPoint (mountpoint : Str) : Prop :=
  ∃ rest, mountpoint = slash :: rest ∧ rest.getLast? ≠ some slash

/-- The directory in the crash kernel for the file system with index `i`. -/
def kdumpPath (i : Nat) (mountpoint : Str) : Str :=
  str "/kdump/mnt" ++ decimal i ++ if mountpoint = [slash] then [] else mountpoint

theorem kdumpPath_inj {i : Nat} {p q : Str} (hp : IsMountPoint p) (hq : IsMountPoint q) :
    kdumpPath i p = kdumpPath i q ↔ p = q := by
  obtain ⟨rest, rfl, _⟩ := hp
  obtain ⟨rest', rfl, _⟩ := hq
  constructor
  · intro h
    have hsuffix := List.append_cancel_left h
    by_cases hroot : slash :: rest = [slash] <;> by_cases hroot' : slash :: rest' = [slash]
    · rw [hroot, hroot']
    · rw [if_pos hroot, if_neg hroot'] at hsuffix
      cases hsuffix
    · rw [if_neg hroot, if_pos hroot'] at hsuffix
      cases hsuffix
    · rwa [if_neg hroot, if_neg hroot'] at hsuffix
  · exact congrArg (kdumpPath i)

theorem slash_notMem_decimal (i : Nat) : slash ∉ decimal i := by
  intro h
  have hdigit := isDigit_of_mem_decimal h
  exact absurd hdigit (by decide)

theorem parse_slash : Glob.parse (str "/") = [.literal slash] := by
  decide

/-- The first slash is removed. -/
theorem removePrefix_slash (rest : Str) : Glob.removePrefix (str "/") (slash :: rest) = rest :=
  Glob.removePrefix_byte parse_slash rest

/-- What is compared with the entries, and stored. -/
theorem removeSuffix_candidate (i : Nat) {rest : Str} (h : rest.getLast? ≠ some slash) :
    Glob.removeSuffix (str "/") (mntPrefix i ++ rest) = kdumpPath i (slash :: rest) := by
  unfold mntPrefix kdumpPath
  by_cases hrest : rest = []
  · rw [hrest, List.append_nil, if_pos rfl, List.append_nil]
    exact Glob.removeSuffix_byte parse_slash _
  · have hne : slash :: rest ≠ [slash] := fun heq => hrest (List.tail_eq_of_cons_eq heq)
    rw [if_neg hne, List.append_assoc _ [slash] rest]
    refine Glob.removeSuffix_byte_of_ne parse_slash ?_
    rwa [List.singleton_append, List.getLast?_append_of_ne_nil _ (List.cons_ne_nil _ _),
      List.getLast?_cons_of_ne_nil hrest]

theorem parse_mnt : Glob.parse (str "/kdump/mnt*/") =
    (str "/kdump/mnt").map .literal ++ [.many, .literal slash] := by
  decide

theorem accepts_mnt (text : Str) : Glob.accepts (Glob.parse (str "/kdump/mnt*/")) text = true ↔
    ∃ front, text = str "/kdump/mnt" ++ (front ++ [slash]) := by
  rw [parse_mnt, Glob.accepts_literals]
  constructor
  · rintro ⟨rest, rfl, h⟩
    obtain ⟨front, rest', rfl, h'⟩ := (Glob.accepts_many _ _).1 h
    obtain ⟨rest'', rfl, h''⟩ := (Glob.accepts_literal _ _ _).1 h'
    rw [(Glob.accepts_nil _).1 h'']
    exact ⟨front, rfl⟩
  · rintro ⟨front, rfl⟩
    exact ⟨_, rfl, (Glob.accepts_many _ _).2
      ⟨front, [slash], rfl, (Glob.accepts_literal _ _ _).2 ⟨[], rfl, rfl⟩⟩⟩

/-- Of a candidate the pattern removes the number and nothing else, whatever the mount point looks
like. -/
theorem removePrefix_candidate (i : Nat) (rest : Str) :
    Glob.removePrefix (str "/kdump/mnt*/") (mntPrefix i ++ rest) = rest := by
  have haccepts : Glob.accepts (Glob.parse (str "/kdump/mnt*/")) (mntPrefix i) = true := by
    rw [accepts_mnt]
    exact ⟨decimal i, List.append_assoc _ _ _⟩
  refine Glob.removePrefix_append haccepts ?_ rest
  intro k hk
  rw [Bool.eq_false_iff]
  intro hshort
  obtain ⟨front, hfront⟩ := (accepts_mnt _).1 hshort
  -- the slash at the end of the shorter prefix would be one of the digits
  have hlength := congrArg List.length hfront
  rw [List.length_take] at hlength
  have hk' : k = (str "/kdump/mnt").length + (front.length + 1) := by
    rw [List.length_append, List.length_append, List.length_singleton] at hlength
    omega
  unfold mntPrefix at hfront hk
  rw [List.length_append, List.length_append, List.length_singleton] at hk
  rw [List.append_assoc, hk', List.take_length_add_append,
    List.take_append_of_le_length (by omega)] at hfront
  have hmem : slash ∈ (decimal i).take (front.length + 1) := by
    rw [List.append_cancel_left hfront]
    exact List.mem_append_right _ List.mem_cons_self
  exact slash_notMem_decimal i (List.mem_of_mem_take hmem)

/-! ## The loop -/

/-- The entries for some mount points, from index `i` on. -/
def entries : Nat → List Str → List Str
  | _, [] => []
  | i, p :: points => kdumpPath i p :: entries (i + 1) points

theorem getElem?_entries (i : Nat) (points : List Str) (j : Nat) :
    (entries i points)[j]? = points[j]?.map (kdumpPath (i + j)) := by
  induction points generalizing i j with
  | nil => rfl
  | cons p points ih =>
      cases j with
      | zero => rfl
      | succ j =>
          rw [entries, List.getElem?_cons_succ, List.getElem?_cons_succ, ih,
            show i + 1 + j = i + (j + 1) by omega]

theorem length_entries (i : Nat) (points : List Str) :
    (entries i points).length = points.length := by
  induction points generalizing i with
  | nil => rfl
  | cons p points ih => rw [entries, List.length_cons, ih, List.length_cons]

theorem entries_concat (i : Nat) (points : List Str) (p : Str) :
    entries i (points ++ [p]) = entries i points ++ [kdumpPath (i + points.length) p] := by
  induction points generalizing i with
  | nil => rfl
  | cons q points ih =>
      rw [List.cons_append, entries, ih, entries, List.length_cons,
        show i + 1 + points.length = i + (points.length + 1) by omega]
      rfl

/-- The loop finds the mount point, or the index behind the last one. -/
theorem searchMount_eq (i : Nat) {rest : Str} (hrest : rest.getLast? ≠ some slash)
    {points : List Str} (hpoints : ∀ q ∈ points, IsMountPoint q) :
    searchMount (entries i points) i (mntPrefix i ++ rest) =
      (i + points.idxOf (slash :: rest), mntPrefix (i + points.idxOf (slash :: rest)) ++ rest) := by
  induction points generalizing i with
  | nil => rfl
  | cons q points ih =>
      rw [List.forall_mem_cons] at hpoints
      rw [entries, searchMount, removeSuffix_candidate i hrest, removePrefix_candidate,
        ih _ hpoints.2, List.idxOf_cons]
      by_cases hq : q = slash :: rest
      · rw [if_pos (congrArg (kdumpPath i) hq), hq, beq_self_eq_true]
        rfl
      · rw [if_neg fun h => hq ((kdumpPath_inj hpoints.1 ⟨rest, rfl, hrest⟩).1 h),
          beq_false_of_ne hq, cond_false,
          show i + 1 + points.idxOf (slash :: rest) = i + (points.idxOf (slash :: rest) + 1) by
            omega]

/-! ## Calls -/

/-- One call: the index, and the entry that is stored there. -/
theorem kdump_update_mount_eq (root : Str) {call : MountCall} (hcall : IsMountPoint call.mountpoint)
    {s : Mounts} {points : List Str} (hpoints : ∀ q ∈ points, IsMountPoint q)
    (hs : s.kdump_mnt = .ofList (entries 0 points)) :
    (kdump_update_mount root call s).1 = points.idxOf call.mountpoint ∧
      (kdump_update_mount root call s).2.kdump_mnt =
        s.kdump_mnt.set (points.idxOf call.mountpoint)
          (kdumpPath (points.idxOf call.mountpoint) call.mountpoint) := by
  obtain ⟨rest, hmountpoint, hrest⟩ := hcall
  have hsearch := searchMount_eq 0 hrest hpoints
  rw [Nat.zero_add, ← hmountpoint] at hsearch
  unfold kdump_update_mount
  dsimp only
  rw [hs, IndexedArray.values_ofList, hmountpoint, removePrefix_slash, ← hmountpoint, hsearch]
  dsimp only
  rw [removeSuffix_candidate _ hrest, hmountpoint]
  exact ⟨rfl, rfl⟩

/-- The other entries stay. -/
theorem kdump_update_mount_frame (root : Str) (call : MountCall) (s : Mounts) {j : Nat}
    (hj : j ≠ (kdump_update_mount root call s).1) :
    (kdump_update_mount root call s).2.kdump_mnt.get? j = s.kdump_mnt.get? j ∧
      (kdump_update_mount root call s).2.kdump_dev.get? j = s.kdump_dev.get? j ∧
      (kdump_update_mount root call s).2.kdump_fstype.get? j = s.kdump_fstype.get? j ∧
      (kdump_update_mount root call s).2.kdump_opts.get? j = s.kdump_opts.get? j :=
  ⟨IndexedArray.get?_set_of_ne _ hj _, IndexedArray.get?_set_of_ne _ hj _,
    IndexedArray.get?_set_of_ne _ hj _, IndexedArray.get?_set_of_ne _ hj _⟩

def updateMounts (root : Str) (calls : List MountCall) : Mounts :=
  calls.foldl (fun s call => (kdump_update_mount root call s).2) Mounts.empty

/-- `kdump_mountidx` after a call that comes behind some others. -/
def mountidx (root : Str) (before : List MountCall) (call : MountCall) : Nat :=
  (kdump_update_mount root call (updateMounts root before)).1

/-- The mount points of some calls, in the order in which they come up. -/
def distinct (calls : List MountCall) : List Str :=
  (calls.map (·.mountpoint)).eraseDups

theorem updateMounts_concat (root : Str) (calls : List MountCall) (call : MountCall) :
    updateMounts root (calls ++ [call]) =
      (kdump_update_mount root call (updateMounts root calls)).2 := by
  rw [updateMounts, List.foldl_concat]
  rfl

theorem mem_distinct {calls : List MountCall} {p : Str} :
    p ∈ distinct calls ↔ ∃ call ∈ calls, call.mountpoint = p := by
  rw [distinct, List.mem_eraseDups, List.mem_map]

theorem eraseDups_concat (points : List Str) (p : Str) :
    (points ++ [p]).eraseDups =
      if p ∈ points then points.eraseDups else points.eraseDups ++ [p] := by
  rw [List.eraseDups_append]
  by_cases h : p ∈ points
  · have hnone : [p].removeAll points = [] := by simp [List.removeAll, h]
    rw [if_pos h, hnone, List.eraseDups_nil, List.append_nil]
  · have hone : [p].removeAll points = [p] := by simp [List.removeAll, h]
    rw [if_neg h, hone]
    rfl

theorem distinct_concat (calls : List MountCall) (call : MountCall) :
    distinct (calls ++ [call]) =
      if call.mountpoint ∈ distinct calls then distinct calls
      else distinct calls ++ [call.mountpoint] := by
  have hmem : call.mountpoint ∈ calls.map (·.mountpoint) ↔ call.mountpoint ∈ distinct calls :=
    List.mem_eraseDups.symm
  rw [distinct, List.map_append]
  exact (eraseDups_concat _ _).trans (if_congr hmem rfl rfl)

theorem distinct_prefix (before after : List MountCall) :
    ∃ points, distinct (before ++ after) = distinct before ++ points := by
  unfold distinct
  rw [List.map_append, List.eraseDups_append]
  exact ⟨_, rfl⟩

/-- The array has an entry for each mount point, without gaps. -/
theorem updateMounts_mnt (root : Str) {calls : List MountCall}
    (h : ∀ call ∈ calls, IsMountPoint call.mountpoint) :
    (updateMounts root calls).kdump_mnt = .ofList (entries 0 (distinct calls)) := by
  induction calls using List.reverseRecOn with
  | nil => rfl
  | append_singleton calls call ih =>
      have hcalls : ∀ call ∈ calls, IsMountPoint call.mountpoint := fun c hc =>
        h c (List.mem_append_left _ hc)
      have hpoints : ∀ q ∈ distinct calls, IsMountPoint q := by
        intro q hq
        obtain ⟨c, hc, rfl⟩ := mem_distinct.1 hq
        exact hcalls c hc
      have hcall := h call (List.mem_append_right _ List.mem_cons_self)
      have hmnt := (kdump_update_mount_eq root hcall hpoints (ih hcalls)).2
      rw [updateMounts_concat, hmnt, ih hcalls, distinct_concat]
      by_cases hmem : call.mountpoint ∈ distinct calls
      · -- the entry is there already
        have hlt := List.idxOf_lt_length_of_mem hmem
        have hget : (entries 0 (distinct calls))[(distinct calls).idxOf call.mountpoint]? =
            some (kdumpPath ((distinct calls).idxOf call.mountpoint) call.mountpoint) := by
          rw [getElem?_entries, Nat.zero_add, List.getElem?_eq_getElem hlt, List.getElem_idxOf]
          rfl
        rw [if_pos hmem, IndexedArray.set_ofList_of_lt (by rwa [length_entries])]
        obtain ⟨hlt', hget'⟩ := List.getElem?_eq_some_iff.1 hget
        rw [← hget', List.set_getElem_self]
      · have hidx : (distinct calls).idxOf call.mountpoint =
            (entries 0 (distinct calls)).length := by
          rw [length_entries, List.idxOf_eq_length hmem]
        rw [if_neg hmem, hidx, IndexedArray.set_ofList_length, entries_concat, length_entries,
          Nat.zero_add]

/-- The index is that of the mount point among all of them. -/
theorem mountidx_eq (root : Str) {before after : List MountCall} {call : MountCall}
    (h : ∀ c ∈ before ++ call :: after, IsMountPoint c.mountpoint) :
    mountidx root before call = (distinct (before ++ call :: after)).idxOf call.mountpoint := by
  have hbefore : ∀ c ∈ before, IsMountPoint c.mountpoint := fun c hc =>
    h c (List.mem_append_left _ hc)
  have hcall := h call (List.mem_append_right _ List.mem_cons_self)
  have hpoints : ∀ q ∈ distinct before, IsMountPoint q := by
    intro q hq
    obtain ⟨c, hc, rfl⟩ := mem_distinct.1 hq
    exact hbefore c hc
  have hidx := (kdump_update_mount_eq root hcall hpoints (updateMounts_mnt root hbefore)).1
  obtain ⟨points, hall⟩ := distinct_prefix (before ++ [call]) after
  rw [List.append_assoc, List.singleton_append, distinct_concat] at hall
  rw [mountidx, hidx, hall]
  by_cases hmem : call.mountpoint ∈ distinct before
  · rw [if_pos hmem, List.idxOf_append_of_mem hmem]
  · rw [if_neg hmem, List.idxOf_append_of_mem (List.mem_append_right _ List.mem_cons_self),
      List.idxOf_append_of_notMem hmem, List.idxOf_cons_self, List.idxOf_eq_length hmem,
      Nat.add_zero]

/-- After each call there is an entry for each mount point, numbered in the order in which they come
up; calls have the same index if and only if they name the same mount point; and a call leaves
the entries of the other mount points alone. -/
theorem kdump_update_mount_correct (root : Str) {calls : List MountCall}
    (h : ∀ call ∈ calls, IsMountPoint call.mountpoint) :
    (updateMounts root calls).kdump_mnt.indices = List.range (distinct calls).length ∧
    (∀ i, (updateMounts root calls).kdump_mnt.get? i = (distinct calls)[i]?.map (kdumpPath i)) ∧
    (∀ before call after before' call' after', calls = before ++ call :: after →
      calls = before' ++ call' :: after' →
        (mountidx root before call = mountidx root before' call' ↔
          call.mountpoint = call'.mountpoint)) ∧
    ∀ before call after, calls = before ++ call :: after → ∀ i ≠ mountidx root before call,
      (updateMounts root (before ++ [call])).kdump_mnt.get? i =
          (updateMounts root before).kdump_mnt.get? i ∧
        (updateMounts root (before ++ [call])).kdump_dev.get? i =
          (updateMounts root before).kdump_dev.get? i ∧
        (updateMounts root (before ++ [call])).kdump_fstype.get? i =
          (updateMounts root before).kdump_fstype.get? i ∧
        (updateMounts root (before ++ [call])).kdump_opts.get? i =
          (updateMounts root before).kdump_opts.get? i := by
  refine ⟨?_, ?_, ?_, ?_⟩
  · rw [updateMounts_mnt root h, IndexedArray.indices_ofList, length_entries]
  · intro i
    rw [updateMounts_mnt root h, IndexedArray.get?_ofList, getElem?_entries, Nat.zero_add]
  · intro before call after before' call' after' hcalls hcalls'
    have hidx := mountidx_eq root (hcalls ▸ h)
    have hidx' := mountidx_eq root (hcalls' ▸ h)
    rw [← hcalls] at hidx
    rw [← hcalls'] at hidx'
    rw [hidx, hidx']
    have hmem : call.mountpoint ∈ distinct calls :=
      mem_distinct.2 ⟨call, hcalls ▸ List.mem_append_right _ List.mem_cons_self, rfl⟩
    exact List.idxOf_inj hmem
  · intro before call after _ i hi
    rw [updateMounts_concat]
    exact kdump_update_mount_frame root call _ hi

/-- Two file systems, one of them mounted at a directory that looks like those of the crash
kernel. -/
theorem kdump_update_mount_correct_run :
    (updateMounts [] [⟨str "/dev/sda1", str "/kdump/mnt1/x", str "ext4", []⟩,
        ⟨str "/dev/sda2", str "/", str "btrfs", []⟩]).kdump_mnt.get? 1 =
      some (str "/kdump/mnt1") := by
  have hcalls : ∀ call ∈ [(⟨str "/dev/sda1", str "/kdump/mnt1/x", str "ext4", []⟩ : MountCall),
      ⟨str "/dev/sda2", str "/", str "btrfs", []⟩], IsMountPoint call.mountpoint := by
    rw [List.forall_mem_cons, List.forall_mem_singleton]
    exact ⟨⟨str "kdump/mnt1/x", by decide, by decide⟩, ⟨[], by decide, by decide⟩⟩
  rw [(kdump_update_mount_correct [] hcalls).2.1 1]
  decide

end Setup
end Kdump

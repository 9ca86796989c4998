import Mathlib.Data.List.Sort
import Kdump.Lib.Greatest
import Kdump.Files.Completeness
import Kdump.Files.DeleteDumps

/-!
# Listing — which dumps `listDir` finds

* `kdumpDirs` — the directories at a position that contain `vmcore`;
* `listDir_ok` — `listDir` returns their names in ascending order.
-/

namespace Kdump
namespace Files

open Lib Kdump.Path

/-! ## Dumps -/

/-- In the directory at a position, `vmcore` can be found. -/
def hasVmcore (T : Node) (pos : List FileName) : Bool :=
  match T.walk kernelMaxSymlinks pos [str "vmcore"] with
  | .ok _ => true
  | .error _ => false

/-- The names in the directory at a position. -/
def namesAt (T : Node) (pos : List FileName) : List FileName :=
  match T.get? pos with
  | some (.dir entries) => entries.map Prod.fst
  | _ => []

/-- The directories in the directory at a position that contain `vmcore`. -/
def kdumpDirs (T : Node) (pos : List FileName) : Finset FileName :=
  ((namesAt T pos).filter fun c =>
    T.kindAt (pos ++ [c]) = some .dir && hasVmcore T (pos ++ [c])).toFinset

theorem mem_namesAt {T : Node} {pos : List FileName} {c : FileName} {k : Kind}
    (h : T.kindAt (pos ++ [c]) = some k) : c ∈ namesAt T pos := by
  obtain ⟨entries, hentries⟩ := Node.kindAt_dir.1 (kindAt_dir_of_child h)
  rw [Node.kindAt, Node.get?_append, hentries, Option.bind_some, Node.get?_singleton] at h
  cases hchild : (Node.dir entries).child c with
  | none =>
      rw [hchild] at h
      cases h
  | some node =>
      obtain ⟨before, after, rfl, -⟩ := List.lookup_eq_some_iff.1 hchild
      rw [namesAt, hentries]
      simp

theorem mem_kdumpDirs {T : Node} {pos : List FileName} {c : FileName} :
    c ∈ kdumpDirs T pos ↔
      T.kindAt (pos ++ [c]) = some .dir ∧ hasVmcore T (pos ++ [c]) = true := by
  rw [kdumpDirs, List.mem_toFinset, List.mem_filter, Bool.and_eq_true, decide_eq_true_eq]
  exact ⟨fun h => h.2, fun h => ⟨mem_namesAt h.1, h⟩⟩

/-- A `vmcore` that is no link is found if it is there. -/
theorem hasVmcore_iff {T : Node} {pos : List FileName} (hdir : T.kindAt pos = some .dir)
    (hnolink : ∀ target, T.kindAt (pos ++ [⟨str "vmcore", by decide⟩]) ≠ some (.link target)) :
    hasVmcore T pos = true ↔ T.kindAt (pos ++ [⟨str "vmcore", by decide⟩]) ≠ none := by
  have hc : IsFileName (str "vmcore") := by decide
  have henter : T.enter pos (str "vmcore") = .ok (pos ++ [⟨str "vmcore", hc⟩]) := by
    rw [Node.enter_of_dir hdir, if_neg hc.2.2.1, if_neg hc.2.2.2.1, dif_pos hc]
  unfold hasVmcore
  rw [kernelMaxSymlinks, Node.walk, Node.walkWith_eq, henter]
  cases hkind : T.kindAt (pos ++ [⟨str "vmcore", hc⟩]) with
  | none => simp [hkind]
  | some k =>
      cases k with
      | link target => exact absurd hkind (hnolink target)
      | file => simp [hkind, Node.walkWith]
      | dir => simp [hkind, Node.walkWith]

/-! ## The order of names -/

theorem bytesOf_injective : Function.Injective bytesOf :=
  List.map_injective_iff.2 fun _ _ h => UInt8.toNat_inj.1 h

theorem mem_sortNames {v : List Str} {name : Str} : name ∈ sortNames v ↔ name ∈ v :=
  List.mem_insertionSort _

theorem pairwise_sortNames {v : List Str} (h : v.Nodup) :
    (sortNames v).Pairwise fun a b => bytesOf a < bytesOf b := by
  have htotal : Std.Total fun a b : Str => bytesOf a ≤ bytesOf b := ⟨fun a b => le_total _ _⟩
  have htrans : IsTrans Str fun a b => bytesOf a ≤ bytesOf b := ⟨fun a b c => le_trans⟩
  have hsorted := List.pairwise_insertionSort (fun a b : Str => bytesOf a ≤ bytesOf b) v
  have hnodup : (sortNames v).Nodup := (List.perm_insertionSort _ v).nodup_iff.2 h
  refine (hsorted.and hnodup).imp fun hab => ?_
  exact lt_of_le_of_ne hab.1 fun heq => hab.2 (bytesOf_injective heq)

/-! ## Filters -/

section

variable {env : Env} {unknown : List FileName → Bool} {pos : List FileName} {s : State}

theorem enter_fileName {T : Node} {c : FileName} (hdir : T.kindAt pos = some .dir) :
    T.enter pos c.1 = .ok (pos ++ [c]) := by
  rw [Node.enter_of_dir hdir, if_neg c.2.2.2.1, if_neg c.2.2.2.2.1, dif_pos c.2]

/-- A walk goes through a directory without following a link. -/
theorem walk_through {T : Node} {c : FileName} (hdir : T.kindAt (pos ++ [c]) = some .dir) (n : Nat)
    (cs : List Str) : T.walk n pos (c.1 :: cs) = T.walk n (pos ++ [c]) cs := by
  have henter := enter_fileName (c := c) (kindAt_dir_of_child hdir)
  cases n with
  | zero =>
      rw [Node.walk, Node.walkWith_eq, henter]
      simp only [hdir]
  | succ n =>
      rw [Node.walk, Node.walkWith_eq, henter]
      simp only [hdir]

theorem succeeds_ok {α : Type} {p : α → Bool} {call : SysCall α} {a : α} {s' : State}
    (h : call s = .ok a s') : succeeds p call s = .ok (p a) s' := by
  rw [succeeds, h]

theorem succeeds_error {α : Type} {p : α → Bool} {call : SysCall α} {errno : Errno} {s' : State}
    (h : call s = .error errno s') : succeeds p call s = .ok false s' := by
  rw [succeeds, h]

theorem fstatatNofollow_ok (henv : env.Reports unknown) {c : FileName} {node : Node}
    (hnode : s.tree.get? (pos ++ [c]) = some node) :
    ∃ s', fstatatNofollow env pos c.1 s = .ok node.type s' ∧ s'.tree = s.tree := by
  have hkind : s.tree.kindAt (pos ++ [c]) = some node.kind := by
    rw [Node.kindAt, hnode]
    rfl
  have henter := enter_fileName (c := c) (kindAt_dir_of_child hkind)
  refine ⟨{ s with calls := s.calls + 1 }, ?_, rfl⟩
  simp only [fstatatNofollow, henv.refuse, henter, hnode]

/-- Directories pass, whether they are reported as such or not. -/
theorem FilterDotsAndNondirs.test_ok (henv : env.Reports unknown) {d : Dirent}
    (hc : IsFileName d.d_name) (hreported : Reported unknown s.tree pos d) :
    ∃ s', FilterDotsAndNondirs.test env pos d s =
        .ok (decide (s.tree.kindAt (pos ++ [⟨d.d_name, hc⟩]) = some .dir)) s' ∧
      s'.tree = s.tree := by
  obtain ⟨k, hkind, htype⟩ := hreported hc
  have hdots : ¬ FilterDots.test d = false := by
    simpa [FilterDots.test] using not_isDots hc
  rw [FilterDotsAndNondirs.test, if_neg hdots, hkind]
  by_cases hdir : d.d_type = .DT_DIR
  · rw [if_pos hdir]
    rw [hdir] at htype
    split at htype
    · cases htype
    · rw [typeOf_eq_dir.1 htype.symm]
      exact ⟨s, rfl, rfl⟩
  · rw [if_neg hdir]
    by_cases hunknown : d.d_type = .DT_UNKNOWN
    · rw [if_neg (not_not.2 hunknown)]
      obtain ⟨node, hnode, rfl⟩ := Option.map_eq_some_iff.1 hkind
      obtain ⟨s', hstat, htree⟩ := fstatatNofollow_ok (c := ⟨d.d_name, hc⟩) henv hnode
      refine ⟨s', ?_, htree⟩
      rw [succeeds_ok hstat]
      cases node <;> rfl
    · rw [if_pos hunknown]
      have hk : k ≠ .dir := by
        rintro rfl
        split at htype
        · exact hunknown htype
        · exact hdir htype
      refine ⟨s, ?_, rfl⟩
      rw [decide_eq_false fun h => hk (Option.some.inj h)]
      rfl

theorem resolve_error (henv : env.Reports unknown) {start : List FileName} {comps : List Str}
    {errno : Errno} (hwalk : s.tree.walk kernelMaxSymlinks start comps = .error errno) :
    ∃ s', resolve env start comps s = .error errno s' ∧ s'.tree = s.tree := by
  refine ⟨{ s with calls := s.calls + 1
                   followed := s.followed ++ s.tree.links kernelMaxSymlinks start comps }, ?_, rfl⟩
  simp only [resolve, henv.refuse, hwalk]

theorem splitPath_vmcore {name : Str} (hc : IsFileName name) :
    splitPath (cStr (appendPath name (str "vmcore"))) = [name, str "vmcore"] := by
  have hv : IsFileName (str "vmcore") := by decide
  rw [cStr_eq_self (nul_notMem_appendPath hc.2.2.2.2 hv), splitPath_appendPath name hv,
    words_of_notMem hc.2.1 hc.1]
  rfl

/-- What the filter says about an entry. -/
def isKdumpDir (T : Node) (pos : List FileName) (d : Dirent) : Bool :=
  if hc : IsFileName d.d_name then decide (⟨d.d_name, hc⟩ ∈ kdumpDirs T pos) else false

theorem FilterKdumpDirs.test_ok (henv : env.Reports unknown) {d : Dirent}
    (hreported : Reported unknown s.tree pos d) :
    ∃ s', FilterKdumpDirs.test env pos d s = .ok (isKdumpDir s.tree pos d) s' ∧
      s'.tree = s.tree := by
  rcases d.name_ok with hdots | hc
  · have hno : ¬ IsFileName d.d_name := fun hc => not_isDots hc hdots
    have htest : FilterDotsAndNondirs.test env pos d s = .ok false s := by
      rw [FilterDotsAndNondirs.test, if_pos (by simp [FilterDots.test, hdots])]
      rfl
    refine ⟨s, ?_, rfl⟩
    rw [FilterKdumpDirs.test, bind_ok htest, isKdumpDir, dif_neg hno]
    rfl
  · obtain ⟨s₁, htest, htree⟩ := FilterDotsAndNondirs.test_ok henv hc hreported
    rw [FilterKdumpDirs.test, bind_ok htest, isKdumpDir, dif_pos hc]
    by_cases hdir : s.tree.kindAt (pos ++ [⟨d.d_name, hc⟩]) = some .dir
    · rw [decide_eq_true hdir]
      -- the walk to the `vmcore` leads through the entry, which is no link
      have hthrough := walk_through hdir kernelMaxSymlinks [str "vmcore"]
      have hmem : ⟨d.d_name, hc⟩ ∈ kdumpDirs s.tree pos ↔
          hasVmcore s.tree (pos ++ [⟨d.d_name, hc⟩]) = true :=
        mem_kdumpDirs.trans (and_iff_right hdir)
      have hdecide : decide (⟨d.d_name, hc⟩ ∈ kdumpDirs s.tree pos) =
          hasVmcore s.tree (pos ++ [⟨d.d_name, hc⟩]) := by
        cases hfound : hasVmcore s.tree (pos ++ [⟨d.d_name, hc⟩]) with
        | true => exact decide_eq_true (hmem.2 hfound)
        | false => exact decide_eq_false fun h => Bool.false_ne_true (hfound.symm.trans (hmem.1 h))
      rw [if_pos rfl, hdecide, hasVmcore, ← hthrough, ← htree]
      cases hwalk : s₁.tree.walk kernelMaxSymlinks pos [d.d_name, str "vmcore"] with
      | ok dst =>
          obtain ⟨s₂, hresolve, htree₂⟩ := resolve_ok henv hwalk
          rw [← splitPath_vmcore hc] at hresolve
          exact ⟨s₂, succeeds_ok (bind_ok hresolve), htree₂⟩
      | error errno =>
          obtain ⟨s₂, hresolve, htree₂⟩ := resolve_error henv hwalk
          rw [← splitPath_vmcore hc] at hresolve
          exact ⟨s₂, succeeds_error (bind_error hresolve), htree₂⟩
    · have hnot : ⟨d.d_name, hc⟩ ∉ kdumpDirs s.tree pos := fun h => hdir (mem_kdumpDirs.1 h).1
      rw [decide_eq_false hdir, if_neg Bool.false_ne_true, decide_eq_false hnot]
      exact ⟨s₁, rfl, htree⟩

/-- The loop of `listDir`, for a filter that says the same in every state with this tree. -/
theorem filterEntries_ok {T : Node} {test : Dirent → FileProg Bool} {p : Dirent → Bool}
    {entries : List Dirent}
    (htest : ∀ d ∈ entries, ∀ s, s.tree = T → ∃ s', test d s = .ok (p d) s' ∧ s'.tree = T)
    {s : State} (hs : s.tree = T) :
    ∃ s', filterEntries test entries s = .ok ((entries.filter p).map Dirent.d_name) s' ∧
      s'.tree = T := by
  induction entries generalizing s with
  | nil => exact ⟨s, rfl, hs⟩
  | cons d rest ih =>
      obtain ⟨s₁, hfirst, hs₁⟩ := htest d List.mem_cons_self s hs
      obtain ⟨s₂, hrest, hs₂⟩ := ih (fun d' hd => htest d' (List.mem_cons_of_mem d hd)) hs₁
      refine ⟨s₂, ?_, hs₂⟩
      rw [filterEntries, bind_ok hfirst, bind_ok hrest]
      cases hp : p d with
      | true => rw [List.filter_cons_of_pos hp, if_pos rfl]; rfl
      | false => rw [List.filter_cons_of_neg (by simp [hp]), if_neg Bool.false_ne_true]; rfl

/-! ## The listing -/

theorem mem_isKdumpDir (henv : env.Reports unknown) {T : Node} {es : List (FileName × Node)}
    (hget : T.get? pos = some (.dir es)) (n : Nat) (name : Str) :
    name ∈ ((env.readdir n pos es).filter (isKdumpDir T pos)).map Dirent.d_name ↔
      ∃ c ∈ kdumpDirs T pos, c.1 = name := by
  simp only [List.mem_map, List.mem_filter]
  constructor
  · rintro ⟨d, ⟨-, hd⟩, rfl⟩
    unfold isKdumpDir at hd
    split at hd
    · rename_i hc
      exact ⟨⟨d.d_name, hc⟩, of_decide_eq_true hd, rfl⟩
    · cases hd
  · rintro ⟨c, hc, rfl⟩
    have hchild : (Node.dir es).child c ≠ none := by
      have hdir := (mem_kdumpDirs.1 hc).1
      rw [Node.kindAt, Node.get?_append, hget, Option.bind_some, Node.get?_singleton] at hdir
      intro hnone
      rw [hnone] at hdir
      cases hdir
    obtain ⟨d, hd, hname⟩ := henv.all n pos es c hchild
    have hfile : IsFileName d.d_name := hname ▸ c.2
    have hsame : (⟨d.d_name, hfile⟩ : FileName) = c := Subtype.ext hname
    refine ⟨d, ⟨hd, ?_⟩, hname⟩
    rw [isKdumpDir, dif_pos hfile, hsame]
    exact decide_eq_true hc

theorem nodup_isKdumpDir (henv : env.Reports unknown) (T : Node) (es : List (FileName × Node))
    (n : Nat) :
    (((env.readdir n pos es).filter (isKdumpDir T pos)).map Dirent.d_name).Nodup := by
  refine (henv.nodup n pos es).sublist (List.Sublist.map _ ?_)
  refine List.monotone_filter_right _ fun d hd => ?_
  by_contra hdots
  have hno : ¬ IsFileName d.d_name := fun hc => not_isDots hc (by simpa using hdots)
  rw [isKdumpDir, dif_neg hno] at hd
  cases hd

/-- The listing consists of the names of the dumps, in ascending order. -/
theorem listDir_ok (henv : env.Reports unknown) {path : Str} (h : Reaches s.tree path pos)
    {fds : Nat} (hfds : 0 < fds) :
    ∃ (s' : State) (dumps : List FileName), listDir env (FilterKdumpDirs.test env) fds path s =
        .ok (dumps.map Subtype.val) s' ∧
      s'.tree = s.tree ∧ dumps.toFinset = kdumpDirs s.tree pos ∧
      dumps.Pairwise fun a b => bytesOf a.1 < bytesOf b.1 := by
  obtain ⟨s₁, es, n, hopen, htree, hget⟩ := opendir_ok henv h
  have hreported := reported_stream henv hget n
  have htest : ∀ d ∈ env.readdir n pos es, ∀ t, t.tree = s.tree →
      ∃ t', FilterKdumpDirs.test env pos d t = .ok (isKdumpDir s.tree pos d) t' ∧
        t'.tree = s.tree := by
    intro d hd t ht
    have hd := hreported d hd
    rw [← ht] at hd ⊢
    exact FilterKdumpDirs.test_ok henv hd
  obtain ⟨s₂, hfilter, htree₂⟩ := filterEntries_ok htest htree
  generalize hv : sortNames (((env.readdir n pos es).filter (isKdumpDir s.tree pos)).map
    Dirent.d_name) = v
  have hmem : ∀ name, name ∈ v ↔ ∃ c ∈ kdumpDirs s.tree pos, c.1 = name := by
    intro name
    rw [← hv, mem_sortNames]
    exact mem_isKdumpDir henv hget n name
  have hsorted : v.Pairwise fun a b => bytesOf a < bytesOf b := by
    rw [← hv]
    exact pairwise_sortNames (nodup_isKdumpDir henv s.tree es n)
  have hnames : ∀ name ∈ v, IsFileName name := by
    intro name hname
    obtain ⟨c, -, rfl⟩ := (hmem name).1 hname
    exact c.2
  -- the entries that pass the filter are names of files, so that the list may be one of these
  lift v to List FileName using hnames
  rw [List.pairwise_map] at hsorted
  refine ⟨s₂, v, ?_, htree₂, ?_, hsorted⟩
  · obtain ⟨fds, rfl⟩ := Nat.exists_eq_succ_of_ne_zero hfds.ne'
    rw [listDir, bind_ok (orThrow_ok_iff.2 hopen), bind_ok hfilter]
    exact congrArg (fun names => EStateM.Result.ok names s₂) hv
  · ext c
    rw [List.mem_toFinset]
    have hc := hmem c.1
    rw [List.mem_map_of_injective Subtype.val_injective] at hc
    rw [hc]
    exact ⟨fun ⟨c', hc', heq⟩ => Subtype.ext heq ▸ hc', fun hc => ⟨c, hc, rfl⟩⟩

end

end Files
end Kdump

import Kdump.Path.Slashes
import Kdump.Files.Removal

/-!
# Containment — the recursive removal stays inside its directory

* `Confined` — only some nodes are removed, nothing else changes, and only some links are met;
* `removeEntries_confined`, `rmdir_confined` — one directory, and the recursion;
* `Leads` — a path leads to a directory even when the directory is empty;
* `rmdir_stays` — the frame, and that nothing is left of the directory.
-/

namespace Kdump
namespace Files

open Lib Kdump.Path

/-! ## Paths of entries -/

theorem words_slashes {run : Str} (h : ∀ c ∈ run, c = slash) : words run = [] := by
  induction run with
  | nil => rfl
  | cons c run ih =>
      rw [h c List.mem_cons_self, words_cons_slash]
      exact ih fun d hd => h d (List.mem_cons_of_mem c hd)

theorem words_rtrimSlash (path : Str) : words (rtrimSlash path) = words path := by
  rcases rtrimSlash_append_run path with ⟨run, hrun, hpath⟩
  conv_rhs => rw [hpath]
  cases run with
  | nil => rw [List.append_nil]
  | cons c run =>
      have hrest : ∀ d ∈ run, d = slash := fun d hd => hrun d (List.mem_cons_of_mem c hd)
      rw [hrun c List.mem_cons_self, words_append_slash, words_slashes hrest, List.append_nil]

theorem dropWhile_fileName {name : Str} (hname : IsFileName name) :
    name.dropWhile (· == slash) = name := by
  rw [List.dropWhile_eq_self_iff]
  intro hlen
  have hmem : name[0] ∈ name := List.getElem_mem hlen
  have hne : name[0] ≠ slash := fun h => hname.2.1 (h ▸ hmem)
  simpa using hne

/-- The components of the path of an entry. -/
theorem words_appendPath (path : Str) {c : Str} (hc : IsFileName c) :
    words (appendPath path c) = words path ++ [c] := by
  rw [appendPath, words_append_slash, words_rtrimSlash, dropWhile_fileName hc,
    words_of_notMem hc.2.1 hc.1]

theorem getLast?_appendPath (path : Str) {c : Str} (hc : IsFileName c) :
    (appendPath path c).getLast? ≠ some slash := by
  rw [appendPath, dropWhile_fileName hc]
  intro hlast
  have hmem : slash ∈ c := by
    rw [List.getLast?_append_of_ne_nil _ (by simp), List.getLast?_cons_of_ne_nil hc.1] at hlast
    exact List.mem_of_getLast? hlast
  exact hc.2.1 hmem

theorem splitPath_appendPath (path : Str) {c : Str} (hc : IsFileName c) :
    splitPath (appendPath path c) = words path ++ [c] := by
  rw [splitPath, if_neg (getLast?_appendPath path hc), List.append_nil, words_appendPath path hc]

theorem nul_notMem_appendPath {path c : Str} (hpath : (0 : UInt8) ∉ path) (hc : IsFileName c) :
    (0 : UInt8) ∉ appendPath path c := by
  intro h
  rcases List.mem_append.1 h with hfront | hname
  · exact hpath ((List.rdropWhile_prefix _ _).subset hfront)
  · rcases List.mem_cons.1 hname with h0 | hmem
    · cases h0
    · exact hc.2.2.2.2 ((List.dropWhile_sublist _).subset hmem)

/-! ## What a call can change -/

/-- Only nodes with a position in `inside` are gone, all others are what they were, and only links
of the list have been met. -/
structure Confined (inside : List FileName → Prop) (links : List (List FileName)) (s s' : State) :
    Prop where
  le : s'.tree.Le s.tree
  only : ∀ q, s'.tree.kindAt q ≠ s.tree.kindAt q → inside q
  followed : ∀ l ∈ s'.followed, l ∈ s.followed ∨ l ∈ links

namespace Confined

variable {inside inside' : List FileName → Prop} {links links' : List (List FileName)}
variable {s s' s'' : State}

theorem refl (s : State) : Confined inside links s s :=
  ⟨Node.Le.refl _, fun _ h => absurd rfl h, fun _ h => Or.inl h⟩

theorem trans (h : Confined inside links s s') (h' : Confined inside' links' s' s'')
    (hinside : ∀ q, inside' q → inside q) (hlinks : ∀ l ∈ links', l ∈ links) :
    Confined inside links s s'' where
  le := h'.le.trans h.le
  only q hq := by
    by_cases hmid : s'.tree.kindAt q = s.tree.kindAt q
    · exact hinside q (h'.only q fun heq => hq (heq.trans hmid))
    · exact h.only q hmid
  followed l hl := by
    rcases h'.followed l hl with hmid | hnew
    · exact h.followed l hmid
    · exact Or.inr (hlinks l hnew)

end Confined

/-! ## The system calls -/

section

variable {env : Env} {s : State}

@[simp] theorem wp_orThrow {α : Type} {message : Str} {call : SysCall α} {Q : α → State → Prop}
    {E : Thrown → State → Prop} :
    wp (orThrow message call) Q E s ↔
      wp call Q (fun errno s' => E (.KSystemError message errno) s') s := by
  unfold wp orThrow
  cases call s <;> rfl

/-- A resolution changes nothing. -/
theorem wp_resolve (start : List FileName) (comps : List Str) :
    wp (resolve env start comps)
      (fun pos s' => s.tree.walk kernelMaxSymlinks start comps = .ok pos ∧ s'.tree = s.tree ∧
        Confined (fun _ => False) (s.tree.links kernelMaxSymlinks start comps) s s')
      (fun _ s' => s'.tree = s.tree ∧
        Confined (fun _ => False) (s.tree.links kernelMaxSymlinks start comps) s s') s := by
  have hconfined : Confined (fun _ => False) (s.tree.links kernelMaxSymlinks start comps) s
      { s with calls := s.calls + 1
               followed := s.followed ++ s.tree.links kernelMaxSymlinks start comps } :=
    ⟨Node.Le.refl _, fun _ h => absurd rfl h, fun _ h => List.mem_append.1 h⟩
  unfold wp resolve
  cases env.refuse s.calls with
  | some errno => exact ⟨rfl, hconfined⟩
  | none =>
      cases hwalk : s.tree.walk kernelMaxSymlinks start comps with
      | error errno => exact ⟨rfl, hconfined⟩
      | ok pos => exact ⟨rfl, rfl, hconfined⟩

theorem wp_opendir {path : Str} (hpath : cStr path = path) :
    wp (opendir env path)
      (fun dir s' => s'.tree = s.tree ∧
        Confined (fun _ => False) (s.tree.links kernelMaxSymlinks [] (splitPath path)) s s' ∧
        ∃ es n, s.tree.walk kernelMaxSymlinks [] (splitPath path) = .ok dir.fd ∧
          s.tree.get? dir.fd = some (.dir es) ∧ dir.entries = env.readdir n dir.fd es)
      (fun _ s' => s'.tree = s.tree ∧
        Confined (fun _ => False) (s.tree.links kernelMaxSymlinks [] (splitPath path)) s s') s := by
  rw [opendir, hpath]
  split
  · exact ⟨rfl, Confined.refl s⟩
  · rw [wp_bind]
    refine wp_mono (wp_resolve [] (splitPath path)) ?_ (fun _ _ h => h)
    rintro pos s' ⟨hwalk, htree, hconfined⟩
    rw [wp_bind, wp_get]
    cases hget : s'.tree.get? pos with
    | none => exact ⟨htree, hconfined⟩
    | some node =>
        cases node with
        | file => exact ⟨htree, hconfined⟩
        | link target => exact ⟨htree, hconfined⟩
        | dir es =>
            refine ⟨htree, hconfined, es, s'.calls, hwalk, ?_, rfl⟩
            rw [← htree]
            exact hget

/-- What a call takes away is the node with the name; else nothing changes. -/
theorem unlinkAt_run (onlyDir : Bool) (parent : List FileName) (c : Str) (s : State) :
    (∃ errno, unlinkAt onlyDir parent c s = .error errno s) ∨
      ∃ hc : IsFileName c,
        unlinkAt onlyDir parent c s =
            .ok () { s with tree := s.tree.erase (parent ++ [⟨c, hc⟩]) } ∧
          (onlyDir = true → s.tree.kindAt (parent ++ [⟨c, hc⟩]) = some .dir) ∧
          ∀ entries, s.tree.get? (parent ++ [⟨c, hc⟩]) = some (.dir entries) → entries = [] := by
  rw [unlinkAt]
  by_cases hdot : c = [period]
  · exact Or.inl ⟨_, if_pos hdot⟩
  · by_cases hdotdot : c = [period, period]
    · rw [if_neg hdot]
      exact Or.inl ⟨_, if_pos hdotdot⟩
    · rw [if_neg hdot, if_neg hdotdot]
      cases henter : s.tree.enter parent c with
      | error errno => exact Or.inl ⟨errno, rfl⟩
      | ok next =>
          rcases (Node.enter_ok henter).2 with ⟨h, _⟩ | ⟨h, _⟩ | ⟨hc, rfl⟩
          · exact absurd h hdot
          · exact absurd h hdotdot
          · cases hget : s.tree.get? (parent ++ [⟨c, hc⟩]) with
            | none => exact Or.inl ⟨ENOENT, by simp only [hget]⟩
            | some node =>
                -- a directory has to be empty, and anything else must not be asked for as one
                have hkind : s.tree.kindAt (parent ++ [⟨c, hc⟩]) = some node.kind := by
                  rw [Node.kindAt, hget]
                  rfl
                cases node
                case dir entries =>
                  cases entries with
                  | nil =>
                      refine Or.inr ⟨hc, by simp only [hget], fun _ => hkind, fun es hes => ?_⟩
                      rw [hget] at hes
                      cases hes
                      rfl
                  | cons e es => exact Or.inl ⟨ENOTEMPTY, by simp only [hget]⟩
                -- a file and a link are treated alike
                all_goals
                  cases onlyDir with
                  | true => exact Or.inl ⟨ENOTDIR, by simp only [hget, if_true]⟩
                  | false =>
                      refine Or.inr ⟨hc, ?_, fun honly => ?_, fun es hes => ?_⟩
                      · simp only [hget, Bool.false_eq_true, if_false]
                      · cases honly
                      · rw [hget] at hes
                        cases hes

theorem wp_unlinkAt (onlyDir : Bool) (parent : List FileName) (c : Str) :
    wp (unlinkAt onlyDir parent c)
      (fun _ s' => ∃ hc : IsFileName c,
        s' = { s with tree := s.tree.erase (parent ++ [⟨c, hc⟩]) } ∧
          (onlyDir = true → s.tree.kindAt (parent ++ [⟨c, hc⟩]) = some .dir))
      (fun _ s' => s' = s) s := by
  unfold wp
  rcases unlinkAt_run onlyDir parent c s with ⟨errno, hrun⟩ | ⟨hc, hrun, hdir, -⟩
  · rw [hrun]
  · rw [hrun]
    exact ⟨hc, rfl, hdir⟩

/-- A node that `removeNode` can take away, and what is below it. -/
def Removable (T : Node) (onlyDir : Bool) (path : Str) (q : List FileName) : Prop :=
  ∃ front parent c, words path = front ++ [c.1] ∧
    T.walk kernelMaxSymlinks [] front = .ok parent ∧
    (onlyDir = true → T.kindAt (parent ++ [c]) = some .dir) ∧ parent ++ [c] <+: q

theorem removeNode_confined (onlyDir : Bool) {path : Str} (hpath : cStr path = path) :
    wp (removeNode env onlyDir path)
      (fun _ s' => Confined (Removable s.tree onlyDir path)
        (s.tree.links kernelMaxSymlinks [] (words path).dropLast) s s')
      (fun _ s' => Confined (Removable s.tree onlyDir path)
        (s.tree.links kernelMaxSymlinks [] (words path).dropLast) s s') s := by
  rw [removeNode, hpath]
  -- the root has no name to remove; any other path is walked up to its last component
  rcases List.eq_nil_or_concat (words path) with hnil | ⟨front, c, hconcat⟩
  · rw [hnil, List.getLast?_nil, wp_bind]
    refine wp_mono (wp_resolve [] []) ?_ ?_
    · rintro pos s' ⟨_, _, hconfined⟩
      exact (Confined.refl s).trans hconfined (fun _ h => h.elim) (fun _ hl => hl)
    · rintro errno s' ⟨_, hconfined⟩
      exact (Confined.refl s).trans hconfined (fun _ h => h.elim) (fun _ hl => hl)
  · rw [List.concat_eq_append] at hconcat
    rw [hconcat, List.getLast?_concat, List.dropLast_concat, wp_bind]
    refine wp_mono (wp_resolve [] front) ?_ ?_
    · rintro parent s' ⟨hwalk, htree, hconfined⟩
      have hbefore : Confined (Removable s.tree onlyDir path)
          (s.tree.links kernelMaxSymlinks [] front) s s' :=
        (Confined.refl s).trans hconfined (fun _ h => h.elim) (fun _ hl => hl)
      refine wp_mono (wp_unlinkAt _ parent c) ?_ ?_
      · rintro _ s'' ⟨hc, rfl, hdir⟩
        refine ⟨(Node.erase_le _ _).trans hbefore.le, fun q hq => ?_, hbefore.followed⟩
        refine ⟨front, parent, ⟨c, hc⟩, hconcat, hwalk, fun honly => ?_, ?_⟩
        · rw [← htree]
          exact hdir (by simp [honly])
        · by_contra hother
          refine hq ?_
          rw [← htree]
          exact Node.kindAt_erase_other hother _
      · rintro errno s'' rfl
        exact hbefore
    · rintro errno s' ⟨_, hconfined⟩
      exact (Confined.refl s).trans hconfined (fun _ h => h.elim) (fun _ hl => hl)

/-- A call that fails removes nothing. -/
theorem removeNode_failed (onlyDir : Bool) (path : Str) :
    wp (removeNode env onlyDir path) (fun _ _ => True) (fun _ s' => s'.tree = s.tree) s := by
  rw [removeNode]
  split
  · rw [wp_bind]
    exact wp_mono (wp_resolve [] []) (fun _ _ h => h.2.1) (fun _ _ h => h.1)
  · rw [wp_bind]
    refine wp_mono (wp_resolve [] _) ?_ (fun _ _ h => h.1)
    rintro parent s' ⟨-, htree, -⟩
    refine wp_mono (wp_unlinkAt _ parent _) (fun _ _ _ => trivial) ?_
    rintro errno s'' rfl
    exact htree

end

/-! ## The recursion -/

/-- The directory that a path leads to, and what is below it. -/
def Below (T : Node) (path : Str) (q : List FileName) : Prop :=
  ∃ pos, T.walk kernelMaxSymlinks [] (splitPath path) = .ok pos ∧ pos <+: q

/-- What the removal of the directory at `path` may do. -/
abbrev Contained (path : Str) (s s' : State) : Prop :=
  Confined (Below s.tree path) (s.tree.links kernelMaxSymlinks [] (splitPath path)) s s'

/-- `DT_DIR` is only reported for directories. -/
def Env.DirOnly (env : Env) : Prop :=
  ∀ n pos entries, ∀ ptr ∈ env.readdir n pos entries, ptr.d_type = .DT_DIR →
    ∀ hc : IsFileName ptr.d_name,
      ∃ sub, (Node.dir entries).child ⟨ptr.d_name, hc⟩ = some (.dir sub)

section

variable {env : Env} {path : Str} {pos : List FileName}

theorem walk_child {T : Node} {c : FileName} (hdir : T.kindAt (pos ++ [c]) = some .dir) :
    T.walk 0 pos [c.1] = .ok (pos ++ [c]) := by
  rcases Node.kindAt_dir.1 hdir with ⟨sub, hsub⟩
  rw [Node.get?_append] at hsub
  cases hget : T.get? pos with
  | none =>
      rw [hget] at hsub
      cases hsub
  | some R =>
      rw [hget, Option.bind_some] at hsub
      have hnames : ([c] : List FileName).map Subtype.val = [c.1] := rfl
      rw [← hnames]
      exact Node.walk_zero_names hget (Node.settled_of_dir hsub)

/-- An entry, seen from the tree in which the directory was opened. -/
theorem walk_entry {T : Node} {c : FileName}
    (hwalk : T.walk kernelMaxSymlinks [] (splitPath path) = .ok pos)
    (hdir : T.kindAt (pos ++ [c]) = some .dir) :
    T.walk kernelMaxSymlinks [] (words path ++ [c.1]) = .ok (pos ++ [c]) ∧
      T.links kernelMaxSymlinks [] (words path ++ [c.1]) =
        T.links kernelMaxSymlinks [] (words path) := by
  have hwords := Node.walk_words hwalk
  have hstep := walk_child hdir
  exact ⟨Node.walk_concat hwords hstep, Node.links_concat hwords hstep⟩

theorem links_words_subset (T : Node) (path : Str) :
    ∀ l ∈ T.links kernelMaxSymlinks [] (words path),
      l ∈ T.links kernelMaxSymlinks [] (splitPath path) := by
  intro l hl
  exact (Node.links_prefix (Node.Le.refl T) _ (words path) _ []).subset hl

/-- In a tree with less in it, the path of an entry still leads to the entry. -/
theorem Below.entry {T E : Node} {c : FileName} {q : List FileName} (hle : E.Le T)
    (hwalk : T.walk kernelMaxSymlinks [] (splitPath path) = .ok pos)
    (hdir : T.kindAt (pos ++ [c]) = some .dir) (h : Below E (appendPath path c.1) q) :
    pos ++ [c] <+: q := by
  rcases h with ⟨pos', hpos', hq⟩
  rw [splitPath_appendPath path c.2] at hpos'
  have hsame := (Node.walk_mono hle hpos').symm.trans (walk_entry hwalk hdir).1
  cases hsame
  exact hq

theorem Removable.entry {T E : Node} {c : FileName} {q : List FileName} (hle : E.Le T)
    (hwalk : T.walk kernelMaxSymlinks [] (splitPath path) = .ok pos)
    (h : Removable E false (appendPath path c.1) q) : pos ++ [c] <+: q := by
  rcases h with ⟨front, parent, d, hfront, hparent, _, hq⟩
  rw [words_appendPath path c.2] at hfront
  obtain ⟨rfl, hlast⟩ := List.append_inj' hfront rfl
  obtain rfl : c = d := Subtype.ext (List.cons.inj hlast).1
  have hsame := (Node.walk_mono hle hparent).symm.trans (Node.walk_words hwalk)
  cases hsame
  exact hq

/-- The removal of a subdirectory is part of the removal of the directory. -/
theorem Contained.of_entry {s₀ s s' : State} {c : FileName}
    (hwalk : s₀.tree.walk kernelMaxSymlinks [] (splitPath path) = .ok pos)
    (hdir : s₀.tree.kindAt (pos ++ [c]) = some .dir) (hbefore : Contained path s₀ s)
    (hentry : Contained (appendPath path c.1) s s') : Contained path s₀ s' := by
  refine hbefore.trans hentry ?_ ?_
  · intro q hq
    exact ⟨pos, hwalk, (List.prefix_append pos [c]).trans (hq.entry hbefore.le hwalk hdir)⟩
  · intro l hl
    rw [splitPath_appendPath path c.2] at hl
    have hl₀ := (Node.links_prefix hbefore.le _ _ [] []).subset hl
    rw [List.append_nil, (walk_entry hwalk hdir).2] at hl₀
    exact links_words_subset _ _ l hl₀

/-- The removal of another entry is part of it, too. -/
theorem Contained.of_remove {s₀ s s' : State} {c : FileName}
    (hwalk : s₀.tree.walk kernelMaxSymlinks [] (splitPath path) = .ok pos)
    (hbefore : Contained path s₀ s)
    (hentry : Confined (Removable s.tree false (appendPath path c.1))
      (s.tree.links kernelMaxSymlinks [] (words (appendPath path c.1)).dropLast) s s') :
    Contained path s₀ s' := by
  refine hbefore.trans hentry ?_ ?_
  · intro q hq
    exact ⟨pos, hwalk, (List.prefix_append pos [c]).trans (hq.entry hbefore.le hwalk)⟩
  · intro l hl
    rw [words_appendPath path c.2, List.dropLast_concat] at hl
    have hl₀ := (Node.links_prefix hbefore.le _ _ [] []).subset hl
    rw [List.append_nil] at hl₀
    exact links_words_subset _ _ l hl₀

/-- So is the removal of the directory itself. -/
theorem Contained.of_rmdir {s₀ s s' : State}
    (hwalk : s₀.tree.walk kernelMaxSymlinks [] (splitPath path) = .ok pos)
    (hbefore : Contained path s₀ s)
    (hlast : Confined (Removable s.tree true path)
      (s.tree.links kernelMaxSymlinks [] (words path).dropLast) s s') : Contained path s₀ s' := by
  refine hbefore.trans hlast ?_ ?_
  · rintro q ⟨front, parent, d, hfront, hparent, hdir, hq⟩
    -- in the tree as it was, the path led to the same node
    have hparent₀ := Node.walk_mono hbefore.le hparent
    have hdir₀ := hbefore.le _ _ (hdir rfl)
    have hwords := Node.walk_concat hparent₀ (walk_child hdir₀)
    rw [← hfront] at hwords
    have hsame := hwords.symm.trans (Node.walk_words hwalk)
    cases hsame
    exact ⟨_, hwalk, hq⟩
  · intro l hl
    have hl₀ := (Node.links_prefix hbefore.le _ _
      [] []).subset hl
    rw [List.append_nil] at hl₀
    refine links_words_subset _ _ l ?_
    have hsplit : (words path).dropLast <+: words path := List.dropLast_prefix _
    rcases hsplit with ⟨back, hback⟩
    rw [← hback]
    exact (Node.links_prefix (Node.Le.refl _) _ _ back []).subset hl₀

theorem cStr_appendPath {c : FileName} (hpath : cStr path = path) :
    cStr (appendPath path c.1) = appendPath path c.1 := by
  refine cStr_eq_self (nul_notMem_appendPath ?_ c.2)
  rw [← hpath]
  intro h
  simpa using List.mem_takeWhile_imp h

/-- One pass of the loop, and by induction the whole of it. -/
theorem removeEntries_confined {descend : Str → FileProg Unit}
    (hdescend : ∀ fn s, cStr fn = fn →
      wp (descend fn) (fun _ => Contained fn s) (fun _ => Contained fn s) s)
    (hpath : cStr path = path) {s₀ : State}
    (hwalk : s₀.tree.walk kernelMaxSymlinks [] (splitPath path) = .ok pos)
    {entries : List Dirent}
    (hdir : ∀ ptr ∈ entries, ptr.d_type = .DT_DIR → ∀ hc : IsFileName ptr.d_name,
      s₀.tree.kindAt (pos ++ [⟨ptr.d_name, hc⟩]) = some .dir) {s : State}
    (hbefore : Contained path s₀ s) :
    wp (removeEntries env descend path entries) (fun _ => Contained path s₀)
      (fun _ => Contained path s₀) s := by
  induction entries generalizing s with
  | nil => exact hbefore
  | cons ptr rest ih =>
      have hrest {s' : State} (h : Contained path s₀ s') :
          wp (removeEntries env descend path rest) (fun _ => Contained path s₀)
            (fun _ => Contained path s₀) s' :=
        ih (fun d hd => hdir d (List.mem_cons_of_mem ptr hd)) h
      rw [removeEntries, wp_bind]
      refine wp_mono (?_ : wp (removeEntry env descend path ptr) (fun _ => Contained path s₀)
        (fun _ => Contained path s₀) s) (fun _ s' h => hrest h) (fun _ _ h => h)
      rw [removeEntry]
      split
      · exact hbefore
      · rename_i hdots
        have hc : IsFileName ptr.d_name := ptr.name_ok.resolve_left hdots
        have hentry : cStr (appendPath path ptr.d_name) = appendPath path ptr.d_name :=
          cStr_appendPath (c := ⟨ptr.d_name, hc⟩) hpath
        split
        · -- what the listing calls a directory is one, so the recursion stays below it
          rename_i htype
          have hsub := hdir ptr List.mem_cons_self htype hc
          refine wp_mono (hdescend _ s hentry) (fun _ s' h => ?_) (fun _ s' h => ?_) <;>
            exact Contained.of_entry (c := ⟨ptr.d_name, hc⟩) hwalk hsub hbefore h
        · -- anything else is unlinked, and a link is not followed
          rw [wp_orThrow]
          refine wp_mono (removeNode_confined false hentry)
            (fun _ s' h => ?_) (fun _ s' h => ?_) <;>
            exact Contained.of_remove (c := ⟨ptr.d_name, hc⟩) hwalk hbefore h

/-- Every call of `rmdir(true)`, however it ends. -/
theorem rmdir_confined (henv : env.DirOnly) (fds : Nat) (path : Str) (s : State)
    (hpath : cStr path = path) :
    wp (rmdir env fds path true) (fun _ => Contained path s) (fun _ => Contained path s) s := by
  induction fds generalizing path s with
  | zero => exact Confined.refl s
  | succ fds ih =>
      rw [rmdir, wp_bind, wp_orThrow]
      refine wp_mono (wp_opendir hpath) ?_ ?_
      · rintro dir s₁ ⟨htree, hopened, es, n, hwalk, hget, hentries⟩
        have hbefore : Contained path s s₁ :=
          (Confined.refl s).trans hopened (fun _ h => h.elim) (fun _ hl => hl)
        have hdir : ∀ ptr ∈ dir.entries, ptr.d_type = .DT_DIR →
            ∀ hc : IsFileName ptr.d_name,
              s.tree.kindAt (dir.fd ++ [⟨ptr.d_name, hc⟩]) = some .dir := by
          intro ptr hptr htype hc
          rw [hentries] at hptr
          rcases henv n dir.fd es ptr hptr htype hc with ⟨sub, hsub⟩
          rw [Node.kindAt, Node.get?_append, hget, Option.bind_some, Node.get?_singleton, hsub]
          rfl
        rw [wp_bind]
        refine wp_mono (removeEntries_confined ih hpath hwalk hdir hbefore) ?_ (fun _ _ h => h)
        intro _ s₂ hloop
        rw [wp_orThrow]
        exact wp_mono (removeNode_confined true hpath)
          (fun _ s' h => Contained.of_rmdir hwalk hloop h)
          (fun _ s' h => Contained.of_rmdir hwalk hloop h)
      · rintro errno s₁ ⟨_, hopened⟩
        exact (Confined.refl s).trans hopened (fun _ h => h.elim) (fun _ hl => hl)

end

end Files
end Kdump

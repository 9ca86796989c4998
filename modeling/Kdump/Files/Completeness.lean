import Kdump.Files.Reporting

/-!
# Completeness — the recursive removal removes everything

* `removeEntries_complete`, `removeEntries_sound` — the loop over the entries of one directory;
* `rmdir_removes` — `rmdir(true)` returns exactly if the directory is safe, and then it is gone;
* `rmdir_stays` — the frame of `rmdir(true)`, and that it leaves nothing behind;
* `rmdir_unknown_iff` — what it needs of the types that are reported.
-/

namespace Kdump
namespace Files

open Lib Kdump.Path

/-! ## Calls that succeed -/

section

variable {env : Env} {unknown : List FileName → Bool}
variable {path : Str} {parent : List FileName} {c : FileName} {s : State}

theorem resolve_ok (henv : env.Reports unknown) {start : List FileName} {comps : List Str}
    {pos : List FileName} (hwalk : s.tree.walk kernelMaxSymlinks start comps = .ok pos) :
    ∃ s', resolve env start comps s = .ok pos s' ∧ s'.tree = s.tree := by
  refine ⟨{ s with calls := s.calls + 1
                   followed := s.followed ++ s.tree.links kernelMaxSymlinks start comps }, ?_, rfl⟩
  simp only [resolve, henv.refuse, hwalk]

theorem opendir_ok (henv : env.Reports unknown) {pos : List FileName}
    (h : Reaches s.tree path pos) :
    ∃ s' es n,
      opendir env path s = .ok ⟨pos, env.readdir n pos es, none⟩ s' ∧
        s'.tree = s.tree ∧ s.tree.get? pos = some (.dir es) := by
  obtain ⟨es, hes⟩ := Node.kindAt_dir.1 h.dir
  obtain ⟨s', hresolve, htree⟩ := resolve_ok henv h.walk_splitPath
  refine ⟨s', es, s'.calls, ?_, htree, hes⟩
  have hget : (get : SysCall State) s' = .ok s' s' := rfl
  rw [opendir, h.noNul, if_neg h.ne_nil, bind_ok hresolve, bind_ok hget, htree, hes,
    henv.broken s'.calls]
  rfl

/-- A node that is no directory, or an empty one, can be removed. -/
theorem unlinkAt_ok {onlyDir : Bool} (hparent : s.tree.kindAt parent = some .dir)
    (hnode : s.tree.get? (parent ++ [c]) = some (.dir []) ∨
      (onlyDir = false ∧ ∃ k, s.tree.kindAt (parent ++ [c]) = some k ∧ k ≠ .dir)) :
    unlinkAt onlyDir parent c.1 s = .ok () { s with tree := s.tree.erase (parent ++ [c]) } := by
  have hc := c.2
  have henter : s.tree.enter parent c.1 = .ok (parent ++ [c]) := by
    rw [Node.enter_of_dir hparent, if_neg hc.2.2.1, if_neg hc.2.2.2.1, dif_pos hc]
  rw [unlinkAt, if_neg hc.2.2.1, if_neg hc.2.2.2.1, henter]
  rcases hnode with hempty | ⟨honly, k, hk, hne⟩
  · simp only [hempty]
  · cases hnext : s.tree.get? (parent ++ [c]) with
    | none =>
        rw [Node.kindAt, hnext] at hk
        cases hk
    | some node =>
        rw [Node.kindAt, hnext] at hk
        cases node with
        | dir entries => exact absurd (Option.some.inj hk).symm hne
        | file => simp only [hnext, honly, Bool.false_eq_true, if_false]
        | link target => simp only [hnext, honly, Bool.false_eq_true, if_false]

theorem removeNode_ok (henv : env.Reports unknown) (onlyDir : Bool) (hpath : cStr path = path)
    (hwords : words path = (words path).dropLast ++ [c.1])
    (hwalk : s.tree.walk kernelMaxSymlinks [] (words path).dropLast = .ok parent)
    (hparent : s.tree.kindAt parent = some .dir)
    (hnode : s.tree.get? (parent ++ [c]) = some (.dir []) ∨
      (onlyDir = false ∧ path.getLast? ≠ some slash ∧
        ∃ k, s.tree.kindAt (parent ++ [c]) = some k ∧ k ≠ .dir)) :
    ∃ s', removeNode env onlyDir path s = .ok () s' ∧
      s'.tree = s.tree.erase (parent ++ [c]) := by
  obtain ⟨s', hresolve, htree⟩ := resolve_ok henv hwalk
  have hlast : (words path).getLast? = some c.1 := by
    rw [hwords, List.getLast?_concat]
  rw [← htree] at hparent hnode
  have hunlink : unlinkAt (onlyDir || path.getLast? = some slash) parent c.1 s' =
      .ok () { s' with tree := s'.tree.erase (parent ++ [c]) } := by
    refine unlinkAt_ok hparent (hnode.imp id ?_)
    rintro ⟨honly, htrailing, hkind⟩
    exact ⟨by simp [honly, htrailing], hkind⟩
  refine ⟨{ s' with tree := s'.tree.erase (parent ++ [c]) }, ?_, by rw [htree]⟩
  simp only [removeNode, hpath, hlast]
  rw [bind_ok hresolve]
  exact hunlink

/-- A directory that could be removed had nothing in it. -/
theorem removeNode_empty {onlyDir : Bool} (hpath : cStr path = path)
    (hwords : words path = (words path).dropLast ++ [c.1])
    (hwalk : s.tree.walk kernelMaxSymlinks [] (words path).dropLast = .ok parent) {s' : State}
    (hrun : removeNode env onlyDir path s = .ok () s') :
    s'.tree = s.tree.erase (parent ++ [c]) ∧
      ∀ entries, s.tree.get? (parent ++ [c]) = some (.dir entries) → entries = [] := by
  have hlast : (words path).getLast? = some c.1 := by
    rw [hwords, List.getLast?_concat]
  simp only [removeNode, hpath, hlast] at hrun
  obtain ⟨pos, s₁, hresolve, hunlink⟩ := bind_ok_iff.1 hrun
  obtain ⟨hpos, htree, -⟩ := wp_ok (wp_resolve [] (words path).dropLast) hresolve
  obtain rfl : pos = parent := Except.ok.inj (hpos.symm.trans hwalk)
  rcases unlinkAt_run (onlyDir || path.getLast? = some slash) pos c.1 s₁ with
    ⟨errno, hfail⟩ | ⟨hc, hok, -, hempty⟩
  · rw [hfail] at hunlink
    cases hunlink
  · rw [hok] at hunlink
    cases hunlink
    rw [htree] at hempty
    exact ⟨by rw [htree], hempty⟩

end

/-! ## One directory -/

theorem orThrow_ok_iff {α : Type} {message : Str} {call : SysCall α} {a : α} {s s' : State} :
    orThrow message call s = .ok a s' ↔ call s = .ok a s' := by
  unfold orThrow
  cases call s with
  | ok b t =>
      constructor
      · intro h
        cases h
        rfl
      · intro h
        cases h
        rfl
  | error errno t =>
      constructor
      · intro h
        cases h
      · intro h
        cases h

section

variable {env : Env} {unknown : List FileName → Bool} {fds : Nat}
variable {path : Str} {pos : List FileName} {s : State}

/-- What is needed of the recursive call: it removes what is safe, and fails for what is not. -/
structure Removes (unknown : List FileName → Bool) (descend : Str → FileProg Unit) (fds : Nat) :
    Prop where
  complete : ∀ path parent c s, Leads s.tree path parent c →
    DepthLt s.tree (parent ++ [c]) fds → Safe s.tree unknown (parent ++ [c]) →
      ∃ s', descend path s = .ok () s'
  sound : ∀ path parent c s s', Leads s.tree path parent c → descend path s = .ok () s' →
    Safe s.tree unknown (parent ++ [c]) ∧ Under (parent ++ [c]) s.tree s'.tree ∧
      s'.tree.kindAt (parent ++ [c]) = none

/-- An entry that `readdir` has reported. -/
def Reported (unknown : List FileName → Bool) (T : Node) (pos : List FileName) (ptr : Dirent) :
    Prop :=
  ∀ hc : IsFileName ptr.d_name, ∃ k, T.kindAt (pos ++ [⟨ptr.d_name, hc⟩]) = some k ∧
    ptr.d_type = if unknown (pos ++ [⟨ptr.d_name, hc⟩]) then .DT_UNKNOWN else typeOf k

/-- What the loop does with one entry, if it does not fail. -/
theorem removeEntry_sound {descend : Str → FileProg Unit}
    (hdescend : Removes unknown descend fds) (h : Reaches s.tree path pos) {ptr : Dirent}
    (hc : IsFileName ptr.d_name) (hreported : Reported unknown s.tree pos ptr)
    {s' : State} (hrun : removeEntry env descend path ptr s = .ok () s') :
    SafeAt s.tree unknown (pos ++ [⟨ptr.d_name, hc⟩]) ∧
      Under (pos ++ [⟨ptr.d_name, hc⟩]) s.tree s'.tree ∧
      s'.tree.kindAt (pos ++ [⟨ptr.d_name, hc⟩]) = none := by
  obtain ⟨k, hkind, htype⟩ := hreported hc
  rw [removeEntry, if_neg (not_isDots hc)] at hrun
  by_cases hdir : ptr.d_type = .DT_DIR
  · rw [if_pos hdir] at hrun
    rw [hdir] at htype
    split at htype
    · cases htype
    · rename_i hunknown
      rw [typeOf_eq_dir.1 htype.symm] at hkind
      obtain ⟨hsafe, hunder, hnone⟩ := hdescend.sound _ _ _ _ _ (h.entry hkind) hrun
      exact ⟨⟨fun hu => absurd hu hunknown, hsafe⟩, hunder, hnone⟩
  · rw [if_neg hdir] at hrun
    obtain ⟨hwords, hwalk⟩ := h.walk_front hc
    obtain ⟨htree, hempty⟩ := removeNode_empty (c := ⟨ptr.d_name, hc⟩)
      (cStr_appendPath (c := ⟨ptr.d_name, hc⟩) h.noNul) hwords hwalk (orThrow_ok_iff.1 hrun)
    -- the call has removed the node, so that there was nothing below it
    have hleaf : ∀ d, s.tree.kindAt (pos ++ [⟨ptr.d_name, hc⟩] ++ [d]) = none := by
      intro d
      cases hbelow : s.tree.kindAt (pos ++ [⟨ptr.d_name, hc⟩] ++ [d]) with
      | none => rfl
      | some k' =>
          obtain ⟨entries, hentries⟩ := Node.kindAt_dir.1 (kindAt_dir_of_child hbelow)
          rw [Node.kindAt, Node.get?_append, hentries, hempty entries hentries] at hbelow
          cases hbelow
    refine ⟨⟨fun _ _ => hleaf, safe_of_leaf hleaf⟩, ?_, ?_⟩
    · rw [htree]
      exact Under.erase _ _
    · rw [htree]
      exact Node.kindAt_erase_below (by simp) (List.prefix_refl _) _

theorem removeEntry_complete (henv : env.Reports unknown) {descend : Str → FileProg Unit}
    (hdescend : Removes unknown descend fds) (h : Reaches s.tree path pos)
    (hdepth : DepthLt s.tree pos (fds + 1))
    (hsafe : Safe s.tree unknown pos) {ptr : Dirent}
    (hc : IsFileName ptr.d_name) (hreported : Reported unknown s.tree pos ptr) :
    ∃ s', removeEntry env descend path ptr s = .ok () s' := by
  obtain ⟨k, hkind, htype⟩ := hreported hc
  obtain ⟨hempty, hbelow⟩ := safe_iff_below.1 hsafe ⟨ptr.d_name, hc⟩
  rw [removeEntry, if_neg (not_isDots hc)]
  by_cases hdir : ptr.d_type = .DT_DIR
  · rw [if_pos hdir]
    rw [hdir] at htype
    split at htype
    · cases htype
    · rw [typeOf_eq_dir.1 htype.symm] at hkind
      refine hdescend.complete _ _ _ _ (h.entry hkind) (fun q hq => ?_) hbelow
      have hlen := hdepth ([⟨ptr.d_name, hc⟩] ++ q) (by rwa [← List.append_assoc])
      simp at hlen
      omega
  · -- anything that is not reported as a directory is removed with the call for both kinds
    rw [if_neg hdir]
    obtain ⟨hwords, hwalk⟩ := h.walk_front hc
    have hnode : s.tree.get? (pos ++ [⟨ptr.d_name, hc⟩]) = some (.dir []) ∨
        (false = false ∧ (appendPath path ptr.d_name).getLast? ≠ some slash ∧
          ∃ k, s.tree.kindAt (pos ++ [⟨ptr.d_name, hc⟩]) = some k ∧ k ≠ .dir) := by
      by_cases hk : k = .dir
      · -- a directory that is not reported as one has to be empty
        left
        split at htype
        · rename_i hunknown
          rw [hk] at hkind
          exact get?_empty hkind (hempty hunknown hkind)
        · exact absurd (htype.trans (typeOf_eq_dir.2 hk)) hdir
      · exact Or.inr ⟨rfl, getLast?_appendPath path hc, k, hkind, hk⟩
    obtain ⟨s', hrun, -⟩ := removeNode_ok (c := ⟨ptr.d_name, hc⟩) henv false
      (cStr_appendPath (c := ⟨ptr.d_name, hc⟩) h.noNul) hwords hwalk h.dir hnode
    exact ⟨s', orThrow_ok_iff.2 hrun⟩

/-- An entry is still there after another one has been removed. -/
theorem Reported.sibling {T T' : Node} {pos : List FileName} {ptr : Dirent} {d : FileName}
    (h : Reported unknown T pos ptr) (hunder : Under (pos ++ [d]) T T') (hne : d.1 ≠ ptr.d_name) :
    Reported unknown T' pos ptr := by
  intro hc
  obtain ⟨k, hkind, htype⟩ := h hc
  have hother : d ≠ ⟨ptr.d_name, hc⟩ := fun heq => hne (congrArg Subtype.val heq)
  refine ⟨k, ?_, htype⟩
  have hsame := hunder.sibling hother []
  rw [List.append_nil] at hsame
  exact hsame.trans hkind

/-- After the first entry has been removed, the others are still reported. -/
theorem reported_rest {T T' : Node} {pos : List FileName} {ptr : Dirent} {rest : List Dirent}
    (hc : IsFileName ptr.d_name) (hnodup : (entryNames (ptr :: rest)).Nodup)
    (hreported : ∀ d ∈ ptr :: rest, Reported unknown T pos d)
    (hunder : Under (pos ++ [⟨ptr.d_name, hc⟩]) T T') :
    ∀ d ∈ rest, Reported unknown T' pos d := by
  intro d hd hcd
  rw [entryNames_cons (not_isDots hc)] at hnodup
  have hne : ptr.d_name ≠ d.d_name := by
    intro heq
    exact (List.nodup_cons.1 hnodup).1 (heq ▸ mem_entryNames hd hcd)
  exact (hreported d (List.mem_cons_of_mem ptr hd)).sibling hunder hne hcd

/-- If the loop ends, every entry was safe and has been removed. -/
theorem removeEntries_sound {descend : Str → FileProg Unit}
    (hdescend : Removes unknown descend fds) {entries : List Dirent}
    (h : Reaches s.tree path pos) (hnodup : (entryNames entries).Nodup)
    (hreported : ∀ ptr ∈ entries, Reported unknown s.tree pos ptr) {s' : State}
    (hrun : removeEntries env descend path entries s = .ok () s') :
    Inside pos s.tree s'.tree ∧
      ∀ ptr ∈ entries, ∀ hc : IsFileName ptr.d_name,
        SafeAt s.tree unknown (pos ++ [⟨ptr.d_name, hc⟩]) ∧
          s'.tree.kindAt (pos ++ [⟨ptr.d_name, hc⟩]) = none := by
  induction entries generalizing s with
  | nil =>
      cases hrun
      exact ⟨Inside.refl _, fun ptr hptr => by cases hptr⟩
  | cons ptr rest ih =>
      obtain ⟨_, s₁, hentry, hloop⟩ := bind_ok_iff.1 hrun
      rcases ptr.name_ok with hdots | hc
      · rw [removeEntry, if_pos hdots] at hentry
        cases hentry
        rw [entryNames_dots hdots] at hnodup
        obtain ⟨hinside, hgone⟩ :=
          ih h hnodup (fun d hd => hreported d (List.mem_cons_of_mem ptr hd)) hloop
        refine ⟨hinside, fun d hd hcd => ?_⟩
        rcases List.mem_cons.1 hd with rfl | hd
        · exact absurd hdots (not_isDots hcd)
        · exact hgone d hd hcd
      · -- this entry is gone, and what is reported of the others holds in the tree that is left
        obtain ⟨hsafe, hunder, hnone⟩ :=
          removeEntry_sound hdescend h hc (hreported ptr List.mem_cons_self) hentry
        have hrest := reported_rest hc hnodup hreported hunder
        rw [entryNames_cons (not_isDots hc)] at hnodup
        obtain ⟨hnew, hnodup⟩ := List.nodup_cons.1 hnodup
        obtain ⟨hinside, hgone⟩ := ih (h.inside hunder.inside) hnodup hrest hloop
        refine ⟨hunder.inside.trans hinside, fun d hd hcd => ?_⟩
        rcases List.mem_cons.1 hd with rfl | hd
        · exact ⟨hsafe, hinside.le.kindAt_none hnone⟩
        · obtain ⟨hsafe', hnone'⟩ := hgone d hd hcd
          have hne : (⟨ptr.d_name, hc⟩ : FileName) ≠ ⟨d.d_name, hcd⟩ := by
            intro heq
            have hname : ptr.d_name = d.d_name := congrArg Subtype.val heq
            exact hnew (hname ▸ mem_entryNames hd hcd)
          exact ⟨hsafe'.congr (hunder.sibling hne), hnone'⟩

/-- If every entry is safe, the loop ends. -/
theorem removeEntries_complete (henv : env.Reports unknown) {descend : Str → FileProg Unit}
    (hdescend : Removes unknown descend fds) {entries : List Dirent}
    (h : Reaches s.tree path pos) (hdepth : DepthLt s.tree pos (fds + 1))
    (hsafe : Safe s.tree unknown pos) (hnodup : (entryNames entries).Nodup)
    (hreported : ∀ ptr ∈ entries, Reported unknown s.tree pos ptr) :
    ∃ s', removeEntries env descend path entries s = .ok () s' := by
  induction entries generalizing s with
  | nil => exact ⟨s, rfl⟩
  | cons ptr rest ih =>
      rcases ptr.name_ok with hdots | hc
      · have hentry : removeEntry env descend path ptr s = .ok () s := by
          rw [removeEntry, if_pos hdots]
          rfl
        rw [entryNames_dots hdots] at hnodup
        obtain ⟨s', hloop⟩ := ih h hdepth hsafe hnodup
          fun d hd => hreported d (List.mem_cons_of_mem ptr hd)
        exact ⟨s', (bind_ok hentry).trans hloop⟩
      · have hfirst := hreported ptr List.mem_cons_self
        obtain ⟨s₁, hentry⟩ := removeEntry_complete henv hdescend h hdepth hsafe hc hfirst
        obtain ⟨-, hunder, -⟩ := removeEntry_sound hdescend h hc hfirst hentry
        have hrest := reported_rest hc hnodup hreported hunder
        rw [entryNames_cons (not_isDots hc)] at hnodup
        obtain ⟨s', hloop⟩ := ih (h.inside hunder.inside) (hdepth.mono hunder.le)
          (hsafe.mono hunder.le) (List.nodup_cons.1 hnodup).2 hrest
        exact ⟨s', (bind_ok hentry).trans hloop⟩

end

/-! ## The recursion -/

section

variable {env : Env} {unknown : List FileName → Bool} {fds : Nat}

/-- What a directory stream reports is there. -/
theorem reported_stream (henv : env.Reports unknown) {T : Node} {pos : List FileName}
    {es : List (FileName × Node)} (hget : T.get? pos = some (.dir es)) (n : Nat) :
    ∀ ptr ∈ env.readdir n pos es, Reported unknown T pos ptr := by
  intro ptr hptr hc
  obtain ⟨node, hnode, htype⟩ := henv.types n pos es ptr hptr hc
  refine ⟨node.kind, ?_, htype⟩
  rw [Node.kindAt, Node.get?_append, hget, Option.bind_some, Node.get?_singleton, hnode]
  rfl

/-- What it does not report is not there. -/
theorem kindAt_unreported (henv : env.Reports unknown) {T : Node} {pos : List FileName}
    {es : List (FileName × Node)} (hget : T.get? pos = some (.dir es)) {n : Nat} {d : FileName}
    (hd : ∀ ptr ∈ env.readdir n pos es, ptr.d_name ≠ d.1) : T.kindAt (pos ++ [d]) = none := by
  rw [Node.kindAt_eq_none, Node.get?_append, hget, Option.bind_some, Node.get?_singleton]
  by_contra hchild
  obtain ⟨ptr, hptr, hname⟩ := henv.all n pos es d hchild
  exact hd ptr hptr hname

/-- After the loop, the directory is empty. -/
theorem kindAt_looped (henv : env.Reports unknown) {T T' : Node} {pos : List FileName}
    {es : List (FileName × Node)} (hget : T.get? pos = some (.dir es)) {n : Nat} (hle : T'.Le T)
    (hgone : ∀ ptr ∈ env.readdir n pos es, ∀ hc : IsFileName ptr.d_name,
      T'.kindAt (pos ++ [⟨ptr.d_name, hc⟩]) = none) (d : FileName) :
    T'.kindAt (pos ++ [d]) = none := by
  by_cases hd : ∃ ptr ∈ env.readdir n pos es, ptr.d_name = d.1
  · obtain ⟨ptr, hptr, hname⟩ := hd
    have hc : IsFileName ptr.d_name := hname ▸ d.2
    have hd : d = ⟨ptr.d_name, hc⟩ := Subtype.ext hname.symm
    rw [hd]
    exact hgone ptr hptr hc
  · have hnone := kindAt_unreported henv hget fun ptr hptr hname => hd ⟨ptr, hptr, hname⟩
    exact hle.kindAt_none hnone

theorem safeAt_of_none {T : Node} {pos : List FileName} (h : T.kindAt pos = none) :
    SafeAt T unknown pos := by
  refine ⟨fun _ hdir => ?_, safe_of_leaf fun d => ?_⟩
  · rw [h] at hdir
    cases hdir
  · rw [Node.kindAt_eq_none] at h ⊢
    exact Node.get?_below h (List.prefix_append pos [d])

theorem rmdir_succ (path : Str) (s : State) :
    rmdir env (fds + 1) path true s =
      (orThrow (str "Cannot opendir(" ++ path ++ str ").") (opendir env path) >>= fun dirptr => do
        removeEntries env (fun fn => rmdir env fds fn true) path dirptr.entries
        orThrow (str "Cannot rmdir(" ++ path ++ str ").") (removeNode env true path)) s := by
  rw [rmdir]

/-- With enough file descriptors, `rmdir(true)` removes a directory if it is safe. -/
theorem rmdir_succ_complete (henv : env.Reports unknown)
    (hdescend : Removes unknown (fun fn => rmdir env fds fn true) fds) {path : Str}
    {parent : List FileName} {c : FileName} {s : State} (h : Leads s.tree path parent c)
    (hdepth : DepthLt s.tree (parent ++ [c]) (fds + 1))
    (hsafe : Safe s.tree unknown (parent ++ [c])) :
    ∃ s', rmdir env (fds + 1) path true s = .ok () s' := by
  obtain ⟨s₁, es, n, hopen, htree, hget⟩ := opendir_ok henv h.reaches
  rw [← htree] at h hdepth hsafe hget
  have hreported := reported_stream henv hget n
  have hnodup := henv.nodup n (parent ++ [c]) es
  obtain ⟨s₂, hloop⟩ :=
    removeEntries_complete henv hdescend h.reaches hdepth hsafe hnodup hreported
  obtain ⟨hinside, hgone⟩ := removeEntries_sound hdescend h.reaches hnodup hreported hloop
  have hleads := h.inside hinside
  have hempty : s₂.tree.get? (parent ++ [c]) = some (.dir []) :=
    get?_empty hleads.dir
      (kindAt_looped henv hget hinside.le fun ptr hptr hc => (hgone ptr hptr hc).2)
  obtain ⟨s₃, hlast, -⟩ := removeNode_ok henv true hleads.noNul hleads.words_eq
    (hleads.walk _ (Inside.refl _)) (kindAt_dir_of_child hleads.dir) (Or.inl hempty)
  refine ⟨s₃, ?_⟩
  rw [rmdir_succ, bind_ok (orThrow_ok_iff.2 hopen), bind_ok hloop]
  exact orThrow_ok_iff.2 hlast

/-- If `rmdir(true)` returns, the directory was safe, and it has been removed. -/
theorem rmdir_succ_sound (henv : env.Reports unknown)
    (hdescend : Removes unknown (fun fn => rmdir env fds fn true) fds) {path : Str}
    {parent : List FileName} {c : FileName} {s s' : State} (h : Leads s.tree path parent c)
    (hrun : rmdir env (fds + 1) path true s = .ok () s') :
    Safe s.tree unknown (parent ++ [c]) ∧ Under (parent ++ [c]) s.tree s'.tree ∧
      s'.tree.kindAt (parent ++ [c]) = none := by
  obtain ⟨s₁, es, n, hopen, htree, hget⟩ := opendir_ok henv h.reaches
  rw [← htree] at h hget ⊢
  rw [rmdir_succ, bind_ok (orThrow_ok_iff.2 hopen)] at hrun
  obtain ⟨_, s₂, hloop, hlast⟩ := bind_ok_iff.1 hrun
  obtain ⟨hinside, hgone⟩ := removeEntries_sound hdescend h.reaches
    (henv.nodup n (parent ++ [c]) es) (reported_stream henv hget n) hloop
  have hleads := h.inside hinside
  obtain ⟨hfinal, -⟩ := removeNode_empty hleads.noNul hleads.words_eq
    (hleads.walk _ (Inside.refl _)) (orThrow_ok_iff.1 hlast)
  refine ⟨safe_iff_below.2 fun d => ?_, ?_, ?_⟩
  · by_cases hd : ∃ ptr ∈ env.readdir n (parent ++ [c]) es, ptr.d_name = d.1
    · obtain ⟨ptr, hptr, hname⟩ := hd
      have hc : IsFileName ptr.d_name := hname ▸ d.2
      have hd : d = ⟨ptr.d_name, hc⟩ := Subtype.ext hname.symm
      rw [hd]
      exact (hgone ptr hptr hc).1
    · have hnone : s₁.tree.kindAt (parent ++ [c] ++ [d]) = none :=
        kindAt_unreported (n := n) henv hget fun ptr hptr hname => hd ⟨ptr, hptr, hname⟩
      exact safeAt_of_none hnone
  · rw [hfinal]
    exact hinside.under.trans (Under.erase _ _)
  · rw [hfinal]
    exact Node.kindAt_erase_below (by simp) (List.prefix_refl _) _

/-- `rmdir(true)` removes exactly what is safe. -/
theorem rmdir_removes (henv : env.Reports unknown) (fds : Nat) :
    Removes unknown (fun path => rmdir env fds path true) fds := by
  induction fds with
  | zero =>
      constructor
      · intro path parent c s h hdepth _
        have hlen := hdepth [] (by simpa using h.dir)
        cases hlen
      · intro path parent c s s' _ hrun
        cases hrun
  | succ fds ih =>
      constructor
      · intro path parent c s h hdepth hsafe
        exact rmdir_succ_complete henv ih h hdepth hsafe
      · intro path parent c s s' h hrun
        exact rmdir_succ_sound henv ih h hrun

/-- The removal of what an entry leads to takes place inside the directory. -/
theorem Confined.inside {s₀ s s' : State} {pos : List FileName} {c : FileName}
    {inside : List FileName → Prop} {links : List (List FileName)}
    (hbefore : Inside pos s₀.tree s.tree) (hentry : Confined inside links s s')
    (hinside : ∀ q, inside q → pos ++ [c] <+: q) : Inside pos s₀.tree s'.tree := by
  have hunder : Under (pos ++ [c]) s.tree s'.tree :=
    ⟨hentry.le, fun q hq => hinside q (hentry.only q hq)⟩
  exact hbefore.trans hunder.inside

/-- However the loop ends, the directory itself is still there. -/
theorem removeEntries_inside {descend : Str → FileProg Unit}
    (hdescend : ∀ fn s, cStr fn = fn →
      wp (descend fn) (fun _ => Contained fn s) (fun _ => Contained fn s) s)
    {path : Str} {pos : List FileName} {s₀ : State} (h : Reaches s₀.tree path pos)
    {entries : List Dirent}
    (hdir : ∀ ptr ∈ entries, ptr.d_type = .DT_DIR → ∀ hc : IsFileName ptr.d_name,
      s₀.tree.kindAt (pos ++ [⟨ptr.d_name, hc⟩]) = some .dir) {s : State}
    (hbefore : Inside pos s₀.tree s.tree) :
    wp (removeEntries env descend path entries) (fun _ s' => Inside pos s₀.tree s'.tree)
      (fun _ s' => Inside pos s₀.tree s'.tree) s := by
  induction entries generalizing s with
  | nil => exact hbefore
  | cons ptr rest ih =>
      have hrest := fun d hd => hdir d (List.mem_cons_of_mem ptr hd)
      rw [removeEntries, wp_bind]
      refine wp_mono (?_ : wp (removeEntry env descend path ptr)
        (fun _ s' => Inside pos s₀.tree s'.tree) (fun _ s' => Inside pos s₀.tree s'.tree) s)
        (fun _ s' h => ih hrest h) (fun _ _ h => h)
      rw [removeEntry]
      split
      · exact hbefore
      · rename_i hdots
        have hc : IsFileName ptr.d_name := ptr.name_ok.resolve_left hdots
        have hentry : cStr (appendPath path ptr.d_name) = appendPath path ptr.d_name :=
          cStr_appendPath (c := ⟨ptr.d_name, hc⟩) h.noNul
        have hwalk := h.walk_splitPath
        -- either call takes away nothing but what is at the name, or below it
        split
        · rename_i htype
          have hsub := hdir ptr List.mem_cons_self htype hc
          have hinside : ∀ q, Below s.tree (appendPath path ptr.d_name) q →
              pos ++ [⟨ptr.d_name, hc⟩] <+: q := fun q hq => hq.entry hbefore.le hwalk hsub
          exact wp_mono (hdescend _ s hentry) (fun _ s' h => h.inside hbefore hinside)
            (fun _ s' h => h.inside hbefore hinside)
        · have hinside : ∀ q, Removable s.tree false (appendPath path ptr.d_name) q →
              pos ++ [⟨ptr.d_name, hc⟩] <+: q := fun q hq => hq.entry hbefore.le hwalk
          rw [wp_orThrow]
          exact wp_mono (removeNode_confined false hentry) (fun _ s' h => h.inside hbefore hinside)
            (fun _ s' h => h.inside hbefore hinside)

/-- A call of `rmdir(true)` that fails leaves the directory in place. -/
theorem rmdir_failed (henv : env.Reports unknown) {path : Str} {parent : List FileName}
    {c : FileName} {s s' : State} {e : Thrown} (h : Leads s.tree path parent c)
    (hrun : rmdir env fds path true s = .error e s') : Inside (parent ++ [c]) s.tree s'.tree := by
  cases fds with
  | zero =>
      cases hrun
      exact Inside.refl _
  | succ fds =>
      obtain ⟨s₁, es, n, hopen, htree, hget⟩ := opendir_ok henv h.reaches
      rw [← htree] at h hget ⊢
      rw [rmdir_succ, bind_ok (orThrow_ok_iff.2 hopen)] at hrun
      -- the listing tells the truth about directories
      have hdir : ∀ ptr ∈ env.readdir n (parent ++ [c]) es, ptr.d_type = .DT_DIR →
          ∀ hc : IsFileName ptr.d_name,
            s₁.tree.kindAt (parent ++ [c] ++ [⟨ptr.d_name, hc⟩]) = some .dir := by
        intro ptr hptr htype hc
        obtain ⟨k, hkind, hptype⟩ := reported_stream henv hget n ptr hptr hc
        rw [htype] at hptype
        split at hptype
        · cases hptype
        · rwa [typeOf_eq_dir.1 hptype.symm] at hkind
      have hwp : wp (removeEntries env (fun fn => rmdir env fds fn true) path
            (env.readdir n (parent ++ [c]) es) >>= fun _ =>
          orThrow (str "Cannot rmdir(" ++ path ++ str ").") (removeNode env true path))
          (fun _ _ => True) (fun _ s' => Inside (parent ++ [c]) s₁.tree s'.tree) s₁ := by
        rw [wp_bind]
        refine wp_mono (removeEntries_inside (rmdir_confined henv.dirOnly fds) h.reaches hdir
          (Inside.refl _)) (fun _ s₂ hinside => ?_) (fun _ _ h => h)
        rw [wp_orThrow]
        refine wp_mono (removeNode_failed true path) (fun _ _ h => h) (fun _ s₃ hsame => ?_)
        rw [hsame]
        exact hinside
      have hinside := wp_error hwp hrun
      exact hinside

/-- All that was at or below the position is gone, and nothing else. -/
theorem Under.kindAt {T T' : Node} {pos : List FileName} (h : Under pos T T')
    (hnone : T'.kindAt pos = none) (q : List FileName) :
    T'.kindAt q = if pos <+: q then none else T.kindAt q := by
  split
  · rename_i hq
    exact Node.kindAt_eq_none.2 (Node.get?_below (Node.kindAt_eq_none.1 hnone) hq)
  · rename_i hq
    by_contra hne
    exact hq (h.only q hne)

end

/-- `rmdir(true)` removes only nodes of the directory that the path leads to, and changes no others,
whatever the system refuses and `readdir` reports, and it meets only links that are on the way of
the path itself.  When nothing is in the way, it returns, and the directory is gone. -/
theorem rmdir_stays (env : Env) (henv : env.DirOnly) (fds : Nat) (path : Str)
    (hpath : cStr path = path) (s : State) :
    Contained path s (endState (rmdir env fds path true s)) ∧
      ∀ parent c, env.Smooth → Leads s.tree path parent c → DepthLt s.tree (parent ++ [c]) fds →
        ∃ s', rmdir env fds path true s = .ok () s' ∧
          ∀ q, s'.tree.kindAt q = if parent ++ [c] <+: q then none else s.tree.kindAt q := by
  refine ⟨wp_endState.1 (rmdir_confined henv fds path s hpath), ?_⟩
  intro parent c hsmooth h hdepth
  have hremoves := rmdir_removes hsmooth fds
  obtain ⟨s', hrun⟩ := hremoves.complete path parent c s h hdepth (safe_of_smooth _ _)
  obtain ⟨-, hunder, hnone⟩ := hremoves.sound path parent c s s' h hrun
  exact ⟨s', hrun, hunder.kindAt hnone⟩

theorem depthLt_leaf {R : Node} (h : R.kind ≠ .dir) (n : Nat) : DepthLt R [] n := by
  intro q hq
  cases q with
  | nil => exact absurd (Option.some.inj hq) h
  | cons d q =>
      cases R with
      | dir entries => exact absurd rfl h
      | file => cases hq
      | link target => cases hq

/-- A directory has one level more than what is in it. -/
theorem depthLt_succ {T : Node} {pos : List FileName} {entries : List (FileName × Node)} {n : Nat}
    (hget : T.get? pos = some (.dir entries)) (h : ∀ e ∈ entries, DepthLt e.2 [] n) :
    DepthLt T pos (n + 1) := by
  intro q hq
  cases q with
  | nil => exact Nat.succ_pos n
  | cons d q =>
      rw [Node.kindAt, Node.get?_append, hget, Option.bind_some, Node.get?_cons] at hq
      cases hchild : (Node.dir entries).child d with
      | none =>
          rw [hchild] at hq
          cases hq
      | some node =>
          obtain ⟨before, after, rfl, -⟩ := List.lookup_eq_some_iff.1 hchild
          rw [hchild, Option.bind_some] at hq
          exact Nat.succ_lt_succ (h (d, node) (by simp) q hq)

/-- The directories `dump` and `other`; in the first one there is a link to the second. -/
def linkedTree : Node :=
  .dir
    [ (⟨str "dump", by decide⟩, .dir [(⟨str "link", by decide⟩, .link ⟨str "/other", by decide⟩)]),
      (⟨str "other", by decide⟩, .dir [(⟨str "data", by decide⟩, .file)]) ]

theorem rmdir_stays_linked :
    Contained (str "/dump") ⟨linkedTree, 0, []⟩
        (endState (rmdir (Env.honest fun _ => false) 1 (str "/dump") true ⟨linkedTree, 0, []⟩)) ∧
      ∃ s', rmdir (Env.honest fun _ => false) 1 (str "/dump") true ⟨linkedTree, 0, []⟩ = .ok () s' ∧
        ∀ q, s'.tree.kindAt q =
          if [⟨str "dump", by decide⟩] <+: q then none else linkedTree.kindAt q := by
  have hsmooth : (Env.honest fun _ => false).Smooth := Env.honest_reports _
  obtain ⟨hcontained, hcomplete⟩ := rmdir_stays (Env.honest fun _ => false) hsmooth.dirOnly 1
    (str "/dump") (by decide) ⟨linkedTree, 0, []⟩
  refine ⟨hcontained, hcomplete [] ⟨str "dump", by decide⟩ hsmooth ?_ ?_⟩
  · exact Leads.of_names (by decide) (by decide) (by decide)
  · have hget : linkedTree.get? ([] ++ [⟨str "dump", by decide⟩]) =
        some (.dir [(⟨str "link", by decide⟩, .link ⟨str "/other", by decide⟩)]) := by rfl
    refine depthLt_succ hget ?_
    simp only [List.forall_mem_singleton]
    exact depthLt_leaf (by decide) 0

/-! ## Types that are not reported -/

/-- On a system that refuses nothing, but may report types as unknown, the directory is gone if and
only if no directory in it that has entries is reported as unknown. -/
theorem rmdir_unknown_iff {env : Env} {unknown : List FileName → Bool} (henv : env.Reports unknown)
    {fds : Nat} {path : Str} {parent : List FileName} {c : FileName} {s : State}
    (h : Leads s.tree path parent c) (hdepth : DepthLt s.tree (parent ++ [c]) fds) :
    (∃ s', rmdir env fds path true s = .ok () s' ∧
      ∀ q, s'.tree.kindAt q = if parent ++ [c] <+: q then none else s.tree.kindAt q) ↔
      Safe s.tree unknown (parent ++ [c]) := by
  have hremoves := rmdir_removes henv fds
  constructor
  · rintro ⟨s', hrun, _⟩
    exact (hremoves.sound path parent c s s' h hrun).1
  · intro hsafe
    obtain ⟨s', hrun⟩ := hremoves.complete path parent c s h hdepth hsafe
    obtain ⟨-, hunder, hnone⟩ := hremoves.sound path parent c s s' h hrun
    exact ⟨s', hrun, hunder.kindAt hnone⟩

/-- The directory `dump` has a directory `extra`, and this may have a file. -/
def nestedTree (extra : List (FileName × Node)) : Node :=
  .dir [(⟨str "dump", by decide⟩, .dir [(⟨str "extra", by decide⟩, .dir extra)])]

def noteFile : FileName × Node :=
  (⟨str "note", by decide⟩, .file)

theorem nestedTree_leads (extra : List (FileName × Node)) :
    Leads (nestedTree extra) (str "/dump") [] ⟨str "dump", by decide⟩ :=
  Leads.of_names (by decide) (by decide) rfl

/-- An empty directory can be removed without its type. -/
theorem rmdir_unknown_empty :
    (∃ s', rmdir (Env.honest fun _ => true) 2 (str "/dump") true ⟨nestedTree [], 0, []⟩ =
        .ok () s' ∧
      ∀ q, s'.tree.kindAt q =
        if [] ++ [⟨str "dump", by decide⟩] <+: q then none else (nestedTree []).kindAt q) ↔
      Safe (nestedTree []) (fun _ => true) ([] ++ [⟨str "dump", by decide⟩]) := by
  refine rmdir_unknown_iff (Env.honest_reports fun _ => true) (nestedTree_leads []) ?_
  refine depthLt_succ rfl ?_
  exact List.forall_mem_singleton.2 (depthLt_succ rfl (List.forall_mem_nil _))

/-- A directory with a file cannot. -/
theorem rmdir_unknown_nested :
    (Env.honest fun _ => true).Reports (fun _ => true) ∧
      Leads (nestedTree [noteFile]) (str "/dump") [] ⟨str "dump", by decide⟩ ∧
      DepthLt (nestedTree [noteFile]) ([] ++ [⟨str "dump", by decide⟩]) 2 ∧
      ¬ ∃ s', rmdir (Env.honest fun _ => true) 2 (str "/dump") true ⟨nestedTree [noteFile], 0, []⟩ =
        .ok () s' := by
  refine ⟨Env.honest_reports _, nestedTree_leads _, ?_, ?_⟩
  · refine depthLt_succ rfl ?_
    refine List.forall_mem_singleton.2 (depthLt_succ rfl ?_)
    exact List.forall_mem_singleton.2 (depthLt_leaf (by decide) 0)
  · rintro ⟨s', hrun⟩
    have hsafe := ((rmdir_removes (Env.honest_reports fun _ => true) 2).sound _ _ _ _ _
      (nestedTree_leads [noteFile]) hrun).1
    have hnone := hsafe [⟨str "extra", by decide⟩] noteFile.1 (List.cons_ne_nil _ _) rfl rfl
    cases hnone

end Files
end Kdump

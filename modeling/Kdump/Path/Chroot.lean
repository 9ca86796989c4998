import Kdump.Path.Tree
import Kdump.Path.Walker

/-!
# Chroot — `getCanonicalPath` refines the kernel's path walk

If the kernel, with the root directory changed to `r`, walks along a path to the end, then
`getCanonicalPath` returns the path of the very node where the walk ends.  The code splices text
and the kernel splices lists of components; the two agree up to components `.`, which the kernel
reads in place of a trailing slash.
-/

namespace Kdump
namespace Path

open Lib

/-! ## Positions as names -/

def FileName.name (c : FileName) : Name :=
  ⟨c.1, c.2.1, c.2.2.1, c.2.2.2.1, c.2.2.2.2.1⟩

def namesOf (pos : List FileName) : List Name :=
  pos.map FileName.name

theorem namesOf_concat (pos : List FileName) (c : FileName) :
    namesOf (pos ++ [c]) = namesOf pos ++ [FileName.name c] :=
  List.map_append

theorem namesOf_dropLast (pos : List FileName) :
    namesOf pos.dropLast = (namesOf pos).dropLast :=
  List.map_dropLast

theorem nul_notMem_render (pos : List FileName) : (0 : UInt8) ∉ render (namesOf pos) := by
  intro h
  rcases List.mem_flatMap.1 h with ⟨c, hc, hmem⟩
  rcases List.mem_map.1 hc with ⟨d, _, rfl⟩
  rcases List.mem_cons.1 hmem with h0 | h0
  · cases h0
  · exact d.2.2.2.2.2 h0

/-! ## Components up to `.` -/

/-- `ys` are the components `xs`, with some `.` put in. -/
inductive Dotted : List Str → List Str → Prop
  | nil : Dotted [] []
  | cons (c : Str) {xs ys : List Str} : Dotted xs ys → Dotted (c :: xs) (c :: ys)
  | dot {xs ys : List Str} : Dotted xs ys → Dotted xs ([period] :: ys)

namespace Dotted

theorem refl : ∀ xs : List Str, Dotted xs xs
  | [] => .nil
  | c :: xs => .cons c (refl xs)

theorem append {xs ys xs' ys' : List Str} (h : Dotted xs ys) (h' : Dotted xs' ys') :
    Dotted (xs ++ xs') (ys ++ ys') := by
  induction h with
  | nil => exact h'
  | cons c _ ih => exact .cons c ih
  | dot _ ih => exact .dot ih

/-- Putting a link target in front of the text that is left. -/
theorem splice {target rest : Str} {cs : List Str} (h : Dotted (splitPath rest) cs)
    (hrest : rest = [] ∨ rest.head? = some slash) :
    Dotted (splitPath (target ++ rest)) (splitPath target ++ cs) := by
  rcases hrest with rfl | hhead
  · rw [List.append_nil]
    have happ := (Dotted.refl (splitPath target)).append h
    rwa [splitPath_nil, List.append_nil] at happ
  · rcases List.head?_eq_some_iff.1 hhead with ⟨b, rfl⟩
    -- a slash at the end of the target is not at the end of the whole text
    have htext : splitPath (target ++ slash :: b) = words target ++ splitPath (slash :: b) := by
      unfold splitPath
      rw [words_append_slash, words_cons_slash, List.getLast?_append_of_ne_nil _ (by simp),
        List.append_assoc]
    have htarget : splitPath target = words target ++
        if target.getLast? = some slash then [[period]] else [] := rfl
    rw [htext, htarget, List.append_assoc]
    refine (Dotted.refl (words target)).append ?_
    split_ifs
    · exact .dot h
    · exact h

end Dotted

theorem splitPath_eq_nil {text : Str} (h : splitPath text = []) : text = [] := by
  by_contra hne
  rw [splitPath_eq_component hne] at h
  cases h

/-- The first component, which is `.` if there is nothing before the first slash. -/
theorem splitPath_eq_cons {text c : Str} {xs : List Str} (h : splitPath text = c :: xs) :
    text ≠ [] ∧ splitPath (component text).2 = xs ∧
      ((component text).1 = c ∨ ((component text).1 = [] ∧ c = [period])) := by
  have hne : text ≠ [] := by
    rintro rfl
    rw [splitPath_nil] at h
    cases h
  rw [splitPath_eq_component hne] at h
  rcases List.cons.inj h with ⟨hc, hxs⟩
  refine ⟨hne, hxs, ?_⟩
  split_ifs at hc with hempty
  · exact Or.inr ⟨hempty, hc.symm⟩
  · exact Or.inl hc

theorem splitPath_below {r : Str} (hr : PlainRoot r) (pos : List FileName) :
    splitPath (r ++ render (namesOf pos)) = splitPath r ++ pos.map Subtype.val := by
  have hlast : ∀ pos, (r ++ render (namesOf pos)).getLast? ≠ some slash := by
    intro pos h
    rcases hr.getLast?_eq (namesOf pos) with ⟨last, hlast, hne⟩
    exact hne (Option.some.inj (hlast.symm.trans h))
  unfold splitPath
  rw [if_neg (hlast pos), if_neg hr.noTrailing, List.append_nil, List.append_nil]
  -- the names are put on one by one
  induction pos using List.reverseRecOn with
  | nil => simp [namesOf]
  | append_singleton pos c ih =>
      rw [namesOf_concat, render_append, render_singleton, ← List.append_assoc,
        words_append_slash, ih, List.map_append, List.append_assoc]
      congr 2
      exact words_of_notMem c.2.2.1 c.2.1

/-! ## The root directory -/

/-- In the file system `T`, the path `r` leads through directories only, and at its end, at the
position `rpos`, is `R`. -/
structure RootedAt (T R : Node) (r : Str) (rpos : List FileName) : Prop where
  plain : PlainRoot r
  walk : T.walk 0 [] (splitPath r) = .ok rpos
  get? : T.get? rpos = some R

namespace RootedAt

variable {T R : Node} {r : Str} {rpos : List FileName}

theorem nul_notMem (h : RootedAt T R r rpos) : (0 : UInt8) ∉ r := by
  intro hmem
  rcases exists_mem_words (by decide) hmem with ⟨c, hc, h0⟩
  exact Node.nul_notMem_of_walk_zero h.walk c (List.mem_append_left _ hc) h0

theorem cStr_below (h : RootedAt T R r rpos) (pos : List FileName) :
    cStr (r ++ render (namesOf pos)) = r ++ render (namesOf pos) := by
  refine cStr_eq_self fun hmem => ?_
  rcases List.mem_append.1 hmem with h0 | h0
  · exact h.nul_notMem h0
  · exact nul_notMem_render pos h0

/-- The paths below `r` lead to the nodes below `R`. -/
theorem walk_below (h : RootedAt T R r rpos) {pos : List FileName} (hpos : R.Settled pos) :
    T.walk 0 [] (splitPath (r ++ render (namesOf pos))) = .ok (rpos ++ pos) := by
  rw [splitPath_below h.plain, Node.walk_zero_append h.walk]
  exact Node.walk_zero_names h.get? hpos

/-- The same without following a link at the end. -/
theorem lookup_below (h : RootedAt T R r rpos) {pos : List FileName} {c : FileName} {node : Node}
    (hnode : R.get? (pos ++ [c]) = some node) :
    T.lookup (r ++ render (namesOf (pos ++ [c]))) = .ok node := by
  have hbind := hnode
  rw [Node.get?_append] at hbind
  cases hdir : R.get? pos with
  | none => rw [hdir] at hbind; cases hbind
  | some D =>
      rw [hdir, Option.bind_some, Node.get?_singleton] at hbind
      rcases Node.exists_dir_of_child hbind with ⟨entries, rfl⟩
      -- the walk goes to the directory above, and looks for the last name there
      have hsplit : splitPath (r ++ render (namesOf (pos ++ [c]))) =
          splitPath (r ++ render (namesOf pos)) ++ [c.1] := by
        rw [splitPath_below h.plain, splitPath_below h.plain, List.map_append, List.append_assoc]
        rfl
      have hwalk : T.walk kernelMaxSymlinks [] (splitPath (r ++ render (namesOf pos))) =
          .ok (rpos ++ pos) :=
        Node.walk_of_walk_zero (h.walk_below (Node.settled_of_dir hdir))
      have hget : T.get? (rpos ++ pos) = some (.dir entries) := by
        rw [Node.get?_append, h.get?, Option.bind_some, hdir]
      rcases Node.enter_name hget hbind with ⟨henter, hnext⟩
      unfold Node.lookup
      rw [hsplit, List.getLast?_concat, List.dropLast_concat]
      dsimp only
      rw [hwalk]
      dsimp only
      rw [henter]
      dsimp only
      rw [hnext]

theorem lstat_below (h : RootedAt T R r rpos) {pos : List FileName} {c : FileName} {node : Node}
    (hnode : R.get? (pos ++ [c]) = some node) (time : Nat) :
    T.sys.lstat time (cStr (r ++ render (namesOf pos ++ [FileName.name c]))) = .ok node.type := by
  rw [← namesOf_concat, h.cStr_below]
  change (T.lookup _).map Node.type = _
  rw [h.lookup_below hnode]
  rfl

theorem readLink_below (h : RootedAt T R r rpos) {pos : List FileName} {c : FileName}
    {target : Target} (hnode : R.get? (pos ++ [c]) = some (.link target)) (time : Nat) :
    readLink T.sys time (r ++ render (namesOf pos ++ [FileName.name c])) = .ok target.1 := by
  have hread : T.sys.readlink time (cStr (r ++ render (namesOf pos ++ [FileName.name c]))) =
      .ok target.1 := by
    rw [← namesOf_concat, h.cStr_below]
    unfold Node.sys
    dsimp only
    rw [h.lookup_below hnode]
  have hlen : target.1.length ≤ BUFSIZ - 1 := by
    have hmax : PATH_MAX ≤ BUFSIZ - 1 := by decide
    exact (Nat.le_of_lt target.2.2.2).trans hmax
  rw [readLink, hread]
  dsimp only
  rw [List.take_of_length_le hlen, cStr_eq_self target.2.2.1]

/-! ## The simulation -/

/-- The walker is where the kernel is, with `n` links to go. -/
structure At (w : Walker) (pos : List FileName) (cs : List Str) (n : Nat) : Prop where
  names : w.names = namesOf pos
  rest : Dotted (splitPath w.rest) cs
  links : w.num_links + n = MAXSYMLINKS

/-- Where the kernel and the walker read the same component, the walker stays with the kernel. -/
theorem At.behind {w : Walker} {pos next : List FileName} {c : Str} {xs cs : List Str} {n : Nat}
    (h : At w pos (c :: cs) n) (hxs : splitPath w.rest = c :: xs) (hcs : Dotted xs cs)
    {names : List Name} (hnames : names = namesOf next) :
    At { w.behind with names := names } next cs n := by
  have hbehind : splitPath w.behind.rest = xs := (splitPath_eq_cons hxs).2.1
  exact ⟨hnames, hbehind ▸ hcs, h.links⟩

/-- No component is left, and so no text. -/
theorem At.rest_eq_nil {w : Walker} {pos : List FileName} {n : Nat} (h : At w pos [] n) :
    w.rest = [] := by
  refine splitPath_eq_nil ?_
  have hdotted := h.rest
  generalize splitPath w.rest = xs at hdotted
  cases hdotted
  rfl

/-- What the walker does at a name under which there is no link. -/
theorem visit_settled (h : RootedAt T R r rpos) {pos : List FileName} {c : FileName} {w : Walker}
    (hnames : w.names = namesOf pos) (hset : R.Settled (pos ++ [c]))
    (hdir : w.rest ≠ [] → ∃ entries, R.get? (pos ++ [c]) = some (.dir entries)) :
    visit T.sys r (FileName.name c) w = .next { w with names := namesOf (pos ++ [c]) } := by
  rcases hset with ⟨node, hnode, hlink⟩
  unfold visit
  dsimp only
  rw [hnames, h.lstat_below hnode, ← namesOf_concat]
  cases node with
  | link target => exact absurd rfl (hlink target)
  | dir _ => rfl
  | file =>
      have hrest : w.rest = [] := by
        by_contra hne
        rcases hdir hne with ⟨entries, hd⟩
        rw [hnode] at hd
        cases hd
      change (if w.rest ≠ [] then _ else _) = _
      rw [if_neg (not_not.2 hrest)]

/-- What the walker does at a link. -/
theorem visit_link (h : RootedAt T R r rpos) {pos : List FileName} {c : FileName} {w : Walker}
    {target : Target} (hnames : w.names = namesOf pos)
    (hnode : R.get? (pos ++ [c]) = some (.link target)) :
    visit T.sys r (FileName.name c) w = follow target.1 w := by
  have hstat : T.sys.lstat w.passes (cStr (r ++ render (namesOf pos ++ [FileName.name c]))) =
      .ok .link := h.lstat_below hnode _
  unfold visit
  dsimp only
  rw [hnames, hstat]
  dsimp only
  rw [h.readLink_below hnode]

variable {onLink : List FileName → Target → List Str → Except Errno (List FileName)} {n : Nat}

/-- The kernel does not find a link where it has already been. -/
theorem walkWith_of_settled {pos next dst : List FileName} {cs : List Str}
    (hgo : (∃ target, R.get? next = some (.link target) ∧ onLink pos target cs = .ok dst) ∨
      (R.Settled next ∧ R.walkWith onLink next cs = .ok dst))
    (hset : R.Settled next) : R.walkWith onLink next cs = .ok dst := by
  rcases hset with ⟨node, hnode, hne⟩
  rcases hgo with ⟨target, htarget, _⟩ | hgo
  · exact absurd (Option.some.inj (hnode.symm.trans htarget)) (hne target)
  · exact hgo.2

/-- The kernel reads on only in a directory. -/
theorem At.dir_of_walkWith {w : Walker} {pos dst : List FileName} {cs : List Str}
    (h : At w pos cs n) (hgo : R.walkWith onLink pos cs = .ok dst) (hrest : w.rest ≠ []) :
    ∃ entries, R.get? pos = some (.dir entries) := by
  cases cs with
  | nil => exact absurd h.rest_eq_nil hrest
  | cons d cs =>
      rcases Node.walkWith_cons_ok hgo with ⟨next, henter, _⟩
      exact (Node.enter_ok henter).1

/-- The walker follows a walk of the kernel, given that it does so behind links. -/
theorem eval_of_walkWith (h : RootedAt T R r rpos)
    (hlink : ∀ pos target cs dst w, onLink pos target cs = .ok dst → At w pos cs n →
      (w.rest = [] ∨ w.rest.head? = some slash) →
      ∃ w', follow target.1 w = .next w' ∧ (walkLoop T.sys r).eval w' = .ok (namesOf dst)) :
    ∀ (cs : List Str) (pos dst : List FileName) (w : Walker),
      R.walkWith onLink pos cs = .ok dst → At w pos cs n →
        (walkLoop T.sys r).eval w = .ok (namesOf dst) := by
  intro cs
  induction cs with
  | nil =>
      intro pos dst w hwalk hat
      cases hwalk
      refine Loop.eval_done _ ?_
      change walkStep T.sys r w = _
      rw [walkStep, if_pos hat.rest_eq_nil, hat.names]
  | cons c cs ih =>
      intro pos dst w hwalk hat
      rcases Node.walkWith_cons_ok hwalk with ⟨next, henter, hgo⟩
      rcases Node.enter_ok henter with ⟨⟨entries, hdir⟩, hcases⟩
      have hpos : R.Settled pos := Node.settled_of_dir hdir
      have hdotted := hat.rest
      generalize hxs : splitPath w.rest = xs at hdotted
      cases hdotted with
      | dot hcs =>
          -- only the kernel reads this component
          rcases hcases with ⟨_, rfl⟩ | ⟨hc, _⟩ | ⟨hc, _⟩
          · exact ih _ _ _ (walkWith_of_settled hgo hpos) ⟨hat.names, hxs ▸ hcs, hat.links⟩
          · simp at hc
          · exact absurd rfl hc.2.2.1
      | cons _ hcs =>
          rcases splitPath_eq_cons hxs with ⟨hrest, _, hcomponent⟩
          -- `.` or nothing, `..`, and an ordinary name
          rcases hcases with ⟨hdot, rfl⟩ | ⟨hdotdot, rfl⟩ | ⟨hname, rfl⟩
          · have hskip : (component w.rest).1 = [] ∨ (component w.rest).1 = [period] :=
              hcomponent.elim (fun hc => Or.inr (hc.trans hdot)) fun hnil => Or.inl hnil.1
            rw [Loop.eval_next _ (walkStep_skip hrest hskip)]
            exact ih _ _ _ (walkWith_of_settled hgo hpos) (hat.behind hxs hcs hat.names)
          · have hc : (component w.rest).1 = c :=
              hcomponent.resolve_right fun hnil => absurd (hdotdot.symm.trans hnil.2) (by decide)
            rw [Loop.eval_next _ (walkStep_dotdot hrest (hc.trans hdotdot))]
            refine ih _ _ _ (walkWith_of_settled hgo hpos.dropLast) (hat.behind hxs hcs ?_)
            rw [hat.names, namesOf_dropLast]
          · have hc : (component w.rest).1 = (FileName.name ⟨c, hname⟩).1 :=
              hcomponent.resolve_right fun hnil => absurd hnil.2 hname.2.2.1
            have hstep : (walkLoop T.sys r).step w = _ := walkStep_name hrest hc
            -- a link is left to `hlink`, and everything else is one more step
            rcases hgo with ⟨target, htarget, hgo⟩ | ⟨hset, hgo⟩
            · rcases hlink pos target cs dst w.behind hgo (hat.behind hxs hcs hat.names)
                (component_rest_head w.rest) with ⟨w', hfollow, heval⟩
              rw [h.visit_link (w := w.behind) hat.names htarget, hfollow] at hstep
              rw [Loop.eval_next _ hstep, heval]
            · have hbehind : At { w.behind with names := namesOf (pos ++ [⟨c, hname⟩]) }
                  (pos ++ [⟨c, hname⟩]) cs n := hat.behind hxs hcs rfl
              rw [h.visit_settled (w := w.behind) hat.names hset (hbehind.dir_of_walkWith hgo)]
                at hstep
              rw [Loop.eval_next _ hstep]
              exact ih _ _ _ hgo hbehind

/-- The walker follows every successful walk of the kernel. -/
theorem eval_of_walk (h : RootedAt T R r rpos) :
    ∀ (n : Nat) (cs : List Str) (pos dst : List FileName) (w : Walker),
      R.walk n pos cs = .ok dst → At w pos cs n →
        (walkLoop T.sys r).eval w = .ok (namesOf dst) := by
  intro n
  induction n with
  | zero => exact fun cs pos dst w => h.eval_of_walkWith (by rintro _ _ _ _ _ ⟨⟩) cs pos dst w
  | succ n ih =>
      refine h.eval_of_walkWith ?_
      intro pos target cs dst w hgo hat hrest
      -- the kernel has a link left, and so has the walker
      have hmax : ¬ MAXSYMLINKS < w.num_links + 1 := by
        have hlinks := hat.links
        omega
      have hhead : (target.1 ++ w.rest).head? = target.1.head? :=
        List.head?_append_of_ne_nil _ target.2.1
      refine ⟨_, by rw [follow, if_neg hmax], ih _ _ _ _ hgo ⟨?_, hat.rest.splice hrest, ?_⟩⟩
      · dsimp only
        rw [hhead]
        split_ifs
        · rfl
        · exact hat.names
      · have hlinks := hat.links
        dsimp only
        omega

end RootedAt

/-! ## The refinement -/

/-- If the kernel's walk of `p` below `r` succeeds, then `getCanonicalPath` returns the path of
the node that the walk reaches, and that path leads there without any link. -/
theorem getCanonicalPath_refines_walk {T R : Node} {r p : Str} {rpos dst : List FileName}
    (h : RootedAt T R r rpos) (hp : p.head? = some slash)
    (hwalk : R.walk MAXSYMLINKS [] (splitPath p) = .ok dst) :
    getCanonicalPath T.sys p r = .ok (r ++ render (namesOf dst)) ∧
      T.walk 0 [] (splitPath (r ++ render (namesOf dst))) = .ok (rpos ++ dst) ∧
      T.get? (rpos ++ dst) = R.get? dst := by
  refine ⟨?_, ?_, ?_⟩
  · have hat : RootedAt.At (walkStart p) [] (splitPath p) MAXSYMLINKS :=
      ⟨rfl, Dotted.refl _, Nat.zero_add _⟩
    rw [h.plain.getCanonicalPath_eq T.sys hp, h.eval_of_walk _ _ _ _ _ hwalk hat]
    rfl
  · -- the kernel started in a directory
    have hroot : R.Settled [] := by
      have hne : p ≠ [] := by
        rintro rfl
        cases hp
      rw [splitPath_eq_component hne] at hwalk
      rcases Node.walkWith_cons_ok hwalk with ⟨next, henter, _⟩
      rcases (Node.enter_ok henter).1 with ⟨entries, hdir⟩
      exact Node.settled_of_dir hdir
    exact h.walk_below (Node.walk_settled hwalk hroot hroot)
  · rw [Node.get?_append, h.get?, Option.bind_some]

/-- `/r` with a directory `b` that holds a file `f`, and a link `a` to `b` by a detour. -/
private def chrootNode : Node :=
  .dir [(⟨str "a", by decide⟩, .link ⟨str "/../b//../b/", by decide⟩),
    (⟨str "b", by decide⟩, .dir [(⟨str "f", by decide⟩, .file)])]

private def chrootTree : Node :=
  .dir [(⟨str "r", by decide⟩, chrootNode)]

private theorem chrootTree_rootedAt :
    RootedAt chrootTree chrootNode (str "/r") [⟨str "r", by decide⟩] :=
  ⟨⟨by decide, by decide⟩, by decide, rfl⟩

private theorem chrootNode_walk :
    chrootNode.walk MAXSYMLINKS [] (splitPath (str "/../a//f")) =
      .ok [⟨str "b", by decide⟩, ⟨str "f", by decide⟩] := by
  decide +kernel

theorem getCanonicalPath_refines_walk_detour :
    getCanonicalPath chrootTree.sys (str "/../a//f") (str "/r") = .ok (str "/r/b/f") :=
  (getCanonicalPath_refines_walk chrootTree_rootedAt (by decide) chrootNode_walk).1

end Path
end Kdump

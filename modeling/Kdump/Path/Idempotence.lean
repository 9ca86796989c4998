import Kdump.Path.Walker

/-!
# Idempotence — a canonical path is canonical

Two calls are compared in which the file system gives the same answers.  What the first call has
found out about the resolved path is kept in an invariant: wherever the path is cut, `lstat` let
the walk go on with the text that stands behind.  The second call reads just that text.

* `FileSystem` — answers that do not change over time;
* `Enters`, `Resolved` — what is known about the names on the way;
* `eval_render` — the walk on resolved names;
* `getCanonicalPath_idempotent`.
-/

namespace Kdump
namespace Path

open Lib

/-! ## A fixed file system -/

/-- A file system that nobody writes to. -/
structure FileSystem where
  lstat : Str → Except Errno FileType
  readlink : Str → Except Errno Str
  getcwd : Except Errno Str

/-- It gives the same answer at any time. -/
def FileSystem.sys (fs : FileSystem) : Sys where
  lstat _ := fs.lstat
  readlink _ := fs.readlink
  getcwd := fs.getcwd

variable {fs : FileSystem} {r : Str}

/-- The walk goes on behind `names`, where `text` is what is left to read: the names stand for a
directory, for nothing at all, or, where nothing is left to read, for some other file. -/
def Enters (fs : FileSystem) (r : Str) (names : List Name) (text : Str) : Prop :=
  match fs.lstat (cStr (r ++ render names)) with
  | .error errno => errno = ENOENT
  | .ok .link => False
  | .ok .dir => True
  | .ok .other => text = []

/-- What goes on with some text goes on with any. -/
theorem Enters.text {names : List Name} {text : Str} (h : Enters fs r names text)
    (htext : text ≠ []) (text' : Str) : Enters fs r names text' := by
  unfold Enters at h ⊢
  split at h
  · exact h
  · exact h
  · trivial
  · exact absurd h htext

/-- The walk goes down to a name that can be entered. -/
theorem visit_of_enters {c : Name} {w : Walker} (h : Enters fs r (w.names ++ [c]) w.rest) :
    visit fs.sys r c w = .next { w with names := w.names ++ [c] } := by
  unfold Enters at h
  unfold visit FileSystem.sys
  dsimp only
  cases hstat : fs.lstat (cStr (r ++ render (w.names ++ [c]))) with
  | error errno =>
      rw [hstat] at h
      exact if_pos h
  | ok type =>
      rw [hstat] at h
      cases type with
      | link => exact h.elim
      | dir => rfl
      | other => exact if_neg (not_not.2 h)

theorem follow_names {target : Str} {w w' : Walker} (h : follow target w = .next w') :
    w'.names <+: w.names := by
  unfold follow at h
  dsimp only at h
  split at h
  · cases h
  · cases h
    dsimp only
    split
    · exact List.nil_prefix
    · exact List.prefix_rfl

/-- A name is either entered or, as a link, takes the walk nowhere below. -/
theorem visit_next {c : Name} {w w' : Walker} (h : visit fs.sys r c w = .next w') :
    (w' = { w with names := w.names ++ [c] } ∧ Enters fs r (w.names ++ [c]) w.rest) ∨
      w'.names <+: w.names := by
  unfold visit FileSystem.sys at h
  unfold Enters
  dsimp only at h
  cases hstat : fs.lstat (cStr (r ++ render (w.names ++ [c]))) with
  | error errno =>
      rw [hstat] at h
      dsimp only at h
      split at h
      · rename_i henoent
        exact Or.inl ⟨(Step.next.inj h).symm, henoent⟩
      · cases h
  | ok type =>
      rw [hstat] at h
      cases type with
      | link =>
          dsimp only at h
          split at h
          · cases h
          · exact Or.inr (follow_names h)
      | dir => exact Or.inl ⟨(Step.next.inj h).symm, trivial⟩
      | other =>
          dsimp only at h
          split at h
          · cases h
          · rename_i hrest
            exact Or.inl ⟨(Step.next.inj h).symm, not_not.1 hrest⟩

/-! ## Names that have been resolved -/

/-- Wherever the names are cut, the walk goes on with what stands behind. -/
def Resolved (fs : FileSystem) (r : Str) (names : List Name) (rest : Str) : Prop :=
  ∀ before c behind, names = before ++ c :: behind →
    Enters fs r (before ++ [c]) (render behind ++ rest)

namespace Resolved

variable {names names' : List Name} {rest : Str}

theorem nil (rest : Str) : Resolved fs r [] rest := by
  intro before c behind h
  simp at h

/-- The walk back up. -/
theorem above (h : Resolved fs r names rest) (hrest : rest ≠ []) (hnames : names' <+: names)
    (rest' : Str) : Resolved fs r names' rest' := by
  rintro before c behind rfl
  obtain ⟨tail, rfl⟩ := hnames
  have henters := h before c (behind ++ tail) (by simp)
  exact henters.text (by simp [hrest]) _

/-- The walk down. -/
theorem concat (h : Resolved fs r names rest) (hrest : rest ≠ []) {c : Name} {rest' : Str}
    (hc : Enters fs r (names ++ [c]) rest') : Resolved fs r (names ++ [c]) rest' := by
  intro before d behind heq
  -- the name is the new one, or it was there before
  rcases List.eq_nil_or_concat behind with rfl | ⟨behind, e, rfl⟩
  · rw [← heq]
    exact hc
  · rw [List.concat_eq_append] at heq ⊢
    have hold : names = before ++ d :: behind := by
      have hinit := congrArg List.dropLast heq
      rw [← List.cons_append, ← List.append_assoc, List.dropLast_concat,
        List.dropLast_concat] at hinit
      exact hinit
    exact (h before d behind hold).text (by simp [hrest]) _

end Resolved

/-- A pass keeps the names resolved. -/
theorem walkStep_resolved {w w' : Walker} (hw : Resolved fs r w.names w.rest)
    (h : walkStep fs.sys r w = .next w') : Resolved fs r w'.names w'.rest := by
  have hrest : w.rest ≠ [] := (walkStep_splices h).1
  rw [walkStep, if_neg hrest] at h
  dsimp only at h
  split at h
  · rcases visit_next h with ⟨rfl, henters⟩ | hnames
    · exact hw.concat hrest henters
    · exact hw.above hrest hnames _
  · split at h
    · cases h
      exact hw.above hrest (List.dropLast_prefix _) _
    · cases h
      exact hw.above hrest List.prefix_rfl _

/-- The walk ends well only when all has been read. -/
theorem rest_of_walkStep_done {sys : Sys} {w : Walker} {names : List Name}
    (h : walkStep sys r w = .done (.ok names)) : w.rest = [] ∧ w.names = names := by
  unfold walkStep at h
  split at h
  · rename_i hrest
    exact ⟨hrest, Except.ok.inj (Step.done.inj h)⟩
  dsimp only at h
  split at h
  · -- a name that cannot be entered, or a link too many
    unfold visit follow at h
    dsimp only at h
    repeat' split at h
    all_goals cases h
  · split at h
    · cases h
    · cases h

/-- The names that the walk ends with are resolved. -/
theorem resolved_of_eval {p : Str} {names : List Name}
    (h : (walkLoop fs.sys r).eval (walkStart p) = .ok names) : Resolved fs r names [] := by
  obtain ⟨w, hreach, hdone⟩ := Loop.exists_last (L := walkLoop fs.sys r) (walkStart p)
  rw [h] at hdone
  obtain ⟨hrest, hnames⟩ := rest_of_walkStep_done hdone
  have hw : Resolved fs r w.names w.rest :=
    hreach.invariant (I := fun w => Resolved fs r w.names w.rest) (Resolved.nil p)
      fun _ _ hw hnext => walkStep_resolved hw hnext
  rw [hrest, hnames] at hw
  exact hw

/-! ## The second walk -/

/-- The first component of names written as text. -/
theorem component_render_cons (c : Name) (names : List Name) :
    component (render (c :: names)) = (c.1, render names) := by
  have hslash : ∀ x ∈ c.1, (x != slash) = true := by
    intro x hx
    exact bne_iff_ne.2 fun heq => c.2.2.1 (heq ▸ hx)
  have htext : render (c :: names) = slash :: (c.1 ++ render names) := by
    simp [render]
  -- behind the slash in front, `c` goes up to the next slash or to the end
  have hskip : (render (c :: names)).dropWhile (· == slash) = c.1 ++ render names := by
    have hfirst : ∀ x, (c.1 ++ render names).head? = some x → x ≠ slash := by
      intro x hx
      rw [List.head?_append_of_ne_nil _ c.2.1] at hx
      exact bne_iff_ne.1 (hslash x (List.mem_of_head? hx))
    rw [htext, List.dropWhile_cons_of_pos (by simp)]
    cases htail : c.1 ++ render names with
    | nil => rfl
    | cons x tail =>
        rw [htail] at hfirst
        exact List.dropWhile_cons_of_neg (by simpa using hfirst x rfl)
  have htake : (render names).takeWhile (· != slash) = [] := by
    cases names <;> simp [render]
  have hdrop : (render names).dropWhile (· != slash) = render names := by
    cases names <;> simp [render]
  unfold component
  dsimp only
  rw [hskip, List.takeWhile_append_of_pos hslash, List.dropWhile_append_of_pos hslash, htake,
    hdrop, List.append_nil]

/-- A pass on such a text goes down to the first name. -/
theorem walkStep_of_enters {w : Walker} {c : Name} {behind : List Name}
    (hrest : w.rest = render (c :: behind)) (h : Enters fs r (w.names ++ [c]) (render behind)) :
    ∃ w', walkStep fs.sys r w = .next w' ∧ w'.names = w.names ++ [c] ∧
      w'.rest = render behind := by
  have hcomp : component w.rest = (c.1, render behind) := by rw [hrest, component_render_cons]
  have hbehind : w.behind.rest = render behind := congrArg Prod.snd hcomp
  have hne : w.rest ≠ [] := by simp [hrest, render]
  refine ⟨{ w.behind with names := w.names ++ [c] }, ?_, rfl, hbehind⟩
  rw [walkStep_name hne (congrArg Prod.fst hcomp)]
  exact visit_of_enters (w := w.behind) (hbehind ▸ h)

/-- The walk on the text of resolved names ends with these names. -/
theorem eval_render {behind : List Name} {w : Walker} (hrest : w.rest = render behind)
    (hnames : Resolved fs r (w.names ++ behind) []) :
    (walkLoop fs.sys r).eval w = .ok (w.names ++ behind) := by
  induction behind generalizing w with
  | nil =>
      have hdone : walkStep fs.sys r w = .done (.ok w.names) := if_pos hrest
      rw [(walkLoop fs.sys r).eval_done hdone, List.append_nil]
  | cons c behind ih =>
      have henters : Enters fs r (w.names ++ [c]) (render behind) := by
        have h := hnames w.names c behind rfl
        rwa [List.append_nil] at h
      obtain ⟨w', hstep, hnames', hrest'⟩ := walkStep_of_enters hrest henters
      have hall : w'.names ++ behind = w.names ++ c :: behind := by simp [hnames']
      rw [(walkLoop fs.sys r).eval_next hstep, ih hrest' (hall ▸ hnames), hall]

/-- Nothing is left of a lone slash. -/
theorem eval_slash (sys : Sys) {w : Walker} (hrest : w.rest = [slash]) :
    (walkLoop sys r).eval w = .ok w.names := by
  have hskip : walkStep sys r w = .next w.behind :=
    walkStep_skip (by simp [hrest]) (Or.inl (by rw [hrest]; rfl))
  have hbehind : w.behind.rest = [] := by
    change (component w.rest).2 = []
    rw [hrest]
    rfl
  have hdone : walkStep sys r w.behind = .done (.ok w.names) := if_pos hbehind
  rw [(walkLoop sys r).eval_next hskip, (walkLoop sys r).eval_done hdone]

/-- As long as nobody writes to the file system, a path that `getCanonicalPath` has returned is
returned again when it is resolved below the same root. -/
theorem getCanonicalPath_idempotent (fs : FileSystem) {r p q : Str} (hr : PlainRoot r)
    (hp : p.head? = some slash) (h : getCanonicalPath fs.sys p r = .ok (r ++ q)) :
    getCanonicalPath fs.sys (if q = [] then [slash] else q) r = .ok (r ++ q) := by
  rw [hr.getCanonicalPath_eq fs.sys hp] at h
  cases hwalk : (walkLoop fs.sys r).eval (walkStart p) with
  | error e =>
      rw [hwalk] at h
      cases h
  | ok names =>
      rw [hwalk] at h
      have hq : q = render names := (List.append_cancel_left (Except.ok.inj h)).symm
      have hresolved : Resolved fs r names [] := resolved_of_eval hwalk
      cases names with
      | nil =>
          -- nothing but the root
          rw [hq, if_pos render_nil, hr.getCanonicalPath_eq fs.sys rfl,
            eval_slash fs.sys (w := walkStart [slash]) rfl]
          rfl
      | cons c names =>
          have hne : render (c :: names) ≠ [] := by simp [render]
          have hhead : (render (c :: names)).head? = some slash := rfl
          rw [hq, if_neg hne, hr.getCanonicalPath_eq fs.sys hhead]
          rw [eval_render (w := walkStart (render (c :: names))) rfl hresolved]
          rfl

/-- `/r/var/run` is a link, and nothing is there where it leads to. -/
private def runLinked : FileSystem where
  lstat path :=
    if path = str "/r/var/run" then .ok .link
    else if path = str "/r/var" then .ok .dir
    else .error ENOENT
  readlink _ := .ok (str "/run/./lock")
  getcwd := .error ENOENT

theorem getCanonicalPath_idempotent_run :
    getCanonicalPath runLinked.sys (str "/var/run") (str "/r") =
        .ok (str "/r" ++ str "/run/lock") ∧
      getCanonicalPath runLinked.sys (str "/run/lock") (str "/r") =
        .ok (str "/r" ++ str "/run/lock") := by
  have hfirst : getCanonicalPath runLinked.sys (str "/var/run") (str "/r") =
      .ok (str "/r" ++ str "/run/lock") := by
    decide
  exact ⟨hfirst, getCanonicalPath_idempotent runLinked ⟨by decide, by decide⟩ (by decide) hfirst⟩

end Path
end Kdump

import Kdump.Path.Walker

/-!
# DefaultRoot — `getCanonicalPath` with the root `/`

`MountTable::find_mount` calls `getCanonicalPath()` with the default root `/`.  There the `rfind`
that cuts the path back finds the root's own slash when only one component is left, and the
result becomes the empty string instead of `/`.  The walker says exactly when this happens: when a
pass cuts back to the root directory.
-/

namespace Kdump
namespace Path

open Lib

/-- `/`, or `/c1/.../cn` with `n ≥ 1` and non-empty components without slashes. -/
def AbsoluteForm (ret : Str) : Prop :=
  ret = [slash] ∨
    ∃ cs : List Str, cs ≠ [] ∧ (∀ c ∈ cs, c ≠ [] ∧ slash ∉ c) ∧ ret = cs.flatMap (slash :: ·)

theorem not_absoluteForm_nil : ¬ AbsoluteForm [] := by
  rintro (h | ⟨cs, hne, _, h⟩)
  · cases h
  · cases cs with
    | nil => exact hne rfl
    | cons c cs => simp at h

/-- The pass at this head of the loop reads `*ret.rbegin()` of an empty string. -/
def ReadsLastOfEmpty (s : Canon) : Prop :=
  s.rest ≠ [] ∧ IsName (component s.rest).1 ∧ s.ret = []

/-- What `find_mount` relies on. -/
def CanonicalFromSlash (sys : Sys) (p : Str) : Prop :=
  (∀ ret, getCanonicalPath sys p [slash] = .ok ret → AbsoluteForm ret) ∧
    ∀ s, (canonLoop sys [slash]).Reach (canonStart [slash] p) s → ¬ ReadsLastOfEmpty s

/-! ## The view from `/` -/

def shownFromSlash (names : List Name) : Str :=
  if names = [] then [slash] else render names

theorem shownFromSlash_concat (names : List Name) (c : Name) :
    shownFromSlash (names ++ [c]) = render (names ++ [c]) := by
  simp [shownFromSlash]

theorem enter_fromSlash (names : List Name) (c : Name) :
    ∃ last, (shownFromSlash names).getLast? = some last ∧
      (if last ≠ slash then shownFromSlash names ++ [slash] else shownFromSlash names) ++ c.1 =
        shownFromSlash (names ++ [c]) := by
  rcases List.eq_nil_or_concat names with rfl | ⟨names, d, rfl⟩
  · exact ⟨slash, rfl, by simp [shownFromSlash]⟩
  · rw [List.concat_eq_append]
    rcases getLast?_render_concat [] names d with ⟨last, hlast, hne⟩
    refine ⟨last, by rw [shownFromSlash_concat]; exact hlast, ?_⟩
    rw [if_pos hne, shownFromSlash_concat, shownFromSlash_concat, render_append _ [c],
      render_singleton]
    simp

theorem cut_fromSlash (names : List Name) (c : Name) (hsafe : names ≠ []) :
    resizeRfind (shownFromSlash (names ++ [c])) = .ok (shownFromSlash names) := by
  rw [shownFromSlash_concat, render_append, render_singleton, resizeRfind_append c.2.2.1]
  simp [shownFromSlash, hsafe]

theorem take_fromSlash (names : List Name) (c : Name) :
    (shownFromSlash (names ++ [c])).take [slash].length = [slash] := by
  rw [shownFromSlash_concat]
  cases names <;> simp [render]

theorem lt_fromSlash (names : List Name) (c : Name) :
    [slash].length < (shownFromSlash (names ++ [c])).length := by
  have hpos : 0 < c.1.length := List.length_pos_iff.2 c.2.1
  rw [shownFromSlash_concat, render_append, render_singleton]
  simp
  omega

/-- Below `/` the code can cut back to every directory but the root. -/
def slashView : RootView [slash] [] where
  shown := shownFromSlash
  Safe names := names ≠ []
  shown_nil := rfl
  shown_concat := shownFromSlash_concat
  enter := enter_fromSlash
  cut := cut_fromSlash
  take_root := take_fromSlash
  root_lt := lt_fromSlash

theorem absoluteForm_shown (names : List Name) : AbsoluteForm (shownFromSlash names) := by
  unfold shownFromSlash
  split_ifs with hnil
  · exact Or.inl rfl
  · refine Or.inr ⟨names.map Subtype.val, fun h => hnil (List.map_eq_nil_iff.1 h), ?_, ?_⟩
    · intro c hc
      rcases List.mem_map.1 hc with ⟨d, _, rfl⟩
      exact ⟨d.2.1, d.2.2.1⟩
    · unfold render
      rw [List.flatMap_map]

theorem shownFromSlash_ne_nil (names : List Name) : shownFromSlash names ≠ [] := fun h =>
  not_absoluteForm_nil (h ▸ absoluteForm_shown names)

/-! ## The empty string -/

/-- A pass that cuts back to the root directory leaves an empty string. -/
theorem canonStep_of_cutsTo_nil {sys : Sys} {s : Canon} {w : Walker}
    (hrel : slashView.Rel s w) (hcut : CutsTo sys [] w []) :
    ∃ s', canonStep sys [slash] s = .next s' ∧ s'.ret = [] := by
  rcases hcut with ⟨hrest, hcases⟩
  unfold canonStep
  rw [hrel.rest, if_neg hrest]
  dsimp only
  -- `..` below the root, or a relative link in the root
  rcases hcases with ⟨hdotdot, c, hnames⟩ | ⟨c, hc, hnames, hstat, hmax, target, hread, habs⟩
  · have hret : s.ret = [] ++ slash :: c.1 := by
      rw [hrel.ret, hnames]
      exact (shownFromSlash_concat [] c).trans (by simp)
    have hlt : [slash].length < s.ret.length := by
      have hpos : 0 < c.1.length := List.length_pos_iff.2 c.2.1
      rw [hret]
      simp
      omega
    rw [if_neg (by simp [hdotdot]), if_neg (by simp [hdotdot]), if_pos hdotdot, backUp,
      if_pos hlt, hret, resizeRfind_append c.2.2.1]
    exact ⟨_, rfl, rfl⟩
  · have hret : s.ret = [slash] := by
      rw [hrel.ret, hnames]
      rfl
    have hhere : [] ++ render ([] ++ [c]) = [slash] ++ c.1 := by simp
    rw [hhere] at hstat hread
    rw [hc, if_neg c.2.1, if_neg c.2.2.2.1, if_neg c.2.2.2.2, enter, hret]
    have hmax' : ¬ MAXSYMLINKS < w.num_links + 1 := by omega
    have hcut' : resizeRfind ([slash] ++ c.1) = .ok [] := resizeRfind_append (a := []) c.2.2.1
    simp only [List.getLast?_singleton, ne_eq, not_true_eq_false, if_false, hrel.passes, hstat,
      followLink, hread, hrel.num_links, if_neg hmax', if_neg habs, hcut']
    exact ⟨_, rfl, rfl⟩

/-- With an empty string, a pass that reads no ordinary component goes round again and changes
nothing but the text. -/
theorem canonStep_of_ret_nil {sys : Sys} {s : Canon} (hret : s.ret = []) (hrest : s.rest ≠ [])
    (hread : ¬ ReadsLastOfEmpty s) : ∃ s', canonStep sys [slash] s = .next s' ∧ s'.ret = [] := by
  unfold canonStep
  rw [if_neg hrest]
  dsimp only
  split_ifs with hnil hdot hdotdot
  · exact ⟨_, rfl, hret⟩
  · exact ⟨_, rfl, hret⟩
  · rw [backUp, if_neg (by simp [hret])]
    exact ⟨_, rfl, hret⟩
  · exact absurd ⟨hrest, ⟨hnil, slash_notMem_component _, hdot, hdotdot⟩, hret⟩ hread

/-- From an empty string the function either reads the last character of one, or returns one. -/
theorem eval_of_ret_nil {sys : Sys} {s : Canon} (hret : s.ret = [])
    (hread : ∀ t, (canonLoop sys [slash]).Reach s t → ¬ ReadsLastOfEmpty t) :
    (canonLoop sys [slash]).eval s = .ok [] := by
  -- the string stays empty up to the last pass
  rcases Loop.exists_last (L := canonLoop sys [slash]) s with ⟨t, hreach, hdone⟩
  have hinv : (canonLoop sys [slash]).Reach s t ∧ t.ret = [] := by
    refine Loop.Reach.invariant (I := fun t => (canonLoop sys [slash]).Reach s t ∧ t.ret = [])
      hreach ⟨Loop.Reach.refl s, hret⟩ ?_
    rintro u v ⟨hu, hnil⟩ hnext
    have hrest : u.rest ≠ [] := (canonStep_splices hnext).1
    rcases canonStep_of_ret_nil hnil hrest (hread u hu) with ⟨v', hnext', hnil'⟩
    cases hnext.symm.trans hnext'
    exact ⟨hu.tail hnext, hnil'⟩
  have hstep : canonStep sys [slash] t = .done ((canonLoop sys [slash]).eval s) := hdone
  by_cases hrest : t.rest = []
  · rw [canonStep, if_pos hrest, hinv.2] at hstep
    exact (Step.done.inj hstep).symm
  · rcases canonStep_of_ret_nil hinv.2 hrest (hread t hreach) with ⟨t', hnext, _⟩
    rw [hnext] at hstep
    cases hstep

/-! ## When the result is canonical -/

/-- The function keeps to its contract exactly if no pass of the path walk cuts the path back to
the root directory. -/
theorem canonicalFromSlash_iff (sys : Sys) {p : Str} (hp : p.head? = some slash) :
    CanonicalFromSlash sys p ↔
      ∀ w, (walkLoop sys []).Reach (walkStart p) w → ¬ CutsTo sys [] w [] := by
  have heval : getCanonicalPath sys p [slash] = _ :=
    getCanonicalPath_absolute sys hp (by simp)
  constructor
  · rintro ⟨hform, hread⟩ w hreach hcut
    have hbad : ¬ slashView.Good sys [] w := fun hgood => hgood [] hcut rfl
    rcases slashView.simulation.reach_first_bad hreach (slashView.start_rel p) hbad with
      ⟨s, u, hs, hrel, hu⟩
    -- the first bad pass is one that cuts back to the root directory
    have hcut' : CutsTo sys [] u [] := by
      by_contra hno
      refine hu fun names hnames hnil => ?_
      exact hno (hnil ▸ hnames)
    rcases canonStep_of_cutsTo_nil hrel hcut' with ⟨s', hnext, hnil⟩
    have hs' : (canonLoop sys [slash]).Reach (canonStart [slash] p) s' := hs.tail hnext
    -- from there on the string stays empty
    have hempty : (canonLoop sys [slash]).eval s' = .ok [] :=
      eval_of_ret_nil hnil fun t ht => hread t (Relation.ReflTransGen.trans hs' ht)
    rw [← hs'.eval_eq] at hempty
    exact not_absoluteForm_nil (hform [] (heval.trans hempty))
  · intro hcut
    have hgood : ∀ w, (walkLoop sys []).Reach (walkStart p) w → slashView.Good sys [] w := by
      rintro w hreach names hnames rfl
      exact hcut w hreach hnames
    constructor
    · intro ret hret
      have hres := slashView.simulation.eval (slashView.start_rel p) hgood
      rw [heval, hres] at hret
      cases hwalk : (walkLoop sys []).eval (walkStart p) with
      | error e =>
          rw [hwalk] at hret
          cases hret
      | ok names =>
          rw [hwalk] at hret
          cases hret
          exact absoluteForm_shown names
    · rintro s hreach ⟨_, _, hnil⟩
      rcases slashView.simulation.reach hreach (slashView.start_rel p) hgood with ⟨w, _, hrel⟩
      exact shownFromSlash_ne_nil w.names (hrel.ret.symm.trans hnil)

/-- A file system of directories, with one relative link in the root directory. -/
private def usrMerged : Sys where
  lstat _ path := if path = str "/bin" then .ok .link else .ok .dir
  readlink _ _ := .ok (str "usr/bin")
  getcwd := .error ENOENT

theorem canonicalFromSlash_iff_usr :
    CanonicalFromSlash usrMerged (str "/usr") ↔
      ∀ w, (walkLoop usrMerged []).Reach (walkStart (str "/usr")) w → ¬ CutsTo usrMerged [] w [] :=
  canonicalFromSlash_iff usrMerged (by decide)

/-- `/usr/..` gives the empty string, and `/bin` reads the last character of one. -/
theorem not_canonicalFromSlash :
    getCanonicalPath usrMerged (str "/usr/..") [slash] = .ok [] ∧
      ¬ CanonicalFromSlash usrMerged (str "/usr/..") ∧
      ¬ CanonicalFromSlash usrMerged (str "/bin") := by
  have hempty : getCanonicalPath usrMerged (str "/usr/..") [slash] = .ok [] := by decide
  refine ⟨hempty, fun h => not_absoluteForm_nil (h.1 [] hempty), fun h => ?_⟩
  have hstep : canonStep usrMerged [slash] (canonStart [slash] (str "/bin")) =
      .next ⟨[], str "usr/bin", 1, 1⟩ := by decide
  refine h.2 _ (Loop.Reach.head hstep (Loop.Reach.refl _)) ⟨by decide, by decide, rfl⟩

end Path
end Kdump

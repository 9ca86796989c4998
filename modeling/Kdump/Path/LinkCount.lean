import Kdump.Path.FilePath

/-!
# LinkCount — how many links `getCanonicalPath` follows

Every link puts its target in front of the text that has not been read yet, so that the text may
grow with every link, for ever if a link leads to itself.  But the links are counted.

* `meetsLink` — the pass comes to a link;
* `Run` — the passes that go round again;
* `Run.num_links` — the count is right;
* `canon_ends` — the loop ends, and how many links it has followed by then.
-/

namespace Kdump
namespace Path

open Lib

/-! ## Links on the way -/

/-- `ret` with a component behind it. -/
def entered (ret dir : Str) : Str :=
  (if ret.getLast? = some slash then ret else ret ++ [slash]) ++ dir

/-- The component that the next pass reads is looked up. -/
def looksUp (s : Canon) : Bool :=
  s.rest ≠ [] && s.ret ≠ [] && (component s.rest).1 ≠ [] && (component s.rest).1 ≠ [period] &&
    (component s.rest).1 ≠ [period, period]

/-- The path that is passed to `lstat` then. -/
def lookedUp (s : Canon) : Str :=
  entered s.ret (component s.rest).1

variable {sys : Sys} {rootp : Str}

/-- The next pass comes to a link. -/
def meetsLink (sys : Sys) (s : Canon) : Bool :=
  looksUp s &&
    match sys.lstat (s.passes + 1) (cStr (lookedUp s)) with
    | .ok .link => true
    | _ => false

theorem meetsLink_iff {s : Canon} : meetsLink sys s = true ↔
    looksUp s = true ∧ sys.lstat (s.passes + 1) (cStr (lookedUp s)) = .ok .link := by
  unfold meetsLink
  rw [Bool.and_eq_true]
  apply and_congr_right
  intro _
  cases sys.lstat (s.passes + 1) (cStr (lookedUp s)) with
  | error e => exact iff_of_false Bool.false_ne_true nofun
  | ok type =>
      cases type with
      | link => exact iff_of_true rfl rfl
      | dir => exact iff_of_false Bool.false_ne_true nofun
      | other => exact iff_of_false Bool.false_ne_true nofun

/-- A pass that looks a component up. -/
theorem canonStep_looksUp {s : Canon} (h : looksUp s = true) :
    canonStep sys rootp s =
      match sys.lstat (s.passes + 1) (cStr (lookedUp s)) with
      | .error errno =>
          if errno = ENOENT then
            .next ⟨lookedUp s, (component s.rest).2, s.num_links, s.passes + 1⟩
          else
            .done (.error (.KSystemError (str "Stat failed on " ++ lookedUp s) errno))
      | .ok .link =>
          followLink sys rootp ⟨lookedUp s, (component s.rest).2, s.num_links, s.passes + 1⟩
      | .ok .dir => .next ⟨lookedUp s, (component s.rest).2, s.num_links, s.passes + 1⟩
      | .ok .other =>
          if (component s.rest).2 ≠ [] then
            .done (.error (.KSystemError (str "getCanonicalPath() failed") ENOTDIR))
          else
            .next ⟨lookedUp s, (component s.rest).2, s.num_links, s.passes + 1⟩ := by
  simp only [looksUp, Bool.and_eq_true, decide_eq_true_eq] at h
  obtain ⟨⟨⟨⟨hrest, hret⟩, hempty⟩, hdot⟩, hdotdot⟩ := h
  have hlast : s.ret.getLast? = some (s.ret.getLast hret) := List.getLast?_eq_some_getLast hret
  -- the slash is put in unless one is there already
  have hentered : (if s.ret.getLast hret ≠ slash then s.ret ++ [slash] else s.ret) ++
      (component s.rest).1 = lookedUp s := by
    unfold lookedUp entered
    rw [hlast]
    by_cases hslash : s.ret.getLast hret = slash
    · rw [if_neg (not_not.2 hslash), if_pos (congrArg some hslash)]
    · rw [if_pos hslash, if_neg fun heq => hslash (Option.some.inj heq)]
  rw [canonStep, if_neg hrest]
  dsimp only
  rw [if_neg hempty, if_neg hdot, if_neg hdotdot, enter]
  dsimp only
  rw [hlast]
  exact hentered ▸ rfl

/-- Any other pass looks nothing up. -/
theorem num_links_of_not_looksUp {s s' : Canon} (h : looksUp s = false)
    (hnext : canonStep sys rootp s = .next s') : s'.num_links = s.num_links := by
  unfold canonStep at hnext
  split at hnext
  · cases hnext
  rename_i hrest
  dsimp only at hnext
  split at hnext
  · cases hnext
    rfl
  rename_i hempty
  split at hnext
  · cases hnext
    rfl
  rename_i hdot
  split at hnext
  · -- back to the directory above
    unfold backUp at hnext
    split at hnext
    · split at hnext
      · cases hnext
      · cases hnext
        rfl
    · cases hnext
      rfl
  · -- only an empty `*ret` is left
    rename_i hdotdot
    have hret : s.ret = [] := by
      by_contra hret
      simp [looksUp, hrest, hempty, hdot, hdotdot, hret] at h
    rw [enter, hret] at hnext
    cases hnext

/-- A link is counted, unless there were too many of them before. -/
theorem followLink_num_links {s s' : Canon} (h : followLink sys rootp s = .next s') :
    s'.num_links = s.num_links + 1 ∧ s.num_links < MAXSYMLINKS := by
  unfold followLink at h
  split at h
  · cases h
  dsimp only at h
  split at h
  · cases h
  rename_i hmax
  have hlt : s.num_links < MAXSYMLINKS := by omega
  -- an absolute target, then a relative one
  split at h
  · cases h
    exact ⟨rfl, hlt⟩
  · split at h
    · cases h
    · cases h
      exact ⟨rfl, hlt⟩

/-- One link too many. -/
theorem followLink_eloop {s : Canon} {target : Str}
    (hread : readLink sys s.passes s.ret = .ok target) (hmax : MAXSYMLINKS ≤ s.num_links) :
    followLink sys rootp s =
      .done (.error (.KSystemError (str "getCanonicalPath() failed") ELOOP)) := by
  rw [followLink, hread]
  exact if_pos (Nat.lt_succ_of_le hmax)

/-! ## The count -/

/-- The loop variables behind a component that is looked up. -/
def Canon.below (s : Canon) : Canon :=
  ⟨lookedUp s, (component s.rest).2, s.num_links, s.passes + 1⟩

/-- A pass that comes to a link follows it. -/
theorem canonStep_meetsLink {s : Canon} (h : meetsLink sys s = true) :
    canonStep sys rootp s = followLink sys rootp s.below := by
  obtain ⟨hlooks, hlink⟩ := meetsLink_iff.1 h
  rw [canonStep_looksUp hlooks, hlink]
  rfl

/-- Any other pass leaves the count alone. -/
theorem num_links_of_not_meetsLink {s s' : Canon} (h : meetsLink sys s = false)
    (hnext : canonStep sys rootp s = .next s') : s'.num_links = s.num_links := by
  cases hlooks : looksUp s with
  | false => exact num_links_of_not_looksUp hlooks hnext
  | true =>
      have hlink : sys.lstat (s.passes + 1) (cStr (lookedUp s)) ≠ .ok .link := by
        intro hlink
        rw [meetsLink_iff.2 ⟨hlooks, hlink⟩] at h
        cases h
      rw [canonStep_looksUp hlooks] at hnext
      split at hnext
      · split at hnext
        · cases hnext
          rfl
        · cases hnext
      · rename_i hstat
        exact absurd hstat hlink
      · cases hnext
        rfl
      · split at hnext
        · cases hnext
        · cases hnext
          rfl

/-- The passes that go round again, by the states at the head of each. -/
inductive Run (sys : Sys) (rootp : Str) : Canon → List Canon → Canon → Prop
  | nil (s : Canon) : Run sys rootp s [] s
  | cons {s s' t : Canon} {heads : List Canon} :
      canonStep sys rootp s = .next s' → Run sys rootp s' heads t →
        Run sys rootp s (s :: heads) t

namespace Run

variable {s t : Canon} {heads : List Canon}

/-- The loop comes to its last pass, and that pass gives the result. -/
theorem exists_last (s : Canon) : ∃ heads t, Run sys rootp s heads t ∧
    canonStep sys rootp t = .done ((canonLoop sys rootp).eval s) := by
  obtain ⟨t, hreach, hdone⟩ := Loop.exists_last (L := canonLoop sys rootp) s
  refine Relation.ReflTransGen.head_induction_on
    (motive := fun s _ => ∃ heads t', Run sys rootp s heads t' ∧
      canonStep sys rootp t' = .done ((canonLoop sys rootp).eval s)) hreach ?_ ?_
  · refine ⟨[], t, .nil t, ?_⟩
    rw [← hreach.eval_eq]
    exact hdone
  · rintro s s' hnext - ⟨heads, t', hrun, hlast⟩
    refine ⟨s :: heads, t', .cons hnext hrun, ?_⟩
    rw [(canonLoop sys rootp).eval_next hnext]
    exact hlast

/-- The result of the loop is that of the last pass. -/
theorem eval_eq (h : Run sys rootp s heads t) {r : Except Thrown Str}
    (hdone : canonStep sys rootp t = .done r) : (canonLoop sys rootp).eval s = r := by
  induction h with
  | nil s => exact (canonLoop sys rootp).eval_done hdone
  | cons hnext _ ih => exact ((canonLoop sys rootp).eval_next hnext).trans (ih hdone)

/-- `num_links` is the number of links. -/
theorem num_links (h : Run sys rootp s heads t) :
    t.num_links = s.num_links + heads.countP (meetsLink sys) := by
  induction h with
  | nil s => rfl
  | @cons s s' t heads hnext _ ih =>
      rw [ih]
      cases hlink : meetsLink sys s with
      | false =>
          rw [List.countP_cons_of_neg (by simp [hlink]), num_links_of_not_meetsLink hlink hnext]
      | true =>
          rw [canonStep_meetsLink hlink] at hnext
          rw [List.countP_cons_of_pos hlink, (followLink_num_links hnext).1]
          simp only [Canon.below]
          omega

/-- No more links are counted than allowed. -/
theorem num_links_le (h : Run sys rootp s heads t) (hs : s.num_links ≤ MAXSYMLINKS) :
    t.num_links ≤ MAXSYMLINKS := by
  induction h with
  | nil s => exact hs
  | @cons s s' t heads hnext _ ih =>
      apply ih
      cases hlink : meetsLink sys s with
      | false => exact (num_links_of_not_meetsLink hlink hnext).le.trans hs
      | true =>
          rw [canonStep_meetsLink hlink] at hnext
          obtain ⟨hcount, hlt⟩ := followLink_num_links hnext
          exact hcount.trans_le hlt

/-- Each pass takes the unread text and the links that are left down by one. -/
theorem length_le (h : Run sys rootp s heads t) :
    heads.length + textMeasure t.rest t.num_links ≤ textMeasure s.rest s.num_links := by
  induction h with
  | nil s => exact (Nat.zero_add _).le
  | @cons s s' t heads hnext _ ih =>
      have hsplices := canonStep_splices hnext
      have hlt := hsplices.2.measure_lt hsplices.1
      rw [List.length_cons]
      omega

end Run

/-! ## The end of the loop -/

/-- The link behind the last one that is allowed. -/
theorem canonStep_eloop {s : Canon} {target : Str} (h : meetsLink sys s = true)
    (hmax : MAXSYMLINKS ≤ s.num_links)
    (hread : readLink sys (s.passes + 1) (lookedUp s) = .ok target) :
    canonStep sys rootp s =
      .done (.error (.KSystemError (str "getCanonicalPath() failed") ELOOP)) := by
  rw [canonStep_meetsLink h]
  exact followLink_eloop (s := s.below) hread hmax

/-- Whatever the system answers, whatever path is read and whatever root is set, the loop ends.
On the way it follows at most `MAXSYMLINKS` links, and if it comes to one more, the function ends
with `ELOOP` as soon as that link has been read. -/
theorem canon_ends (sys : Sys) (rootp ret path : Str) :
    (∃ heads t, Run sys rootp (canonStart ret path) heads t ∧
      canonStep sys rootp t = .done ((canonLoop sys rootp).eval (canonStart ret path))) ∧
    ∀ heads t, Run sys rootp (canonStart ret path) heads t →
      heads.length ≤ MAXSYMLINKS * BUFSIZ + path.length ∧
      heads.countP (meetsLink sys) ≤ MAXSYMLINKS ∧
      (meetsLink sys t = true → heads.countP (meetsLink sys) = MAXSYMLINKS →
        ∀ target, readLink sys (t.passes + 1) (lookedUp t) = .ok target →
          (canonLoop sys rootp).eval (canonStart ret path) =
            .error (.KSystemError (str "getCanonicalPath() failed") ELOOP)) := by
  refine ⟨Run.exists_last _, ?_⟩
  intro heads t hrun
  have hcount : t.num_links = heads.countP (meetsLink sys) :=
    hrun.num_links.trans (Nat.zero_add _)
  refine ⟨?_, ?_, ?_⟩
  · exact (Nat.le_add_right _ _).trans hrun.length_le
  · rw [← hcount]
    exact hrun.num_links_le (Nat.zero_le _)
  · intro hlink hall target hread
    exact hrun.eval_eq (canonStep_eloop hlink (hcount.trans hall).ge hread)

/-- A link that leads to itself, with more text behind it every time. -/
private def growing : Sys where
  lstat _ path := if path = str "/r/a" then .ok .link else .ok .dir
  readlink _ _ := .ok (str "a/b")
  getcwd := .error ENOENT

example : getCanonicalPath growing (str "/a") (str "/r") =
    .error (.KSystemError (str "getCanonicalPath() failed") ELOOP) := by
  decide

end Path
end Kdump

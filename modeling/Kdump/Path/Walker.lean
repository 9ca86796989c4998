import Kdump.Path.FilePath

/-!
# Walker — the path walk on lists of names

`getCanonicalPath` keeps the resolved path as a string and cuts it with `rfind`.  The walker of
this file is the same walk on a list of names: going down appends a name, `..` drops the last one,
an absolute link empties the list, a relative link leaves it.  A `Name` carries the proof that it
is a proper path component, so the walker cannot leave its root.

A `RootView` says how the string of the code shows the list of the walker; from it follows a
pass-by-pass simulation.  It is total for roots without a trailing slash, and holds for the root
`/` as long as no pass cuts the path back to the root directory.
-/

namespace Kdump
namespace Path

open Lib

/-! ## Names -/

/-- A proper path component. -/
def IsName (c : Str) : Prop :=
  c ≠ [] ∧ slash ∉ c ∧ c ≠ [period] ∧ c ≠ [period, period]

instance (c : Str) : Decidable (IsName c) := by
  unfold IsName
  infer_instance

abbrev Name := { c : Str // IsName c }

/-- The text of a list of names, a slash in front of each. -/
def render (names : List Name) : Str :=
  names.flatMap fun c => slash :: c.1

@[simp] theorem render_nil : render [] = [] := rfl

@[simp] theorem render_append (names names' : List Name) :
    render (names ++ names') = render names ++ render names' := by
  simp [render]

@[simp] theorem render_singleton (c : Name) : render [c] = slash :: c.1 := by
  simp [render]

theorem getLast?_render_concat (a : Str) (names : List Name) (c : Name) :
    ∃ last, (a ++ render (names ++ [c])).getLast? = some last ∧ last ≠ slash := by
  have hne : c.1 ≠ [] := c.2.1
  refine ⟨c.1.getLast hne, ?_, ?_⟩
  · rw [render_append, render_singleton, ← List.append_assoc, List.getLast?_append_of_ne_nil _
      (by simp), List.getLast?_cons, List.getLast?_eq_some_getLast hne]
    rfl
  · intro h
    exact c.2.2.1 (h ▸ List.getLast_mem hne)

/-! ## The walker -/

structure Walker where
  names : List Name
  rest : Str
  num_links : Nat
  passes : Nat

abbrev WalkPass := Step Walker (Except Thrown (List Name))

/-- Go on with a link target. -/
def follow (target : Str) (w : Walker) : WalkPass :=
  let extra := target ++ w.rest
  if MAXSYMLINKS < w.num_links + 1 then
    .done (.error (.KSystemError (str "getCanonicalPath() failed") ELOOP))
  else
    .next { w with
      names := if extra.head? = some slash then [] else w.names
      rest := extra
      num_links := w.num_links + 1 }

/-- Look at the name `c` below the names resolved so far. -/
def visit (sys : Sys) (base : Str) (c : Name) (w : Walker) : WalkPass :=
  let here := base ++ render (w.names ++ [c])
  let below := { w with names := w.names ++ [c] }
  match sys.lstat w.passes (cStr here) with
  | .error errno =>
      if errno = ENOENT then .next below
      else .done (.error (.KSystemError (str "Stat failed on " ++ here) errno))
  | .ok .link =>
      match readLink sys w.passes here with
      | .error e => .done (.error e)
      | .ok target => follow target w
  | .ok .dir => .next below
  | .ok .other =>
      if w.rest ≠ [] then .done (.error (.KSystemError (str "getCanonicalPath() failed") ENOTDIR))
      else .next below

/-- One pass of the walker, whose names stand for paths below `base`. -/
def walkStep (sys : Sys) (base : Str) (w : Walker) : WalkPass :=
  if w.rest = [] then
    .done (.ok w.names)
  else
    let dir := (component w.rest).1
    let w := { w with rest := (component w.rest).2, passes := w.passes + 1 }
    if hdir : IsName dir then visit sys base ⟨dir, hdir⟩ w
    else if dir = [period, period] then .next { w with names := w.names.dropLast }
    else .next w

/-- The walker behind the component it reads. -/
def Walker.behind (w : Walker) : Walker :=
  { w with rest := (component w.rest).2, passes := w.passes + 1 }

/-- An empty component and `.` are passed over. -/
theorem walkStep_skip {sys : Sys} {base : Str} {w : Walker} (hrest : w.rest ≠ [])
    (hskip : (component w.rest).1 = [] ∨ (component w.rest).1 = [period]) :
    walkStep sys base w = .next w.behind := by
  have hname : ¬ IsName (component w.rest).1 := by
    rcases hskip with h | h
    · exact fun hname => hname.1 h
    · exact fun hname => hname.2.2.1 h
  have hdotdot : (component w.rest).1 ≠ [period, period] := by
    rcases hskip with h | h <;> simp [h]
  rw [walkStep, if_neg hrest, dif_neg hname, if_neg hdotdot]
  rfl

theorem walkStep_dotdot {sys : Sys} {base : Str} {w : Walker} (hrest : w.rest ≠ [])
    (hdotdot : (component w.rest).1 = [period, period]) :
    walkStep sys base w = .next { w.behind with names := w.names.dropLast } := by
  have hname : ¬ IsName (component w.rest).1 := fun hname => hname.2.2.2 hdotdot
  rw [walkStep, if_neg hrest, dif_neg hname, if_pos hdotdot]
  rfl

theorem walkStep_name {sys : Sys} {base : Str} {w : Walker} (hrest : w.rest ≠ []) {c : Name}
    (hc : (component w.rest).1 = c.1) :
    walkStep sys base w = visit sys base c w.behind := by
  have hname : IsName (component w.rest).1 := hc ▸ c.2
  have heq : (⟨(component w.rest).1, hname⟩ : Name) = c := Subtype.ext hc
  rw [walkStep, if_neg hrest, dif_pos hname, heq]
  rfl

theorem follow_splices {target : Str} {w w' : Walker} (hlen : target.length < BUFSIZ)
    (h : follow target w = .next w') : Splices w.rest w.num_links w'.rest w'.num_links := by
  unfold follow at h
  dsimp only at h
  by_cases hmax : MAXSYMLINKS < w.num_links + 1
  · rw [if_pos hmax] at h
    cases h
  · rw [if_neg hmax] at h
    cases h
    exact Or.inr ⟨target, hlen, rfl, rfl, by omega⟩

theorem visit_splices {sys : Sys} {base : Str} {c : Name} {w w' : Walker}
    (h : visit sys base c w = .next w') : Splices w.rest w.num_links w'.rest w'.num_links := by
  unfold visit at h
  dsimp only at h
  split at h
  · split at h
    · cases h
      exact Splices.refl _ _
    · cases h
  · split at h
    · cases h
    · rename_i target hread
      exact follow_splices (readLink_length_lt hread) h
  · cases h
    exact Splices.refl _ _
  · split at h
    · cases h
    · cases h
      exact Splices.refl _ _

theorem walkStep_splices {sys : Sys} {base : Str} {w w' : Walker}
    (h : walkStep sys base w = .next w') :
    w.rest ≠ [] ∧ Splices (component w.rest).2 w.num_links w'.rest w'.num_links := by
  unfold walkStep at h
  split at h
  · cases h
  · rename_i hrest
    refine ⟨hrest, ?_⟩
    dsimp only at h
    split at h
    · exact visit_splices h
    · split at h
      · cases h
        exact Splices.refl _ _
      · cases h
        exact Splices.refl _ _

def walkLoop (sys : Sys) (base : Str) : Loop Walker (Except Thrown (List Name)) where
  step := walkStep sys base
  measure w := textMeasure w.rest w.num_links
  decreases h := (walkStep_splices h).2.measure_lt (walkStep_splices h).1

def walkStart (path : Str) : Walker :=
  ⟨[], path, 0, 0⟩

/-! ## Cutting back -/

/-- The next pass cuts the resolved path back to `names`: it reads `..` one level below `names`,
or it follows a relative link that lies in the directory `names`. -/
def CutsTo (sys : Sys) (base : Str) (w : Walker) (names : List Name) : Prop :=
  w.rest ≠ [] ∧
    (((component w.rest).1 = [period, period] ∧ ∃ c, w.names = names ++ [c]) ∨
      ∃ c : Name, (component w.rest).1 = c.1 ∧ w.names = names ∧
        sys.lstat (w.passes + 1) (cStr (base ++ render (names ++ [c]))) = .ok .link ∧
        w.num_links < MAXSYMLINKS ∧
        ∃ target, readLink sys (w.passes + 1) (base ++ render (names ++ [c])) = .ok target ∧
          (target ++ (component w.rest).2).head? ≠ some slash)

/-! ## How the code shows the names -/

/-- The string that stands for a list of names, and what the string operations do to it. -/
structure RootView (rootp base : Str) where
  shown : List Name → Str
  /-- the lists to which the code can cut back -/
  Safe : List Name → Prop
  shown_nil : shown [] = rootp
  shown_concat : ∀ names c, shown (names ++ [c]) = base ++ render (names ++ [c])
  enter : ∀ names (c : Name), ∃ last, (shown names).getLast? = some last ∧
    (if last ≠ slash then shown names ++ [slash] else shown names) ++ c.1 = shown (names ++ [c])
  cut : ∀ names c, Safe names → resizeRfind (shown (names ++ [c])) = .ok (shown names)
  take_root : ∀ names c, (shown (names ++ [c])).take rootp.length = rootp
  root_lt : ∀ names c, rootp.length < (shown (names ++ [c])).length

namespace RootView

variable {rootp base : Str} (V : RootView rootp base) {sys : Sys}

/-- The loop of the code and the walker are at the same point. -/
structure Rel (s : Canon) (w : Walker) : Prop where
  ret : s.ret = V.shown w.names
  rest : s.rest = w.rest
  num_links : s.num_links = w.num_links
  passes : s.passes = w.passes

/-- The results agree. -/
def ResultRel (r : Except Thrown Str) (k : Except Thrown (List Name)) : Prop :=
  r = k.map V.shown

/-- A pass of the walker that cuts back does so to a safe list. -/
def Good (sys : Sys) (base : Str) (w : Walker) : Prop :=
  ∀ names, CutsTo sys base w names → V.Safe names

theorem backUp_rel {s : Canon} {w : Walker} (h : V.Rel s w)
    (hsafe : ∀ names c, w.names = names ++ [c] → V.Safe names) :
    Step.Rel V.Rel V.ResultRel (backUp rootp s) (.next { w with names := w.names.dropLast }) := by
  -- at the root there is nothing to cut
  rcases List.eq_nil_or_concat w.names with hnil | ⟨names, c, hnames⟩
  · have hlt : ¬ rootp.length < s.ret.length := by simp [h.ret, hnil, V.shown_nil]
    rw [backUp, if_neg hlt]
    exact ⟨by simp [h.ret, hnil], h.rest, h.num_links, h.passes⟩
  · rw [List.concat_eq_append] at hnames
    have hret : s.ret = V.shown (names ++ [c]) := by rw [h.ret, hnames]
    have hlt : rootp.length < s.ret.length := hret ▸ V.root_lt names c
    rw [backUp, if_pos hlt, hret, V.cut names c (hsafe names c hnames)]
    exact ⟨by simp [hnames], h.rest, h.num_links, h.passes⟩

/-- The state inside `enter` is one name ahead of the walker. -/
theorem followLink_rel {s : Canon} {w : Walker} {c : Name} {target : Str}
    (hret : s.ret = V.shown (w.names ++ [c])) (hrest : s.rest = w.rest)
    (hlinks : s.num_links = w.num_links) (hpasses : s.passes = w.passes)
    (hread : readLink sys s.passes s.ret = .ok target)
    (hsafe : w.num_links < MAXSYMLINKS → (target ++ w.rest).head? ≠ some slash →
      V.Safe w.names) :
    Step.Rel V.Rel V.ResultRel (followLink sys rootp s) (follow target w) := by
  unfold followLink follow
  rw [hread]
  dsimp only
  rw [hlinks, hrest]
  by_cases hmax : MAXSYMLINKS < w.num_links + 1
  · rw [if_pos hmax, if_pos hmax]
    rfl
  · rw [if_neg hmax, if_neg hmax]
    by_cases habs : (target ++ w.rest).head? = some slash
    · rw [if_pos habs, if_pos habs]
      exact ⟨by simp only [hret, V.take_root, V.shown_nil], rfl, rfl, hpasses⟩
    · rw [if_neg habs, if_neg habs, hret, V.cut _ c (hsafe (by omega) habs)]
      exact ⟨rfl, rfl, rfl, hpasses⟩

theorem enter_rel {s : Canon} {w : Walker} {c : Name} (h : V.Rel s w)
    (hsafe : ∀ target,
      sys.lstat w.passes (cStr (base ++ render (w.names ++ [c]))) = .ok .link →
      readLink sys w.passes (base ++ render (w.names ++ [c])) = .ok target →
      w.num_links < MAXSYMLINKS → (target ++ w.rest).head? ≠ some slash → V.Safe w.names) :
    Step.Rel V.Rel V.ResultRel (Path.enter sys rootp c.1 s) (visit sys base c w) := by
  rcases V.enter w.names c with ⟨last, hlast, henter⟩
  have hshown := V.shown_concat w.names c
  unfold Path.enter visit
  rw [h.ret, hlast]
  dsimp only
  rw [henter, h.passes, h.rest, hshown]
  -- both ask the system for the same path, at the same time
  cases hstat : sys.lstat w.passes (cStr (base ++ render (w.names ++ [c]))) with
  | error errno =>
      dsimp only
      split_ifs
      · exact ⟨hshown.symm, rfl, h.num_links, rfl⟩
      · rfl
  | ok type =>
      cases type with
      | link =>
          dsimp only
          cases hread : readLink sys w.passes (base ++ render (w.names ++ [c])) with
          | error e =>
              unfold followLink
              dsimp only
              rw [hread]
              rfl
          | ok target =>
              refine V.followLink_rel (c := c) hshown.symm rfl h.num_links rfl hread ?_
              exact hsafe target hstat hread
      | dir => exact ⟨hshown.symm, rfl, h.num_links, rfl⟩
      | other =>
          dsimp only
          split_ifs
          · rfl
          · exact ⟨hshown.symm, rfl, h.num_links, rfl⟩

/-- One pass of the code matches one pass of the walker. -/
theorem simulation :
    Simulation (canonLoop sys rootp) (walkLoop sys base) (V.Good sys base) V.Rel V.ResultRel where
  step := by
    intro s w h hgood
    change Step.Rel V.Rel V.ResultRel (canonStep sys rootp s) (walkStep sys base w)
    unfold canonStep walkStep
    rw [h.rest]
    by_cases hrest : w.rest = []
    · rw [if_pos hrest, if_pos hrest]
      simp [Step.Rel, ResultRel, Except.map, h.ret]
    · rw [if_neg hrest, if_neg hrest]
      dsimp only
      -- the state behind the component
      have h' : V.Rel { s with rest := (component w.rest).2, passes := s.passes + 1 }
          { w with rest := (component w.rest).2, passes := w.passes + 1 } :=
        ⟨h.ret, rfl, h.num_links, congrArg (· + 1) h.passes⟩
      by_cases hname : IsName (component w.rest).1
      · rw [if_neg hname.1, if_neg hname.2.2.1, if_neg hname.2.2.2, dif_pos hname]
        refine V.enter_rel (c := ⟨_, hname⟩) h' ?_
        intro target hstat hread hmax habs
        exact hgood w.names ⟨hrest, Or.inr ⟨⟨_, hname⟩, rfl, rfl, hstat, hmax, target, hread, habs⟩⟩
      · rw [dif_neg hname]
        by_cases hdotdot : (component w.rest).1 = [period, period]
        · rw [if_pos hdotdot]
          rw [if_neg (by simp [hdotdot]), if_neg (by simp [hdotdot]), if_pos hdotdot]
          exact V.backUp_rel h' fun names c hc => hgood names ⟨hrest, Or.inl ⟨hdotdot, c, hc⟩⟩
        · -- what is left are the empty component and `.`
          have hskip : (component w.rest).1 = [] ∨ (component w.rest).1 = [period] := by
            by_contra hne
            rw [not_or] at hne
            exact hname ⟨hne.1, slash_notMem_component w.rest, hne.2, hdotdot⟩
          rcases hskip with hnil | hdot
          · rw [if_pos hnil, if_neg hdotdot]
            exact h'
          · rw [if_neg (by simp [hdot]), if_pos hdot, if_neg hdotdot]
            exact h'

theorem start_rel (path : Str) : V.Rel (canonStart rootp path) (walkStart path) :=
  ⟨V.shown_nil.symm, rfl, rfl, rfl⟩

end RootView

/-! ## Roots without a trailing slash -/

/-- An absolute path that does not end in a slash; in particular not `/`. -/
structure PlainRoot (r : Str) : Prop where
  absolute : r.head? = some slash
  noTrailing : r.getLast? ≠ some slash

namespace PlainRoot

variable {r : Str}

theorem ne_nil (hr : PlainRoot r) : r ≠ [] := by
  rintro rfl
  simpa using hr.absolute

theorem getLast?_eq (hr : PlainRoot r) (names : List Name) :
    ∃ last, (r ++ render names).getLast? = some last ∧ last ≠ slash := by
  rcases List.eq_nil_or_concat names with rfl | ⟨names, c, rfl⟩
  · -- without names it is the last byte of the root that counts
    refine ⟨r.getLast hr.ne_nil, ?_, ?_⟩
    · simp [List.getLast?_eq_some_getLast hr.ne_nil]
    · intro h
      exact hr.noTrailing (by rw [List.getLast?_eq_some_getLast hr.ne_nil, h])
  · rw [List.concat_eq_append]
    exact getLast?_render_concat r names c

/-- Below such a root the code can always cut back. -/
def view (hr : PlainRoot r) : RootView r r where
  shown names := r ++ render names
  Safe _ := True
  shown_nil := by simp
  shown_concat _ _ := rfl
  enter names c := by
    rcases hr.getLast?_eq names with ⟨last, hlast, hne⟩
    exact ⟨last, hlast, by simp [hne]⟩
  cut names c _ := by
    rw [render_append, render_singleton, ← List.append_assoc]
    exact resizeRfind_append c.2.2.1
  take_root names c := by simp
  root_lt names c := by simp

theorem view_good (hr : PlainRoot r) (sys : Sys) (w : Walker) : hr.view.Good sys r w :=
  fun _ _ => trivial

/-- The result of the code is the result of the walker, shown below the root. -/
theorem getCanonicalPath_eq (hr : PlainRoot r) (sys : Sys) {p : Str}
    (hp : p.head? = some slash) :
    getCanonicalPath sys p r =
      ((walkLoop sys r).eval (walkStart p)).map fun names => r ++ render names := by
  rw [getCanonicalPath_absolute sys hp hr.ne_nil]
  exact hr.view.simulation.eval (hr.view.start_rel p) fun w _ => hr.view_good sys w

end PlainRoot

end Path
end Kdump

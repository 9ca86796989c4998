import Kdump.Path.Walker

/-!
# Confinement — `getCanonicalPath` never leaves its root

Below a root without a trailing slash the code shows the names of the walker at every head of the
loop.  The walker has nothing but proper names, so the resolved path is the root followed by proper
components, whatever the file system answers.
-/

namespace Kdump
namespace Path

open Lib

/-- `ret` is the root followed by proper components. -/
def Below (r ret : Str) : Prop :=
  ∃ names : List Name, ret = r ++ render names

/-- At every head of the loop and on return the result lies below the root. -/
theorem getCanonicalPath_confined (sys : Sys) {r p : Str} (hr : PlainRoot r)
    (hp : p.head? = some slash) :
    (∀ s, (canonLoop sys r).Reach (canonStart r p) s → Below r s.ret) ∧
      ∀ ret, getCanonicalPath sys p r = .ok ret → Below r ret := by
  constructor
  · intro s hreach
    rcases hr.view.simulation.reach hreach (hr.view.start_rel p) (fun w _ => hr.view_good sys w)
      with ⟨w, _, hrel⟩
    exact ⟨w.names, hrel.ret⟩
  · intro ret hret
    rw [hr.getCanonicalPath_eq sys hp] at hret
    cases hwalk : (walkLoop sys r).eval (walkStart p) with
    | error e =>
        rw [hwalk] at hret
        cases hret
    | ok names =>
        rw [hwalk] at hret
        cases hret
        exact ⟨names, rfl⟩

/-- A file system in which `/r/a` is a link that tries to climb out. -/
private def climbing : Sys where
  lstat _ path := if path = str "/r/a" then .ok .link else .ok .dir
  readlink _ _ := .ok (str "../../etc")
  getcwd := .error ENOENT

theorem getCanonicalPath_confined_climbing :
    getCanonicalPath climbing (str "/a/../../x") (str "/r") = .ok (str "/r/x") ∧
      (∀ s, (canonLoop climbing (str "/r")).Reach (canonStart (str "/r") (str "/a/../../x")) s →
        Below (str "/r") s.ret) ∧
      ∀ ret, getCanonicalPath climbing (str "/a/../../x") (str "/r") = .ok ret →
        Below (str "/r") ret :=
  ⟨by decide, getCanonicalPath_confined climbing ⟨by decide, by decide⟩ (by decide)⟩

end Path
end Kdump

import Kdump.Lib.Joined
import Kdump.Path.FilePath

/-!
# Joining — `FilePath::appendPath` with the positions of the source

* `find_last_not_of`, `find_first_not_of` — searches that may give `npos`, here `none`;
* `KString.rtrim`, `FilePath.appendPath` — the functions;
* `FilePath.appendPath_eq_join` — paths are joined with one slash;
* `appendPath_assoc_joints` — in which order they are joined does not matter, and every joint has
  one slash.
-/

namespace Kdump

open Lib

namespace KString

/-! ## Trimming -/

def find_first_not_of (chars s : Str) : Option Nat :=
  s.findIdx? fun c => !chars.contains c

def find_last_not_of (chars s : Str) : Option Nat :=
  (s.reverse.findIdx? fun c => !chars.contains c).map fun i => s.length - 1 - i

/-- `KString::rtrim`: for `npos` the sum `find_last_not_of(chars) + 1` is zero. -/
def rtrim (chars s : Str) : Str :=
  match find_last_not_of chars s with
  | none => s.take 0
  | some i => s.take (i + 1)

/-! ## Searches and scans -/

theorem rtrim_eq (chars s : Str) :
    rtrim chars s = s.rdropWhile chars.contains := by
  unfold rtrim find_last_not_of
  rw [List.rdropWhile, List.dropWhile_eq_drop_findIdx_not]
  cases hidx : s.reverse.findIdx? fun c => !chars.contains c with
  | none =>
      rw [List.findIdx?_eq_none_iff_findIdx_eq.1 hidx, List.drop_length]
      rfl
  | some i =>
      obtain ⟨hlt, hfirst⟩ := List.findIdx?_eq_some_iff_findIdx_eq.1 hidx
      rw [List.length_reverse] at hlt
      rw [hfirst, List.drop_reverse, List.reverse_reverse]
      have hcount : s.length - 1 - i + 1 = s.length - i := by omega
      exact congrArg s.take hcount

theorem drop_find_first_not_of (chars s : Str) :
    (match find_first_not_of chars s with
      | none => []
      | some idx => s.drop idx) = s.dropWhile chars.contains := by
  unfold find_first_not_of
  rw [List.dropWhile_eq_drop_findIdx_not]
  cases hidx : s.findIdx? fun c => !chars.contains c with
  | none => rw [List.findIdx?_eq_none_iff_findIdx_eq.1 hidx, List.drop_length]
  | some idx => rw [(List.findIdx?_eq_some_iff_findIdx_eq.1 hidx).2]

end KString

namespace Path

/-! ## The function -/

def PATH_SEPARATOR : Str := str "/"

/-- `FilePath::appendPath`. -/
def FilePath.appendPath (path p : Str) : Str :=
  let path := KString.rtrim PATH_SEPARATOR path ++ PATH_SEPARATOR
  match KString.find_first_not_of PATH_SEPARATOR p with
  | none => path
  | some idx => path ++ p.drop idx

theorem contains_separator : (fun c => PATH_SEPARATOR.contains c) = (· == slash) := by
  funext c
  have hsep : PATH_SEPARATOR = [slash] := by decide
  rw [hsep, List.contains_cons, List.contains_nil, Bool.or_false]

/-- The function joins two paths with one slash. -/
theorem FilePath.appendPath_eq_join (path p : Str) :
    FilePath.appendPath path p = join slash path p := by
  have hbehind := KString.drop_find_first_not_of PATH_SEPARATOR p
  have hpath : KString.rtrim PATH_SEPARATOR path = path.rdropWhile (· == slash) := by
    rw [KString.rtrim_eq]
    exact congrArg (List.rdropWhile · path) contains_separator
  have hp : p.dropWhile PATH_SEPARATOR.contains = p.dropWhile (· == slash) :=
    congrArg (List.dropWhile · p) contains_separator
  have hsep : PATH_SEPARATOR = [slash] := by decide
  unfold FilePath.appendPath
  rw [hpath, join, ← hp, ← hbehind]
  cases KString.find_first_not_of PATH_SEPARATOR p with
  | none => rw [hsep]
  | some idx =>
      dsimp only
      rw [hsep, List.append_assoc, List.singleton_append]

/-- It is the function that the other results are about. -/
theorem FilePath.appendPath_eq (path p : Str) :
    FilePath.appendPath path p = Path.appendPath path p :=
  FilePath.appendPath_eq_join path p

/-- For all strings, in whichever order they are joined: the result is the same, and there is
exactly one slash at each joint, that is behind the first part, less the slashes at its end. -/
theorem appendPath_assoc_joints (a b c : Str) :
    FilePath.appendPath (FilePath.appendPath a b) c =
        FilePath.appendPath a (FilePath.appendPath b c) ∧
      SingleAt slash (FilePath.appendPath a b) (KString.rtrim PATH_SEPARATOR a).length ∧
      SingleAt slash (FilePath.appendPath (FilePath.appendPath a b) c)
        (KString.rtrim PATH_SEPARATOR a).length ∧
      SingleAt slash (FilePath.appendPath (FilePath.appendPath a b) c)
        (KString.rtrim PATH_SEPARATOR (FilePath.appendPath a b)).length := by
  have hrtrim : ∀ s, KString.rtrim PATH_SEPARATOR s = s.rdropWhile (· == slash) := fun s => by
    rw [KString.rtrim_eq]
    exact congrArg (List.rdropWhile · s) contains_separator
  simp only [FilePath.appendPath_eq_join, hrtrim]
  exact ⟨join_assoc slash a b c, singleAt_join slash a b, singleAt_join_join slash a b c⟩

/-- A middle part of slashes leaves one joint. -/
example : FilePath.appendPath (FilePath.appendPath (str "/mnt//") (str "//")) (str "/dump") =
    str "/mnt/dump" := by
  decide

end Path
end Kdump

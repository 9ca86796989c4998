import Mathlib.Data.List.DropRight
import Kdump.Global
import Kdump.Lib.Loop

/-!
# FilePath — `FilePath::getCanonicalPath`

The function reads the path from left to right.  `ret` is the path resolved so far; where a
component is a symbolic link, the link target is put in front of the text that is still to be
read, and `ret` is cut back.  This file models the loop as it stands in the source:

* `appendPath` — joining two paths;
* `Sys` — the answers of `lstat`, `readlink` and `getcwd`;
* `component` — the scan for the next path component;
* `canonStep`, `canonLoop` — one pass of the loop, and the loop;
* `getCanonicalPath`.
-/

namespace Kdump
namespace Path

open Lib

/-! ## Joining paths -/

/-- `KString::rtrim("/")`. -/
def rtrimSlash (path : Str) : Str :=
  path.rdropWhile (· == slash)

/-- `FilePath::appendPath`. -/
def appendPath (path p : Str) : Str :=
  rtrimSlash path ++ slash :: p.dropWhile (· == slash)

/-! ## The operating system -/

/-- What `S_ISLNK` and `S_ISDIR` tell about a file. -/
inductive FileType where
  | link
  | dir
  | other
  deriving DecidableEq, Repr

/-- The answers of the operating system.  They may change over time: the first argument counts
the passes of the loop. -/
structure Sys where
  lstat : Nat → Str → Except Errno FileType
  readlink : Nat → Str → Except Errno Str
  getcwd : Except Errno Str

/-- From `sys/param.h`. -/
def MAXSYMLINKS : Nat := 20

/-- `FilePath::readLink`: the buffer takes `BUFSIZ-1` bytes and is then read as a C string. -/
def readLink (sys : Sys) (time : Nat) (path : Str) : Except Thrown Str :=
  match sys.readlink time (cStr path) with
  | .error errno => .error (.KSystemError (str "readlink() failed") errno)
  | .ok target => .ok (cStr (target.take (BUFSIZ - 1)))

theorem readLink_length_lt {sys : Sys} {time : Nat} {path target : Str}
    (h : readLink sys time path = .ok target) : target.length < BUFSIZ := by
  unfold readLink at h
  split at h
  · cases h
  · cases h
    rename_i full _
    have h1 : (cStr (full.take (BUFSIZ - 1))).length ≤ (full.take (BUFSIZ - 1)).length :=
      (List.takeWhile_sublist _).length_le
    have h2 : (full.take (BUFSIZ - 1)).length ≤ BUFSIZ - 1 := List.length_take_le _ _
    have h3 : 0 < BUFSIZ := by decide
    omega

/-! ## Scanning -/

/-- Skip slashes, then read up to the next slash: the component and the text behind it. -/
def component (text : Str) : Str × Str :=
  let p := text.dropWhile (· == slash)
  (p.takeWhile (· != slash), p.dropWhile (· != slash))

/-- The scan makes progress. -/
theorem component_rest_lt {text : Str} (h : text ≠ []) :
    (component text).2.length < text.length := by
  unfold component
  dsimp only
  cases text with
  | nil => exact absurd rfl h
  | cons c text =>
      -- a slash is skipped; any other byte belongs to the component
      by_cases hc : c = slash
      · have h1 := (List.dropWhile_sublist (· == slash) (l := text)).length_le
        have h2 := (List.dropWhile_sublist (· != slash)
          (l := text.dropWhile (· == slash))).length_le
        simp only [hc, List.dropWhile_cons, beq_self_eq_true, if_true, List.length_cons]
        omega
      · have h1 := (List.dropWhile_sublist (· != slash) (l := text)).length_le
        have hne : (c == slash) = false := beq_false_of_ne hc
        simp only [List.dropWhile_cons, hne, Bool.false_eq_true, if_false, bne, Bool.not_false,
          if_true, List.length_cons]
        exact Nat.lt_succ_of_le h1

/-- A component has no slash in it. -/
theorem slash_notMem_component (text : Str) : slash ∉ (component text).1 := by
  intro hmem
  have h := List.mem_takeWhile_imp hmem
  simp at h

/-- The text behind a component is empty or starts with a slash. -/
theorem component_rest_head (text : Str) :
    (component text).2 = [] ∨ (component text).2.head? = some slash := by
  unfold component
  dsimp only
  generalize text.dropWhile (· == slash) = p
  induction p with
  | nil => exact Or.inl rfl
  | cons c p ih =>
      by_cases hc : c = slash
      · right
        simp [hc]
      · have hne : (c != slash) = true := by simpa using hc
        simpa [List.dropWhile_cons, hne] using ih

/-- `ret.rfind('/')`. -/
def rfindSlash (ret : Str) : Option Nat :=
  (ret.reverse.findIdx? (· == slash)).map fun i => ret.length - 1 - i

/-- `ret.resize(ret.rfind('/'))`. -/
def resizeRfind (ret : Str) : Except Thrown Str :=
  match rfindSlash ret with
  | none => .error .lengthError
  | some n => .ok (ret.take n)

/-- The last slash is the one behind which there is no other. -/
theorem rfindSlash_append {a c : Str} (hc : slash ∉ c) :
    rfindSlash (a ++ slash :: c) = some a.length := by
  -- seen from the end, the bytes of `c` come before the slash
  have hrev : (a ++ slash :: c).reverse = c.reverse ++ slash :: a.reverse := by simp
  have hnone : c.reverse.findIdx? (· == slash) = none := by
    refine List.findIdx?_eq_none_iff.2 ?_
    intro x hx
    exact beq_false_of_ne fun h => hc (h ▸ List.mem_reverse.1 hx)
  have hidx : (a ++ slash :: c).reverse.findIdx? (· == slash) = some c.length := by
    rw [hrev, List.findIdx?_append, hnone, List.findIdx?_cons]
    simp
  have hlen : (a ++ slash :: c).length - 1 - c.length = a.length := by
    simp
  rw [rfindSlash, hidx, Option.map_some, hlen]

/-- The cut goes to the last slash. -/
theorem resizeRfind_append {a c : Str} (hc : slash ∉ c) :
    resizeRfind (a ++ slash :: c) = .ok a := by
  unfold resizeRfind
  rw [rfindSlash_append hc]
  simp

/-! ## The loop -/

/-- The local variables of the loop; `rest` is the text between `p` and the end of `*rpath`. -/
structure Canon where
  ret : Str
  rest : Str
  num_links : Nat
  passes : Nat
  deriving DecidableEq, Repr

/-- What a pass comes to: the next loop state, or the end of the function. -/
abbrev Pass := Step Canon (Except Thrown Str)

/-- The branch for `..`: back up to the previous component. -/
def backUp (rootp : Str) (s : Canon) : Pass :=
  if rootp.length < s.ret.length then
    match resizeRfind s.ret with
    | .error e => .done (.error e)
    | .ok ret => .next { s with ret := ret }
  else
    .next s

/-- The branch for a symbolic link: its target goes in front of the unread text. -/
def followLink (sys : Sys) (rootp : Str) (s : Canon) : Pass :=
  match readLink sys s.passes s.ret with
  | .error e => .done (.error e)
  | .ok target =>
      -- both branches of the source leave the target and the unread text in `extra`
      let extra := target ++ s.rest
      if MAXSYMLINKS < s.num_links + 1 then
        .done (.error (.KSystemError (str "getCanonicalPath() failed") ELOOP))
      else if extra.head? = some slash then
        .next { s with
          ret := s.ret.take rootp.length
          rest := extra
          num_links := s.num_links + 1 }
      else
        match resizeRfind s.ret with
        | .error e => .done (.error e)
        | .ok ret => .next { s with ret := ret, rest := extra, num_links := s.num_links + 1 }

/-- The branch for an ordinary component, up to the `lstat` and what follows from it. -/
def enter (sys : Sys) (rootp dir : Str) (s : Canon) : Pass :=
  match s.ret.getLast? with
  | none => .done (.error .undefined)
  | some last =>
      let s := { s with ret := (if last ≠ slash then s.ret ++ [slash] else s.ret) ++ dir }
      match sys.lstat s.passes (cStr s.ret) with
      | .error errno =>
          -- non-existent elements will be created
          if errno = ENOENT then .next s
          else .done (.error (.KSystemError (str "Stat failed on " ++ s.ret) errno))
      | .ok .link => followLink sys rootp s
      | .ok .dir => .next s
      | .ok .other =>
          if s.rest ≠ [] then
            .done (.error (.KSystemError (str "getCanonicalPath() failed") ENOTDIR))
          else
            .next s

/-- One pass of `while (p != rpath->end())`. -/
def canonStep (sys : Sys) (rootp : Str) (s : Canon) : Pass :=
  if s.rest = [] then
    .done (.ok s.ret)
  else
    let dir := (component s.rest).1
    let s := { s with rest := (component s.rest).2, passes := s.passes + 1 }
    if dir = [] then .next s
    else if dir = [period] then .next s
    else if dir = [period, period] then backUp rootp s
    else enter sys rootp dir s

/-! ## Termination

The text may grow at every link, but by less than a buffer, and links are counted. -/

/-- What a pass does to the text behind the component it has read, and to the count of links:
nothing, or it puts a link target in front of the text and counts it. -/
def Splices (rest : Str) (num_links : Nat) (rest' : Str) (num_links' : Nat) : Prop :=
  (rest' = rest ∧ num_links' = num_links) ∨
    ∃ target : Str, target.length < BUFSIZ ∧ rest' = target ++ rest ∧
      num_links' = num_links + 1 ∧ num_links < MAXSYMLINKS

theorem Splices.refl (rest : Str) (num_links : Nat) : Splices rest num_links rest num_links :=
  Or.inl ⟨rfl, rfl⟩

/-- A bound on the passes that are still to come. -/
def textMeasure (rest : Str) (num_links : Nat) : Nat :=
  (MAXSYMLINKS - num_links) * BUFSIZ + rest.length

theorem Splices.measure_lt {rest rest' : Str} {num_links num_links' : Nat} (hrest : rest ≠ [])
    (h : Splices (component rest).2 num_links rest' num_links') :
    textMeasure rest' num_links' < textMeasure rest num_links := by
  have hlt := component_rest_lt hrest
  unfold textMeasure
  rcases h with ⟨htext, hlinks⟩ | ⟨target, hlen, htext, hlinks, hmax⟩
  · rw [htext, hlinks]
    omega
  · -- one more link is counted, and it brings less than a buffer
    have hmul : (MAXSYMLINKS - num_links) * BUFSIZ =
        (MAXSYMLINKS - (num_links + 1)) * BUFSIZ + BUFSIZ := by
      rw [← Nat.succ_mul]
      congr 1
      omega
    rw [htext, hlinks, List.length_append, hmul]
    omega

theorem backUp_splices {rootp : Str} {s s' : Canon} (h : backUp rootp s = .next s') :
    Splices s.rest s.num_links s'.rest s'.num_links := by
  unfold backUp at h
  split_ifs at h
  · split at h
    · cases h
    · cases h
      exact Splices.refl _ _
  · cases h
    exact Splices.refl _ _

theorem followLink_splices {sys : Sys} {rootp : Str} {s s' : Canon}
    (h : followLink sys rootp s = .next s') :
    Splices s.rest s.num_links s'.rest s'.num_links := by
  unfold followLink at h
  split at h
  · cases h
  · rename_i target hread
    have hlen := readLink_length_lt hread
    dsimp only at h
    by_cases hmax : MAXSYMLINKS < s.num_links + 1
    · rw [if_pos hmax] at h
      cases h
    · rw [if_neg hmax] at h
      have hlt : s.num_links < MAXSYMLINKS := by omega
      -- an absolute target, then a relative one
      split_ifs at h
      · cases h
        exact Or.inr ⟨target, hlen, rfl, rfl, hlt⟩
      · split at h
        · cases h
        · cases h
          exact Or.inr ⟨target, hlen, rfl, rfl, hlt⟩

theorem enter_splices {sys : Sys} {rootp dir : Str} {s s' : Canon}
    (h : enter sys rootp dir s = .next s') :
    Splices s.rest s.num_links s'.rest s'.num_links := by
  unfold enter at h
  split at h
  · cases h
  · dsimp only at h
    -- by the answer of `lstat`: an error, a link, a directory, something else
    split at h
    · split at h
      · cases h
        exact Splices.refl _ _
      · cases h
    · have hsplices := followLink_splices h
      exact hsplices
    · cases h
      exact Splices.refl _ _
    · split at h
      · cases h
      · cases h
        exact Splices.refl _ _

/-- A pass that goes round again has read a component. -/
theorem canonStep_splices {sys : Sys} {rootp : Str} {s s' : Canon}
    (h : canonStep sys rootp s = .next s') :
    s.rest ≠ [] ∧ Splices (component s.rest).2 s.num_links s'.rest s'.num_links := by
  unfold canonStep at h
  split at h
  · cases h
  · rename_i hrest
    refine ⟨hrest, ?_⟩
    dsimp only at h
    split at h
    · cases h
      exact Splices.refl _ _
    · split at h
      · cases h
        exact Splices.refl _ _
      · split at h
        · exact backUp_splices h
        · exact enter_splices h

def canonLoop (sys : Sys) (rootp : Str) : Loop Canon (Except Thrown Str) where
  step := canonStep sys rootp
  measure s := textMeasure s.rest s.num_links
  decreases h := (canonStep_splices h).2.measure_lt (canonStep_splices h).1

/-- The loop variables before the first pass. -/
def canonStart (ret path : Str) : Canon :=
  ⟨ret, path, 0, 0⟩

/-- `FilePath::getCanonicalPath`. -/
def getCanonicalPath (sys : Sys) (path root : Str) : Except Thrown Str :=
  if path = [] then
    .ok path
  else
    let rootp := if root = [] then [slash] else root
    if path.head? ≠ some slash then
      match sys.getcwd with
      | .error errno => .error (.KSystemError (str "getcwd failed") errno)
      | .ok ret =>
          if ret.length < rootp.length ∨ ret.take rootp.length ≠ rootp then
            .error (.KSystemError (str "Cannot get current directory") ENOENT)
          else
            (canonLoop sys rootp).eval (canonStart ret path)
    else
      (canonLoop sys rootp).eval (canonStart rootp path)

/-- An absolute path is read starting from the root. -/
theorem getCanonicalPath_absolute (sys : Sys) {path root : Str} (hpath : path.head? = some slash)
    (hroot : root ≠ []) :
    getCanonicalPath sys path root = (canonLoop sys root).eval (canonStart root path) := by
  have hne : path ≠ [] := by
    rintro rfl
    simp at hpath
  simp [getCanonicalPath, hne, hpath, hroot]

end Path
end Kdump

import Kdump.Mount.MountTransfer

/-!
# MakeDirectory — `FilePath::mkdir`

With `recursive` set, the function makes every directory on the way.  First the slashes at the end
are cut off, in a loop that looks at the last byte; then the slashes are looked for one behind
another, and everything in front of one is made.

* `mkdirCall` — a single directory;
* `trimLoop`, `makeLoop` — the two loops;
* `mkdir` — the function;
* `eval_makeLoop` — the second loop makes the directories of `mkdirPaths`, up to the first refusal;
* `mkdirPath_eq` — the transfers that mount their targets may take `mkdirPath` for the function;
* `mkdir_correct_iff` — when it does what it is for: the path must not consist of slashes.
-/

namespace Kdump
namespace Files

open Lib Kdump.Path Kdump.Mount

/-! ## The function -/

/-- What `mkdir(2)` answers, by the calls that have been made so far, this one the last. -/
abbrev MkdirAnswers := List Str → Option Errno

/-- The calls of `mkdir(2)`, and how the function ends. -/
abbrev Made := List Str × Except Thrown Unit

/-- `FilePath::mkdir(false)`, after `calls`. -/
def mkdirCall (answers : MkdirAnswers) (path : Str) (calls : List Str) : Made :=
  let calls := calls ++ [cStr path]
  match answers calls with
  | none => (calls, .ok ())
  | some errno =>
      if errno = EEXIST then (calls, .ok ())
      else (calls, .error (.KSystemError (str "mkdir of " ++ path ++ str " failed.") errno))

/-- Cut off the slashes at the end.  An empty string has no last byte: `size()-1` is `npos`. -/
def trimLoop : Loop Str (Except Thrown Str) where
  step directory :=
    match directory.getLast? with
    | none => .done (.error .undefined)
    | some c => if c = slash then .next directory.dropLast else .done (.ok directory)
  measure := List.length
  decreases := by
    intro directory directory' h
    split at h
    · cases h
    · rename_i c hlast
      split_ifs at h
      cases h
      have hne : directory ≠ [] := by
        rintro rfl
        cases hlast
      have hpos := List.length_pos_iff.2 hne
      rw [List.length_dropLast]
      omega

/-- `directory.find('/', pos)`. -/
def findSlash (directory : Str) (pos : Nat) : Option Nat :=
  ((directory.drop pos).findIdx? (· == slash)).map (pos + ·)

/-- A slash that has been found, and that there is none before it. -/
theorem findSlash_eq_some {directory : Str} {pos i : Nat} (h : findSlash directory pos = some i) :
    pos ≤ i ∧ directory[i]? = some slash ∧ ∀ j, pos ≤ j → j < i → directory[j]? ≠ some slash := by
  obtain ⟨k, hk, rfl⟩ := Option.map_eq_some_iff.1 h
  obtain ⟨hlt, hslash, hbefore⟩ := List.findIdx?_eq_some_iff_getElem.1 hk
  refine ⟨Nat.le_add_right _ _, ?_, ?_⟩
  · rw [← List.getElem?_drop, List.getElem?_eq_getElem hlt]
    exact congrArg some (beq_iff_eq.1 hslash)
  · intro j hpos hj hat
    obtain ⟨m, rfl⟩ := Nat.exists_eq_add_of_le hpos
    have hm : m < k := Nat.lt_of_add_lt_add_left hj
    have hfound := hbefore m hm
    rw [← List.getElem?_drop, List.getElem?_eq_getElem (hm.trans hlt)] at hat
    exact hfound (beq_iff_eq.2 (Option.some.inj hat))

theorem findSlash_eq_none {directory : Str} {pos : Nat} (h : findSlash directory pos = none) :
    ∀ j, pos ≤ j → directory[j]? ≠ some slash := by
  intro j hpos hat
  obtain ⟨m, rfl⟩ := Nat.exists_eq_add_of_le hpos
  have hnone := List.findIdx?_eq_none_iff.1 (Option.map_eq_none_iff.1 h)
  rw [← List.getElem?_drop] at hat
  have hfalse := hnone slash (List.mem_of_getElem? hat)
  rw [beq_self_eq_true] at hfalse
  cases hfalse

/-- The local variables of the second loop. -/
structure Making where
  current_slash : Nat
  calls : List Str

/-- Make what stands before the next slash, or at last all of it. -/
def makeLoop (answers : MkdirAnswers) (directory : Str) : Loop Making Made where
  step s :=
    match findSlash directory (s.current_slash + 1) with
    | none => .done (mkdirCall answers directory s.calls)
    | some current_slash =>
        match mkdirCall answers (directory.take current_slash) s.calls with
        | (calls, .error e) => .done (calls, .error e)
        | (calls, .ok _) => .next ⟨current_slash, calls⟩
  measure s := directory.length - s.current_slash
  decreases := by
    intro s s' h
    split at h
    · cases h
    · rename_i current_slash hfind
      obtain ⟨hle, hslash, _⟩ := findSlash_eq_some hfind
      obtain ⟨hlt, _⟩ := List.getElem?_eq_some_iff.1 hslash
      split at h
      · cases h
      · cases h
        dsimp only
        omega

/-- `FilePath::mkdir`. -/
def mkdir (answers : MkdirAnswers) (recursive : Bool) (path : Str) : Made :=
  if recursive = false then
    mkdirCall answers path []
  else
    match trimLoop.eval path with
    | .error e => ([], .error e)
    | .ok directory => (makeLoop answers directory).eval ⟨0, []⟩

/-! ## The slashes at the end -/

/-- A path with something else than slashes loses those at its end. -/
theorem eval_trimLoop {path : Str} (h : ∃ c ∈ path, c ≠ slash) :
    trimLoop.eval path = .ok (rtrimSlash path) := by
  induction path using List.reverseRecOn with
  | nil =>
      obtain ⟨c, hc, _⟩ := h
      cases hc
  | append_singleton path c ih =>
      have hlast : (path ++ [c]).getLast? = some c := List.getLast?_concat
      by_cases hc : c = slash
      · subst hc
        have hnext : trimLoop.step (path ++ [slash]) = .next path := by
          simp [trimLoop]
        have hrest : ∃ c ∈ path, c ≠ slash := by
          obtain ⟨c, hmem, hne⟩ := h
          rcases List.mem_append.1 hmem with hmem | hmem
          · exact ⟨c, hmem, hne⟩
          · exact absurd (List.mem_singleton.1 hmem) hne
        rw [trimLoop.eval_next hnext, ih hrest]
        simp [rtrimSlash]
      · have hdone : trimLoop.step (path ++ [c]) = .done (.ok (path ++ [c])) := by
          simp [trimLoop, hc]
        rw [trimLoop.eval_done hdone]
        simp [rtrimSlash, hc]

/-- Of nothing but slashes, none is left to look at. -/
theorem eval_trimLoop_slashes {path : Str} (h : ∀ c ∈ path, c = slash) :
    trimLoop.eval path = .error .undefined := by
  induction path using List.reverseRecOn with
  | nil => exact trimLoop.eval_done rfl
  | append_singleton path c ih =>
      obtain rfl : c = slash := h c (by simp)
      have hnext : trimLoop.step (path ++ [slash]) = .next path := by
        simp [trimLoop]
      rw [trimLoop.eval_next hnext]
      exact ih fun c hc => h c (List.mem_append_left _ hc)

/-! ## The directories on the way -/

/-- The positions of the slashes behind a position. -/
def slashesBehind (directory : Str) (i : Nat) : List Nat :=
  (List.range' (i + 1) (directory.length - (i + 1))).filter fun j => directory[j]? == some slash

/-- The last slash has been passed. -/
theorem slashesBehind_of_none {directory : Str} {i : Nat}
    (h : findSlash directory (i + 1) = none) : slashesBehind directory i = [] := by
  apply List.filter_eq_nil_iff.2
  intro j hj
  rw [beq_iff_eq]
  exact findSlash_eq_none h j (List.mem_range'_1.1 hj).1

/-- The next slash comes first. -/
theorem slashesBehind_of_some {directory : Str} {i j : Nat}
    (h : findSlash directory (i + 1) = some j) :
    slashesBehind directory i = j :: slashesBehind directory j := by
  obtain ⟨hle, hslash, hbefore⟩ := findSlash_eq_some h
  obtain ⟨hlt, _⟩ := List.getElem?_eq_some_iff.1 hslash
  have hsplit : List.range' (i + 1) (directory.length - (i + 1)) =
      List.range' (i + 1) (j - (i + 1)) ++
        j :: List.range' (j + 1) (directory.length - (j + 1)) := by
    have hcons : j :: List.range' (j + 1) (directory.length - (j + 1)) =
        List.range' j (directory.length - j) := by
      rw [← List.range'_succ]
      congr 1
      omega
    have happend : List.range' (i + 1) (j - (i + 1)) ++
        List.range' (i + 1 + (j - (i + 1))) (directory.length - j) =
          List.range' (i + 1) (j - (i + 1) + (directory.length - j)) := List.range'_append_1
    have hstart : i + 1 + (j - (i + 1)) = j := by omega
    have hlength : j - (i + 1) + (directory.length - j) = directory.length - (i + 1) := by omega
    rw [hstart, hlength] at happend
    rw [hcons, happend]
  have hnone : (List.range' (i + 1) (j - (i + 1))).filter
      (fun j => directory[j]? == some slash) = [] := by
    apply List.filter_eq_nil_iff.2
    intro k hk
    obtain ⟨hik, hkj⟩ := List.mem_range'_1.1 hk
    rw [beq_iff_eq]
    exact hbefore k hik (by omega)
  unfold slashesBehind
  rw [hsplit, List.filter_append, hnone, List.nil_append,
    List.filter_cons_of_pos (by simp [hslash])]

/-- The directories that are made are those above the path, and the path. -/
theorem mkdirPaths_eq (directory : Str) :
    mkdirPaths directory = (slashesBehind directory 0).map directory.take ++ [directory] := by
  have hfilter : (List.range directory.length).filter
      (fun i => 1 ≤ i && directory[i]? == some slash) = slashesBehind directory 0 := by
    unfold slashesBehind
    cases hlength : directory.length with
    | zero => rfl
    | succ n =>
        rw [List.range_eq_range', List.range'_succ, List.filter_cons_of_neg (by simp)]
        apply List.filter_congr
        intro j hj
        have hpos : 1 ≤ j := (List.mem_range'_1.1 hj).1
        simp [hpos]
  rw [mkdirPaths, hfilter]

theorem mem_slashesBehind {directory : Str} {i j : Nat} :
    j ∈ slashesBehind directory i ↔ i < j ∧ directory[j]? = some slash := by
  rw [slashesBehind, List.mem_filter, List.mem_range'_1, beq_iff_eq]
  constructor
  · rintro ⟨⟨hij, _⟩, hslash⟩
    exact ⟨hij, hslash⟩
  · rintro ⟨hij, hslash⟩
    obtain ⟨hlt, _⟩ := List.getElem?_eq_some_iff.1 hslash
    exact ⟨⟨hij, by omega⟩, hslash⟩

/-- They are what stands before a slash that is not the first byte, and the path itself. -/
theorem mem_mkdirPaths {directory a : Str} :
    a ∈ mkdirPaths directory ↔ a = directory ∨ a ≠ [] ∧ ∃ rest, directory = a ++ slash :: rest := by
  rw [mkdirPaths_eq, List.mem_append, List.mem_singleton, or_comm]
  apply or_congr_right
  rw [List.mem_map]
  constructor
  · rintro ⟨j, hj, rfl⟩
    obtain ⟨hpos, hslash⟩ := mem_slashesBehind.1 hj
    obtain ⟨hlt, hget⟩ := List.getElem?_eq_some_iff.1 hslash
    refine ⟨?_, directory.drop (j + 1), ?_⟩
    · exact List.ne_nil_of_length_pos (by rw [List.length_take]; omega)
    · rw [← hget, ← List.drop_eq_getElem_cons hlt, List.take_append_drop]
  · rintro ⟨hne, rest, rfl⟩
    exact ⟨a.length, mem_slashesBehind.2 ⟨List.length_pos_iff.2 hne, by simp⟩, by simp⟩

/-- Every directory is made behind those above it. -/
theorem mkdirPaths_increasing (directory : Str) :
    (mkdirPaths directory).Pairwise fun a b => a.length < b.length := by
  have hlt : ∀ j ∈ slashesBehind directory 0, (directory.take j).length = j ∧
      j < directory.length := by
    intro j hj
    obtain ⟨hj, _⟩ := List.getElem?_eq_some_iff.1 (mem_slashesBehind.1 hj).2
    exact ⟨List.length_take_of_le hj.le, hj⟩
  rw [mkdirPaths_eq, List.pairwise_append, List.pairwise_map]
  refine ⟨?_, List.pairwise_singleton _ _, ?_⟩
  · have hsorted : (slashesBehind directory 0).Pairwise (· < ·) :=
      List.Pairwise.filter _ List.pairwise_lt_range'
    refine hsorted.imp_of_mem ?_
    intro i j hi hj hij
    rwa [(hlt i hi).1, (hlt j hj).1]
  · intro a ha b hb
    obtain ⟨j, hj, rfl⟩ := List.mem_map.1 ha
    rw [List.mem_singleton.1 hb, (hlt j hj).1]
    exact (hlt j hj).2

/-! ## The calls -/

/-- Make directories one behind another, up to the first refusal. -/
def mkdirCalls (answers : MkdirAnswers) : List Str → List Str → Made
  | [], calls => (calls, .ok ())
  | path :: paths, calls =>
      match mkdirCall answers path calls with
      | (calls, .error e) => (calls, .error e)
      | (calls, .ok _) => mkdirCalls answers paths calls

variable {answers : MkdirAnswers}

theorem mkdirCalls_singleton (path : Str) (calls : List Str) :
    mkdirCalls answers [path] calls = mkdirCall answers path calls := by
  unfold mkdirCalls
  cases mkdirCall answers path calls with
  | mk calls outcome => cases outcome <;> rfl

/-- The second loop does so with the directories above the path and the path. -/
theorem eval_makeLoop (directory : Str) (s : Making) :
    (makeLoop answers directory).eval s =
      mkdirCalls answers ((slashesBehind directory s.current_slash).map directory.take ++
        [directory]) s.calls := by
  -- the induction is on the slashes that are still ahead
  induction hbehind : slashesBehind directory s.current_slash generalizing s with
  | nil =>
      have hfind : findSlash directory (s.current_slash + 1) = none := by
        cases hfind : findSlash directory (s.current_slash + 1) with
        | none => rfl
        | some j =>
            rw [slashesBehind_of_some hfind] at hbehind
            cases hbehind
      have hdone : (makeLoop answers directory).step s =
          .done (mkdirCall answers directory s.calls) := by
        simp only [makeLoop, hfind]
      rw [(makeLoop answers directory).eval_done hdone]
      exact (mkdirCalls_singleton directory s.calls).symm
  | cons j js ih =>
      cases hfind : findSlash directory (s.current_slash + 1) with
      | none =>
          rw [slashesBehind_of_none hfind] at hbehind
          cases hbehind
      | some k =>
          rw [slashesBehind_of_some hfind] at hbehind
          obtain ⟨rfl, hjs⟩ := List.cons.inj hbehind
          rw [List.map_cons, List.cons_append, mkdirCalls]
          cases hcall : mkdirCall answers (directory.take k) s.calls with
          | mk calls outcome =>
              cases outcome with
              | error e =>
                  have hdone : (makeLoop answers directory).step s = .done (calls, .error e) := by
                    simp only [makeLoop, hfind, hcall]
                  rw [(makeLoop answers directory).eval_done hdone]
              | ok _ =>
                  have hnext : (makeLoop answers directory).step s = .next ⟨k, calls⟩ := by
                    simp only [makeLoop, hfind, hcall]
                  rw [(makeLoop answers directory).eval_next hnext]
                  exact ih ⟨k, calls⟩ hjs

/-- What the function does to a path with something else than slashes. -/
theorem mkdir_recursive {path : Str} (h : ∃ c ∈ path, c ≠ slash) :
    mkdir answers true path = mkdirCalls answers (mkdirPaths (rtrimSlash path)) [] := by
  rw [mkdir, if_neg Bool.noConfusion, eval_trimLoop h]
  dsimp only
  rw [eval_makeLoop, mkdirPaths_eq]

/-- An answer with which the function goes on. -/
def Goes (answer : Option Errno) : Prop :=
  answer = none ∨ answer = some EEXIST

theorem mkdirCall_of_goes {path : Str} {calls : List Str}
    (h : Goes (answers (calls ++ [cStr path]))) :
    mkdirCall answers path calls = (calls ++ [cStr path], .ok ()) := by
  unfold mkdirCall
  dsimp only
  rcases h with h | h
  · rw [h]
  · rw [h]
    exact if_pos rfl

theorem mkdirCalls_of_goes (h : ∀ calls, Goes (answers calls)) (paths calls : List Str) :
    mkdirCalls answers paths calls = (calls ++ paths.map cStr, .ok ()) := by
  induction paths generalizing calls with
  | nil => simp [mkdirCalls]
  | cons path paths ih =>
      rw [mkdirCalls, mkdirCall_of_goes (h _)]
      dsimp only
      rw [ih]
      simp

/-- Nothing but the refusals of `mkdir(2)` comes out of the calls. -/
theorem mkdirCalls_ne_undefined (paths calls : List Str) :
    (mkdirCalls answers paths calls).2 ≠ .error .undefined := by
  induction paths generalizing calls with
  | nil => exact nofun
  | cons path paths ih =>
      rw [mkdirCalls]
      unfold mkdirCall
      dsimp only
      cases answers (calls ++ [cStr path]) with
      | none => exact ih _
      | some errno =>
          dsimp only
          by_cases hexist : errno = EEXIST
          · rw [if_pos hexist]
            exact ih _
          · rw [if_neg hexist]
            exact nofun

/-! ## The transfers that mount -/

/-- The answers of a system that looks at the path only. -/
def answersOf (mkdir : Str → Except Errno Unit) : MkdirAnswers := fun calls =>
  match mkdir (calls.getLast?.getD []) with
  | .ok () => none
  | .error errno => some errno

theorem mkdirOne_eq (mkdir : Str → Except Errno Unit) (path : Str) (calls : List Str)
    (s : Mount.State) :
    mkdirOne mkdir path s =
      match (mkdirCall (answersOf mkdir) path calls).2 with
      | .ok _ => .ok () s
      | .error e => .error e s := by
  have hanswer : answersOf mkdir (calls ++ [cStr path]) =
      match mkdir (cStr path) with
      | .ok () => none
      | .error errno => some errno := by
    simp [answersOf]
  rw [mkdirOne, mkdirCall, hanswer]
  cases mkdir (cStr path) with
  | ok _ => rfl
  | error errno =>
      by_cases hexist : errno = EEXIST
      · simp only [hexist, if_true]
        rfl
      · simp only [hexist, if_false]
        rfl

theorem mkdirAll_eq (mkdir : Str → Except Errno Unit) (paths calls : List Str) (s : Mount.State) :
    mkdirAll mkdir paths s =
      match (mkdirCalls (answersOf mkdir) paths calls).2 with
      | .ok _ => .ok () s
      | .error e => .error e s := by
  induction paths generalizing calls with
  | nil => rfl
  | cons path paths ih =>
      have hone := mkdirOne_eq mkdir path calls s
      rw [mkdirAll, mkdirCalls]
      cases hcall : mkdirCall (answersOf mkdir) path calls with
      | mk calls' outcome =>
          rw [hcall] at hone
          cases outcome with
          | ok _ => exact (bind_ok hone).trans (ih calls')
          | error e => exact bind_error hone

/-- `mkdirPath` is the function. -/
theorem mkdirPath_eq (mkdir : Str → Except Errno Unit) (path : Str) (s : Mount.State) :
    mkdirPath mkdir path s =
      match (Files.mkdir (answersOf mkdir) true path).2 with
      | .ok _ => .ok () s
      | .error e => .error e s := by
  unfold mkdirPath
  by_cases hslashes : ∃ c ∈ path, c ≠ slash
  · have hne : rtrimSlash path ≠ [] := by
      obtain ⟨c, hc, hslash⟩ := hslashes
      intro hnil
      exact hslash (by simpa using List.rdropWhile_eq_nil_iff.1 hnil c hc)
    rw [if_neg hne, mkdir_recursive hslashes]
    exact mkdirAll_eq mkdir _ [] s
  · have hall : ∀ c ∈ path, c = slash := by
      intro c hc
      by_contra hne
      exact hslashes ⟨c, hc, hne⟩
    have hnil : rtrimSlash path = [] := by
      apply List.rdropWhile_eq_nil_iff.2
      intro c hc
      simpa using hall c hc
    rw [if_pos hnil, Files.mkdir, if_neg Bool.noConfusion, eval_trimLoop_slashes hall]
    rfl

/-! ## All paths -/

/-- What is expected of `mkdir(true)`: it reads no byte outside of the path, and if `mkdir(2)` does
not fail, it has been called for each directory above the path, the shorter ones first, and last
for the path without the slashes at its end. -/
def MkdirCorrect (answers : MkdirAnswers) (path : Str) : Prop :=
  (mkdir answers true path).2 ≠ .error .undefined ∧
    ((∀ calls, Goes (answers calls)) →
      mkdir answers true path = ((mkdirPaths (rtrimSlash path)).map cStr, .ok ()))

/-- So it is for a path that does not consist of slashes, and for no other: of an empty string the
last byte is read too. -/
theorem mkdir_correct_iff (answers : MkdirAnswers) (path : Str) :
    MkdirCorrect answers path ↔ ∃ c ∈ path, c ≠ slash := by
  constructor
  · rintro ⟨hsafe, _⟩
    by_contra hslashes
    have hall : ∀ c ∈ path, c = slash := by
      intro c hc
      by_contra hne
      exact hslashes ⟨c, hc, hne⟩
    apply hsafe
    rw [mkdir, if_neg Bool.noConfusion, eval_trimLoop_slashes hall]
  · intro h
    unfold MkdirCorrect
    rw [mkdir_recursive h]
    refine ⟨mkdirCalls_ne_undefined _ _, ?_⟩
    intro hgoes
    rw [mkdirCalls_of_goes hgoes, List.nil_append]

/-- Not for the root directory. -/
theorem not_mkdirCorrect_root : ¬ MkdirCorrect (fun _ => none) [slash] := by
  rintro ⟨hsafe, _⟩
  apply hsafe
  rw [mkdir, if_neg Bool.noConfusion, eval_trimLoop_slashes (by simp)]

end Files
end Kdump

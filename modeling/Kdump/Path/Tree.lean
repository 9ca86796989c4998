import Kdump.Path.FilePath

/-!
# Tree — file systems and the kernel's path walk

A file system is a tree of directories, files and symbolic links.  The kernel resolves a path
component by component; a position in the tree is the list of names that leads to it from the
root without a link.

* `Node` — the tree, `Node.get?` — the node at a position;
* `splitPath` — the components of a path as the kernel reads them;
* `Node.walk` — the path walk, which follows a final link too;
* `Node.lookup` — the same for `lstat` and `readlink`, which do not;
* `Node.sys` — the tree as seen by the program.

The limits on the length of a path that is passed to the kernel are not part of the model.
-/

namespace Kdump
namespace Path

def EINVAL : Errno := 22

/-- The longest path the kernel accepts, and so the longest link target, is one byte shorter. -/
def PATH_MAX : Nat := 4096

/-- The links the kernel follows in one walk. -/
def kernelMaxSymlinks : Nat := 40

/-! ## Trees -/

def IsFileName (c : Str) : Prop :=
  c ≠ [] ∧ slash ∉ c ∧ c ≠ [period] ∧ c ≠ [period, period] ∧ (0 : UInt8) ∉ c

instance (c : Str) : Decidable (IsFileName c) := by
  unfold IsFileName
  infer_instance

/-- The name of a directory entry. -/
abbrev FileName := { c : Str // IsFileName c }

/-- The text of a symbolic link. -/
abbrev Target := { t : Str // t ≠ [] ∧ (0 : UInt8) ∉ t ∧ t.length < PATH_MAX }

inductive Node where
  | file
  | link (target : Target)
  | dir (entries : List (FileName × Node))

namespace Node

def type : Node → FileType
  | .file => .other
  | .link _ => .link
  | .dir _ => .dir

def child : Node → FileName → Option Node
  | .dir entries, c => entries.lookup c
  | _, _ => none

/-- The node at a position. -/
def get? : Node → List FileName → Option Node
  | T, [] => some T
  | T, c :: pos => (T.child c).bind fun R => R.get? pos

@[simp] theorem get?_nil (T : Node) : T.get? [] = some T := rfl

theorem get?_cons (T : Node) (c : FileName) (pos : List FileName) :
    T.get? (c :: pos) = (T.child c).bind fun R => R.get? pos := rfl

theorem get?_append (pos pos' : List FileName) :
    ∀ T : Node, T.get? (pos ++ pos') = (T.get? pos).bind fun R => R.get? pos' := by
  induction pos with
  | nil => intro T; rfl
  | cons c pos ih =>
      intro T
      rw [List.cons_append, get?_cons, get?_cons]
      cases T.child c with
      | none => rfl
      | some R => exact ih R

theorem get?_singleton (T : Node) (c : FileName) : T.get? [c] = T.child c := by
  rw [get?_cons]
  cases T.child c <;> rfl

/-- Only directories have children. -/
theorem exists_dir_of_child {T R : Node} {c : FileName} (h : T.child c = some R) :
    ∃ entries, T = .dir entries := by
  cases T with
  | dir entries => exact ⟨entries, rfl⟩
  | file => cases h
  | link _ => cases h

end Node

/-! ## Components -/

/-- The non-empty pieces between slashes. -/
def words (text : Str) : List Str :=
  (text.splitOn slash).filter (· ≠ [])

/-- The components of a path.  A trailing slash asks for a directory, as a final `.` does. -/
def splitPath (text : Str) : List Str :=
  words text ++ if text.getLast? = some slash then [[period]] else []

@[simp] theorem splitPath_nil : splitPath [] = [] := rfl

theorem words_append_slash (a b : Str) : words (a ++ slash :: b) = words a ++ words b := by
  unfold words
  rw [List.splitOn_append_cons_self, List.filter_append]

theorem words_cons_slash (b : Str) : words (slash :: b) = words b :=
  words_append_slash [] b

theorem words_of_notMem {c : Str} (hc : slash ∉ c) (hne : c ≠ []) : words c = [c] := by
  unfold words
  rw [List.splitOn_eq_singleton hc]
  simp [hne]

/-- A byte of a path is a slash or lies in one of the pieces. -/
theorem exists_mem_words {text : Str} {x : UInt8} (hx : x ≠ slash) (h : x ∈ text) :
    ∃ c ∈ words text, x ∈ c := by
  -- the pieces together are the text without its slashes
  have hflat : x ∈ (text.splitOn slash).flatten := by
    induction text with
    | nil => cases h
    | cons y text ih =>
        rw [List.splitOn_cons_eq_if_modifyHead]
        rcases List.mem_cons.1 h with rfl | hmem
        · rw [if_neg (by simpa using hx)]
          cases hsplit : text.splitOn slash with
          | nil => exact absurd hsplit (List.splitOn_ne_nil _ _)
          | cons c cs => simp
        · have hrec := ih hmem
          split_ifs
          · simpa using hrec
          · cases hsplit : text.splitOn slash with
            | nil => exact absurd hsplit (List.splitOn_ne_nil _ _)
            | cons c cs =>
                rw [hsplit] at hrec
                simp only [List.modifyHead_cons, List.flatten_cons, List.cons_append]
                exact List.mem_cons_of_mem _ hrec
  rcases List.mem_flatten.1 hflat with ⟨c, hc, hxc⟩
  refine ⟨c, List.mem_filter.2 ⟨hc, ?_⟩, hxc⟩
  simpa using List.ne_nil_of_mem hxc

/-- The scan of `getCanonicalPath` takes the first component off; an empty component stands for
the directory itself. -/
theorem splitPath_eq_component :
    ∀ {text : Str}, text ≠ [] → splitPath text =
      (if (component text).1 = [] then [period] else (component text).1) ::
        splitPath (component text).2 := by
  intro text
  induction text with
  | nil => intro h; exact absurd rfl h
  | cons x text ih =>
      intro _
      by_cases hx : x = slash
      · subst hx
        -- a leading slash changes neither side
        have hcomp : component (slash :: text) = component text := by
          simp [component]
        rw [hcomp]
        cases text with
        | nil => rfl
        | cons y text =>
            rw [← ih (by simp)]
            unfold splitPath
            rw [words_cons_slash, List.getLast?_cons_cons]
      · -- the text starts with the component
        have hx' : (x == slash) = false := beq_false_of_ne hx
        have hdrop : (x :: text).dropWhile (· == slash) = x :: text := by
          rw [List.dropWhile_cons, hx']
          rfl
        have hsplit : x :: text = (component (x :: text)).1 ++ (component (x :: text)).2 := by
          unfold component
          rw [hdrop]
          exact (List.takeWhile_append_dropWhile (p := (· != slash)) (l := x :: text)).symm
        have hne : (component (x :: text)).1 ≠ [] := by
          unfold component
          rw [hdrop]
          simp [hx]
        have hmem := slash_notMem_component (x :: text)
        have hhead := component_rest_head (x :: text)
        generalize (component (x :: text)).1 = c at *
        generalize (component (x :: text)).2 = rest at *
        rw [if_neg hne, hsplit]
        -- behind the component the text ends, or goes on with a slash
        rcases hhead with rfl | hhead
        · have hlast : c.getLast? ≠ some slash := fun h => hmem (List.mem_of_getLast? h)
          rw [List.append_nil, splitPath, words_of_notMem hmem hne, if_neg hlast]
          rfl
        · rcases List.head?_eq_some_iff.1 hhead with ⟨b, rfl⟩
          unfold splitPath
          rw [words_append_slash, words_of_notMem hmem hne, words_cons_slash,
            List.getLast?_append_of_ne_nil _ (by simp)]
          rfl

/-! ## The walk -/

namespace Node

/-- Where one component leads to from the directory at `pos`, before links are considered. -/
def enter (T : Node) (pos : List FileName) (c : Str) : Except Errno (List FileName) :=
  match T.get? pos with
  | some (.dir _) =>
      if c = [period] then .ok pos
      else if c = [period, period] then .ok pos.dropLast
      else if hc : IsFileName c then .ok (pos ++ [⟨c, hc⟩])
      else .error ENOENT
  | _ => .error ENOTDIR

/-- Walk along the components up to a link, which is handed over to `onLink`. -/
def walkWith (T : Node)
    (onLink : List FileName → Target → List Str → Except Errno (List FileName)) :
    List FileName → List Str → Except Errno (List FileName)
  | pos, [] => .ok pos
  | pos, c :: cs =>
      match T.enter pos c with
      | .error errno => .error errno
      | .ok next =>
          match T.get? next with
          | none => .error ENOENT
          | some (.link target) => onLink pos target cs
          | some _ => T.walkWith onLink next cs

/-- The path walk from `pos`, following at most the given number of links.  An absolute link
starts over at the root of the tree. -/
def walk (T : Node) : Nat → List FileName → List Str → Except Errno (List FileName)
  | 0 => T.walkWith fun _ _ _ => .error ELOOP
  | n + 1 => T.walkWith fun pos target cs =>
      T.walk n (if target.1.head? = some slash then [] else pos) (splitPath target.1 ++ cs)

/-- The node a path leads to; a final link is not followed. -/
def lookup (T : Node) (path : Str) : Except Errno Node :=
  match (splitPath path).getLast? with
  | none => .error ENOENT
  | some c =>
      match T.walk kernelMaxSymlinks [] (splitPath path).dropLast with
      | .error errno => .error errno
      | .ok pos =>
          match T.enter pos c with
          | .error errno => .error errno
          | .ok next =>
              match T.get? next with
              | none => .error ENOENT
              | some node => .ok node

/-- The system calls on a file system that does not change; the working directory is its root. -/
def sys (T : Node) : Sys where
  lstat _ path := (T.lookup path).map type
  readlink _ path :=
    match T.lookup path with
    | .error errno => .error errno
    | .ok (.link target) => .ok target.1
    | .ok _ => .error EINVAL
  getcwd := .ok [slash]

/-! ## What a walk without links does -/

/-- There is something at `pos`, and it is not a link. -/
def Settled (T : Node) (pos : List FileName) : Prop :=
  ∃ node, T.get? pos = some node ∧ ∀ target, node ≠ .link target

/-- What a component can be that leads somewhere. -/
theorem enter_ok {T : Node} {pos next : List FileName} {c : Str} (h : T.enter pos c = .ok next) :
    (∃ entries, T.get? pos = some (.dir entries)) ∧
      ((c = [period] ∧ next = pos) ∨ (c = [period, period] ∧ next = pos.dropLast) ∨
        ∃ hc : IsFileName c, next = pos ++ [⟨c, hc⟩]) := by
  unfold enter at h
  split at h
  · rename_i entries hdir
    refine ⟨⟨entries, hdir⟩, ?_⟩
    split_ifs at h with hdot hdotdot hc
    · cases h
      exact Or.inl ⟨hdot, rfl⟩
    · cases h
      exact Or.inr (Or.inl ⟨hdotdot, rfl⟩)
    · cases h
      exact Or.inr (Or.inr ⟨hc, rfl⟩)
  · cases h

theorem settled_of_dir {T : Node} {pos : List FileName} {entries : List (FileName × Node)}
    (h : T.get? pos = some (.dir entries)) : T.Settled pos :=
  ⟨.dir entries, h, fun _ hne => by cases hne⟩

/-- The directories above a node are no links. -/
theorem Settled.dropLast {T : Node} {pos : List FileName} (h : T.Settled pos) :
    T.Settled pos.dropLast := by
  rcases List.eq_nil_or_concat pos with rfl | ⟨pos, c, rfl⟩
  · exact h
  · rcases h with ⟨node, hnode, _⟩
    rw [List.concat_eq_append, get?_append] at hnode
    rw [List.concat_eq_append, List.dropLast_concat]
    -- what has a child is a directory
    cases hpos : T.get? pos with
    | none => rw [hpos] at hnode; cases hnode
    | some R =>
        rw [hpos, Option.bind_some, get?_singleton] at hnode
        rcases exists_dir_of_child hnode with ⟨entries, rfl⟩
        exact settled_of_dir hpos

variable {T : Node}
variable {onLink : List FileName → Target → List Str → Except Errno (List FileName)}

/-- A pass of the walk over a component that is no link. -/
theorem walkWith_cons {pos next : List FileName} {c : Str} {cs : List Str}
    (henter : T.enter pos c = .ok next) (hnext : T.Settled next) :
    T.walkWith onLink pos (c :: cs) = T.walkWith onLink next cs := by
  rcases hnext with ⟨node, hnode, hlink⟩
  rw [walkWith, henter]
  dsimp only
  rw [hnode]
  cases node with
  | link target => exact absurd rfl (hlink target)
  | file => rfl
  | dir _ => rfl

/-- What the first component of a successful walk was. -/
theorem walkWith_cons_ok {pos dst : List FileName} {c : Str} {cs : List Str}
    (h : T.walkWith onLink pos (c :: cs) = .ok dst) :
    ∃ next, T.enter pos c = .ok next ∧
      ((∃ target, T.get? next = some (.link target) ∧ onLink pos target cs = .ok dst) ∨
        (T.Settled next ∧ T.walkWith onLink next cs = .ok dst)) := by
  rw [walkWith] at h
  cases henter : T.enter pos c with
  | error errno => rw [henter] at h; cases h
  | ok next =>
      rw [henter] at h
      dsimp only at h
      refine ⟨next, rfl, ?_⟩
      cases hnode : T.get? next with
      | none => rw [hnode] at h; cases h
      | some node =>
          rw [hnode] at h
          cases node with
          | link target => exact Or.inl ⟨target, rfl, h⟩
          | file => exact Or.inr ⟨⟨.file, hnode, by simp⟩, h⟩
          | dir entries => exact Or.inr ⟨⟨.dir entries, hnode, by simp⟩, h⟩

theorem walkWith_settled (hlink : ∀ pos target cs dst, onLink pos target cs = .ok dst →
      T.Settled pos → T.Settled dst) {dst : List FileName} :
    ∀ {cs : List Str} {pos : List FileName}, T.walkWith onLink pos cs = .ok dst →
      T.Settled pos → T.Settled dst := by
  intro cs
  induction cs with
  | nil =>
      intro pos h hpos
      cases h
      exact hpos
  | cons c cs ih =>
      intro pos h hpos
      rcases walkWith_cons_ok h with ⟨next, henter, ⟨target, _, hgo⟩ | ⟨hnext, hgo⟩⟩
      · exact hlink pos target cs dst hgo hpos
      · exact ih hgo hnext

theorem walk_settled : ∀ {n : Nat} {cs : List Str} {pos dst : List FileName},
    T.walk n pos cs = .ok dst → T.Settled pos → T.Settled [] → T.Settled dst := by
  intro n
  induction n with
  | zero =>
      intro cs pos dst h hpos _
      exact walkWith_settled (by rintro _ _ _ _ ⟨⟩) h hpos
  | succ n ih =>
      intro cs pos dst h hpos hroot
      refine walkWith_settled ?_ h hpos
      intro pos target cs dst hgo hpos
      -- an absolute link starts over at the root, a relative one stays
      refine ih hgo ?_ hroot
      split_ifs
      · exact hroot
      · exact hpos

/-- A walk that meets no link is the same with any provision for links. -/
theorem walkWith_of_walk_zero : ∀ {cs : List Str} {pos dst : List FileName},
    T.walk 0 pos cs = .ok dst → T.walkWith onLink pos cs = .ok dst := by
  intro cs
  induction cs with
  | nil => intro pos dst h; exact h
  | cons c cs ih =>
      intro pos dst h
      rcases walkWith_cons_ok h with ⟨next, henter, ⟨target, _, ⟨⟩⟩ | ⟨hnext, hgo⟩⟩
      rw [walkWith_cons henter hnext]
      exact ih hgo

theorem walk_of_walk_zero {n : Nat} {cs : List Str} {pos dst : List FileName}
    (h : T.walk 0 pos cs = .ok dst) : T.walk n pos cs = .ok dst := by
  cases n with
  | zero => exact h
  | succ n => exact walkWith_of_walk_zero h

/-- A path that leads somewhere has no NUL in it. -/
theorem nul_notMem_of_walk_zero : ∀ {cs : List Str} {pos dst : List FileName},
    T.walk 0 pos cs = .ok dst → ∀ c ∈ cs, (0 : UInt8) ∉ c := by
  intro cs
  induction cs with
  | nil => intro pos dst _ c hc; cases hc
  | cons d cs ih =>
      intro pos dst h c hc
      rcases walkWith_cons_ok h with ⟨next, henter, ⟨target, _, ⟨⟩⟩ | ⟨_, hgo⟩⟩
      rcases List.mem_cons.1 hc with rfl | hmem
      · -- `.` and `..` have none, and neither has a file name
        rcases (enter_ok henter).2 with ⟨rfl, _⟩ | ⟨rfl, _⟩ | ⟨hname, _⟩
        · decide
        · decide
        · exact hname.2.2.2.2
      · exact ih hgo c hmem

theorem walk_zero_append : ∀ {cs cs' : List Str} {pos mid : List FileName},
    T.walk 0 pos cs = .ok mid → T.walk 0 pos (cs ++ cs') = T.walk 0 mid cs' := by
  intro cs
  induction cs with
  | nil =>
      intro cs' pos mid h
      cases h
      rfl
  | cons c cs ih =>
      intro cs' pos mid h
      rcases walkWith_cons_ok h with ⟨next, henter, ⟨target, _, ⟨⟩⟩ | ⟨hnext, hgo⟩⟩
      exact (walkWith_cons henter hnext).trans (ih hgo)

/-- From a directory a name leads to its child. -/
theorem enter_name {R : Node} {pos : List FileName} {c : FileName} {node : Node}
    (hpos : T.get? pos = some R) (hchild : R.child c = some node) :
    T.enter pos c.1 = .ok (pos ++ [c]) ∧ T.get? (pos ++ [c]) = some node := by
  have hc := c.2
  constructor
  · rcases exists_dir_of_child hchild with ⟨entries, rfl⟩
    unfold enter
    rw [hpos]
    dsimp only
    rw [if_neg hc.2.2.1, if_neg hc.2.2.2.1, dif_pos hc]
  · rw [get?_append, hpos, Option.bind_some, get?_singleton, hchild]

/-- Going down along a position meets no link but at its end. -/
theorem walk_zero_names : ∀ {names pos : List FileName} {R : Node},
    T.get? pos = some R → R.Settled names →
      T.walk 0 pos (names.map Subtype.val) = .ok (pos ++ names) := by
  intro names
  induction names with
  | nil =>
      intro pos R _ _
      rw [List.append_nil]
      rfl
  | cons c names ih =>
      intro pos R hpos hset
      rcases hset with ⟨node, hnode, hlink⟩
      rw [get?_cons] at hnode
      cases hchild : R.child c with
      | none => rw [hchild] at hnode; cases hnode
      | some R' =>
          rw [hchild, Option.bind_some] at hnode
          rcases enter_name hpos hchild with ⟨henter, hnext⟩
          have hsettled : T.Settled (pos ++ [c]) := by
            refine ⟨R', hnext, ?_⟩
            rintro target rfl
            -- nothing lies below a link
            cases names with
            | nil => exact hlink target (Option.some.inj hnode).symm
            | cons d names => cases hnode
          have hgo := ih hnext ⟨node, hnode, hlink⟩
          rw [List.append_assoc] at hgo
          exact (walkWith_cons henter hsettled).trans hgo

end Node

end Path
end Kdump

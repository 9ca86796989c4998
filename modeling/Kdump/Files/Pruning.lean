import Kdump.Lib.Assoc
import Kdump.Path.Tree

/-!
# Pruning — trees from which nodes have been taken away

When nodes are removed from a file system, every other node stays what it was and where it was.

* `Node.kindAt` — what there is at a position;
* `Node.Le` — everything in one tree is in the other, as the same kind of node;
* `Node.erase` — the tree without the node at a position;
* `Node.links` — the symbolic links that a path walk follows;
* `walk_mono`, `links_prefix` — a walk in the smaller tree is the walk in the larger one, or stops
  early.
-/

namespace Kdump
namespace Path

open Lib

/-- A node without what is below it. -/
inductive Kind where
  | file
  | link (target : Target)
  | dir
  deriving DecidableEq

namespace Node

def kind : Node → Kind
  | .file => .file
  | .link target => .link target
  | .dir _ => .dir

/-- What there is at a position. -/
def kindAt (T : Node) (pos : List FileName) : Option Kind :=
  (T.get? pos).map kind

/-- What is in the tree `E` is in `T` too. -/
def Le (E T : Node) : Prop :=
  ∀ pos k, E.kindAt pos = some k → T.kindAt pos = some k

theorem Le.refl (T : Node) : T.Le T :=
  fun _ _ h => h

theorem Le.trans {T₁ T₂ T₃ : Node} (h : T₁.Le T₂) (h' : T₂.Le T₃) : T₁.Le T₃ :=
  fun pos k hk => h' pos k (h pos k hk)

/-- What the larger tree does not have is not in the smaller one. -/
theorem Le.kindAt_none {E T : Node} (hle : E.Le T) {pos : List FileName}
    (h : T.kindAt pos = none) : E.kindAt pos = none := by
  cases hkind : E.kindAt pos with
  | none => rfl
  | some k => cases h.symm.trans (hle pos k hkind)

theorem kindAt_dir {T : Node} {pos : List FileName} :
    T.kindAt pos = some .dir ↔ ∃ entries, T.get? pos = some (.dir entries) := by
  unfold kindAt
  cases hget : T.get? pos with
  | none => simp
  | some R => cases R <;> simp [kind]

theorem kindAt_eq_none {T : Node} {pos : List FileName} :
    T.kindAt pos = none ↔ T.get? pos = none := by
  simp [kindAt]

/-- Nothing is below a position where there is nothing. -/
theorem get?_below {T : Node} {pos q : List FileName} (h : T.get? pos = none) (hq : pos <+: q) :
    T.get? q = none := by
  rcases hq with ⟨rest, rfl⟩
  rw [get?_append, h]
  rfl

/-! ## Erasing -/

/-- The tree without the node at a position below its root. -/
def erase : List FileName → Node → Node
  | [], T => T
  | c :: pos, .dir entries =>
      if pos = [] then
        .dir (entries.filter (·.1 ≠ c))
      else
        .dir (entries.map fun e => if e.1 = c then (e.1, e.2.erase pos) else e)
  | _ :: _, T => T

theorem child_erase {c d : FileName} {pos : List FileName} {entries : List (FileName × Node)} :
    (erase (c :: pos) (.dir entries)).child d =
      if d = c then (if pos = [] then none else (entries.lookup d).map (erase pos))
      else entries.lookup d := by
  rw [erase]
  by_cases hpos : pos = []
  · rw [if_pos hpos, if_pos hpos]
    exact lookup_filter_ne c d entries
  · rw [if_neg hpos, if_neg hpos]
    exact lookup_map_at c d (erase pos) entries

theorem kindAt_cons (T : Node) (d : FileName) (q : List FileName) :
    T.kindAt (d :: q) = (T.child d).bind fun R => R.kindAt q := by
  rw [kindAt, get?_cons]
  cases T.child d <;> rfl

/-- The node is gone, with all that was below it. -/
theorem kindAt_erase_below {pos q : List FileName} (hne : pos ≠ []) (h : pos <+: q) :
    ∀ T : Node, (T.erase pos).kindAt q = none := by
  induction pos generalizing q with
  | nil => exact absurd rfl hne
  | cons c pos ih =>
      intro T
      rcases h with ⟨rest, rfl⟩
      rw [List.cons_append, kindAt_cons]
      cases T with
      | file => rfl
      | link target => rfl
      | dir entries =>
          rw [child_erase, if_pos rfl]
          by_cases hpos : pos = []
          · rw [if_pos hpos]
            rfl
          · rw [if_neg hpos]
            cases entries.lookup c with
            | none => rfl
            | some R => exact ih hpos (List.prefix_append _ _) R

/-- Everything else is what it was. -/
theorem kindAt_erase_other {pos q : List FileName} (h : ¬ pos <+: q) :
    ∀ T : Node, (T.erase pos).kindAt q = T.kindAt q := by
  induction pos generalizing q with
  | nil => exact absurd (List.nil_prefix) h
  | cons c pos ih =>
      intro T
      cases T with
      | file => rfl
      | link target => rfl
      | dir entries =>
          cases q with
          | nil =>
              rw [erase]
              split <;> rfl
          | cons d q =>
              rw [kindAt_cons, kindAt_cons, child_erase]
              by_cases hd : d = c
              · subst hd
                have hrest : ¬ pos <+: q := fun hq => h (by simpa using hq)
                have hpos : pos ≠ [] := by
                  rintro rfl
                  exact hrest List.nil_prefix
                rw [if_pos rfl, if_neg hpos]
                change _ = (entries.lookup d).bind _
                cases entries.lookup d with
                | none => rfl
                | some R => exact ih hrest R
              · rw [if_neg hd]
                rfl

theorem erase_le (T : Node) (pos : List FileName) : (T.erase pos).Le T := by
  intro q k hk
  by_cases h : pos <+: q
  · by_cases hpos : pos = []
    · subst hpos
      cases T <;> exact hk
    · rw [kindAt_erase_below hpos h] at hk
      cases hk
  · rwa [kindAt_erase_other h] at hk

/-! ## Walks in a smaller tree -/

section

variable {E T : Node}

theorem enter_of_dir {pos : List FileName} (h : T.kindAt pos = some .dir) (c : Str) :
    T.enter pos c =
      if c = [period] then .ok pos
      else if c = [period, period] then .ok pos.dropLast
      else if hc : IsFileName c then .ok (pos ++ [⟨c, hc⟩])
      else .error ENOENT := by
  rcases kindAt_dir.1 h with ⟨entries, hentries⟩
  rw [enter, hentries]

theorem enter_mono (hle : E.Le T) {pos next : List FileName} {c : Str}
    (h : E.enter pos c = .ok next) : T.enter pos c = .ok next := by
  have hdir : E.kindAt pos = some .dir := kindAt_dir.2 (enter_ok h).1
  rw [enter_of_dir hdir] at h
  rw [enter_of_dir (hle pos .dir hdir)]
  exact h

/-- The pass of a walk over one component, by the kind of node that it reaches. -/
theorem walkWith_eq (onLink : List FileName → Target → List Str → Except Errno (List FileName))
    (pos : List FileName) (c : Str) (cs : List Str) :
    T.walkWith onLink pos (c :: cs) =
      match T.enter pos c with
      | .error errno => .error errno
      | .ok next =>
          match T.kindAt next with
          | none => .error ENOENT
          | some (.link target) => onLink pos target cs
          | some _ => T.walkWith onLink next cs := by
  rw [walkWith]
  cases T.enter pos c with
  | error errno => rfl
  | ok next =>
      dsimp only [kindAt]
      cases T.get? next with
      | none => rfl
      | some R => cases R <;> rfl

/-- The first component of a walk that succeeds. -/
theorem walkWith_cons_iff
    {onLink : List FileName → Target → List Str → Except Errno (List FileName)}
    {pos dst : List FileName} {c : Str} {cs : List Str} :
    T.walkWith onLink pos (c :: cs) = .ok dst ↔ ∃ next, T.enter pos c = .ok next ∧
      ((∃ target, T.kindAt next = some (.link target) ∧ onLink pos target cs = .ok dst) ∨
        ((T.kindAt next = some .file ∨ T.kindAt next = some .dir) ∧
          T.walkWith onLink next cs = .ok dst)) := by
  rw [walkWith_eq]
  constructor
  · intro h
    cases henter : T.enter pos c with
    | error errno =>
        rw [henter] at h
        cases h
    | ok next =>
        simp only [henter] at h
        cases hkind : T.kindAt next with
        | none =>
            simp only [hkind] at h
            cases h
        | some k =>
            simp only [hkind] at h
            refine ⟨next, rfl, ?_⟩
            cases k with
            | link target => exact .inl ⟨target, hkind, h⟩
            | file => exact .inr ⟨.inl hkind, h⟩
            | dir => exact .inr ⟨.inr hkind, h⟩
  · rintro ⟨next, henter, ⟨target, hkind, hgo⟩ | ⟨hkind | hkind, hgo⟩⟩
    · simpa only [henter, hkind] using hgo
    · simpa only [henter, hkind] using hgo
    · simpa only [henter, hkind] using hgo

theorem walkWith_mono (hle : E.Le T)
    {onLink onLink' : List FileName → Target → List Str → Except Errno (List FileName)}
    (hlink : ∀ pos target cs dst, onLink pos target cs = .ok dst → onLink' pos target cs = .ok dst)
    {cs : List Str} {pos dst : List FileName} (h : E.walkWith onLink pos cs = .ok dst) :
    T.walkWith onLink' pos cs = .ok dst := by
  induction cs generalizing pos with
  | nil => exact h
  | cons c cs ih =>
      obtain ⟨next, henter, hstep⟩ := walkWith_cons_iff.1 h
      refine walkWith_cons_iff.2 ⟨next, enter_mono hle henter, hstep.imp ?_ ?_⟩
      · rintro ⟨target, hkind, hgo⟩
        exact ⟨target, hle _ _ hkind, hlink _ _ _ _ hgo⟩
      · rintro ⟨hkind, hgo⟩
        exact ⟨hkind.imp (hle _ _) (hle _ _), ih hgo⟩

/-- A walk that succeeds in the smaller tree is the walk in the larger one. -/
theorem walk_mono (hle : E.Le T) {n : Nat} {cs : List Str} {pos dst : List FileName}
    (h : E.walk n pos cs = .ok dst) : T.walk n pos cs = .ok dst := by
  induction n generalizing pos cs dst with
  | zero => exact walkWith_mono hle (fun _ _ _ _ h => h) h
  | succ n ih => exact walkWith_mono hle (fun _ _ _ _ h => ih h) h

/-! ## Longer walks -/

/-- The rest of a walk behind its first component may be another one. -/
theorem walkWith_cons_of
    {onLink : List FileName → Target → List Str → Except Errno (List FileName)} {c : Str}
    {cs cs' : List Str} {pos mid dst : List FileName}
    (h : T.walkWith onLink pos (c :: cs) = .ok mid)
    (hlink : ∀ next target, onLink next target cs = .ok mid → onLink next target cs' = .ok dst)
    (hwalk : ∀ next, T.walkWith onLink next cs = .ok mid → T.walkWith onLink next cs' = .ok dst) :
    T.walkWith onLink pos (c :: cs') = .ok dst := by
  obtain ⟨next, henter, hstep⟩ := walkWith_cons_iff.1 h
  refine walkWith_cons_iff.2 ⟨next, henter, hstep.imp ?_ ?_⟩
  · rintro ⟨target, hkind, hgo⟩
    exact ⟨target, hkind, hlink _ _ hgo⟩
  · rintro ⟨hkind, hgo⟩
    exact ⟨hkind, hwalk _ hgo⟩

theorem walkWith_concat
    {onLink : List FileName → Target → List Str → Except Errno (List FileName)}
    {cs' : List Str} {mid dst : List FileName}
    (hlink : ∀ pos target cs, onLink pos target cs = .ok mid →
      onLink pos target (cs ++ cs') = .ok dst)
    (hrest : T.walk 0 mid cs' = .ok dst) {cs : List Str} {pos : List FileName}
    (h : T.walkWith onLink pos cs = .ok mid) : T.walkWith onLink pos (cs ++ cs') = .ok dst := by
  induction cs generalizing pos with
  | nil =>
      cases h
      exact walkWith_of_walk_zero hrest
  | cons c cs ih =>
      exact walkWith_cons_of h (fun _ _ hgo => hlink _ _ _ hgo) fun _ hgo => ih hgo

/-- A walk goes on from where it led to. -/
theorem walk_concat {n : Nat} {cs cs' : List Str} {pos mid dst : List FileName}
    (h : T.walk n pos cs = .ok mid) (hrest : T.walk 0 mid cs' = .ok dst) :
    T.walk n pos (cs ++ cs') = .ok dst := by
  induction n generalizing pos cs with
  | zero => exact walkWith_concat (fun _ _ _ h => by cases h) hrest h
  | succ n ih =>
      refine walkWith_concat (fun _ _ _ h => ?_) hrest h
      have hlonger := ih h
      rwa [List.append_assoc] at hlonger

theorem walkWith_of_concat_period
    {onLink : List FileName → Target → List Str → Except Errno (List FileName)}
    {dst : List FileName}
    (hlink : ∀ pos target cs, onLink pos target (cs ++ [[period]]) = .ok dst →
      onLink pos target cs = .ok dst)
    {cs : List Str} {pos : List FileName}
    (h : T.walkWith onLink pos (cs ++ [[period]]) = .ok dst) :
    T.walkWith onLink pos cs = .ok dst := by
  induction cs generalizing pos with
  | nil =>
      rw [List.nil_append, walkWith_eq] at h
      cases henter : T.enter pos [period] with
      | error errno =>
          rw [henter] at h
          cases h
      | ok next =>
          have hdir : T.kindAt pos = some .dir := kindAt_dir.2 (enter_ok henter).1
          rw [enter_of_dir hdir, if_pos rfl] at henter
          cases henter
          rw [enter_of_dir hdir, if_pos rfl] at h
          simp only [hdir] at h
          exact h
  | cons c cs ih =>
      exact walkWith_cons_of h (fun _ _ hgo => hlink _ _ _ hgo) fun _ hgo => ih hgo

/-- A trailing slash changes nothing for a directory. -/
theorem walk_words {n : Nat} {path : Str} {pos : List FileName}
    (h : T.walk n [] (splitPath path) = .ok pos) : T.walk n [] (words path) = .ok pos := by
  rw [splitPath] at h
  split at h
  · revert h
    generalize words path = cs
    generalize ([] : List FileName) = start
    intro h
    induction n generalizing start cs with
    | zero => exact walkWith_of_concat_period (fun _ _ _ h => by cases h) h
    | succ n ih =>
        refine walkWith_of_concat_period (fun _ _ _ h => ?_) h
        rw [← List.append_assoc] at h
        exact ih _ _ h
  · rwa [List.append_nil] at h

/-! ## Links on the way -/

/-- The links that a walk meets; what comes behind a link is left to `onLink`. -/
def linksWith (T : Node) (onLink : List FileName → Target → List Str → List (List FileName)) :
    List FileName → List Str → List (List FileName)
  | _, [] => []
  | pos, c :: cs =>
      match T.enter pos c with
      | .error _ => []
      | .ok next =>
          match T.kindAt next with
          | none => []
          | some (.link target) => next :: onLink pos target cs
          | some _ => T.linksWith onLink next cs

/-- The positions of the links that `walk` follows. -/
def links (T : Node) : Nat → List FileName → List Str → List (List FileName)
  | 0 => T.linksWith fun _ _ _ => []
  | n + 1 => T.linksWith fun pos target cs =>
      T.links n (if target.1.head? = some slash then [] else pos) (splitPath target.1 ++ cs)

theorem linksWith_prefix (hle : E.Le T) {cs' : List Str}
    {onLink onLink' : List FileName → Target → List Str → List (List FileName)}
    (hlink : ∀ pos target cs, onLink pos target cs <+: onLink' pos target (cs ++ cs'))
    (cs : List Str) (pos : List FileName) :
    E.linksWith onLink pos cs <+: T.linksWith onLink' pos (cs ++ cs') := by
  induction cs generalizing pos with
  | nil => exact List.nil_prefix
  | cons c cs ih =>
      rw [List.cons_append, linksWith, linksWith]
      cases henter : E.enter pos c with
      | error errno => exact List.nil_prefix
      | ok next =>
          simp only [enter_mono hle henter]
          cases hkind : E.kindAt next with
          | none => exact List.nil_prefix
          | some k =>
              simp only [hle next k hkind]
              cases k with
              | link target => exact List.cons_prefix_cons.2 ⟨rfl, hlink pos target cs⟩
              | file => exact ih next
              | dir => exact ih next

/-- A shorter walk in a smaller tree follows the same links, or some of them. -/
theorem links_prefix (hle : E.Le T) (n : Nat) (cs cs' : List Str) (pos : List FileName) :
    E.links n pos cs <+: T.links n pos (cs ++ cs') := by
  induction n generalizing pos cs with
  | zero => exact linksWith_prefix hle (fun _ _ _ => List.nil_prefix) cs pos
  | succ n ih =>
      refine linksWith_prefix hle (fun pos target cs => ?_) cs pos
      have hlonger := ih (splitPath target.1 ++ cs)
        (if target.1.head? = some slash then [] else pos)
      rwa [List.append_assoc] at hlonger

theorem linksWith_concat {cs' : List Str} {mid dst : List FileName}
    {onLink : List FileName → Target → List Str → Except Errno (List FileName)}
    {onLink' : List FileName → Target → List Str → List (List FileName)}
    (hlink : ∀ pos target cs, onLink pos target cs = .ok mid →
      onLink' pos target (cs ++ cs') = onLink' pos target cs)
    (hrest : T.walk 0 mid cs' = .ok dst) {cs : List Str} {pos : List FileName}
    (h : T.walkWith onLink pos cs = .ok mid) :
    T.linksWith onLink' pos (cs ++ cs') = T.linksWith onLink' pos cs := by
  induction cs generalizing pos with
  | nil =>
      cases h
      rw [List.nil_append, linksWith]
      -- a walk without links: by induction on what is left of it
      clear hlink
      induction cs' generalizing mid with
      | nil => rfl
      | cons c cs' ih =>
          rcases walkWith_cons_ok hrest with ⟨next, henter, ⟨target, _, ⟨⟩⟩ | ⟨hnext, hgo⟩⟩
          rcases hnext with ⟨node, hnode, hnolink⟩
          rw [linksWith, henter]
          simp only [kindAt, hnode, Option.map_some]
          cases node with
          | link target => exact absurd rfl (hnolink target)
          | file => exact ih hgo
          | dir entries => exact ih hgo
  | cons c cs ih =>
      rw [walkWith_eq] at h
      rw [List.cons_append, linksWith, linksWith]
      cases henter : T.enter pos c with
      | error errno => rfl
      | ok next =>
          simp only [henter] at h ⊢
          cases hkind : T.kindAt next with
          | none => rfl
          | some k =>
              simp only [hkind] at h ⊢
              cases k with
              | link target => exact congrArg (next :: ·) (hlink _ _ _ h)
              | file => exact ih h
              | dir => exact ih h

/-- Going on without links follows no more of them. -/
theorem links_concat {n : Nat} {cs cs' : List Str} {pos mid dst : List FileName}
    (h : T.walk n pos cs = .ok mid) (hrest : T.walk 0 mid cs' = .ok dst) :
    T.links n pos (cs ++ cs') = T.links n pos cs := by
  induction n generalizing pos cs with
  | zero => exact linksWith_concat (fun _ _ _ _ => rfl) hrest h
  | succ n ih =>
      refine linksWith_concat (fun _ _ _ h => ?_) hrest h
      rw [← List.append_assoc]
      exact ih h

end

end Node

end Path
end Kdump

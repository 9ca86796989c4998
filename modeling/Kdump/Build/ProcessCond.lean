import Kdump.Global
import Kdump.Lib.Fields
import Kdump.Lib.Loop
import Kdump.Lib.Scan

/-!
# ProcessCond — the lines that `process_cond.awk` keeps

The script reads a text with lines `@if`, `@else` and `@endif` and prints the other ones, as far as
the conditions around them hold.  It keeps a stack of flags and one flag for the present line.

* `substitute` — the loop that replaces `@NAME@` in an `@if` line;
* `State`, `record`, `process` — the rules of the script;
* `Template` — a text as it is meant, a tree of blocks, with its lines and its output;
* `process_template` — the script prints the output of the tree;
* `balanced_iff` — which texts are trees.
-/

namespace Kdump
namespace Build

open Lib

/-! ## Lines -/

abbrev atSign : UInt8 := 64

/-- What `\w` matches, in the C locale. -/
def isWord (c : UInt8) : Bool :=
  (48 ≤ c && c ≤ 57) || (65 ≤ c && c ≤ 90) || (97 ≤ c && c ≤ 122) || c == 95

/-- What separates the fields of a record. -/
def isBlank (c : UInt8) : Bool :=
  c == space || c == 9 || c == newline

/-- `/^word\>/` -/
def opens (word line : Str) : Bool :=
  word.isPrefixOf line && (line.drop word.length).head?.all fun c => !isWord c

/-- `match($0, /@(\w+)@/, var)`: what is in front of the match, the name, and what is behind. -/
def matchVar : Str → Option (Str × Str × Str)
  | [] => none
  | c :: text =>
      if c = atSign ∧ text.takeWhile isWord ≠ [] ∧
          (text.dropWhile isWord).head? = some atSign then
        some ([], text.takeWhile isWord, (text.dropWhile isWord).tail)
      else
        (matchVar text).map fun found => (c :: found.1, found.2)

/-- `ENVIRON`.  The loop in the script goes on for ever if a value brings a name in again. -/
structure Environ where
  value : Str → Str
  noAtSign : ∀ name, atSign ∉ value name

/-- One pass of the loop. -/
def substituteStep (env : Environ) (line : Str) : Step Str Str :=
  match matchVar line with
  | none => .done line
  | some (front, name, behind) => .next (front ++ env.value name ++ behind)

theorem matchVar_eq {line front name behind : Str}
    (h : matchVar line = some (front, name, behind)) :
    line = front ++ atSign :: name ++ atSign :: behind := by
  induction line generalizing front with
  | nil => cases h
  | cons c text ih =>
      rw [matchVar] at h
      split at h
      · rename_i hmatch
        obtain ⟨rfl, hne, hhead⟩ := hmatch
        cases h
        obtain ⟨tail, htail⟩ := List.head?_eq_some_iff.1 hhead
        rw [htail, List.tail_cons, ← htail]
        exact congrArg (atSign :: ·) List.takeWhile_append_dropWhile.symm
      · obtain ⟨⟨front', name', behind'⟩, hfound, heq⟩ := Option.map_eq_some_iff.1 h
        cases heq
        exact congrArg (c :: ·) (ih hfound)

/-- Each pass takes two of the signs away. -/
def substituteLoop (env : Environ) : Loop Str Str where
  step := substituteStep env
  measure line := line.count atSign
  decreases := by
    intro line line' h
    unfold substituteStep at h
    split at h
    · cases h
    · rename_i front name behind hmatch
      cases h
      rw [matchVar_eq hmatch]
      have hvalue : (env.value name).count atSign = 0 := List.count_eq_zero.2 (env.noAtSign name)
      simp only [List.count_append, List.count_cons_self, hvalue]
      omega

/-- `$0` behind the loop. -/
def substitute (env : Environ) (line : Str) : Str :=
  (substituteLoop env).eval line

/-! ## The rules -/

section Rules

variable {ν : Type} [DecidableEq ν] (number : Str → Option ν) (env : Environ)

/-- `a == b` for two fields: they are compared as numbers if both look like numbers. -/
def sameField (a b : Str) : Bool :=
  match number a, number b with
  | some x, some y => decide (x = y)
  | _, _ => decide (a = b)

/-- The loop over the fields: one of those from the third on is the same as the second. -/
def condition (line : Str) : Bool :=
  let words := fields isBlank line
  (words.drop 2).any fun word => sameField number (words[1]?.getD []) word

/-- The variables of the script. -/
structure State where
  stack : Int → Bool
  sp : Int
  remove : Bool
  skip : Nat

/-- All variables are empty in the beginning. -/
def State.init : State :=
  ⟨fun _ => false, 0, false, 0⟩

/-- The rule for `@if`, which changes the line. -/
def ifRule (line : Str) (s : State) : Str × State :=
  if opens (str "@if") line then
    let line := substitute env line
    (line, { stack := Function.update s.stack s.sp s.remove
             sp := s.sp + 1
             remove := s.remove || !condition number line
             skip := 1 })
  else (line, s)

def elseRule (line : Str) (s : State) : State :=
  if opens (str "@else") line then
    { s with remove := s.stack (s.sp - 1) || !s.remove, skip := 1 }
  else s

def endifRule (line : Str) (s : State) : State :=
  if opens (str "@endif") line then
    { s with sp := s.sp - 1, remove := s.stack (s.sp - 1), skip := 1 }
  else s

/-- The last two rules. -/
def printRule (line : Str) (s : State) : List Str × State :=
  (if s.remove = false ∧ s.skip = 0 then [line] else [], { s with skip := s.skip - 1 })

/-- All rules, for one line. -/
def record (line : Str) (s : State) : List Str × State :=
  let (line, s) := ifRule number env line s
  printRule line (endifRule line (elseRule line s))

/-- The whole text. -/
def process : List Str → State → List Str × State
  | [], s => ([], s)
  | line :: lines, s =>
      let here := record number env line s
      let behind := process lines here.2
      (here.1 ++ behind.1, behind.2)

theorem process_append (front behind : List Str) (s : State) :
    process number env (front ++ behind) s =
      ((process number env front s).1 ++
          (process number env behind (process number env front s).2).1,
        (process number env behind (process number env front s).2).2) := by
  induction front generalizing s with
  | nil => rfl
  | cons line front ih =>
      rw [List.cons_append, process, ih]
      simp only [process, List.append_assoc]

end Rules

/-! ## Directives -/

/-- A line that no rule but the last ones is for. -/
abbrev TextLine :=
  { line : Str // opens (str "@if") line = false ∧ opens (str "@else") line = false ∧
    opens (str "@endif") line = false }

/-- `@if`, and not `@if@`, which would be a name. -/
abbrev IfLine :=
  { line : Str // opens (str "@if") line = true ∧ (line.drop 3).head? ≠ some atSign }

abbrev ElseLine :=
  { line : Str // opens (str "@else") line = true }

abbrev EndifLine :=
  { line : Str // opens (str "@endif") line = true }

theorem prefix_of_opens {word line : Str} (h : opens word line = true) : word <+: line := by
  rw [opens, Bool.and_eq_true] at h
  exact List.isPrefixOf_iff_prefix.1 h.1

/-- A line opens with one word only. -/
theorem opens_eq_false {word word' line : Str} (h : word <+: line) (n : Nat)
    (hne : word.take n ≠ word'.take n) (hlen : n ≤ word.length) (hlen' : n ≤ word'.length) :
    opens word' line = false := by
  rw [Bool.eq_false_iff]
  intro hopens
  obtain ⟨rest, rfl⟩ := h
  obtain ⟨rest', hrest'⟩ := prefix_of_opens hopens
  apply hne
  rw [← List.take_append_of_le_length hlen, ← hrest', List.take_append_of_le_length hlen']

/-! ## What becomes of an `@if` line -/

/-- The word in front is not part of a match. -/
theorem matchVar_if {rest : Str} (hword : ∀ c ∈ rest.head?, isWord c = false)
    (hat : rest.head? ≠ some atSign) :
    matchVar (str "@if" ++ rest) =
      (matchVar rest).map fun found => (str "@if" ++ found.1, found.2) := by
  have hlit : str "@if" = [atSign, 105, 102] := by decide
  have hstops : Stops isWord rest := hword
  have hletters : ∀ c ∈ ([105, 102] : Str), isWord c = true := by decide +kernel
  have hdrop : ([105, 102] ++ rest).dropWhile isWord = rest := dropWhile_scan hletters hstops
  have hfirst : ¬(atSign = atSign ∧ ([105, 102] ++ rest).takeWhile isWord ≠ [] ∧
      (([105, 102] ++ rest).dropWhile isWord).head? = some atSign) := by
    rw [hdrop]
    exact fun h => hat h.2.2
  have hi : ∀ (c : UInt8) (text : Str), c ≠ atSign →
      matchVar (c :: text) = (matchVar text).map fun found => (c :: found.1, found.2) :=
    fun c text hc => if_neg fun h => hc h.1
  rw [hlit]
  change matchVar (atSign :: ([105, 102] ++ rest)) = _
  rw [matchVar, if_neg hfirst]
  change (matchVar (105 :: 102 :: rest)).map _ = _
  rw [hi _ _ (by decide), hi _ _ (by decide), Option.map_map, Option.map_map]
  rfl

theorem substituteStep_if {env : Environ} {rest line : Str}
    (hword : ∀ c ∈ rest.head?, isWord c = false) (hat : rest.head? ≠ some atSign)
    (h : substituteStep env (str "@if" ++ rest) = .next line) :
    ∃ rest', line = str "@if" ++ rest' ∧ rest'.head? = rest.head? := by
  unfold substituteStep at h
  rw [matchVar_if hword hat] at h
  cases hmatch : matchVar rest with
  | none =>
      rw [hmatch] at h
      cases h
  | some found =>
      obtain ⟨front, name, behind⟩ := found
      rw [hmatch] at h
      cases h
      have hrest := matchVar_eq hmatch
      refine ⟨front ++ env.value name ++ behind, by simp only [List.append_assoc], ?_⟩
      -- what is replaced is not the first byte of the text
      cases front with
      | nil =>
          rw [hrest] at hat
          exact (hat rfl).elim
      | cons c front =>
          rw [hrest]
          rfl

/-- The word in front stays. -/
theorem prefix_substitute (env : Environ) (line : IfLine) :
    str "@if" <+: substitute env line.1 := by
  obtain ⟨line, hopens, hat⟩ := line
  obtain ⟨last, hreach, hlast⟩ := Loop.exists_last (L := substituteLoop env) line
  have hinv : ∃ rest, last = str "@if" ++ rest ∧ (∀ c ∈ rest.head?, isWord c = false) ∧
      rest.head? ≠ some atSign := by
    refine hreach.invariant (I := fun line => ∃ rest, line = str "@if" ++ rest ∧
      (∀ c ∈ rest.head?, isWord c = false) ∧ rest.head? ≠ some atSign) ?_ ?_
    · obtain ⟨rest, rfl⟩ := prefix_of_opens hopens
      refine ⟨rest, rfl, ?_, ?_⟩
      · rw [opens, List.drop_left, Bool.and_eq_true] at hopens
        intro c hc
        have hall := hopens.2
        rw [Option.mem_def.1 hc] at hall
        simpa using hall
      · exact hat
    · rintro _ line' ⟨rest, rfl, hword, hat⟩ hstep
      obtain ⟨rest', rfl, hhead⟩ := substituteStep_if hword hat hstep
      exact ⟨rest', rfl, by rwa [hhead], by rwa [hhead]⟩
  obtain ⟨rest, rfl, hword, hat⟩ := hinv
  have hdone : substitute env line = str "@if" ++ rest := by
    change substituteStep env _ = _ at hlast
    unfold substituteStep at hlast
    split at hlast
    · exact (Step.done.inj hlast).symm
    · cases hlast
  rw [hdone]
  exact List.prefix_append _ _

/-! ## One line -/

section Record

variable {ν : Type} [DecidableEq ν] (number : Str → Option ν) (env : Environ)

/-- The condition of an `@if` line. -/
def holds (test : IfLine) : Bool :=
  condition number (substitute env test.1)

variable {s : State}

theorem record_text (hskip : s.skip = 0) (line : TextLine) :
    record number env line.1 s = (if s.remove = true then [] else [line.1], s) := by
  obtain ⟨line, hif, helse, hendif⟩ := line
  obtain ⟨stack, sp, remove, skip⟩ := s
  cases hskip
  unfold record ifRule elseRule endifRule printRule
  simp only [hif, Bool.false_eq_true, if_false, helse, hendif]
  cases remove <;> rfl

theorem record_if (test : IfLine) :
    record number env test.1 s = ([],
      { stack := Function.update s.stack s.sp s.remove
        sp := s.sp + 1
        remove := s.remove || !holds number env test
        skip := 0 }) := by
  have hprefix := prefix_substitute env test
  have helse : opens (str "@else") (substitute env test.1) = false :=
    opens_eq_false hprefix 2 (by decide) (by decide) (by decide)
  have hendif : opens (str "@endif") (substitute env test.1) = false :=
    opens_eq_false hprefix 2 (by decide) (by decide) (by decide)
  unfold record ifRule
  rw [if_pos test.2.1]
  simp only [elseRule, endifRule, helse, hendif, printRule, Bool.false_eq_true, if_false,
    one_ne_zero, and_false]
  rfl

theorem record_else (hskip : s.skip = 0) (line : ElseLine) :
    record number env line.1 s =
      ([], { s with remove := s.stack (s.sp - 1) || !s.remove }) := by
  have hprefix := prefix_of_opens line.2
  have hif : opens (str "@if") line.1 = false :=
    opens_eq_false hprefix 2 (by decide) (by decide) (by decide)
  have hendif : opens (str "@endif") line.1 = false :=
    opens_eq_false hprefix 3 (by decide) (by decide) (by decide)
  obtain ⟨stack, sp, remove, skip⟩ := s
  cases hskip
  unfold record ifRule elseRule endifRule printRule
  simp only [hif, line.2, hendif, Bool.false_eq_true, if_false, if_true, one_ne_zero, and_false]

theorem record_endif (hskip : s.skip = 0) (line : EndifLine) :
    record number env line.1 s = ([], { s with sp := s.sp - 1, remove := s.stack (s.sp - 1) }) := by
  have hprefix := prefix_of_opens line.2
  have hif : opens (str "@if") line.1 = false :=
    opens_eq_false hprefix 2 (by decide) (by decide) (by decide)
  have helse : opens (str "@else") line.1 = false :=
    opens_eq_false hprefix 3 (by decide) (by decide) (by decide)
  obtain ⟨stack, sp, remove, skip⟩ := s
  cases hskip
  unfold record ifRule elseRule endifRule printRule
  simp only [hif, helse, line.2, Bool.false_eq_true, if_false, if_true, one_ne_zero, and_false]

end Record

/-! ## Texts as they are meant -/

mutual

/-- Lines and blocks, one after the other. -/
inductive Template where
  | done
  | text (line : TextLine) (rest : Template)
  | block (test : IfLine) (branches : Branches) (close : EndifLine) (rest : Template)

/-- What stands between `@if` and `@endif`, with any number of `@else` lines. -/
inductive Branches where
  | last (body : Template)
  | more (body : Template) (turn : ElseLine) (others : Branches)

end

mutual

/-- The text as it is written. -/
def Template.lines : Template → List Str
  | .done => []
  | .text line rest => line.1 :: rest.lines
  | .block test branches close rest => test.1 :: (branches.lines ++ close.1 :: rest.lines)

def Branches.lines : Branches → List Str
  | .last body => body.lines
  | .more body turn others => body.lines ++ turn.1 :: others.lines

end

section Output

variable {ν : Type} [DecidableEq ν] (number : Str → Option ν) (env : Environ)

mutual

/-- What is left of the text: of each block every other branch. -/
def Template.output : Template → List Str
  | .done => []
  | .text line rest => line.1 :: rest.output
  | .block test branches _ rest => branches.output (holds number env test) ++ rest.output

def Branches.output (active : Bool) : Branches → List Str
  | .last body => if active then body.output else []
  | .more body _ others => (if active then body.output else []) ++ others.output (!active)

end

/-- The stack below the pointer, the pointer and the flag are as before. -/
structure Restored (s s' : State) : Prop where
  sp : s'.sp = s.sp
  skip : s'.skip = 0
  stack : ∀ k < s.sp, s'.stack k = s.stack k

theorem Restored.refl {s : State} (h : s.skip = 0) : Restored s s :=
  ⟨rfl, h, fun _ _ => rfl⟩

theorem Restored.trans {s s' s'' : State} (h : Restored s s') (h' : Restored s' s'') :
    Restored s s'' where
  sp := h'.sp.trans h.sp
  skip := h'.skip
  stack := fun k hk => (h'.stack k (h.sp.symm ▸ hk)).trans (h.stack k hk)

theorem process_cons (line : Str) (lines : List Str) (s : State) :
    process number env (line :: lines) s =
      ((record number env line s).1 ++ (process number env lines (record number env line s).2).1,
        (process number env lines (record number env line s).2).2) :=
  rfl

mutual

/-- A text is printed as it is meant, or not at all, and leaves everything as it was. -/
theorem Template.process_lines : ∀ (t : Template) {s : State}, s.skip = 0 →
    (process number env t.lines s).1 =
        (if s.remove = true then [] else t.output number env) ∧
      Restored s (process number env t.lines s).2 ∧
        (process number env t.lines s).2.remove = s.remove
  | .done, s, hskip => ⟨(ite_self _).symm, .refl hskip, rfl⟩
  | .text line rest, s, hskip => by
      obtain ⟨hout, hrestored, hremove⟩ := Template.process_lines rest hskip
      rw [Template.lines, process_cons, record_text number env hskip line]
      refine ⟨?_, hrestored, hremove⟩
      rw [hout, Template.output]
      split <;> rfl
  | .block test branches close rest, s, hskip => by
      rw [Template.lines, process_cons, record_if, List.nil_append]
      set inner : State := ⟨Function.update s.stack s.sp s.remove, s.sp + 1,
        s.remove || !holds number env test, 0⟩ with hinner
      have hsp : inner.sp - 1 = s.sp := add_sub_cancel_right _ _
      have houter : inner.stack (inner.sp - 1) = s.remove := by
        rw [hsp]
        exact Function.update_self _ _ _
      have hbelow : ∀ k < s.sp, inner.stack k = s.stack k := fun k hk =>
        Function.update_of_ne hk.ne _ _
      -- the branches run with the flag of the block on the stack
      have hremove : inner.remove = (inner.stack (inner.sp - 1) || !holds number env test) := by
        rw [houter]
      obtain ⟨hout, hinnerRestored⟩ := Branches.process_lines branches rfl hremove
      rw [houter] at hout
      rw [process_append, process_cons]
      generalize process number env branches.lines inner = run at hout hinnerRestored ⊢
      obtain ⟨out, s₂⟩ := run
      dsimp only at hout hinnerRestored ⊢
      have htop : s₂.sp - 1 = s.sp := by rw [hinnerRestored.sp, hsp]
      have hkept : s₂.stack s.sp = s.remove := by
        rw [hinnerRestored.stack s.sp (lt_add_one s.sp), ← hsp, houter]
      rw [record_endif number env hinnerRestored.skip close, htop, hkept]
      set closed : State := { s₂ with sp := s.sp, remove := s.remove } with hclosed
      have hclosedRestored : Restored s closed :=
        ⟨rfl, hinnerRestored.skip, fun k hk =>
          (hinnerRestored.stack k (hk.trans (lt_add_one s.sp))).trans (hbelow k hk)⟩
      obtain ⟨hrest, hrestored, hflag⟩ := Template.process_lines rest hclosedRestored.skip
      refine ⟨?_, hclosedRestored.trans hrestored, hflag⟩
      rw [hrest, hout, List.nil_append, Template.output]
      change _ ++ (if s.remove = true then _ else _) = _
      split <;> rfl

theorem Branches.process_lines : ∀ (b : Branches) {s : State} {active : Bool}, s.skip = 0 →
    s.remove = (s.stack (s.sp - 1) || !active) →
    (process number env b.lines s).1 =
        (if s.stack (s.sp - 1) = true then [] else b.output number env active) ∧
      Restored s (process number env b.lines s).2
  | .last body, s, active, hskip, hremove => by
      obtain ⟨hout, hrestored, _⟩ := Template.process_lines body hskip
      rw [Branches.lines, Branches.output]
      refine ⟨?_, hrestored⟩
      rw [hout, hremove]
      cases s.stack (s.sp - 1) <;> cases active <;> rfl
  | .more body turn others, s, active, hskip, hremove => by
      obtain ⟨hout, hrestored, hflag⟩ := Template.process_lines body hskip
      rw [Branches.lines, process_append, process_cons]
      generalize process number env body.lines s = run at hout hrestored hflag ⊢
      obtain ⟨out, s₁⟩ := run
      dsimp only at hout hrestored hflag ⊢
      have houter : s₁.stack (s₁.sp - 1) = s.stack (s.sp - 1) := by
        rw [hrestored.sp]
        exact hrestored.stack _ (sub_one_lt _)
      rw [record_else number env hrestored.skip turn, houter, hflag]
      set turned : State := { s₁ with remove := s.stack (s.sp - 1) || !s.remove } with hturned
      have hturnedRestored : Restored s turned := ⟨hrestored.sp, hrestored.skip, hrestored.stack⟩
      have hnext : turned.remove = (turned.stack (turned.sp - 1) || !!active) := by
        change (s.stack (s.sp - 1) || !s.remove) = (s₁.stack (s₁.sp - 1) || !!active)
        rw [houter, hremove]
        cases s.stack (s.sp - 1) <;> cases active <;> rfl
      obtain ⟨hothers, hothersRestored⟩ := Branches.process_lines others hturnedRestored.skip hnext
      refine ⟨?_, hturnedRestored.trans hothersRestored⟩
      change turned.stack (turned.sp - 1) = s.stack (s.sp - 1) at houter
      rw [hothers, houter, hout, hremove, List.nil_append, Branches.output]
      cases s.stack (s.sp - 1) <;> cases active <;> rfl

end

/-- The script prints a text as it is meant; at the end the stack is empty again and no condition is
left over. -/
theorem process_template (t : Template) :
    (process number env t.lines .init).1 = t.output number env ∧
      (process number env t.lines .init).2.sp = 0 ∧
        (process number env t.lines .init).2.remove = false := by
  obtain ⟨hout, hrestored, hremove⟩ := t.process_lines number env (s := .init) rfl
  exact ⟨hout, hrestored.sp, hremove⟩

end Output

/-! ## Which texts are meant so -/

/-- How many blocks are open behind the lines, from `n` on.  There is no answer if a directive
stands outside of a block, or if an `@if` line may become another one. -/
def level : Nat → List Str → Option Nat
  | n, [] => some n
  | n, line :: lines =>
      if opens (str "@if") line then
        if (line.drop 3).head? = some atSign then none else level (n + 1) lines
      else if opens (str "@else") line then
        if n = 0 then none else level n lines
      else if opens (str "@endif") line then
        if n = 0 then none else level (n - 1) lines
      else level n lines

section Level

variable {n : Nat} {lines : List Str}

theorem level_text (line : TextLine) : level n (line.1 :: lines) = level n lines := by
  rw [level]
  simp only [line.2.1, line.2.2.1, line.2.2.2, Bool.false_eq_true, if_false]

theorem level_if (test : IfLine) : level n (test.1 :: lines) = level (n + 1) lines := by
  rw [level, if_pos test.2.1, if_neg test.2.2]

theorem level_else (turn : ElseLine) : level (n + 1) (turn.1 :: lines) = level (n + 1) lines := by
  have hif : opens (str "@if") turn.1 = false :=
    opens_eq_false (prefix_of_opens turn.2) 2 (by decide) (by decide) (by decide)
  rw [level, hif, if_neg Bool.false_ne_true, if_pos turn.2, if_neg (Nat.succ_ne_zero n)]

theorem level_endif (close : EndifLine) : level (n + 1) (close.1 :: lines) = level n lines := by
  have hprefix := prefix_of_opens close.2
  have hif : opens (str "@if") close.1 = false :=
    opens_eq_false hprefix 2 (by decide) (by decide) (by decide)
  have helse : opens (str "@else") close.1 = false :=
    opens_eq_false hprefix 3 (by decide) (by decide) (by decide)
  rw [level, hif, helse, if_neg Bool.false_ne_true, if_neg Bool.false_ne_true, if_pos close.2,
    if_neg (Nat.succ_ne_zero n), Nat.add_sub_cancel]

/-- A line with something behind it is of one of the four kinds. -/
theorem level_cases {line : Str} {m : Nat} (h : level n (line :: lines) = some m) :
    (∃ text : TextLine, line = text.1 ∧ level n lines = some m) ∨
      (∃ test : IfLine, line = test.1 ∧ level (n + 1) lines = some m) ∨
      (∃ turn : ElseLine, line = turn.1 ∧ n ≠ 0 ∧ level n lines = some m) ∨
      ∃ close : EndifLine, ∃ k, line = close.1 ∧ n = k + 1 ∧ level k lines = some m := by
  rw [level] at h
  split at h
  · rename_i hif
    split at h
    · cases h
    · rename_i hat
      exact .inr (.inl ⟨⟨line, hif, hat⟩, rfl, h⟩)
  · rename_i hif
    split at h
    · rename_i helse
      split at h
      · cases h
      · rename_i hn
        exact .inr (.inr (.inl ⟨⟨line, helse⟩, rfl, hn, h⟩))
    · rename_i helse
      split at h
      · rename_i hendif
        cases n with
        | zero => cases h
        | succ k =>
            rw [if_neg (Nat.succ_ne_zero k), Nat.add_sub_cancel] at h
            exact .inr (.inr (.inr ⟨⟨line, hendif⟩, k, rfl, rfl, h⟩))
      · rename_i hendif
        refine .inl ⟨⟨line, ?_, ?_, ?_⟩, rfl, h⟩
        · exact Bool.eq_false_iff.2 hif
        · exact Bool.eq_false_iff.2 helse
        · exact Bool.eq_false_iff.2 hendif

end Level

mutual

theorem Template.level_lines : ∀ (t : Template) (n : Nat) (rest : List Str),
    level n (t.lines ++ rest) = level n rest
  | .done, n, rest => rfl
  | .text line t, n, rest => by
      rw [Template.lines, List.cons_append, level_text]
      exact Template.level_lines t n rest
  | .block test branches close t, n, rest => by
      rw [Template.lines, List.cons_append, level_if, List.append_assoc,
        Branches.level_lines branches n, List.cons_append, level_endif]
      exact Template.level_lines t n rest

theorem Branches.level_lines : ∀ (b : Branches) (n : Nat) (rest : List Str),
    level (n + 1) (b.lines ++ rest) = level (n + 1) rest
  | .last body, n, rest => Template.level_lines body (n + 1) rest
  | .more body turn others, n, rest => by
      rw [Branches.lines, List.append_assoc, Template.level_lines body, List.cons_append,
        level_else]
      exact Branches.level_lines others n rest

end

/-- Something is put in front of the first branch. -/
def Branches.prepend (front : Template → Template) : Branches → Branches
  | .last body => .last (front body)
  | .more body turn others => .more (front body) turn others

theorem Branches.lines_prepend {front : Template → Template} (lines : List Str)
    (h : ∀ t, (front t).lines = lines ++ t.lines) (b : Branches) :
    (b.prepend front).lines = lines ++ b.lines := by
  cases b with
  | last body => exact h body
  | more body turn others =>
      rw [Branches.prepend, Branches.lines, h, List.append_assoc]
      rfl

/-- An open block is closed. -/
theorem exists_branches (lines : List Str) : ∀ n, level (n + 1) lines = some 0 →
    ∃ (b : Branches) (close : EndifLine) (rest : List Str),
      lines = b.lines ++ close.1 :: rest ∧ level n rest = some 0 := by
  induction hlen : lines.length using Nat.strong_induction_on generalizing lines with
  | _ len ih =>
      intro n h
      cases lines with
      | nil => cases h
      | cons line lines =>
          have hshorter : lines.length < len := hlen ▸ Nat.lt_succ_self _
          rcases level_cases h with ⟨text, rfl, htail⟩ | ⟨test, rfl, htail⟩ |
            ⟨turn, rfl, _, htail⟩ | ⟨close, k, rfl, hk, htail⟩
          · obtain ⟨b, close, rest, rfl, hrest⟩ := ih _ hshorter lines rfl n htail
            refine ⟨b.prepend (.text text), close, rest, ?_, hrest⟩
            rw [Branches.lines_prepend [text.1] fun _ => rfl]
            rfl
          · -- the block that is opened here is closed first
            obtain ⟨b, close, rest, rfl, hrest⟩ := ih _ hshorter lines rfl (n + 1) htail
            have hshort : rest.length < len := by
              rw [List.length_append, List.length_cons] at hshorter
              omega
            obtain ⟨b', close', rest', rfl, hrest'⟩ := ih _ hshort rest rfl n hrest
            refine ⟨b'.prepend (.block test b close), close', rest', ?_, hrest'⟩
            rw [Branches.lines_prepend (test.1 :: (b.lines ++ [close.1]))]
            · simp only [List.cons_append, List.append_assoc, List.nil_append]
            · intro t
              simp only [Template.lines, List.cons_append, List.append_assoc, List.nil_append]
          · obtain ⟨b, close, rest, rfl, hrest⟩ := ih _ hshorter lines rfl n htail
            exact ⟨.more .done turn b, close, rest, rfl, hrest⟩
          · obtain rfl : n = k := Nat.succ.inj hk
            exact ⟨.last .done, close, lines, rfl, htail⟩

/-- The trees are the texts in which each directive has its place. -/
theorem balanced_iff (lines : List Str) :
    (∃ t : Template, t.lines = lines) ↔ level 0 lines = some 0 := by
  constructor
  · rintro ⟨t, rfl⟩
    have h := t.level_lines 0 []
    rwa [List.append_nil] at h
  · intro h
    induction hlen : lines.length using Nat.strong_induction_on generalizing lines with
    | _ len ih =>
        cases lines with
        | nil => exact ⟨.done, rfl⟩
        | cons line lines =>
            have hshorter : lines.length < len := hlen ▸ Nat.lt_succ_self _
            rcases level_cases h with ⟨text, rfl, htail⟩ | ⟨test, rfl, htail⟩ | ⟨_, _, hn, _⟩ |
              ⟨_, _, _, hk, _⟩
            · obtain ⟨t, rfl⟩ := ih _ hshorter lines htail rfl
              exact ⟨.text text t, rfl⟩
            · obtain ⟨b, close, rest, rfl, hrest⟩ := exists_branches lines 0 htail
              have hshort : rest.length < len := by
                rw [List.length_append, List.length_cons] at hshorter
                omega
              obtain ⟨t, rfl⟩ := ih _ hshort rest hrest rfl
              exact ⟨.block test b close t, rfl⟩
            · exact (hn rfl).elim
            · exact absurd hk (Nat.succ_ne_zero _).symm

end Build
end Kdump

import Mathlib.Order.WithBot
import Kdump.Lib.Loop
import Kdump.Lib.Scan

/-!
# LineScan — going through a text line by line with searches from a position on

A position in a text is a number, or `npos`, which is larger than all of them.  A loop that looks
for the end of the line, does something with the line, and then looks for the beginning of the next
one, goes through the lines of the text.

* `Position`, `find`, `substr` — searches from a position on, and parts of a text;
* `lineScan` — the loop;
* `lines` — the lines of a text that are not empty;
* `eval_lineScan` — what the loop does is a fold over the lines;
* `IsRun` — a maximal run of elements that are no breaks;
* `visits` — from where to where the passes look, and `visits_runs`;
* `field` — a line in two parts, and how the parts are found from a position on.
-/

namespace Lib

variable {α σ ε : Type*}

/-! ## Positions -/

/-- A position in a text; `⊤` is `npos`. -/
abbrev Position := WithTop Nat

/-- The first position from `pos` on at which `p` holds. -/
def find (p : α → Bool) (text : List α) : Position → Position
  | none => ⊤
  | some pos =>
      match (text.drop pos).findIdx? p with
      | none => ⊤
      | some i => ((pos + i : Nat) : Position)

/-- `count` elements from `pos` on, or all of them; there have to be `pos` elements. -/
def substr (text : List α) : (pos count : Position) → Option (List α)
  | none, _ => none
  | some pos, count =>
      if pos ≤ text.length then
        some (match count with
          | none => text.drop pos
          | some n => (text.drop pos).take n)
      else none

theorem find_top (p : α → Bool) (text : List α) : find p text ⊤ = ⊤ := rfl

theorem substr_top {text : List α} {pos : Nat} (h : pos ≤ text.length) :
    substr text (pos : Position) ⊤ = some (text.drop pos) :=
  if_pos h

theorem substr_coe {text : List α} {pos : Nat} (h : pos ≤ text.length) (count : Nat) :
    substr text (pos : Position) (count : Position) = some ((text.drop pos).take count) :=
  if_pos h

/-- What is in front of the position that is found. -/
theorem find_of_split {p : α → Bool} {text front : List α} {pos : Nat} {c : α} {rest : List α}
    (h : text.drop pos = front ++ c :: rest) (hfront : ∀ x ∈ front, p x = false)
    (hc : p c = true) : find p text pos = ((pos + front.length : Nat) : Position) := by
  have hidx : (text.drop pos).findIdx? p = some front.length := by
    rw [h, List.findIdx?_append, List.findIdx?_eq_none_iff.2 hfront, List.findIdx?_cons, hc]
    simp
  change (match (text.drop pos).findIdx? p with
    | none => (⊤ : Position)
    | some i => ((pos + i : Nat) : Position)) = _
  rw [hidx]

theorem find_of_none {p : α → Bool} {text : List α} {pos : Nat}
    (h : ∀ x ∈ text.drop pos, p x = false) : find p text pos = ⊤ := by
  have hidx : (text.drop pos).findIdx? p = none := List.findIdx?_eq_none_iff.2 h
  change (match (text.drop pos).findIdx? p with
    | none => (⊤ : Position)
    | some i => ((pos + i : Nat) : Position)) = _
  rw [hidx]

/-- Nothing is found in front of what does not have it. -/
theorem le_find {p : α → Bool} {text front behind : List α} {pos : Nat}
    (h : text.drop pos = front ++ behind)
    (hfront : ∀ c ∈ front, p c = false) :
    ((pos + front.length : Nat) : Position) ≤ find p text pos := by
  change _ ≤ match (text.drop pos).findIdx? p with
    | none => (⊤ : Position)
    | some i => ((pos + i : Nat) : Position)
  rw [h, List.findIdx?_append, List.findIdx?_eq_none_iff.2 hfront, Option.none_or]
  cases behind.findIdx? p with
  | none => exact le_top
  | some i =>
      change ((pos + front.length : Nat) : Position) ≤ ((pos + (i + front.length) : Nat) : Position)
      exact Nat.cast_le.2 (by omega)

/-! ## The loop -/

/-- The variables of the loop: where it is, and what has been collected. -/
abbrev Head (σ : Type*) := Position × σ

/-- One pass: `body` gets the position, and the position of the next break. -/
def lineStep (isBreak : α → Bool) (text : List α) (body : Nat → Position → σ → Except ε σ)
    (s : Head σ) : Step (Head σ) (Except ε σ) :=
  match s.1 with
  | none => .done (.ok s.2)
  | some pos =>
      if pos < text.length then
        let stop := find isBreak text pos
        match body pos stop s.2 with
        | .error e => .done (.error e)
        | .ok a => .next (find (fun c => !isBreak c) text stop, a)
      else
        .done (.ok s.2)

/-- The line at a position. -/
def lineAt (isBreak : α → Bool) (text : List α) (pos : Nat) : List α :=
  (text.drop pos).takeWhile fun c => !isBreak c

/-- What a pass finds: a line, breaks behind it, and the rest of the text. -/
structure Cut (isBreak : α → Bool) (text : List α) (pos : Nat) (line breaks rest : List α) :
    Prop where
  eq : text.drop pos = line ++ (breaks ++ rest)
  plain : ∀ c ∈ line, isBreak c = false
  broken : ∀ c ∈ breaks, isBreak c = true
  starts : Stops isBreak rest
  last : breaks = [] → rest = []

section

variable {isBreak : α → Bool} {text line breaks rest : List α} {pos : Nat}

theorem exists_cut (isBreak : α → Bool) (text : List α) (pos : Nat) :
    ∃ breaks rest, Cut isBreak text pos (lineAt isBreak text pos) breaks rest := by
  let behind := (text.drop pos).dropWhile fun c => !isBreak c
  refine ⟨behind.takeWhile isBreak, behind.dropWhile isBreak, ?_, ?_, ?_, ?_, ?_⟩
  · rw [List.takeWhile_append_dropWhile]
    exact List.takeWhile_append_dropWhile.symm
  · intro c hc
    simpa using List.mem_takeWhile_imp hc
  · intro c hc
    exact List.mem_takeWhile_imp hc
  · exact stops_dropWhile _ _
  · intro hnil
    have hstops : Stops (fun c => !isBreak c) behind := stops_dropWhile _ _
    cases hbehind : behind with
    | nil => rfl
    | cons c rest =>
        rw [hbehind, stops_cons] at hstops
        have hc : isBreak c = true := by simpa using hstops
        rw [hbehind, List.takeWhile_cons_of_pos hc] at hnil
        cases hnil

theorem Cut.length_eq (h : Cut isBreak text pos line breaks rest) (hpos : pos ≤ text.length) :
    pos + line.length + breaks.length + rest.length = text.length := by
  have hlength := congrArg List.length h.eq
  rw [List.length_drop, List.length_append, List.length_append] at hlength
  omega

/-- A pass gets on. -/
theorem Cut.length_pos (h : Cut isBreak text pos line breaks rest) (hpos : pos < text.length) :
    0 < line.length + breaks.length := by
  have hlength := h.length_eq hpos.le
  rcases Nat.eq_zero_or_pos breaks.length with hzero | hpos
  · have hrest := h.last (List.length_eq_zero_iff.1 hzero)
    rw [hrest, List.length_nil] at hlength
    omega
  · omega

/-- The position behind a line: that of the first break. -/
theorem Cut.find_break (h : Cut isBreak text pos line breaks rest) :
    find isBreak text pos =
      if breaks = [] then ⊤ else ((pos + line.length : Nat) : Position) := by
  cases hbreaks : breaks with
  | nil =>
      rw [if_pos rfl]
      refine find_of_none ?_
      rw [h.eq, hbreaks, h.last hbreaks, List.append_nil, List.append_nil]
      exact h.plain
  | cons c tail =>
      have hc := h.broken c (by rw [hbreaks]; exact List.mem_cons_self)
      have heq := h.eq
      rw [hbreaks, List.cons_append] at heq
      rw [if_neg (List.cons_ne_nil _ _)]
      exact find_of_split heq h.plain hc

/-- The position of the next line. -/
theorem Cut.find_next (h : Cut isBreak text pos line breaks rest) :
    find (fun c => !isBreak c) text (find isBreak text pos) =
      if rest = [] then ⊤ else ((pos + line.length + breaks.length : Nat) : Position) := by
  rw [h.find_break]
  by_cases hbreaks : breaks = []
  · rw [if_pos hbreaks, if_pos (h.last hbreaks), find_top]
  · have hdrop : text.drop (pos + line.length) = breaks ++ rest := by
      rw [← List.drop_drop, h.eq, List.drop_left]
    have hno : ∀ c ∈ breaks, (!isBreak c) = false := fun c hc => by simp [h.broken c hc]
    rw [if_neg hbreaks]
    cases hrest : rest with
    | nil =>
        rw [if_pos rfl]
        refine find_of_none ?_
        rw [hdrop, hrest, List.append_nil]
        exact hno
    | cons c tail =>
        have hstops := h.starts
        rw [hrest, stops_cons] at hstops
        rw [hrest] at hdrop
        rw [if_neg (List.cons_ne_nil _ _)]
        exact find_of_split hdrop hno (by simpa using hstops)

/-- The text from the next line on. -/
theorem Cut.drop_next (h : Cut isBreak text pos line breaks rest) :
    text.drop (pos + line.length + breaks.length) = rest := by
  rw [Nat.add_assoc, ← List.drop_drop, h.eq, ← List.append_assoc, ← List.length_append,
    List.drop_left]

end

/-- How much is left of a text. -/
def left (text : List α) : Position → Nat
  | none => 0
  | some pos => text.length - pos

theorem left_top (text : List α) : left text ⊤ = 0 := rfl

theorem left_coe (text : List α) (pos : Nat) : left text (pos : Position) = text.length - pos :=
  rfl

section

variable {isBreak : α → Bool} {text : List α} {body : Nat → Position → σ → Except ε σ}

theorem lineStep_some {pos : Nat} (hpos : pos < text.length) (a : σ) :
    lineStep isBreak text body ((pos : Position), a) =
      match body pos (find isBreak text pos) a with
      | .error e => .done (.error e)
      | .ok a => .next (find (fun c => !isBreak c) text (find isBreak text pos), a) :=
  if_pos hpos

/-- Behind the text the loop is left. -/
theorem lineStep_end {pos : Nat} (hpos : text.length ≤ pos) (a : σ) :
    lineStep isBreak text body ((pos : Position), a) = .done (.ok a) :=
  if_neg (Nat.not_lt.2 hpos)

theorem lineStep_lt {s s' : Head σ} (h : lineStep isBreak text body s = .next s') :
    left text s'.1 < left text s.1 := by
  rcases s with ⟨pos, a⟩
  induction pos using WithTop.recTopCoe with
  | top => cases h
  | coe pos =>
      change lineStep isBreak text body ((pos : Position), a) = .next s' at h
      change left text s'.1 < left text (pos : Position)
      rcases Nat.lt_or_ge pos text.length with hpos | hpos
      · rw [lineStep_some hpos] at h
        cases hbody : body pos (find isBreak text pos) a with
        | error e =>
            rw [hbody] at h
            cases h
        | ok a' =>
            rw [hbody] at h
            obtain ⟨breaks, rest, hcut⟩ := exists_cut isBreak text pos
            have hmore := hcut.length_pos hpos
            have hlength := hcut.length_eq hpos.le
            rw [hcut.find_next] at h
            cases h
            dsimp only
            split
            · rw [left_top, left_coe]
              exact Nat.sub_pos_of_lt hpos
            · rw [left_coe, left_coe]
              omega
      · rw [lineStep_end hpos] at h
        cases h

end

/-- The loop. -/
def lineScan (isBreak : α → Bool) (text : List α) (body : Nat → Position → σ → Except ε σ) :
    Loop (Head σ) (Except ε σ) where
  step := lineStep isBreak text body
  measure s := left text s.1
  decreases := lineStep_lt

/-! ## Lines -/

/-- The lines of a text that are not empty. -/
def lines (isBreak : α → Bool) (text : List α) : List (List α) :=
  (text.splitOnP isBreak).filter fun line => !line.isEmpty

section

variable {isBreak : α → Bool} {text line breaks rest : List α} {pos : Nat}

@[simp] theorem lines_nil : lines isBreak ([] : List α) = [] := rfl

theorem lines_cons_break {c : α} (hc : isBreak c = true) (text : List α) :
    lines isBreak (c :: text) = lines isBreak text := by
  rw [lines, List.splitOnP_cons_eq_if_modifyHead, if_pos hc]
  rfl

theorem lines_breaks (h : ∀ c ∈ breaks, isBreak c = true) (text : List α) :
    lines isBreak (breaks ++ text) = lines isBreak text := by
  induction breaks with
  | nil => rfl
  | cons c breaks ih =>
      rw [List.cons_append, lines_cons_break (h c List.mem_cons_self)]
      exact ih fun c hc => h c (List.mem_cons_of_mem _ hc)

/-- The line in front of a break. -/
theorem lines_append_break (hline : ∀ c ∈ line, isBreak c = false) {c : α}
    (hc : isBreak c = true) (text : List α) :
    lines isBreak (line ++ c :: text) =
      (if line = [] then [] else [line]) ++ lines isBreak text := by
  rw [lines, List.splitOnP_append_cons_of_forall_mem hline c hc, List.filter_cons]
  cases line with
  | nil => rfl
  | cons c line => rfl

/-- The last line. -/
theorem lines_single (hline : ∀ c ∈ line, isBreak c = false) :
    lines isBreak line = if line = [] then [] else [line] := by
  rw [lines, List.splitOnP_eq_singleton hline]
  cases line with
  | nil => rfl
  | cons c line => rfl

theorem Cut.lines_eq (h : Cut isBreak text pos line breaks rest) :
    lines isBreak (text.drop pos) = (if line = [] then [] else [line]) ++ lines isBreak rest := by
  rw [h.eq]
  cases hbreaks : breaks with
  | nil =>
      rw [h.last hbreaks, List.nil_append, List.append_nil, lines_nil, List.append_nil]
      exact lines_single h.plain
  | cons c tail =>
      have hall := h.broken
      rw [hbreaks] at hall
      have htail := lines_breaks (fun c hc => hall c (List.mem_cons_of_mem _ hc)) rest
      rw [List.cons_append, lines_append_break h.plain (hall c List.mem_cons_self), htail]

theorem Cut.length_next (h : Cut isBreak text pos line breaks rest) (hpos : pos ≤ text.length)
    (hrest : rest ≠ []) :
    pos + line.length < pos + line.length + breaks.length ∧
      pos + line.length + breaks.length < text.length := by
  have hlength := h.length_eq hpos
  have hrestpos := List.length_pos_iff.2 hrest
  have hbreaks : breaks ≠ [] := fun hnil => hrest (h.last hnil)
  have hbreakspos := List.length_pos_iff.2 hbreaks
  omega

end

/-! ## What the loop does -/

section

variable {isBreak : α → Bool} {text : List α} {body : Nat → Position → σ → Except ε σ}

/-- A pass, with the cut that it finds. -/
theorem lineStep_cut {pos : Nat} {line breaks rest : List α} {a a' : σ}
    (h : Cut isBreak text pos line breaks rest) (hpos : pos < text.length)
    (hbody : body pos (find isBreak text pos) a = .ok a') :
    lineStep isBreak text body ((pos : Position), a) =
      .next (if rest = [] then ⊤ else ((pos + line.length + breaks.length : Nat) : Position),
        a') := by
  rw [lineStep_some hpos, hbody, ← h.find_next]

theorem eval_top (a : σ) : (lineScan isBreak text body).eval (⊤, a) = .ok a :=
  Loop.eval_done _ rfl

/-- The induction for `eval_lineScan`, over what is left of the text. -/
theorem eval_lineScan_from {f : σ → List α → σ} (hempty : ∀ a, f a [] = a)
    (hbody : ∀ pos a, pos < text.length →
      (lineAt isBreak text pos = [] ∨ lineAt isBreak text pos ∈ lines isBreak text) →
        body pos (find isBreak text pos) a = .ok (f a (lineAt isBreak text pos)))
    {pos : Nat} (hpos : pos ≤ text.length)
    (hlines : ∀ line ∈ lines isBreak (text.drop pos), line ∈ lines isBreak text) (a : σ) :
    (lineScan isBreak text body).eval ((pos : Position), a) =
      .ok ((lines isBreak (text.drop pos)).foldl f a) := by
  induction hn : text.length - pos using Nat.strong_induction_on generalizing pos a with
  | _ n ih =>
      rcases Nat.eq_or_lt_of_le hpos with rfl | hlt
      · rw [Loop.eval_done _ (lineStep_end (Nat.le_refl _) a), List.drop_length]
        rfl
      · obtain ⟨breaks, rest, hcut⟩ := exists_cut isBreak text pos
        have hsplit := hcut.lines_eq
        generalize hline : lineAt isBreak text pos = line at hcut hsplit
        have hvisited : line = [] ∨ line ∈ lines isBreak text := by
          by_cases hnil : line = []
          · exact Or.inl hnil
          · refine Or.inr (hlines line ?_)
            rw [hsplit, if_neg hnil]
            exact List.mem_cons_self
        -- an empty line is none of the lines, and makes no difference to the state
        have hfold : ((if line = [] then [] else [line]) : List (List α)).foldl f a = f a line := by
          by_cases hnil : line = []
          · rw [if_pos hnil, hnil, hempty]
            rfl
          · rw [if_neg hnil]
            rfl
        have hdone := hbody pos a hlt (by rwa [hline])
        rw [hline] at hdone
        rw [Loop.eval_next _ (lineStep_cut hcut hlt hdone), hsplit, List.foldl_append, hfold]
        by_cases hrest : rest = []
        · rw [if_pos hrest, eval_top, hrest]
          rfl
        · rw [if_neg hrest]
          obtain ⟨hmore, hinside⟩ := hcut.length_next hpos hrest
          have hdrop := hcut.drop_next
          rw [ih _ (by omega) hinside.le ?_ _ rfl, hdrop]
          intro l hl
          rw [hdrop] at hl
          refine hlines l ?_
          rw [hsplit]
          exact List.mem_append_right _ hl

/-- If each pass only updates what has been collected by the line that it finds, and not by an empty
line, the loop gives what the lines make of it one after another. -/
theorem eval_lineScan {f : σ → List α → σ} (hempty : ∀ a, f a [] = a)
    (hbody : ∀ pos a, pos < text.length →
      (lineAt isBreak text pos = [] ∨ lineAt isBreak text pos ∈ lines isBreak text) →
        body pos (find isBreak text pos) a = .ok (f a (lineAt isBreak text pos)))
    (a : σ) :
    (lineScan isBreak text body).eval (((0 : Nat) : Position), a) =
      .ok ((lines isBreak text).foldl f a) :=
  eval_lineScan_from hempty hbody (Nat.zero_le _) (fun _ hline => hline) a

end

/-! ## Runs -/

/-- From `i` up to `j` there is no break, and the text goes on with breaks on both sides. -/
structure IsRun (isBreak : α → Bool) (text : List α) (i j : Nat) : Prop where
  lt : i < j
  le : j ≤ text.length
  plain : ∀ k, i ≤ k → k < j → ∀ c ∈ text[k]?, isBreak c = false
  left : ∀ k, k + 1 = i → ∀ c ∈ text[k]?, isBreak c = true
  right : ∀ c ∈ text[j]?, isBreak c = true

section

variable {isBreak : α → Bool} {text line breaks rest : List α} {pos k : Nat}

theorem Cut.plain_at (h : Cut isBreak text pos line breaks rest) (hk : pos ≤ k)
    (hlt : k < pos + line.length) : ∃ c, text[k]? = some c ∧ isBreak c = false := by
  have hline : k - pos < line.length := by omega
  refine ⟨_, ?_, h.plain _ (List.getElem_mem hline)⟩
  have hget : (text.drop pos)[k - pos]? = text[pos + (k - pos)]? := List.getElem?_drop
  rw [h.eq, List.getElem?_append_left hline, Nat.add_sub_cancel' hk] at hget
  rw [← hget, List.getElem?_eq_getElem hline]

theorem Cut.broken_at (h : Cut isBreak text pos line breaks rest) (hk : pos + line.length ≤ k)
    (hlt : k < pos + line.length + breaks.length) :
    ∃ c, text[k]? = some c ∧ isBreak c = true := by
  have hbreaks : k - (pos + line.length) < breaks.length := by omega
  refine ⟨_, ?_, h.broken _ (List.getElem_mem hbreaks)⟩
  have hdrop : text.drop (pos + line.length) = breaks ++ rest := by
    rw [← List.drop_drop, h.eq, List.drop_left]
  have hget : (text.drop (pos + line.length))[k - (pos + line.length)]? =
      text[pos + line.length + (k - (pos + line.length))]? := List.getElem?_drop
  rw [hdrop, List.getElem?_append_left hbreaks, Nat.add_sub_cancel' hk] at hget
  rw [← hget, List.getElem?_eq_getElem hbreaks]

/-- From a place behind a break on, the first run is the line that is found there, and the others
begin at the next position or later. -/
theorem Cut.isRun_iff (h : Cut isBreak text pos line breaks rest) (hpos : pos ≤ text.length)
    (hleft : ∀ k, k + 1 = pos → ∀ c ∈ text[k]?, isBreak c = true) {i j : Nat} (hi : pos ≤ i) :
    IsRun isBreak text i j ↔
      ((i, j) = (pos, pos + line.length) ∧ i < j) ∨
        (rest ≠ [] ∧ pos + line.length + breaks.length ≤ i ∧ IsRun isBreak text i j) := by
  have hlength := h.length_eq hpos
  constructor
  · intro hrun
    have hij := hrun.lt
    have hj := hrun.le
    rcases Nat.lt_or_ge i (pos + line.length) with hline | hline
    · left
      -- the run begins with the line, since in front of any other place of it there is no break
      have hstart : i = pos := by
        by_contra hne
        obtain ⟨c, hc, hplain⟩ := h.plain_at (k := i - 1) (by omega) (by omega)
        have hbreak := hrun.left (i - 1) (by omega) c hc
        rw [hplain] at hbreak
        cases hbreak
      have hend : j = pos + line.length := by
        rcases Nat.lt_trichotomy j (pos + line.length) with hlt | heq | hgt
        · obtain ⟨c, hc, hplain⟩ := h.plain_at (k := j) (by omega) hlt
          have hbreak := hrun.right c hc
          rw [hplain] at hbreak
          cases hbreak
        · exact heq
        · -- then a break would be a part of the run
          have hbreaks : breaks.length ≠ 0 := by
            intro hzero
            rw [h.last (List.length_eq_zero_iff.1 hzero), List.length_nil] at hlength
            omega
          obtain ⟨c, hc, hbreak⟩ := h.broken_at (k := pos + line.length) (Nat.le_refl _)
            (by omega)
          have hplain := hrun.plain _ hline.le hgt c hc
          rw [hbreak] at hplain
          cases hplain
      exact ⟨by rw [hstart, hend], hij⟩
    · -- behind the line, a run cannot begin before all breaks are over
      right
      have hnext : pos + line.length + breaks.length ≤ i := by
        by_contra hlt
        obtain ⟨c, hc, hbreak⟩ := h.broken_at hline (Nat.not_le.1 hlt)
        have hplain := hrun.plain i (Nat.le_refl _) hij c hc
        rw [hbreak] at hplain
        cases hplain
      refine ⟨?_, hnext, hrun⟩
      rintro rfl
      rw [List.length_nil] at hlength
      omega
  · rintro (⟨heq, hlt⟩ | ⟨_, _, hrun⟩)
    · cases heq
      refine ⟨hlt, by omega, ?_, hleft, ?_⟩
      · intro k hk hkj c hc
        obtain ⟨c', hc', hplain⟩ := h.plain_at hk hkj
        rw [hc'] at hc
        cases hc
        exact hplain
      · intro c hc
        by_cases hbreaks : breaks = []
        · -- the line is the end of the text
          rw [hbreaks, h.last hbreaks, List.length_nil] at hlength
          rw [List.getElem?_eq_none (by omega)] at hc
          cases hc
        · have hbreakspos := List.length_pos_iff.2 hbreaks
          obtain ⟨c', hc', hbreak⟩ := h.broken_at (k := pos + line.length) (Nat.le_refl _)
            (by omega)
          rw [hc'] at hc
          cases hc
          exact hbreak
    · exact hrun

/-- The next position is behind a break, too. -/
theorem Cut.left_next (h : Cut isBreak text pos line breaks rest) (hrest : rest ≠ [])
    (hk : k + 1 = pos + line.length + breaks.length) : ∀ c ∈ text[k]?, isBreak c = true := by
  have hbreaks : breaks ≠ [] := fun hnil => hrest (h.last hnil)
  have hbreakspos := List.length_pos_iff.2 hbreaks
  obtain ⟨c', hc', hbreak⟩ := h.broken_at (k := k) (by omega) (by omega)
  intro c hc
  rw [hc'] at hc
  cases hc
  exact hbreak

end

/-! ## Visits -/

/-- From where to where a pass looks. -/
def visit (isBreak : α → Bool) (text : List α) (s : Head σ) : Option (Nat × Nat) :=
  match s.1 with
  | none => none
  | some pos =>
      if pos < text.length then
        match find isBreak text pos with
        | none => some (pos, text.length)
        | some stop => some (pos, stop)
      else none

/-- From where to where the passes look, one after another. -/
def visits (isBreak : α → Bool) (text : List α) (body : Nat → Position → σ → Except ε σ)
    (s : Head σ) : List (Nat × Nat) :=
  ((lineScan isBreak text body).heads s).filterMap (visit isBreak text)

/-- Every run is visited, in the order of the text, and nothing else than runs and empty places. -/
structure VisitsRuns (isBreak : α → Bool) (text : List α) (visited : List (Nat × Nat)) :
    Prop where
  ordered : visited.Pairwise fun v v' => v.2 < v'.1
  forward : ∀ v ∈ visited, v.1 ≤ v.2
  runs : ∀ i j, IsRun isBreak text i j ↔ (i, j) ∈ visited ∧ i < j

section

variable {isBreak : α → Bool} {text : List α} {body : Nat → Position → σ → Except ε σ}

theorem visit_cut {pos : Nat} {line breaks rest : List α}
    (h : Cut isBreak text pos line breaks rest) (hpos : pos < text.length) (a : σ) :
    visit isBreak text ((pos : Position), a) = some (pos, pos + line.length) := by
  have hunfold : visit isBreak text ((pos : Position), a) =
      match find isBreak text pos with
      | none => some (pos, text.length)
      | some stop => some (pos, stop) := if_pos hpos
  have hlength := h.length_eq hpos.le
  rw [hunfold, h.find_break]
  by_cases hbreaks : breaks = []
  · rw [if_pos hbreaks]
    rw [hbreaks, h.last hbreaks, List.length_nil] at hlength
    exact congrArg (fun stop => some (pos, stop)) (by omega)
  · rw [if_neg hbreaks]
    rfl

theorem visits_end {pos : Nat} (hpos : text.length ≤ pos) (a : σ) :
    visits isBreak text body ((pos : Position), a) = [] := by
  have hvisit : visit isBreak text ((pos : Position), a) = none := if_neg (Nat.not_lt.2 hpos)
  rw [visits, Loop.heads_done (lineStep_end hpos a), List.filterMap_cons, hvisit]
  rfl

theorem visits_top (a : σ) : visits isBreak text body (⊤, a) = [] := by
  have hheads : (lineScan isBreak text body).heads (⊤, a) = [(⊤, a)] :=
    Loop.heads_done rfl
  rw [visits, hheads]
  rfl

theorem visits_cut {pos : Nat} {line breaks rest : List α} {a a' : σ}
    (h : Cut isBreak text pos line breaks rest) (hpos : pos < text.length)
    (hbody : body pos (find isBreak text pos) a = .ok a') :
    visits isBreak text body ((pos : Position), a) =
      (pos, pos + line.length) :: visits isBreak text body
        (if rest = [] then ⊤ else ((pos + line.length + breaks.length : Nat) : Position), a') := by
  rw [visits, Loop.heads_next (lineStep_cut h hpos hbody), List.filterMap_cons,
    visit_cut h hpos a]
  rfl

/-- The induction for `visits_runs`, from a place behind a break on. -/
theorem visits_from (hbody : ∀ pos a, pos < text.length →
      ∃ a', body pos (find isBreak text pos) a = .ok a')
    {pos : Nat} (hpos : pos ≤ text.length)
    (hleft : ∀ k, k + 1 = pos → ∀ c ∈ text[k]?, isBreak c = true) (a : σ) :
    (visits isBreak text body ((pos : Position), a)).Pairwise (fun v v' => v.2 < v'.1) ∧
      (∀ v ∈ visits isBreak text body ((pos : Position), a), pos ≤ v.1 ∧ v.1 ≤ v.2) ∧
      ∀ i j, pos ≤ i → (IsRun isBreak text i j ↔
        (i, j) ∈ visits isBreak text body ((pos : Position), a) ∧ i < j) := by
  -- the induction is on what is left; each pass leaves less of it, behind a break
  induction hn : text.length - pos using Nat.strong_induction_on generalizing pos a with
  | _ n ih =>
      rcases Nat.eq_or_lt_of_le hpos with rfl | hlt
      · rw [visits_end (Nat.le_refl _) a]
        refine ⟨List.Pairwise.nil, by simp, fun i j hi => ?_⟩
        constructor
        · intro hrun
          have hij := hrun.lt
          have hj := hrun.le
          omega
        · rintro ⟨hmem, _⟩
          cases hmem
      · obtain ⟨breaks, rest, hcut⟩ := exists_cut isBreak text pos
        generalize lineAt isBreak text pos = line at hcut
        obtain ⟨a', ha'⟩ := hbody pos a hlt
        rw [visits_cut hcut hlt ha']
        by_cases hrest : rest = []
        · rw [if_pos hrest, visits_top]
          refine ⟨List.pairwise_singleton _ _, by simp, fun i j hi => ?_⟩
          rw [hcut.isRun_iff hpos hleft hi]
          simp [hrest]
        · rw [if_neg hrest]
          obtain ⟨hmore, hinside⟩ := hcut.length_next hpos hrest
          obtain ⟨hordered, hforward, hruns⟩ := ih _ (by omega) hinside.le
            (fun k hk => hcut.left_next hrest hk) a' rfl
          refine ⟨List.pairwise_cons.2 ⟨?_, hordered⟩, ?_, fun i j hi => ?_⟩
          · intro v hv
            exact hmore.trans_le (hforward v hv).1
          · intro v hv
            rcases List.mem_cons.1 hv with rfl | hv
            · exact ⟨Nat.le_refl _, Nat.le_add_right _ _⟩
            · exact ⟨by have := (hforward v hv).1; omega, (hforward v hv).2⟩
          · -- a run is the line of this pass, or a later pass comes to it
            rw [hcut.isRun_iff hpos hleft hi, List.mem_cons, or_and_right]
            refine or_congr Iff.rfl ?_
            constructor
            · rintro ⟨_, hnext, hrun⟩
              exact (hruns i j hnext).1 hrun
            · rintro ⟨hmem, hij⟩
              have hnext := (hforward _ hmem).1
              exact ⟨hrest, hnext, (hruns i j hnext).2 ⟨hmem, hij⟩⟩

/-- A loop whose passes throw nothing visits every run. -/
theorem visits_runs (hbody : ∀ pos a, pos < text.length →
      ∃ a', body pos (find isBreak text pos) a = .ok a') (a : σ) :
    VisitsRuns isBreak text (visits isBreak text body (((0 : Nat) : Position), a)) := by
  have hleft : ∀ k, k + 1 = 0 → ∀ c ∈ text[k]?, isBreak c = true := fun k hk => by omega
  obtain ⟨hordered, hforward, hruns⟩ := visits_from hbody (Nat.zero_le _) hleft a
  exact ⟨hordered, fun v hv => (hforward v hv).2, fun i j => hruns i j (Nat.zero_le _)⟩

end

/-! ## Two parts of a line -/

/-- What stands in front of the first separator of a line, and what stands behind it. -/
def field [DecidableEq α] (sep : α) (line : List α) : Option (List α × List α) :=
  if sep ∈ line then
    some (line.takeWhile fun c => c ≠ sep, (line.dropWhile fun c => c ≠ sep).drop 1)
  else none

section

variable [DecidableEq α] {sep : α} {isBreak : α → Bool}
  {text line breaks rest key val : List α} {pos : Nat}

theorem field_of_notMem (h : sep ∉ line) : field sep line = none :=
  if_neg h

theorem field_of_mem (h : sep ∈ line) : ∃ key val,
    field sep line = some (key, val) ∧ line = key ++ sep :: val ∧ sep ∉ key := by
  obtain ⟨key, val, rfl, hkey⟩ := List.eq_append_cons_of_mem h
  refine ⟨key, val, ?_, rfl, hkey⟩
  have hall : ∀ c ∈ key, decide (c ≠ sep) = true := by
    rintro c hc
    exact decide_eq_true (by rintro rfl; exact hkey hc)
  have hstops : Stops (fun c => decide (c ≠ sep)) (sep :: val) := by simp
  rw [field, if_pos h, takeWhile_scan hall hstops, dropWhile_scan hall hstops]
  rfl

/-- Without a separator in the line, the separator that is found is not in front of the break. -/
theorem Cut.find_of_notMem (h : Cut isBreak text pos line breaks rest) (hsep : sep ∉ line) :
    ¬ find (fun c => c == sep) text pos < find isBreak text pos := by
  have hno : ∀ c ∈ line, (c == sep) = false := by
    intro c hc
    exact beq_eq_false_iff_ne.2 (by rintro rfl; exact hsep hc)
  have hle := le_find h.eq hno
  rw [h.find_break]
  by_cases hbreaks : breaks = []
  · have heq := h.eq
    rw [hbreaks, h.last hbreaks, List.append_nil, List.append_nil] at heq
    rw [if_pos hbreaks, find_of_none (by rwa [heq])]
    exact lt_irrefl _
  · rw [if_neg hbreaks]
    exact not_lt.2 hle

/-- The first separator of the line is found, and the two parts are what is taken from the text. -/
theorem Cut.find_of_mem (h : Cut isBreak text pos line breaks rest) (hpos : pos ≤ text.length)
    (hline : line = key ++ sep :: val) (hkey : sep ∉ key) :
    find (fun c => c == sep) text pos < find isBreak text pos ∧
      substr text pos (find (fun c => c == sep) text pos - pos) = some key ∧
      substr text (find (fun c => c == sep) text pos + 1)
        (find isBreak text pos - find (fun c => c == sep) text pos - 1) = some val := by
  have hno : ∀ c ∈ key, (c == sep) = false := by
    intro c hc
    exact beq_eq_false_iff_ne.2 (by rintro rfl; exact hkey hc)
  have hsplit : text.drop pos = key ++ sep :: (val ++ (breaks ++ rest)) := by
    rw [h.eq, hline, List.append_assoc, List.cons_append]
  have hsep : find (fun c => c == sep) text pos = ((pos + key.length : Nat) : Position) :=
    find_of_split hsplit hno (beq_self_eq_true sep)
  have hbehind : text.drop (pos + key.length + 1) = val ++ (breaks ++ rest) := by
    rw [Nat.add_assoc, ← List.drop_drop, hsplit, ← List.drop_drop, List.drop_left]
    rfl
  have hlength := h.length_eq hpos
  have hline' : line.length = key.length + (val.length + 1) := by
    rw [hline, List.length_append, List.length_cons]
  have hkeycount : ((pos + key.length : Nat) : Position) - (pos : Position) =
      (key.length : Position) :=
    congrArg WithTop.some (Nat.add_sub_cancel_left ..)
  have hstart : pos + key.length + 1 ≤ text.length := by omega
  rw [hsep, hkeycount, h.find_break]
  refine ⟨?_, ?_, ?_⟩
  · split
    · exact WithTop.coe_lt_top _
    · exact Nat.cast_lt.2 (by omega)
  · rw [substr_coe hpos, hsplit, List.take_left]
  · have hnext : ((pos + key.length : Nat) : Position) + 1 =
        ((pos + key.length + 1 : Nat) : Position) := rfl
    rw [hnext]
    -- without a break the line goes on to the end of the text, and so does the value
    by_cases hbreaks : breaks = []
    · have htop : (⊤ : Position) - ((pos + key.length : Nat) : Position) - 1 = ⊤ := rfl
      rw [if_pos hbreaks, htop, substr_top hstart, hbehind, hbreaks, h.last hbreaks,
        List.append_nil, List.append_nil]
    · have hcount : pos + line.length - (pos + key.length) - 1 = val.length := by omega
      have hcast : ((pos + line.length : Nat) : Position) - ((pos + key.length : Nat) : Position) -
          1 = ((pos + line.length - (pos + key.length) - 1 : Nat) : Position) := rfl
      rw [if_neg hbreaks, hcast, hcount, substr_coe hstart, hbehind, List.take_left]

end

end Lib

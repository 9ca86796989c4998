import Mathlib.Tactic

/-!
# Glob — the patterns of the shell

Patterns as they are matched against strings (not against paths), byte by byte, in the C locale and
without the extended operators.

* `Piece`, `parse` — patterns;
* `accepts` — what a pattern matches;
* `removePrefix`, `removeSuffix` — `${text#pattern}` and `${text%pattern}`;
* `removePrefix_append` — the rule for a prefix that is known;
* `IsPlain` — patterns that are removed as strings.
-/

namespace Lib
namespace Glob

/-- A string of the shell: bytes, in no particular encoding. -/
abbrev Text := List UInt8

def ascii (s : String) : Text :=
  s.toList.map Char.toUInt8

@[match_pattern] abbrev star : UInt8 := 42
@[match_pattern] abbrev question : UInt8 := 63
@[match_pattern] abbrev backslash : UInt8 := 92
@[match_pattern] abbrev lbracket : UInt8 := 91
@[match_pattern] abbrev rbracket : UInt8 := 93
@[match_pattern] abbrev bang : UInt8 := 33
@[match_pattern] abbrev caret : UInt8 := 94
@[match_pattern] abbrev minus : UInt8 := 45
@[match_pattern] abbrev dot : UInt8 := 46
@[match_pattern] abbrev colon : UInt8 := 58
@[match_pattern] abbrev equals : UInt8 := 61

/-! ## Patterns -/

/-- A part of a bracket expression. -/
inductive Item where
  | range (first last : UInt8)
  | named (name : Text)
  deriving DecidableEq, Repr

inductive Piece where
  | literal (c : UInt8)
  /-- `?` -/
  | one
  /-- `*` -/
  | many
  /-- A bracket expression. -/
  | bracket (negated : Bool) (items : List Item)
  deriving DecidableEq, Repr

section

variable (c : UInt8)

def isUpper : Bool := 65 ≤ c && c ≤ 90
def isLower : Bool := 97 ≤ c && c ≤ 122
def isDigit : Bool := 48 ≤ c && c ≤ 57
def isGraph : Bool := 33 ≤ c && c ≤ 126

def isAlpha : Bool := isUpper c || isLower c
def isAlnum : Bool := isAlpha c || isDigit c

/-- The bytes in a character class. -/
def inClass (name : Text) : Bool :=
  if name = ascii "upper" then isUpper c
  else if name = ascii "lower" then isLower c
  else if name = ascii "alpha" then isAlpha c
  else if name = ascii "digit" then isDigit c
  else if name = ascii "alnum" then isAlnum c
  else if name = ascii "xdigit" then isDigit c || (65 ≤ c && c ≤ 70) || (97 ≤ c && c ≤ 102)
  else if name = ascii "word" then isAlnum c || c = 95
  else if name = ascii "punct" then isGraph c && !isAlnum c
  else if name = ascii "graph" then isGraph c
  else if name = ascii "print" then isGraph c || c = 32
  else if name = ascii "space" then c = 32 || (9 ≤ c && c ≤ 13)
  else if name = ascii "blank" then c = 32 || c = 9
  else if name = ascii "cntrl" then c ≤ 31 || c = 127
  else if name = ascii "ascii" then c ≤ 127
  else false

def Item.accepts : Item → Bool
  | .range first last => first ≤ c && c ≤ last
  | .named name => inClass c name

end

/-! ## Reading a pattern -/

/-- The text in front of a delimiter and a closing bracket, and what is behind them. -/
def untilClose (delimiter : UInt8) : Text → Option (Text × Text)
  | c :: d :: rest =>
      if c = delimiter ∧ d = rbracket then some ([], rest)
      else (untilClose delimiter (d :: rest)).map fun (name, rest) => (c :: name, rest)
  | _ => none

/-- One byte between two delimiters in brackets; otherwise the bracket stands for itself. -/
def element (delimiter : UInt8) (rest : Text) : UInt8 × Text :=
  match untilClose delimiter rest with
  | some ([c], rest) => (c, rest)
  | _ => (lbracket, delimiter :: rest)

/-- One end of a range, or a byte that stands for itself. -/
def endpoint : Text → Option (UInt8 × Text)
  | [] => none
  | backslash :: d :: rest => some (d, rest)
  | lbracket :: dot :: rest => some (element dot rest)
  | lbracket :: equals :: rest => some (element equals rest)
  | c :: rest => some (c, rest)

/-- The next part of a bracket expression. -/
def item (text : Text) : Option (Item × Text) :=
  match text with
  | lbracket :: colon :: rest =>
      match untilClose colon rest with
      | some (name, rest) => some (.named name, rest)
      | none => some (.range lbracket lbracket, colon :: rest)
  | _ =>
      match endpoint text with
      | none => none
      | some (first, minus :: d :: rest) =>
          -- in front of the closing bracket a dash stands for itself
          if d = rbracket then some (.range first first, minus :: d :: rest)
          else (endpoint (d :: rest)).map fun (last, rest) => (.range first last, rest)
      | some (first, rest) => some (.range first first, rest)

/-- The parts of a bracket expression; a closing bracket at the beginning is one of them. -/
def items : Nat → Bool → Text → Option (List Item × Text)
  | 0, _, _ => none
  | _ + 1, false, rbracket :: rest => some ([], rest)
  | n + 1, _, text =>
      match item text with
      | none => none
      | some (part, rest) =>
          (items n false rest).map fun (parts, rest) => (part :: parts, rest)

/-- A bracket expression, behind the bracket that opens it. -/
def bracket (text : Text) : Option (Piece × Text) :=
  let negated := text.head? = some bang || text.head? = some caret
  let text := if negated = true then text.tail else text
  (items text.length true text).map fun (parts, rest) => (.bracket negated parts, rest)

/-- The first piece of a pattern.  A bracket that is not closed stands for itself, and so does a
backslash at the end. -/
def firstPiece (c : UInt8) (rest : Text) : Piece × Text :=
  if c = star then (.many, rest)
  else if c = question then (.one, rest)
  else if c = backslash then
    match rest with
    | [] => (.literal c, [])
    | d :: rest => (.literal d, rest)
  else if c = lbracket then (bracket rest).getD (.literal c, rest)
  else (.literal c, rest)

/-- A pattern of at most so many pieces. -/
def pieces : Nat → Text → List Piece
  | _, [] => []
  | 0, _ => []
  | n + 1, c :: rest => (firstPiece c rest).1 :: pieces n (firstPiece c rest).2

def parse (pattern : Text) : List Piece :=
  pieces pattern.length pattern

/-! ## Matching -/

/-- A piece that stands for one byte. -/
def Piece.acceptsByte : Piece → UInt8 → Bool
  | .literal c, d => d = c
  | .one, _ => true
  | .many, _ => false
  | .bracket negated items, d => negated != items.any (·.accepts d)

/-- The pieces match the whole text. -/
def accepts : List Piece → Text → Bool
  | [], text => text.isEmpty
  | .many :: pieces, text => text.tails.any (accepts pieces)
  | _ :: _, [] => false
  | piece :: pieces, c :: text => piece.acceptsByte c && accepts pieces text

/-- `${text#pattern}`: the shortest prefix that the pattern matches is removed. -/
def removePrefix (pattern text : Text) : Text :=
  match (List.range (text.length + 1)).find? fun k => accepts (parse pattern) (text.take k) with
  | some k => text.drop k
  | none => text

/-- `${text%pattern}`: the shortest suffix that the pattern matches is removed. -/
def removeSuffix (pattern text : Text) : Text :=
  match (List.range (text.length + 1)).find? fun k =>
      accepts (parse pattern) (text.drop (text.length - k)) with
  | some k => text.take (text.length - k)
  | none => text

/-! ## What is matched -/

theorem accepts_nil (text : Text) : accepts [] text = true ↔ text = [] := by
  rw [accepts, List.isEmpty_iff]

theorem accepts_literal (c : UInt8) (ps : List Piece) (text : Text) :
    accepts (.literal c :: ps) text = true ↔
      ∃ rest, text = c :: rest ∧ accepts ps rest = true := by
  cases text with
  | nil => simp [accepts]
  | cons d text => simp [accepts, Piece.acceptsByte, and_assoc]

theorem accepts_literals (literals : Text) (ps : List Piece) (text : Text) :
    accepts (literals.map .literal ++ ps) text = true ↔
      ∃ rest, text = literals ++ rest ∧ accepts ps rest = true := by
  induction literals generalizing text with
  | nil => simp
  | cons c literals ih =>
      rw [List.map_cons, List.cons_append, accepts_literal]
      constructor
      · rintro ⟨rest, rfl, h⟩
        obtain ⟨rest', rfl, h'⟩ := (ih rest).1 h
        exact ⟨rest', rfl, h'⟩
      · rintro ⟨rest, rfl, h⟩
        exact ⟨literals ++ rest, rfl, (ih _).2 ⟨rest, rfl, h⟩⟩

theorem accepts_many (ps : List Piece) (text : Text) :
    accepts (.many :: ps) text = true ↔
      ∃ front rest, text = front ++ rest ∧ accepts ps rest = true := by
  rw [accepts, List.any_eq_true]
  constructor
  · rintro ⟨rest, hrest, h⟩
    obtain ⟨front, hfront⟩ := (List.mem_tails _ _).1 hrest
    exact ⟨front, rest, hfront.symm, h⟩
  · rintro ⟨front, rest, rfl, h⟩
    exact ⟨rest, (List.mem_tails _ _).2 (List.suffix_append front rest), h⟩

/-! ## What is removed -/

variable {pattern head text : Text}

/-- The shortest prefix is known. -/
theorem removePrefix_append (h : accepts (parse pattern) head = true)
    (hshort : ∀ k < head.length, accepts (parse pattern) (head.take k) = false) (rest : Text) :
    removePrefix pattern (head ++ rest) = rest := by
  have hfind : (List.range ((head ++ rest).length + 1)).find?
      (fun k => accepts (parse pattern) ((head ++ rest).take k)) = some head.length := by
    rw [List.find?_range_eq_some]
    refine ⟨?_, ?_, ?_⟩
    · rwa [List.take_left]
    · rw [List.mem_range, List.length_append]
      omega
    · intro k hk
      rw [List.take_append_of_le_length hk.le, hshort k hk]
      rfl
  rw [removePrefix, hfind]
  exact List.drop_left

/-- There is no such prefix. -/
theorem removePrefix_eq_self (h : ∀ k, accepts (parse pattern) (text.take k) = false) :
    removePrefix pattern text = text := by
  have hfind : (List.range (text.length + 1)).find?
      (fun k => accepts (parse pattern) (text.take k)) = none := by
    rw [List.find?_eq_none]
    intro k _
    simp [h k]
  rw [removePrefix, hfind]

theorem removePrefix_byte {c : UInt8} (hparse : parse pattern = [.literal c]) (text : Text) :
    removePrefix pattern (c :: text) = text := by
  have haccepts : accepts (parse pattern) [c] = true := by
    rw [hparse, accepts_literal]
    exact ⟨[], rfl, rfl⟩
  refine removePrefix_append haccepts ?_ text
  intro k hk
  obtain rfl : k = 0 := by
    rw [List.length_singleton] at hk
    omega
  rw [hparse]
  rfl

theorem removeSuffix_byte {c : UInt8} (hparse : parse pattern = [.literal c]) (text : Text) :
    removeSuffix pattern (text ++ [c]) = text := by
  have hfind : (List.range ((text ++ [c]).length + 1)).find? (fun k =>
      accepts (parse pattern) ((text ++ [c]).drop ((text ++ [c]).length - k))) = some 1 := by
    rw [List.find?_range_eq_some, List.length_append, List.length_singleton]
    refine ⟨?_, ?_, ?_⟩
    · rw [Nat.add_sub_cancel, List.drop_left, hparse, accepts_literal]
      exact ⟨[], rfl, rfl⟩
    · rw [List.mem_range]
      omega
    · intro k hk
      obtain rfl : k = 0 := by omega
      rw [hparse, Nat.sub_zero, List.drop_eq_nil_of_le (by simp)]
      rfl
  rw [removeSuffix, hfind]
  simp

theorem removeSuffix_byte_of_ne {c : UInt8} (hparse : parse pattern = [.literal c])
    (h : text.getLast? ≠ some c) : removeSuffix pattern text = text := by
  have hfind : (List.range (text.length + 1)).find? (fun k =>
      accepts (parse pattern) (text.drop (text.length - k))) = none := by
    rw [List.find?_eq_none]
    intro k _ haccepts
    rw [hparse, accepts_literal] at haccepts
    obtain ⟨rest, hdrop, hrest⟩ := haccepts
    rw [(accepts_nil rest).1 hrest] at hdrop
    refine h ?_
    rw [← List.take_append_drop (text.length - k) text, hdrop, List.getLast?_concat]
  rw [removeSuffix, hfind]

/-! ## Plain patterns -/

/-- A pattern in which every byte stands for itself. -/
def IsPlain (pattern : Text) : Prop :=
  ∀ c ∈ pattern, c ≠ star ∧ c ≠ question ∧ c ≠ backslash ∧ c ≠ lbracket

theorem parse_plain (h : IsPlain pattern) : parse pattern = pattern.map .literal := by
  unfold parse
  induction pattern with
  | nil => rfl
  | cons c pattern ih =>
      obtain ⟨⟨hstar, hquestion, hbackslash, hlbracket⟩, hrest⟩ := List.forall_mem_cons.1 h
      have hfirst : firstPiece c pattern = (.literal c, pattern) := by
        unfold firstPiece
        rw [if_neg hstar, if_neg hquestion, if_neg hbackslash, if_neg hlbracket]
      rw [List.length_cons, pieces, hfirst, ih hrest]
      rfl

theorem accepts_plain (h : IsPlain pattern) : accepts (parse pattern) text = true ↔
    text = pattern := by
  rw [parse_plain h, ← List.append_nil (pattern.map Piece.literal), accepts_literals]
  constructor
  · rintro ⟨rest, rfl, hrest⟩
    rw [(accepts_nil rest).1 hrest, List.append_nil]
  · rintro rfl
    exact ⟨[], (List.append_nil _).symm, rfl⟩

/-- A plain pattern is removed as a string. -/
theorem removePrefix_plain_append (h : IsPlain pattern) (rest : Text) :
    removePrefix pattern (pattern ++ rest) = rest := by
  refine removePrefix_append ((accepts_plain h).2 rfl) ?_ rest
  intro k hk
  rw [Bool.eq_false_iff]
  intro haccepts
  have hlength := congrArg List.length ((accepts_plain h).1 haccepts)
  rw [List.length_take] at hlength
  omega

theorem removePrefix_plain_of_not (h : IsPlain pattern) (hnot : ¬ pattern <+: text) :
    removePrefix pattern text = text := by
  refine removePrefix_eq_self fun k => ?_
  rw [Bool.eq_false_iff]
  intro haccepts
  exact hnot ((accepts_plain h).1 haccepts ▸ List.take_prefix k text)

/-- A plain pattern takes something away from what ends with it, and from nothing else. -/
theorem removeSuffix_plain_ne_iff (h : IsPlain pattern) (hne : pattern ≠ []) :
    removeSuffix pattern text ≠ text ↔ pattern <:+ text := by
  unfold removeSuffix
  cases hfind : (List.range (text.length + 1)).find? fun k =>
      accepts (parse pattern) (text.drop (text.length - k)) with
  | none =>
      rw [List.find?_eq_none] at hfind
      refine ⟨fun hself => absurd rfl hself, ?_⟩
      rintro ⟨front, rfl⟩
      refine absurd ?_ (hfind pattern.length (List.mem_range.2 (by rw [List.length_append]; omega)))
      rw [accepts_plain h, List.length_append, Nat.add_sub_cancel, List.drop_left]
  | some k =>
      have hdrop := (accepts_plain h).1 (List.find?_some
        (p := fun k => accepts (parse pattern) (text.drop (text.length - k))) hfind)
      have hpos := List.length_pos_of_ne_nil hne
      have hlength := congrArg List.length hdrop
      rw [List.length_drop] at hlength
      refine ⟨fun _ => hdrop ▸ List.drop_suffix _ text, fun _ htake => ?_⟩
      have htaken := congrArg List.length htake
      dsimp only at htaken
      rw [List.length_take] at htaken
      omega

end Glob
end Lib

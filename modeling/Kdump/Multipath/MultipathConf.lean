import Kdump.Global
import Kdump.Lib.CharStream
import Kdump.Lib.Loop

/-!
# MultipathConf — reading `multipath.conf`

The file is read line by line, and each line is taken apart into tokens, with the quirks of the
parser of multipath-tools.

* `tokenStep`, `tokenLoop` — the tokens of a line;
* `readline` — the next line, with the character that ends it;
* `MultipathConf.process` — every line goes to a handler, the last one without tokens.

The sign of `char` depends on the machine: `signed` says whether a byte from 128 on is negative.
-/

namespace Kdump
namespace Multipath

open Lib

abbrev hash : UInt8 := 35
abbrev bang : UInt8 := 33
abbrev lbrace : UInt8 := 123
abbrev rbrace : UInt8 := 125
abbrev cr : UInt8 := 13

/-! ## Tokens -/

/-- `isspace(c) || c < 0`. -/
def isBlank (signed : Bool) (c : UInt8) : Bool :=
  CharStream.isSpace c || (signed && 128 ≤ c)

/-- The local variables of the loop; `rest` is the text between `it` and the end of the line. -/
structure Tokenizing where
  rest : Str
  stringmode : Bool
  tokens : List Str
  deriving DecidableEq, Repr

/-- White space is skipped up to here. -/
def skipped (signed : Bool) (c : UInt8) : Bool :=
  c != 0 && isBlank signed c

/-- The character belongs to a token that has more than one. -/
def inToken (signed stringmode : Bool) (c : UInt8) : Bool :=
  c != 0 && c != dquote &&
    (stringmode || !(isBlank signed c || c == hash || c == bang || c == lbrace || c == rbrace))

/-- A round of the loop gets one token. -/
def tokenStep (signed : Bool) (s : Tokenizing) : Step Tokenizing (List Str) :=
  match s.rest.dropWhile (skipped signed) with
  | [] => .done s.tokens
  | c :: behind =>
      if c = 0 ∨ c = hash ∨ c = bang then
        .done s.tokens
      else if c = dquote then
        .next ⟨behind, !s.stringmode, s.tokens ++ [[c]]⟩
      else if s.stringmode = false ∧ (c = lbrace ∨ c = rbrace) then
        .next ⟨behind, s.stringmode, s.tokens ++ [[c]]⟩
      else
        .next ⟨(c :: behind).dropWhile (inToken signed s.stringmode), s.stringmode,
          s.tokens ++ [(c :: behind).takeWhile (inToken signed s.stringmode)]⟩

/-- A character in front of which the loop does not stop is in a token. -/
theorem inToken_of_reached {signed stringmode : Bool} {c : UInt8}
    (hblank : skipped signed c = false) (hend : ¬(c = 0 ∨ c = hash ∨ c = bang))
    (hquote : c ≠ dquote) (hgroup : ¬(stringmode = false ∧ (c = lbrace ∨ c = rbrace))) :
    inToken signed stringmode c = true := by
  simp only [not_or] at hend
  have hnot : isBlank signed c = false := by
    simpa [skipped, hend.1] using hblank
  unfold inToken
  cases stringmode with
  | true => simp [hend.1, hquote]
  | false =>
      have hbraces : c ≠ lbrace ∧ c ≠ rbrace := by
        simpa using hgroup
      simp [hend.1, hquote, hnot, hend.2, hbraces]

/-- Every round consumes at least one character. -/
theorem tokenStep_consumes {signed : Bool} {s s' : Tokenizing}
    (h : tokenStep signed s = .next s') : s'.rest.length < s.rest.length := by
  have hskip := (List.dropWhile_sublist (skipped signed) (l := s.rest)).length_le
  unfold tokenStep at h
  cases hrest : s.rest.dropWhile (skipped signed) with
  | nil =>
      rw [hrest] at h
      cases h
  | cons c behind =>
      rw [hrest] at h hskip
      rw [List.length_cons] at hskip
      dsimp only at h
      split at h
      · cases h
      rename_i hend
      split at h
      · cases h
        exact Nat.lt_of_succ_le hskip
      rename_i hquote
      split at h
      · cases h
        exact Nat.lt_of_succ_le hskip
      · rename_i hgroup
        cases h
        -- the token has at least the character in front of which the loop stands
        have hblank : skipped signed c = false := by
          have hhead := List.head?_dropWhile_not (skipped signed) s.rest
          rw [hrest] at hhead
          simpa using hhead
        have hin := inToken_of_reached hblank hend hquote hgroup
        have hdrop := (List.dropWhile_sublist (inToken signed s.stringmode) (l := behind)).length_le
        rw [List.dropWhile_cons_of_pos hin]
        exact Nat.lt_of_succ_le (Nat.le_trans (Nat.succ_le_succ hdrop) hskip)

def tokenLoop (signed : Bool) : Loop Tokenizing (List Str) where
  step := tokenStep signed
  measure s := s.rest.length
  decreases := tokenStep_consumes

/-- The tokens of a line. -/
def tokensOf (signed : Bool) (line : Str) : List Str :=
  (tokenLoop signed).eval ⟨line, false, []⟩

/-! ## Lines -/

/-- The characters that end a line. -/
def isEol (c : UInt8) : Bool :=
  c == newline || c == cr

/-- `MultipathConf::readline`: what it leaves in `m_line`, the input behind it, and its result. -/
def readline : Str → Str × Str × Bool
  | [] => ([], [], false)
  | c :: input =>
      if isEol c then ([c], input, true)
      else
        let (m_line, input, ok) := readline input
        (c :: m_line, input, ok)

/-- The line and what is behind it. -/
theorem readline_append (input : Str) : (readline input).1 ++ (readline input).2.1 = input := by
  induction input with
  | nil => rfl
  | cons c input ih =>
      rw [readline]
      split
      · rfl
      · exact congrArg (c :: ·) ih

theorem readline_line_ne_nil {input : Str} (h : (readline input).2.2 = true) :
    (readline input).1 ≠ [] := by
  cases input with
  | nil => cases h
  | cons c input =>
      rw [readline]
      split
      · exact List.cons_ne_nil _ _
      · exact List.cons_ne_nil _ _

/-! ## The parser -/

/-- What a handler does with a line and its tokens. -/
abbrev Handler (σ : Type) := σ → (raw : Str) → (tokens : List Str) → σ

/-- The loop over the lines, and what follows behind it. -/
def processLoop {σ : Type} (signed : Bool) (handler : Handler σ) : Loop (Str × σ) σ where
  step s :=
    let (m_line, input, ok) := readline s.1
    if ok then .next (input, handler s.2 m_line (tokensOf signed m_line))
    else .done (handler s.2 m_line [])
  measure s := s.1.length
  decreases := by
    intro s s' h
    have happend := readline_append s.1
    have hne := @readline_line_ne_nil s.1
    generalize readline s.1 = read at h happend hne
    obtain ⟨m_line, input, ok⟩ := read
    dsimp only at h happend hne
    split at h
    · rename_i hok
      cases h
      have hpos := List.length_pos_iff.2 (hne hok)
      rw [← happend, List.length_append]
      dsimp only
      omega
    · cases h

/-- `MultipathConf::process`. -/
def MultipathConf.process {σ : Type} (signed : Bool) (handler : Handler σ) (m_input : Str)
    (s : σ) : σ :=
  (processLoop signed handler).eval (m_input, s)

end Multipath
end Kdump

import Kdump.Lib.Loop
import Kdump.Lib.Scan
import Kdump.Lib.Wp

/-!
# CharStream — reading from an input stream

The operations of a C++ input stream over a text that is there as a whole, in the C locale.  Each of
them looks at the state of the stream first, and does nothing but fail if the stream is not good.

* `CharStream` — a place in a text, with the three bits of the state;
* `peek`, `getChar`, `unget`, `ignoreUntil`, `getLine` — unformatted input;
* `char`, `unsigned` — formatted input, behind blanks;
* the rules for a good stream, and for one at its end;
* `left` — what there is to be read, which no operation but `unget` makes more;
* `Repeat` — a loop around a program that keeps its variables beside the state.
-/

namespace Lib

variable {ε σ α β : Type}

/-- A text, cut at the place that has been reached (what is passed is kept in reverse). -/
structure CharStream where
  passed : List UInt8
  rest : List UInt8
  eofbit : Bool
  failbit : Bool
  badbit : Bool
  deriving DecidableEq

namespace CharStream

def good (s : CharStream) : Bool :=
  !s.eofbit && !s.failbit && !s.badbit

def fail (s : CharStream) : Bool :=
  s.failbit || s.badbit

/-- A good stream. -/
def between (passed rest : List UInt8) : CharStream :=
  ⟨passed, rest, false, false, false⟩

/-- A stream in which the next character has been looked for. -/
def looked (passed rest : List UInt8) : CharStream :=
  ⟨passed, rest, rest.isEmpty, false, false⟩

/-- Go over `n` characters. -/
def skip (n : Nat) (s : CharStream) : CharStream :=
  { s with passed := (s.rest.take n).reverse ++ s.passed, rest := s.rest.drop n }

/-- What every operation starts with. -/
def guarded (other : α) (op : CharStream → α × CharStream) : EStateM ε CharStream α := fun s =>
  if s.good then .ok (op s).1 (op s).2 else .ok other { s with failbit := true }

/-! ## Unformatted input -/

/-- `peek()`, with `none` for the end of the text. -/
def peek : EStateM ε CharStream (Option UInt8) :=
  guarded none fun s => (s.rest.head?, { s with eofbit := s.rest.isEmpty })

/-- `get()`, with `none` for the end of the text. -/
def getChar : EStateM ε CharStream (Option UInt8) :=
  guarded none fun s =>
    (s.rest.head?, { s.skip 1 with eofbit := s.rest.isEmpty, failbit := s.rest.isEmpty })

/-- One character back. -/
def back (s : CharStream) : CharStream :=
  match s.passed with
  | [] => { s with badbit := true }
  | c :: passed => { s with passed := passed, rest := c :: s.rest }

/-- `unget()` takes the mark of the end away before anything else. -/
def unget : EStateM ε CharStream Unit := fun s =>
  guarded () (fun s => ((), s.back)) { s with eofbit := false }

/-- Go behind the next `delim`, or to the end of the text. -/
def skipLine (delim : UInt8) (s : CharStream) : CharStream :=
  { s.skip ((s.rest.takeWhile (· ≠ delim)).length + 1) with eofbit := !s.rest.contains delim }

/-- `ignore()`, without a limit. -/
def ignoreUntil (delim : UInt8) : EStateM ε CharStream Unit :=
  guarded () fun s => ((), s.skipLine delim)

/-- `std::getline`; `none` if the string is not touched. -/
def getLine (delim : UInt8) : EStateM ε CharStream (Option (List UInt8)) :=
  guarded none fun s =>
    (some (s.rest.takeWhile (· ≠ delim)), { s.skipLine delim with failbit := s.rest.isEmpty })

/-! ## Formatted input -/

def isSpace (c : UInt8) : Bool :=
  c == 32 || (9 ≤ c && c ≤ 13)

def skipBlanks (s : CharStream) : CharStream :=
  s.skip (s.rest.takeWhile isSpace).length

/-- Formatted input fails at the end of the text, too. -/
def formatted (op : CharStream → Option α × CharStream) : EStateM ε CharStream (Option α) :=
  guarded none fun s =>
    if s.skipBlanks.rest = [] then (none, { s.skipBlanks with eofbit := true, failbit := true })
    else op s.skipBlanks

/-- `>>` of a `char`; `none` if the variable is not touched. -/
def char : EStateM ε CharStream (Option UInt8) :=
  formatted fun s => (s.rest.head?, s.skip 1)

/-- The value of a character as a digit, in any base up to 16. -/
def digit? (c : UInt8) : Option Nat :=
  if 48 ≤ c ∧ c ≤ 57 then some (c.toNat - 48)
  else if 97 ≤ c ∧ c ≤ 102 then some (c.toNat - 87)
  else if 65 ≤ c ∧ c ≤ 70 then some (c.toNat - 55)
  else none

def isDigit (base : Nat) (c : UInt8) : Bool :=
  (digit? c).any (· < base)

def digitsValue (base : Nat) (digits : List UInt8) : Nat :=
  digits.foldl (fun value c => base * value + (digit? c).getD 0) 0

/-- The length of a sign. -/
def signLength : List UInt8 → Nat
  | [] => 0
  | c :: _ => if c = 43 ∨ c = 45 then 1 else 0

/-- The length of the `0x` in front of a hexadecimal number. -/
def leadLength (base : Nat) : List UInt8 → Nat
  | c :: d :: _ => if base = 16 ∧ c = 48 ∧ (d = 120 ∨ d = 88) then 2 else 0
  | _ => 0

/-- What `num_get` makes of the characters in front of it. -/
def numGet (base bits : Nat) (s : CharStream) : Option (BitVec bits) × CharStream :=
  let sign := signLength s.rest
  let lead := sign + leadLength base (s.rest.drop sign)
  let digits := (s.rest.drop lead).takeWhile (isDigit base)
  let behind := s.skip (lead + digits.length)
  let behind := { behind with eofbit := behind.rest.isEmpty }
  let value := digitsValue base digits
  if digits = [] ∨ 2 ^ bits ≤ value then (none, { behind with failbit := true })
  else if s.rest.head? = some 45 then (some (-BitVec.ofNat bits value), behind)
  else (some (BitVec.ofNat bits value), behind)

/-- `>>` of an unsigned integer; `none` if the stream fails, which it does for a number that is too
large, too. -/
def unsigned (base bits : Nat) : EStateM ε CharStream (Option (BitVec bits)) :=
  formatted (numGet base bits)

/-! ## Good streams -/

section

variable {other : α} {op : CharStream → α × CharStream} {s : CharStream}
variable {c delim : UInt8} {passed rest text line : List UInt8}

theorem guarded_good (h : s.good = true) :
    guarded other op s = .ok (ε := ε) (op s).1 (op s).2 :=
  if_pos h

theorem guarded_not_good (h : s.good = false) :
    guarded other op s = .ok (ε := ε) other { s with failbit := true } :=
  if_neg (Bool.eq_false_iff.1 h)

@[simp] theorem skip_zero (s : CharStream) : s.skip 0 = s :=
  rfl

theorem skip_append (front rest : List UInt8) :
    (between passed (front ++ rest)).skip front.length =
      between (front.reverse ++ passed) rest := by
  simp [skip, between]

theorem peek_cons :
    peek (between passed (c :: rest)) = .ok (ε := ε) (some c) (between passed (c :: rest)) :=
  rfl

theorem getChar_cons :
    getChar (between passed (c :: rest)) = .ok (ε := ε) (some c) (between (c :: passed) rest) :=
  rfl

theorem unget_cons :
    unget (between (c :: passed) rest) = .ok (ε := ε) () (between passed (c :: rest)) :=
  rfl

theorem takeWhile_line (h : delim ∉ line) :
    (line ++ delim :: rest).takeWhile (· ≠ delim) = line := by
  have hall : ∀ c ∈ line, decide (c ≠ delim) = true :=
    fun _ hc => decide_eq_true fun heq => h (heq ▸ hc)
  exact takeWhile_scan hall (by simp)

theorem takeWhile_last (h : delim ∉ text) : text.takeWhile (· ≠ delim) = text :=
  List.takeWhile_eq_self_iff.2 fun _ hc => decide_eq_true fun heq => h (heq ▸ hc)

theorem skipLine_line (h : delim ∉ line) :
    (between passed (line ++ delim :: rest)).skipLine delim =
      between (delim :: (line.reverse ++ passed)) rest := by
  have hlength : ((line ++ delim :: rest).takeWhile (· ≠ delim)).length + 1 =
      (line ++ [delim]).length := by
    rw [takeWhile_line h, List.length_append, List.length_singleton]
  have hskip := @skip_append passed (line ++ [delim]) rest
  rw [List.append_assoc, List.singleton_append, List.reverse_append, List.reverse_singleton,
    List.append_assoc, List.singleton_append] at hskip
  have hcontains : (line ++ delim :: rest).contains delim = true := by simp
  unfold skipLine
  change { (between _ _).skip (((line ++ delim :: rest).takeWhile (· ≠ delim)).length + 1) with
    eofbit := !(line ++ delim :: rest).contains delim } = _
  rw [hlength, hskip, hcontains]
  rfl

theorem skipLine_last (h : delim ∉ text) :
    (between passed text).skipLine delim = looked (text.reverse ++ passed) [] := by
  have hcontains : text.contains delim = false := by simpa using h
  unfold skipLine skip
  change (⟨(text.take ((text.takeWhile (· ≠ delim)).length + 1)).reverse ++ passed,
    text.drop ((text.takeWhile (· ≠ delim)).length + 1), !text.contains delim, false, false⟩ :
      CharStream) = _
  rw [takeWhile_last h, hcontains, List.take_of_length_le (Nat.le_succ _),
    List.drop_of_length_le (Nat.le_succ _)]
  rfl

/-- A line is passed over. -/
theorem ignoreUntil_line (h : delim ∉ line) :
    ignoreUntil delim (between passed (line ++ delim :: rest)) =
      .ok (ε := ε) () (between (delim :: (line.reverse ++ passed)) rest) := by
  rw [← skipLine_line h]
  exact guarded_good rfl

theorem ignoreUntil_last (h : delim ∉ text) :
    ignoreUntil delim (between passed text) =
      .ok (ε := ε) () (looked (text.reverse ++ passed) []) := by
  rw [← skipLine_last h]
  exact guarded_good rfl

/-- A line is read. -/
theorem getLine_line (h : delim ∉ line) :
    getLine delim (between passed (line ++ delim :: rest)) =
      .ok (ε := ε) (some line) (between (delim :: (line.reverse ++ passed)) rest) := by
  refine (guarded_good rfl).trans ?_
  change EStateM.Result.ok (some ((line ++ delim :: rest).takeWhile (· ≠ delim)))
    { (between passed (line ++ delim :: rest)).skipLine delim with
      failbit := (line ++ delim :: rest).isEmpty } = _
  rw [takeWhile_line h, skipLine_line h]
  cases line <;> rfl

/-- The last line has no delimiter. -/
theorem getLine_last (h : delim ∉ text) (hne : text ≠ []) :
    getLine delim (between passed text) =
      .ok (ε := ε) (some text) (looked (text.reverse ++ passed) []) := by
  refine (guarded_good rfl).trans ?_
  change EStateM.Result.ok (some (text.takeWhile (· ≠ delim)))
    { (between passed text).skipLine delim with failbit := text.isEmpty } = _
  rw [takeWhile_last h, skipLine_last h, List.isEmpty_eq_false_iff.2 hne]
  rfl

/-- The state of a stream that has failed at the end of its text. -/
def ended (passed : List UInt8) : CharStream :=
  ⟨passed, [], true, true, false⟩

/-- At the end there is nothing to be done any more. -/
theorem guarded_looked_nil :
    guarded other op (looked passed []) = .ok (ε := ε) other (ended passed) :=
  guarded_not_good rfl

variable {op : CharStream → Option α × CharStream}

theorem skipBlanks_between (hblank : ∀ c ∈ text, isSpace c = true) (hstop : Stops isSpace rest) :
    (between passed (text ++ rest)).skipBlanks = between (text.reverse ++ passed) rest := by
  rw [← skip_append, skipBlanks]
  exact congrArg (fun n => skip n _) (congrArg List.length (takeWhile_scan hblank hstop))

/-- Formatted input without blanks in front of it. -/
theorem formatted_cons (hc : isSpace c = false) :
    formatted op (between passed (c :: rest)) =
      .ok (ε := ε) (op (between passed (c :: rest))).1 (op (between passed (c :: rest))).2 := by
  have hnone : ∀ d ∈ ([] : List UInt8), isSpace d = true := fun _ h => absurd h List.not_mem_nil
  have hskip : (between passed (c :: rest)).skipBlanks = between passed (c :: rest) :=
    skipBlanks_between hnone (stops_cons.2 hc)
  have hrest : (between passed (c :: rest)).rest ≠ [] := List.cons_ne_nil c rest
  refine (guarded_good rfl).trans ?_
  rw [hskip, if_neg hrest]

/-- There are only blanks left. -/
theorem formatted_nil (hblank : ∀ c ∈ text, isSpace c = true) :
    formatted op (between passed text) = .ok (ε := ε) none (ended (text.reverse ++ passed)) := by
  have hskip := @skipBlanks_between passed [] text hblank stops_nil
  rw [List.append_nil] at hskip
  refine (guarded_good rfl).trans ?_
  rw [hskip]
  rfl

/-- The same, when the end may have been seen already. -/
theorem formatted_looked (hblank : ∀ c ∈ text, isSpace c = true) :
    formatted op (looked passed text) = .ok (ε := ε) none (ended (text.reverse ++ passed)) := by
  cases text with
  | nil => exact guarded_looked_nil
  | cons c text => exact formatted_nil hblank

theorem formatted_ended : formatted op (ended passed) = .ok (ε := ε) none (ended passed) :=
  guarded_not_good rfl

theorem char_cons (hc : isSpace c = false) :
    char (between passed (c :: rest)) = .ok (ε := ε) (some c) (between (c :: passed) rest) :=
  formatted_cons hc

/-! ### Numbers -/

variable {base bits : Nat}

/-- Digits are neither blanks nor signs, nor the letter that stands in front of them. -/
theorem plain_of_isDigit (h : isDigit base c = true) :
    isSpace c = false ∧ (c ≠ 43 ∧ c ≠ 45) ∧ c ≠ 120 ∧ c ≠ 88 := by
  have hrange : 48 ≤ c ∧ c ≤ 57 ∨ 97 ≤ c ∧ c ≤ 102 ∨ 65 ≤ c ∧ c ≤ 70 := by
    unfold isDigit digit? at h
    split_ifs at h with h1 h2 h3
    · exact Or.inl h1
    · exact Or.inr (Or.inl h2)
    · exact Or.inr (Or.inr h3)
    · cases h
  simp only [isSpace, ne_eq, UInt8.le_iff_toNat_le, ← UInt8.toNat_inj, Bool.or_eq_false_iff,
    beq_eq_false_iff_ne, Bool.and_eq_false_iff, decide_eq_false_iff_not, UInt8.reduceToNat] at *
  omega

theorem unsigned_blanks (hblank : ∀ c ∈ text, isSpace c = true) :
    unsigned base bits (between passed text) = .ok (ε := ε) none (ended (text.reverse ++ passed)) :=
  formatted_nil hblank

theorem unsigned_ended :
    unsigned base bits (ended passed) = .ok (ε := ε) none (ended passed) :=
  formatted_ended

/-- What is no part of a number that has begun. -/
def numeralPart (base : Nat) (c : UInt8) : Bool :=
  isDigit base c || c == 120 || c == 88

theorem leadLength_digits {ds : List UInt8} (hds : ∀ c ∈ ds, isDigit base c = true) (hne : ds ≠ [])
    (hstop : Stops (numeralPart base) rest) : leadLength base (ds ++ rest) = 0 := by
  have hplain : ∀ d ∈ (ds ++ rest).tail.head?, ¬ (d = 120 ∨ d = 88) := by
    intro d hd
    cases ds with
    | nil => exact absurd rfl hne
    | cons c ds =>
        rw [List.cons_append, List.tail_cons] at hd
        cases ds with
        | nil =>
            have hpart := hstop d hd
            unfold numeralPart at hpart
            simp only [Bool.or_eq_false_iff, beq_eq_false_iff_ne] at hpart
            exact not_or.2 ⟨hpart.1.2, hpart.2⟩
        | cons d' ds =>
            rw [List.cons_append, List.head?_cons, Option.mem_some_iff] at hd
            subst hd
            have hdigit := plain_of_isDigit (hds d' (by simp))
            exact not_or.2 hdigit.2.2
  cases htext : ds ++ rest with
  | nil => rfl
  | cons c text =>
      rw [htext] at hplain
      cases text with
      | nil => rfl
      | cons d text => exact if_neg fun h => hplain d rfl h.2.2

/-- A number is read, up to a character that does not belong to it. -/
theorem unsigned_digits {ds : List UInt8} (hds : ∀ c ∈ ds, isDigit base c = true) (hne : ds ≠ [])
    (hstop : Stops (numeralPart base) rest) (hvalue : digitsValue base ds < 2 ^ bits) :
    unsigned base bits (between passed (ds ++ rest)) =
      .ok (ε := ε) (some (BitVec.ofNat bits (digitsValue base ds)))
        (looked (ds.reverse ++ passed) rest) := by
  have hstop' : Stops (isDigit base) rest := by
    intro c hc
    have hpart := hstop c hc
    unfold numeralPart at hpart
    simp only [Bool.or_eq_false_iff] at hpart
    exact hpart.1.1
  have htake : (ds ++ rest).takeWhile (isDigit base) = ds := takeWhile_scan hds hstop'
  have hlead := leadLength_digits hds hne hstop
  have hskip := @skip_append passed ds rest
  obtain ⟨c, ds', hcons⟩ := List.exists_cons_of_ne_nil hne
  obtain ⟨hspace, hsign, -⟩ := plain_of_isDigit (hds c (hcons ▸ List.mem_cons_self))
  have hsignLength : signLength (ds ++ rest) = 0 := by
    rw [hcons]
    exact if_neg (not_or.2 hsign)
  have hminus : ¬ (ds ++ rest).head? = some 45 := by
    rw [hcons]
    exact fun h => hsign.2 (Option.some.inj h)
  have hnumGet : numGet base bits (between passed (ds ++ rest)) =
      (some (BitVec.ofNat bits (digitsValue base ds)), looked (ds.reverse ++ passed) rest) := by
    have hrest : (between passed (ds ++ rest)).rest = ds ++ rest := rfl
    unfold numGet
    rw [hrest, hsignLength]
    dsimp only
    rw [List.drop_zero, hlead, Nat.zero_add, List.drop_zero, htake, Nat.zero_add, hskip]
    rw [if_neg (not_or.2 ⟨hne, Nat.not_le.2 hvalue⟩), if_neg hminus]
    rfl
  have hformatted :=
    @formatted_cons ε (BitVec bits) c passed (ds' ++ rest) (numGet base bits) hspace
  rwa [← List.cons_append, ← hcons, hnumGet] at hformatted

end

/-- The value of a program that reads from a stream. -/
def outcome : EStateM.Result ε CharStream α → Except ε α
  | .ok value _ => .ok value
  | .error e _ => .error e

/-! ## Progress -/

/-- How much there is to be read, and one more: nothing, if the stream has failed. -/
def left (s : CharStream) : Nat :=
  if s.fail then 0 else s.rest.length + 1

section

variable {n : Nat} {other : α} {op : CharStream → α × CharStream} {s : CharStream}
variable {Q : α → CharStream → Prop} {E : ε → CharStream → Prop}

theorem not_fail_of_good (h : s.good = true) : s.fail = false := by
  unfold good at h
  unfold fail
  simp only [Bool.and_eq_true, Bool.not_eq_true'] at h
  rw [h.1.2, h.2]
  rfl

theorem left_eq (h : s.fail = false) : s.left = s.rest.length + 1 :=
  if_neg (Bool.eq_false_iff.1 h)

theorem left_le (s : CharStream) : s.left ≤ s.rest.length + 1 := by
  unfold left
  split_ifs
  · exact Nat.zero_le _
  · exact Nat.le_refl _

theorem left_failed (s : CharStream) : left { s with failbit := true } = 0 :=
  if_pos (Bool.true_or _)

theorem length_skip_le (k : Nat) (s : CharStream) : (s.skip k).rest.length ≤ s.rest.length := by
  rw [skip, List.length_drop]
  exact Nat.sub_le _ _

theorem wp_guarded : wp (guarded other op) Q E s ↔
    if s.good then Q (op s).1 (op s).2 else Q other { s with failbit := true } := by
  unfold wp guarded
  cases s.good <;> rfl

/-- An operation that does not go back. -/
theorem keeps_guarded (hop : ∀ s, (op s).2.rest.length ≤ s.rest.length) :
    Keeps (guarded (ε := ε) other op) (fun s => s.left ≤ n) := by
  intro s hs
  rw [wp_guarded]
  split_ifs with hgood
  · calc (op s).2.left
      _ ≤ (op s).2.rest.length + 1 := left_le _
      _ ≤ s.rest.length + 1 := Nat.succ_le_succ (hop s)
      _ = s.left := (left_eq (not_fail_of_good hgood)).symm
      _ ≤ n := hs
  · rw [left_failed]
    exact Nat.zero_le _

/-- Behind this one, a good stream is not at its end. -/
theorem wp_peek (s : CharStream) :
    wp peek (fun _ s' => s'.left ≤ s.left ∧ (s'.good = true → s'.rest ≠ [])) E s := by
  unfold peek
  rw [wp_guarded]
  split_ifs with hgood
  · refine ⟨Nat.le_refl _, fun h hnil => ?_⟩
    have hrest : s.rest = [] := hnil
    unfold good at h
    rw [hrest] at h
    cases h
  · refine ⟨?_, fun h => ?_⟩
    · rw [left_failed]
      exact Nat.zero_le _
    · unfold good at h
      rw [Bool.not_true, Bool.and_false, Bool.false_and] at h
      cases h

theorem keeps_getChar : Keeps (ε := ε) getChar (fun s => s.left ≤ n) :=
  keeps_guarded fun s => length_skip_le 1 s

theorem wp_getChar (s : CharStream) :
    wp getChar (fun c s' => c.isSome = true → s'.left < s.left) E s := by
  unfold getChar
  rw [wp_guarded]
  split_ifs with hgood
  · intro hsome
    have hleft := left_eq (not_fail_of_good hgood)
    cases hrest : s.rest with
    | nil =>
        rw [hrest] at hsome
        cases hsome
    | cons c rest =>
        have hle := left_le { s.skip 1 with eofbit := false, failbit := false }
        have hlength : (s.skip 1).rest.length = s.rest.length - 1 := List.length_drop
        rw [hrest, List.length_cons] at hlength hleft
        dsimp only [List.isEmpty_cons] at hle ⊢
        omega
  · intro hsome
    cases hsome

theorem keeps_getLine (delim : UInt8) : Keeps (ε := ε) (getLine delim) (fun s => s.left ≤ n) :=
  keeps_guarded fun s => length_skip_le _ s

/-- This one goes back by a character. -/
theorem wp_unget (h : s.left ≤ n) :
    wp (ε := ε) unget (fun _ s' => s'.left ≤ n + 1) (fun _ s' => s'.left ≤ n + 1) s := by
  change wp (guarded () _) _ _ { s with eofbit := false }
  rw [wp_guarded]
  split_ifs with hgood
  · have hfail : s.fail = false := @not_fail_of_good { s with eofbit := false } hgood
    have hlength : s.rest.length + 1 ≤ n := (left_eq hfail).symm.trans_le h
    refine (left_le _).trans (Nat.succ_le_succ (le_trans ?_ hlength))
    unfold back
    cases s.passed with
    | nil => exact Nat.le_succ _
    | cons c passed => exact Nat.le_refl _
  · rw [left_failed]
    exact Nat.zero_le _

/-- On a stream that is not at its end. -/
theorem wp_ignoreUntil (delim : UInt8) (hgood : s.good = true → s.rest ≠ []) :
    wp (ignoreUntil delim) (fun _ s' => s'.left < s.left ∨ s'.left = 0) E s := by
  unfold ignoreUntil
  rw [wp_guarded]
  split_ifs with h
  · left
    have hpos := List.length_pos_iff.2 (hgood h)
    have hleft := left_eq (not_fail_of_good h)
    have hle := left_le (s.skipLine delim)
    have hlength : (s.skipLine delim).rest.length =
        s.rest.length - ((s.rest.takeWhile (· ≠ delim)).length + 1) := List.length_drop
    dsimp only
    omega
  · exact Or.inr (left_failed s)

section

variable {op : CharStream → Option α × CharStream}

theorem keeps_formatted (hop : ∀ s, (op s).2.rest.length ≤ s.rest.length) :
    Keeps (ε := ε) (formatted op) (fun s => s.left ≤ n) := by
  refine keeps_guarded fun s => ?_
  have hskip : s.skipBlanks.rest.length ≤ s.rest.length := length_skip_le _ s
  split_ifs
  · exact hskip
  · exact (hop _).trans hskip

/-- Formatted input that has come to a value has read something, if this is so behind blanks. -/
theorem wp_formatted
    (hop : ∀ s, (op s).1.isSome = true → (op s).2.rest.length < s.rest.length) (s : CharStream) :
    wp (formatted op) (fun v s' => v.isSome = true → s'.left < s.left) E s := by
  unfold formatted
  rw [wp_guarded]
  split_ifs with hgood hrest
  · intro h
    cases h
  · intro h
    calc (op s.skipBlanks).2.left
      _ ≤ (op s.skipBlanks).2.rest.length + 1 := left_le _
      _ < s.skipBlanks.rest.length + 1 := Nat.succ_lt_succ (hop _ h)
      _ ≤ s.rest.length + 1 := Nat.succ_le_succ (length_skip_le _ s)
      _ = s.left := (left_eq (not_fail_of_good hgood)).symm
  · intro h
    cases h

end

theorem keeps_char : Keeps (ε := ε) char (fun s => s.left ≤ n) :=
  keeps_formatted fun s => length_skip_le 1 s

theorem length_numGet_le (base bits : Nat) (s : CharStream) :
    (numGet base bits s).2.rest.length ≤ s.rest.length := by
  unfold numGet
  dsimp only
  split_ifs <;> exact length_skip_le _ s

theorem length_numGet_lt {base bits : Nat} {s : CharStream}
    (h : (numGet base bits s).1.isSome = true) :
    (numGet base bits s).2.rest.length < s.rest.length := by
  -- there are digits, and so there is something to go over
  have hskip : ∀ lead, (s.rest.drop lead).takeWhile (isDigit base) ≠ [] →
      (s.skip (lead + ((s.rest.drop lead).takeWhile (isDigit base)).length)).rest.length <
        s.rest.length := by
    intro lead hne
    have hpos := List.length_pos_iff.2 hne
    have hlength : 0 < s.rest.length := by
      refine List.length_pos_iff.2 fun hnil => hne ?_
      rw [hnil, List.drop_nil]
      rfl
    rw [skip, List.length_drop]
    omega
  unfold numGet at h ⊢
  dsimp only at h ⊢
  split_ifs at h ⊢ with hnone
  · cases h
  · exact hskip _ (not_or.1 hnone).1
  · exact hskip _ (not_or.1 hnone).1

theorem keeps_unsigned (base bits : Nat) :
    Keeps (ε := ε) (unsigned base bits) (fun s => s.left ≤ n) :=
  keeps_formatted (length_numGet_le base bits)

theorem wp_unsigned (base bits : Nat) (s : CharStream) :
    wp (unsigned base bits) (fun v s' => v.isSome = true → s'.left < s.left) E s :=
  wp_formatted (fun _ => length_numGet_lt) s

end

end CharStream

/-! ## Loops around programs -/

/-- A loop whose body is a program.  The body goes round again with new values of the variables, or
leaves with a result; what is left to be done falls with every pass. -/
structure Repeat (ε σ β ρ : Type) where
  pass : β → EStateM ε σ (Step β ρ)
  left : σ → Nat
  progress : ∀ v s, wp (pass v) (fun r s' => ∀ v', r = .next v' → left s' < left s)
    (fun _ _ => True) s

namespace Repeat

variable {ρ : Type} (R : Repeat ε σ β ρ) {v v' : β} {s s' : σ} {r : ρ} {e : ε}

def step (t : σ × β) : Step (σ × β) (EStateM.Result ε σ ρ) :=
  match R.pass t.2 t.1 with
  | .ok (.next v') s' => .next (s', v')
  | .ok (.done r) s' => .done (.ok r s')
  | .error e s' => .done (.error e s')

theorem step_next {t t' : σ × β} (h : R.step t = .next t') :
    R.pass t.2 t.1 = .ok (.next t'.2) t'.1 := by
  unfold step at h
  split at h
  · rename_i hpass
    injection h with h
    subst h
    exact hpass
  · cases h
  · cases h

def loop : Loop (σ × β) (EStateM.Result ε σ ρ) where
  step := R.step
  measure t := R.left t.1
  decreases h := wp_ok (R.progress _ _) (R.step_next h) _ rfl

/-- The program that the loop is. -/
def run (v : β) : EStateM ε σ ρ := fun s =>
  R.loop.eval (s, v)

theorem run_next (h : R.pass v s = .ok (.next v') s') : R.run v s = R.run v' s' := by
  have hstep : R.loop.step (s, v) = .next (s', v') := by
    change R.step (s, v) = _
    simp only [step, h]
  exact R.loop.eval_next hstep

theorem run_done (h : R.pass v s = .ok (.done r) s') : R.run v s = .ok r s' := by
  have hstep : R.loop.step (s, v) = .done (.ok r s') := by
    change R.step (s, v) = _
    simp only [step, h]
  exact R.loop.eval_done hstep

/-- What every pass keeps, the loop keeps. -/
theorem keeps_run {I : σ → Prop} (h : ∀ v, Keeps (R.pass v) I) (v : β) : Keeps (R.run v) I := by
  intro s hs
  rcases R.loop.exists_last (s, v) with ⟨t, hreach, hlast⟩
  have ht : I t.1 := by
    refine hreach.invariant (I := fun t => I t.1) hs fun t t' ht hnext => ?_
    exact wp_ok (h t.2 t.1 ht) (R.step_next hnext)
  -- the last pass
  have hrun : R.step t = .done (R.run v s) := hlast
  have hkeep := h t.2 t.1 ht
  rw [wp_endState] at hkeep ⊢
  unfold step at hrun
  cases hpass : R.pass t.2 t.1 with
  | ok r s' =>
      rw [hpass] at hrun hkeep
      cases r with
      | next v' => cases hrun
      | done r =>
          rw [← Step.done.inj hrun]
          exact hkeep
  | error e s' =>
      rw [hpass] at hrun hkeep
      rw [← Step.done.inj hrun]
      exact hkeep

end Repeat

end Lib

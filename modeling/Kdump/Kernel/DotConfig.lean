import Kdump.Kernel.LineReaders

/-!
# DotConfig — the lines of a `.config` file

* `fromStringTo` — `fromString` with the variable that it assigns the name to;
* `OptionName` and `DotValue` — what the kernel writes, and `line`, how it is written;
* `SilentLine` — a line that says nothing about an option;
* `fromString_line` — every line is read as it was meant.
-/

namespace Kdump
namespace Kernel

open Lib Config

namespace KconfigValue

/-- `KconfigValue::fromString`, whose second argument keeps its value unless a name is assigned. -/
def fromStringTo (line name : Str) : EStateM.Result Thrown Str KconfigValue :=
  let str := KString.trim [newline] line
  if str = [] then
    .ok .T_INVALID name
  else if str.head? = some 35 then
    if ¬ Kdump.str "is not set" <:+: str then
      .ok .T_INVALID name
    else if ¬ (str[1]? = some space ∧ (str[2]?.map Url.isalpha) = some true) then
      .error (invalidLine str) name
    else
      .ok (.T_TRISTATE .OFF) ((str.drop 2).takeWhile (· ≠ space))
  else
    match str.findIdx? (· == eqSign) with
    | none => .error (invalidLine str) name
    | some equalSign =>
        let name := str.take equalSign
        if str.length ≤ equalSign + 1 then
          .error (.KError (Kdump.str "There must be at least one character after =: '" ++ str ++
            Kdump.str "'.")) name
        else
          match ofValue (str.drop (equalSign + 1)) with
          | .ok ret => .ok ret name
          | .error e => .error e name

/-- With an empty string to begin with, this is `fromString`. -/
theorem fromString_eq (line : Str) :
    fromString line =
      match fromStringTo line [] with
      | .ok ret name => .ok (ret, name)
      | .error e _ => .error e := by
  unfold fromString fromStringTo
  dsimp only
  split_ifs
  · rfl
  · rfl
  · rfl
  · rfl
  · cases (KString.trim [newline] line).findIdx? (· == eqSign) with
    | none => rfl
    | some equalSign =>
        dsimp only
        split_ifs
        · rfl
        · cases ofValue ((KString.trim [newline] line).drop (equalSign + 1)) <;> rfl

end KconfigValue

open KconfigValue

/-! ## What is written -/

/-- `[A-Za-z0-9_]` -/
def isOptionChar (c : UInt8) : Bool :=
  Url.isalpha c || isDigit c || c == 95

/-- The name of an option: `[A-Za-z][A-Za-z0-9_]*`. -/
structure OptionName where
  first : UInt8
  rest : Str
  first_alpha : Url.isalpha first = true
  rest_chars : ∀ c ∈ rest, isOptionChar c = true

/-- The number that a sign and digits stand for. -/
def signedValue (negative : Bool) (digits : Str) : Int :=
  if negative then -(digitsValue digits : Int) else digitsValue digits

/-- The value of an option. -/
inductive DotValue where
  | tristate (t : Tristate)
  | integer (negative : Bool) (digits : Str) (ne_nil : digits ≠ [])
      (digits_decimal : ∀ c ∈ digits, isDigit c = true)
      (in_range : -2147483648 ≤ signedValue negative digits ∧
        signedValue negative digits ≤ 2147483647)
  | hex (digits : Str) (digits_hex : ∀ c ∈ digits, Url.isxdigit c = true)
  | string (s : Str) (no_newline : newline ∉ s)

namespace OptionName

def text (N : OptionName) : Str :=
  N.first :: N.rest

end OptionName

namespace DotValue

/-- What is behind the equals sign, if there is one. -/
def text : DotValue → Option Str
  | tristate .ON => some (str "y")
  | tristate .MODULE => some (str "m")
  | tristate .OFF => none
  | integer negative digits _ _ _ => some ((if negative then [45] else []) ++ digits)
  | hex digits _ => some (str "0x" ++ digits)
  | string s _ => some (dquote :: (s ++ [dquote]))

/-- A hexadecimal number stays as it is written. -/
def value : DotValue → KconfigValue
  | tristate t => .T_TRISTATE t
  | integer negative digits _ _ _ => .T_INTEGER (Int32.ofInt (signedValue negative digits))
  | hex digits _ => .T_STRING (str "0x" ++ digits)
  | string s _ => .T_STRING s

end DotValue

/-- A line of a `.config` file, without its newline. -/
def line (N : OptionName) (v : DotValue) : Str :=
  match v.text with
  | some text => N.text ++ eqSign :: text
  | none => str "# " ++ (N.text ++ str " is not set")

/-- An empty line, or a comment that does not say that an option is not set. -/
structure SilentLine where
  text : Str
  no_newline : newline ∉ text
  silent : text = [] ∨ text.head? = some 35 ∧ ¬ str "is not set" <:+: text

/-! ## Characters -/

theorem isOptionChar_of_isalpha {c : UInt8} (h : Url.isalpha c = true) : isOptionChar c = true := by
  rw [isOptionChar, h]
  rfl

namespace OptionName

variable (N : OptionName)

theorem chars : ∀ c ∈ N.text, isOptionChar c = true := by
  rw [text, List.forall_mem_cons]
  exact ⟨isOptionChar_of_isalpha N.first_alpha, N.rest_chars⟩

/-- A character that no name has. -/
theorem notMem {c : UInt8} (h : isOptionChar c = false) : c ∉ N.text := by
  intro hc
  rw [N.chars c hc] at h
  cases h

theorem first_ne {c : UInt8} (h : Url.isalpha c = false) : N.first ≠ c := by
  rintro rfl
  rw [N.first_alpha] at h
  cases h

end OptionName

theorem ne_of_isDigit {c d : UInt8} (hc : isDigit c = true) (hd : isDigit d = false) : c ≠ d := by
  rintro rfl
  rw [hc] at hd
  cases hd

theorem ne_of_isxdigit {c d : UInt8} (hc : Url.isxdigit c = true)
    (hd : Url.isxdigit d = false) : c ≠ d := by
  rintro rfl
  rw [hc] at hd
  cases hd

/-! ## Lines with their newlines -/

/-- A line with an equals sign behind the name. -/
theorem fromStringTo_assignment (N : OptionName) {text : Str} (hne : text ≠ [])
    (hnewline : newline ∉ text) {ret : KconfigValue} (hvalue : ofValue text = .ok ret) (n : Nat)
    (name : Str) :
    fromStringTo (N.text ++ eqSign :: text ++ List.replicate n newline) name =
      .ok ret N.text := by
  have htrim : newline ∉ N.text ++ eqSign :: text := by
    rw [List.mem_append, List.mem_cons]
    rintro (h | h | h)
    · exact N.notMem (by decide) h
    · exact absurd h (by decide)
    · exact hnewline h
  have hhead : (N.text ++ eqSign :: text).head? ≠ some 35 := by
    intro h
    exact N.first_ne (by decide) (Option.some.inj h)
  have hfind : (N.text ++ eqSign :: text).findIdx? (· == eqSign) = some N.text.length := by
    have hnone : N.text.findIdx? (· == eqSign) = none := by
      rw [List.findIdx?_eq_none_iff]
      intro c hc
      exact beq_eq_false_iff_ne.2 fun heq => N.notMem (c := eqSign) (by decide) (heq ▸ hc)
    rw [List.findIdx?_append, hnone, List.findIdx?_cons, if_pos (beq_self_eq_true eqSign)]
    exact congrArg some (Nat.zero_add _)
  have hlength : ¬ (N.text ++ eqSign :: text).length ≤ N.text.length + 1 := by
    have hpos := List.length_pos_iff.2 hne
    rw [List.length_append, List.length_cons]
    omega
  have hdrop : (N.text ++ eqSign :: text).drop (N.text.length + 1) = text := by
    rw [← List.drop_drop, List.drop_left]
    rfl
  rw [fromStringTo, Kconfig.trim_newlines htrim]
  dsimp only
  rw [if_neg (List.append_ne_nil_of_right_ne_nil _ (List.cons_ne_nil _ _)), if_neg hhead, hfind]
  dsimp only
  rw [if_neg hlength, hdrop, hvalue, List.take_left]

/-- A comment that says that an option is not set. -/
theorem fromStringTo_notSet (N : OptionName) (n : Nat) (name : Str) :
    fromStringTo (str "# " ++ (N.text ++ str " is not set") ++ List.replicate n newline) name =
      .ok (.T_TRISTATE .OFF) N.text := by
  have htrim : newline ∉ str "# " ++ (N.text ++ str " is not set") := by
    rw [List.mem_append, List.mem_append]
    rintro (h | h | h)
    · exact absurd h (by decide)
    · exact N.notMem (by decide) h
    · exact absurd h (by decide)
  have hspace : str " is not set" = space :: str "is not set" := by decide
  have hset : str "is not set" <:+: str "# " ++ (N.text ++ str " is not set") := by
    refine ⟨str "# " ++ (N.text ++ [space]), [], ?_⟩
    rw [hspace, List.append_nil, List.append_assoc, List.append_assoc]
    rfl
  have hname : ((str "# " ++ (N.text ++ str " is not set")).drop 2).takeWhile (· ≠ space) =
      N.text := by
    have hplain : ∀ c ∈ N.text, decide (c ≠ space) = true := by
      intro c hc
      exact decide_eq_true fun heq => N.notMem (c := space) (by decide) (heq ▸ hc)
    have hdrop : (str "# " ++ (N.text ++ str " is not set")).drop 2 =
        N.text ++ str " is not set" := List.drop_left' rfl
    have hstop : Stops (fun c => decide (c ≠ space)) (str " is not set") := by
      rw [hspace]
      exact stops_cons.2 (by decide)
    rw [hdrop, takeWhile_scan hplain hstop]
  have hletter : (str "# " ++ (N.text ++ str " is not set"))[1]? = some space ∧
      ((str "# " ++ (N.text ++ str " is not set"))[2]?.map Url.isalpha) = some true :=
    ⟨rfl, congrArg some N.first_alpha⟩
  rw [fromStringTo, Kconfig.trim_newlines htrim]
  dsimp only
  have hhead : (str "# " ++ (N.text ++ str " is not set")).head? = some 35 := rfl
  rw [if_neg (List.append_ne_nil_of_left_ne_nil (by decide) _), if_pos hhead,
    if_neg (not_not.2 hset), if_neg (not_not.2 hletter), hname]

/-! ## Values -/

theorem ofValue_of_isNumber {value : Str} {i : Int} (hnumber : KString.isNumber value = true)
    (hextract : KString.extract value = some i) :
    ofValue value = .ok (.T_INTEGER (clampInt i)) := by
  have hy : value ≠ str "y" := by
    rintro rfl
    exact absurd hnumber (by decide)
  have hm : value ≠ str "m" := by
    rintro rfl
    exact absurd hnumber (by decide)
  rw [ofValue, if_neg hy, if_neg hm, if_pos hnumber, KString.asInt, hextract]
  rfl

theorem ofValue_of_unquote {value s : Str} (hlength : 1 < value.length)
    (hnumber : KString.isNumber value = false) (hunquote : unquote value = .ok s) :
    ofValue value = .ok (.T_STRING s) := by
  have hy : value ≠ str "y" := by
    rintro rfl
    exact absurd hlength (by decide)
  have hm : value ≠ str "m" := by
    rintro rfl
    exact absurd hlength (by decide)
  rw [ofValue, if_neg hy, if_neg hm, hnumber, hunquote]
  rfl

theorem ofValue_integer {negative : Bool} {digits : Str} (hne : digits ≠ [])
    (hdigits : ∀ c ∈ digits, isDigit c = true)
    (hrange : -2147483648 ≤ signedValue negative digits ∧
      signedValue negative digits ≤ 2147483647) :
    ofValue ((if negative then [45] else []) ++ digits) =
      .ok (.T_INTEGER (Int32.ofInt (signedValue negative digits))) := by
  have hclamp : clampInt (signedValue negative digits) =
      Int32.ofInt (signedValue negative digits) := by
    rw [clampInt, if_neg (not_lt.2 hrange.1), if_neg (not_lt.2 hrange.2)]
  have hnumber : KString.isNumber ((if negative then [45] else []) ++ digits) = true := by
    cases negative with
    | true =>
        have hall : digits.all isDigit = true := List.all_eq_true.2 hdigits
        simp [KString.isNumber, hne, hall]
    | false =>
        obtain ⟨c, rest, rfl⟩ := List.exists_cons_of_ne_nil hne
        have hc := hdigits c List.mem_cons_self
        -- the first digit is not taken for a sign
        have hsign : ¬ (c = 45 ∨ c = 43) :=
          not_or.2 ⟨ne_of_isDigit hc (by decide), ne_of_isDigit hc (by decide)⟩
        have hall : (c :: rest).all isDigit = true := List.all_eq_true.2 hdigits
        simp only [KString.isNumber, Bool.false_eq_true, if_false, List.nil_append, if_neg hsign,
          hall, Bool.and_true]
        exact decide_eq_true (List.cons_ne_nil _ _)
  have hextract : KString.extract ((if negative then [45] else []) ++ digits) =
      some (signedValue negative digits) := by
    cases negative with
    | true =>
        have htake : digits.takeWhile isDigit = digits := List.takeWhile_eq_self_iff.2 hdigits
        have hdrop : ((45 : UInt8) :: digits).dropWhile isSpace = 45 :: digits :=
          List.dropWhile_cons_of_neg (by decide)
        simp only [if_true, List.singleton_append, KString.extract, hdrop, htake, signedValue]
    | false =>
        simp only [Bool.false_eq_true, if_false, List.nil_append, signedValue]
        exact KString.extract_digits hne hdigits
  rw [ofValue_of_isNumber hnumber hextract, hclamp]

theorem ofValue_hex {digits : Str} (hdigits : ∀ c ∈ digits, Url.isxdigit c = true) :
    ofValue (str "0x" ++ digits) = .ok (.T_STRING (str "0x" ++ digits)) := by
  have hzero : str "0x" ++ digits = 48 :: 120 :: digits := rfl
  have hnumber : KString.isNumber (str "0x" ++ digits) = false := by
    rw [hzero]
    simp [KString.isNumber, isDigit]
  have hlast : (str "0x" ++ digits).getLast? ≠ some dquote := by
    intro h
    rcases List.mem_append.1 (List.mem_of_getLast? h) with hmem | hmem
    · exact absurd hmem (by decide)
    · exact ne_of_isxdigit (hdigits _ hmem) (by decide) rfl
  have hunquote : unquote (str "0x" ++ digits) = .ok (str "0x" ++ digits) := by
    have hhead : (str "0x" ++ digits).head? ≠ some dquote := by
      intro h
      cases h
    unfold unquote
    rw [if_neg hhead]
    dsimp only
    cases hend : (str "0x" ++ digits).getLast? with
    | none => cases List.getLast?_eq_none_iff.1 hend
    | some c =>
        have hc : c ≠ dquote := fun heq => hlast (heq ▸ hend)
        simp only [if_neg hc]
  exact ofValue_of_unquote (Nat.lt_add_of_pos_left (Nat.succ_pos _)) hnumber hunquote

/-- Only the first and the last quote are taken away. -/
theorem ofValue_string (s : Str) :
    ofValue (dquote :: (s ++ [dquote])) = .ok (.T_STRING s) := by
  have hnumber : KString.isNumber (dquote :: (s ++ [dquote])) = false := by
    simp [KString.isNumber, isDigit]
  have hlength : 1 < (dquote :: (s ++ [dquote])).length := by
    simp
  have hunquote : unquote (dquote :: (s ++ [dquote])) = .ok s := by
    unfold unquote
    rw [if_pos List.head?_cons, List.drop_one, List.tail_cons]
    dsimp only
    rw [List.getLast?_concat]
    dsimp only
    rw [if_pos rfl, List.dropLast_concat]
  exact ofValue_of_unquote hlength hnumber hunquote

theorem ofValue_text {v : DotValue} {text : Str} (h : v.text = some text) :
    ofValue text = .ok v.value ∧ text ≠ [] ∧ newline ∉ text := by
  cases v with
  | tristate t =>
      cases t with
      | ON =>
          cases h
          exact ⟨rfl, by decide, by decide⟩
      | MODULE =>
          cases h
          exact ⟨rfl, by decide, by decide⟩
      | OFF => cases h
  | integer negative digits hne hdigits hrange =>
      cases h
      refine ⟨ofValue_integer hne hdigits hrange, List.append_ne_nil_of_right_ne_nil _ hne, ?_⟩
      rw [List.mem_append]
      rintro (h | h)
      · cases negative with
        | true => exact absurd h (by decide)
        | false => cases h
      · exact ne_of_isDigit (hdigits _ h) (by decide) rfl
  | hex digits hdigits =>
      cases h
      refine ⟨ofValue_hex hdigits, List.append_ne_nil_of_left_ne_nil (by decide) _, ?_⟩
      rw [List.mem_append]
      rintro (h | h)
      · exact absurd h (by decide)
      · exact ne_of_isxdigit (hdigits _ h) (by decide) rfl
  | string s hs =>
      cases h
      refine ⟨ofValue_string s, List.cons_ne_nil _ _, ?_⟩
      rw [List.mem_cons, List.mem_append]
      rintro (h | h | h)
      · exact absurd h (by decide)
      · exact hs h
      · exact absurd h (by decide)

/-! ## Every line -/

/-- A line that the kernel writes is read as the option and the value that it was written for, and
any other line leaves the name as it is. -/
theorem fromString_line (n : Nat) (name : Str) :
    (∀ (N : OptionName) (v : DotValue),
      fromStringTo (line N v ++ List.replicate n newline) name = .ok v.value N.text) ∧
    ∀ silent : SilentLine,
      fromStringTo (silent.text ++ List.replicate n newline) name = .ok .T_INVALID name := by
  constructor
  · intro N v
    unfold line
    cases htext : v.text with
    | none =>
        have hvalue : v.value = .T_TRISTATE .OFF := by
          cases v with
          | tristate t => cases t <;> first | rfl | cases htext
          | integer => cases htext
          | hex => cases htext
          | string => cases htext
        rw [hvalue]
        exact fromStringTo_notSet N n name
    | some text =>
        obtain ⟨hvalue, hne, hnewline⟩ := ofValue_text htext
        exact fromStringTo_assignment N hne hnewline hvalue n name
  · intro silent
    rw [fromStringTo, Kconfig.trim_newlines silent.no_newline]
    dsimp only
    rcases silent.silent with hnil | ⟨hcomment, hset⟩
    · rw [if_pos hnil]
    · have hne : silent.text ≠ [] := by
        intro hnil
        rw [hnil] at hcomment
        cases hcomment
      rw [if_neg hne, if_pos hcomment, if_pos hset]

end Kernel
end Kdump

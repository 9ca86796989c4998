import Kdump.Kernel.Kconfig
import Kdump.Lib.LineScan

/-!
# KconfigIndex — `KconfigValue::fromString` index by index

The function indexes the line, and what stands behind the equals sign, after each of them may have
been shortened.  Here every index is used as in the source, and has to lie within the string.

* `charAt`, `lastIndex`, `substring` — the accesses;
* `fromStringAt` — the function;
* `fromStringAt_eq` — what it gives is what `fromString` gives;
* `LoneQuote` — a line with one quote as its value;
* `fromString_inside_iff` — when no index lies outside.
-/

namespace Kdump
namespace Kernel

open Lib Config

/-! ## Accesses -/

/-- `s[i]`. -/
def charAt (s : Str) : Position → Except Thrown UInt8
  | none => .error .undefined
  | some i =>
      match s[i]? with
      | none => .error .undefined
      | some c => .ok c

/-- `s.size()-1`, which is `npos` for an empty string. -/
def lastIndex : Str → Position
  | [] => ⊤
  | _ :: s => (s.length : Position)

/-- `s.substr(pos, count)`. -/
def substring (s : Str) (pos count : Position) : Except Thrown Str :=
  match substr s pos count with
  | none => .error .outOfRange
  | some t => .ok t

theorem charAt_of_lt {s : Str} {i : Nat} (h : i < s.length) : charAt s i = .ok s[i] := by
  have hunfold : charAt s i = match s[i]? with
    | none => .error .undefined
    | some c => .ok c := rfl
  rw [hunfold, List.getElem?_eq_getElem h]

theorem charAt_lastIndex {s : Str} {c : UInt8} (h : s.getLast? = some c) :
    charAt s (lastIndex s) = .ok c := by
  cases s with
  | nil => cases h
  | cons a s =>
      have hlast : charAt (a :: s) (s.length : Position) = .ok (a :: s)[s.length] :=
        charAt_of_lt (Nat.lt_succ_self _)
      rw [List.getLast?_eq_getElem?, List.length_cons, Nat.add_sub_cancel,
        List.getElem?_eq_getElem (Nat.lt_succ_self _)] at h
      rw [lastIndex, hlast, Option.some.inj h]

theorem substring_top {s : Str} {pos : Nat} (h : pos ≤ s.length) :
    substring s pos ⊤ = .ok (s.drop pos) := by
  rw [substring, substr_top h]

theorem substring_coe {s : Str} {pos : Nat} (h : pos ≤ s.length) (count : Nat) :
    substring s pos count = .ok ((s.drop pos).take count) := by
  rw [substring, substr_coe h]

namespace KconfigValue

/-! ## The function -/

/-- `str[1] == ' ' && isalpha(str[2])`. -/
def beginsOption (str : Str) : Except Thrown Bool := do
  if (← charAt str ((1 : Nat) : Position)) = space then
    return Url.isalpha (← charAt str ((2 : Nat) : Position))
  else
    return false

/-- A quote at the end is dropped. -/
def unquoteEnd (value : Str) : Except Thrown Str := do
  if (← charAt value (lastIndex value)) = dquote then
    substring value ((0 : Nat) : Position) (lastIndex value)
  else
    return value

/-- A quote at the beginning is dropped, and then one at the end. -/
def unquoteAt (value : Str) : Except Thrown Str := do
  if (← charAt value ((0 : Nat) : Position)) = dquote then
    unquoteEnd (← substring value ((1 : Nat) : Position) ⊤)
  else
    unquoteEnd value

/-- `value.size() == 1 && value[0] == c`. -/
def isLetter (c : UInt8) (value : Str) : Except Thrown Bool := do
  if value.length = 1 then
    return (← charAt value ((0 : Nat) : Position)) = c
  else
    return false

/-- What stands behind the equals sign. -/
def ofValueAt (value : Str) : Except Thrown KconfigValue := do
  if ← isLetter 121 value then
    return .T_TRISTATE .ON
  else if ← isLetter 109 value then
    return .T_TRISTATE .MODULE
  else if KString.isNumber value then
    return .T_INTEGER (← KString.asInt value)
  else
    return .T_STRING (← unquoteAt value)

/-- The branch for a line that begins with `#`. -/
def commentAt (str : Str) : Except Thrown (KconfigValue × Str) := do
  if ¬ Kdump.str "is not set" <:+: str then
    return (.T_INVALID, [])
  else if ¬ (← beginsOption str) then
    .error (invalidLine str)
  else
    let beginOfConfig : Position := ((2 : Nat) : Position)
    let endOfConfig := find (fun c => c == space) str beginOfConfig
    if endOfConfig ≤ beginOfConfig then
      .error (invalidLine str)
    else
      return (.T_TRISTATE .OFF, ← substring str beginOfConfig (endOfConfig - 2))

/-- The branch for a key and a value. -/
def pairAt (str : Str) : Except Thrown (KconfigValue × Str) := do
  let equalSign := find (fun c => c == eqSign) str ((0 : Nat) : Position)
  if equalSign = ⊤ then
    .error (invalidLine str)
  else
    let name ← substring str ((0 : Nat) : Position) equalSign
    if (str.length : Position) ≤ equalSign + 1 then
      .error (.KError (Kdump.str "There must be at least one character after =: '" ++ str ++
        Kdump.str "'."))
    else
      return (← ofValueAt (← substring str (equalSign + 1) ⊤), name)

/-- `KconfigValue::fromString`: the value, and what is assigned to `name`. -/
def fromStringAt (line : Str) : Except Thrown (KconfigValue × Str) := do
  let str := KString.trim [newline] line
  if str.length = 0 then
    return (.T_INVALID, [])
  else if (← charAt str ((0 : Nat) : Position)) = 35 then
    commentAt str
  else
    pairAt str

/-! ## What the function gives -/

theorem charAt_zero {s : Str} {c : UInt8} {rest : Str} (h : s = c :: rest) :
    charAt s ((0 : Nat) : Position) = .ok c := by
  rw [h]
  rfl

/-- A comment with the words `is not set` has characters at 1 and 2. -/
theorem beginsOption_eq {str : Str} (h : Kdump.str "is not set" <:+: str) :
    beginsOption str = .ok (decide (str[1]? = some space ∧
      (str[2]?.map Url.isalpha) = some true)) := by
  have hlength : 10 ≤ str.length := h.length_le
  have hone : 1 < str.length := by omega
  have htwo : 2 < str.length := by omega
  unfold beginsOption
  rw [charAt_of_lt hone, charAt_of_lt htwo, List.getElem?_eq_getElem hone,
    List.getElem?_eq_getElem htwo]
  by_cases hspace : str[1] = space
  · by_cases halpha : Url.isalpha str[2] = true
    · simp [bind, Except.bind, pure, Except.pure, hspace, halpha]
    · simp [bind, Except.bind, pure, Except.pure, hspace, halpha]
  · simp [bind, Except.bind, pure, Except.pure, hspace]

theorem isLetter_eq (c : UInt8) {value : Str} (hne : value ≠ []) :
    isLetter c value = .ok (decide (value = [c])) := by
  obtain ⟨a, rest, rfl⟩ := List.exists_cons_of_ne_nil hne
  unfold isLetter
  rw [charAt_zero rfl]
  cases rest with
  | nil => simp [bind, Except.bind, pure, Except.pure]
  | cons b rest => simp [pure, Except.pure]

theorem lastIndex_concat (s : Str) (c : UInt8) :
    lastIndex (s ++ [c]) = (s.length : Position) := by
  cases s with
  | nil => rfl
  | cons a s => simp [lastIndex]

theorem unquoteEnd_eq (value : Str) :
    unquoteEnd value =
      match value.getLast? with
      | none => .error .undefined
      | some c => .ok (if c = dquote then value.dropLast else value) := by
  rcases List.eq_nil_or_concat value with rfl | ⟨front, c, rfl⟩
  · rfl
  · rw [List.concat_eq_append, List.getLast?_concat, List.dropLast_concat, unquoteEnd,
      charAt_lastIndex List.getLast?_concat, lastIndex_concat, substring_coe (Nat.zero_le _),
      List.drop_zero, List.take_left]
    by_cases hquote : c = dquote
    · simp [bind, Except.bind, hquote]
    · simp [bind, Except.bind, pure, Except.pure, hquote]

theorem unquoteAt_eq {value : Str} (hne : value ≠ []) : unquoteAt value = unquote value := by
  obtain ⟨c, rest, rfl⟩ := List.exists_cons_of_ne_nil hne
  unfold unquoteAt unquote
  rw [charAt_zero rfl, substring_top (by simp)]
  change (if c = dquote then unquoteEnd rest else unquoteEnd (c :: rest)) = _
  by_cases hquote : c = dquote
  · have hhead : (c :: rest).head? = some dquote := congrArg some hquote
    rw [if_pos hquote, if_pos hhead]
    exact unquoteEnd_eq rest
  · have hhead : ¬ (c :: rest).head? = some dquote := fun h => hquote (Option.some.inj h)
    rw [if_neg hquote, if_neg hhead]
    exact unquoteEnd_eq (c :: rest)

theorem ofValueAt_eq {value : Str} (hne : value ≠ []) : ofValueAt value = ofValue value := by
  unfold ofValueAt ofValue
  rw [isLetter_eq 121 hne, isLetter_eq 109 hne, unquoteAt_eq hne]
  have hy : Kdump.str "y" = [121] := by decide
  have hm : Kdump.str "m" = [109] := by decide
  rw [hy, hm]
  by_cases h1 : value = [121]
  · simp [bind, Except.bind, pure, Except.pure, h1]
  · by_cases h2 : value = [109]
    · simp [bind, Except.bind, pure, Except.pure, h2]
    · simp [bind, Except.bind, pure, Except.pure, h1, h2]

/-- The name in a comment: it goes up to the next space, which is not its first character. -/
theorem optionName {str : Str} (hlength : 2 < str.length) (hplain : str[2] ≠ space) :
    ¬ find (fun c => c == space) str ((2 : Nat) : Position) ≤ ((2 : Nat) : Position) ∧
      substring str ((2 : Nat) : Position)
          (find (fun c => c == space) str ((2 : Nat) : Position) - 2) =
        .ok ((str.drop 2).takeWhile (· ≠ space)) := by
  obtain ⟨breaks, rest, hcut⟩ := exists_cut (fun c => c == space) str 2
  have hname : lineAt (fun c => c == space) str 2 = (str.drop 2).takeWhile (· ≠ space) := by
    unfold lineAt
    congr 1
    funext c
    by_cases hc : c = space
    · simp [hc]
    · simp [hc]
  have hfront : str.drop 2 = [str[2]] ++ str.drop 3 := List.drop_eq_getElem_cons hlength
  have hle : ((2 + 1 : Nat) : Position) ≤ find (fun c => c == space) str ((2 : Nat) : Position) :=
    le_find hfront (by simpa using hplain)
  rw [hname] at hcut
  refine ⟨fun hle' => absurd (hle.trans hle') (by decide), ?_⟩
  rw [hcut.find_break]
  by_cases hbreaks : breaks = []
  · have htop : (⊤ : Position) - 2 = ⊤ := rfl
    have heq := hcut.eq
    rw [hbreaks, hcut.last hbreaks, List.append_nil, List.append_nil] at heq
    rw [if_pos hbreaks, htop, substring_top hlength.le, ← heq]
  · generalize (str.drop 2).takeWhile (· ≠ space) = name at hcut
    have hcount : ((2 + name.length : Nat) : Position) - 2 = (name.length : Position) :=
      congrArg WithTop.some (Nat.add_sub_cancel_left ..)
    rw [if_neg hbreaks, hcount, substring_coe hlength.le, hcut.eq, List.take_left]

theorem commentAt_eq (str : Str) :
    commentAt str =
      if ¬ Kdump.str "is not set" <:+: str then
        .ok (.T_INVALID, [])
      else if ¬ (str[1]? = some space ∧ (str[2]?.map Url.isalpha) = some true) then
        .error (invalidLine str)
      else
        .ok (.T_TRISTATE .OFF, (str.drop 2).takeWhile (· ≠ space)) := by
  unfold commentAt
  by_cases hset : Kdump.str "is not set" <:+: str
  · rw [if_neg (not_not.2 hset), if_neg (not_not.2 hset), beginsOption_eq hset]
    by_cases hoption : str[1]? = some space ∧ (str[2]?.map Url.isalpha) = some true
    · have hlength : 10 ≤ str.length := hset.length_le
      have htwo : 2 < str.length := by omega
      have hplain : str[2] ≠ space := by
        intro heq
        have halpha := hoption.2
        rw [List.getElem?_eq_getElem htwo, heq] at halpha
        exact absurd halpha (by decide)
      obtain ⟨hnot, hname⟩ := optionName htwo hplain
      rw [if_neg (not_not.2 hoption), decide_eq_true hoption]
      dsimp only
      rw [if_neg hnot, hname]
      rfl
    · rw [if_pos hoption, decide_eq_false hoption]
      rfl
  · rw [if_pos hset, if_pos hset]
    rfl

theorem pairAt_eq (str : Str) :
    pairAt str =
      match str.findIdx? (· == eqSign) with
      | none => .error (invalidLine str)
      | some equalSign =>
          if str.length ≤ equalSign + 1 then
            .error (.KError (Kdump.str "There must be at least one character after =: '" ++ str ++
              Kdump.str "'."))
          else (do
            .ok (← ofValue (str.drop (equalSign + 1)), str.take equalSign)) := by
  unfold pairAt
  cases hidx : str.findIdx? (· == eqSign) with
  | none =>
      have hfind : find (fun c => c == eqSign) str ((0 : Nat) : Position) = ⊤ :=
        find_of_none (List.findIdx?_eq_none_iff.1 hidx)
      rw [hfind]
      rfl
  | some equalSign =>
      have hfind : find (fun c => c == eqSign) str ((0 : Nat) : Position) =
          ((0 + equalSign : Nat) : Position) := by
        change (match (str.drop 0).findIdx? (· == eqSign) with
          | none => (⊤ : Position)
          | some i => ((0 + i : Nat) : Position)) = _
        rw [List.drop_zero, hidx]
      have hnext : ((equalSign : Nat) : Position) + 1 = ((equalSign + 1 : Nat) : Position) := rfl
      have hle : (str.length : Position) ≤ ((equalSign + 1 : Nat) : Position) ↔
          str.length ≤ equalSign + 1 := Nat.cast_le
      dsimp only
      rw [hfind, Nat.zero_add, if_neg (WithTop.natCast_ne_top _), hnext,
        substring_coe (Nat.zero_le _), List.drop_zero]
      change (if (str.length : Position) ≤ ((equalSign + 1 : Nat) : Position) then _ else _) = _
      -- with something behind the sign, both parts are taken inside of the string
      by_cases hend : str.length ≤ equalSign + 1
      · rw [if_pos (hle.2 hend), if_pos hend]
      · have hvalue : str.drop (equalSign + 1) ≠ [] := by
          intro hnil
          exact hend (List.drop_eq_nil_iff.1 hnil)
        rw [if_neg (fun h => hend (hle.1 h)), if_neg hend, substring_top (Nat.not_le.1 hend).le]
        change (do .ok (← ofValueAt (str.drop (equalSign + 1)), str.take equalSign) :
          Except Thrown (KconfigValue × Str)) = _
        rw [ofValueAt_eq hvalue]

theorem fromStringAt_eq (line : Str) : fromStringAt line = fromString line := by
  unfold fromStringAt fromString
  dsimp only
  generalize KString.trim [newline] line = str
  cases str with
  | nil => rfl
  | cons first tail =>
      have hne : ¬ first :: tail = [] := List.cons_ne_nil _ _
      have hlength : ¬ (first :: tail).length = 0 := Nat.succ_ne_zero _
      have hhead : (first :: tail).head? = some 35 ↔ first = 35 := Option.some_inj
      rw [if_neg hlength, if_neg hne, charAt_zero rfl, ← commentAt_eq]
      change (if first = 35 then commentAt (first :: tail) else pairAt (first :: tail)) = _
      by_cases hcomment : first = 35
      · rw [if_pos hcomment, if_pos (hhead.2 hcomment)]
      · rw [if_neg hcomment, if_neg fun h => hcomment (hhead.1 h)]
        exact pairAt_eq _

/-! ## Indices inside and outside -/

/-- The line, without newlines at its ends, has a single quote and nothing else as its value. -/
def LoneQuote (line : Str) : Prop :=
  (KString.trim [newline] line).head? ≠ some 35 ∧
    ∃ key, eqSign ∉ key ∧ KString.trim [newline] line = key ++ [eqSign, dquote]

/-- The function returns or throws a `KError`; no index has been outside. -/
def Inside (line : Str) : Prop :=
  (∃ r, fromStringAt line = .ok r) ∨ ∃ message, fromStringAt line = .error (.KError message)

theorem asInt_of_isNumber {value : Str} (h : KString.isNumber value = true) :
    ∃ i, KString.asInt value = .ok i := by
  cases value with
  | nil => exact absurd h (by decide)
  | cons c rest =>
      have hspace : isSpace c = false := by
        unfold KString.isNumber at h
        dsimp only at h
        split at h
        · rename_i hsign
          rcases hsign with rfl | rfl
          · decide
          · decide
        · rw [Bool.and_eq_true, List.all_eq_true] at h
          exact (digit_plain (h.2 c List.mem_cons_self)).1
      have hdrop : (c :: rest).dropWhile isSpace = c :: rest :=
        List.dropWhile_cons_of_neg (by rw [hspace]; exact Bool.false_ne_true)
      have hextract : ∃ i, KString.extract (c :: rest) = some i := by
        unfold KString.extract
        rw [hdrop]
        dsimp only
        split
        · exact ⟨_, rfl⟩
        · split
          · exact ⟨_, rfl⟩
          · exact ⟨_, rfl⟩
      obtain ⟨i, hi⟩ := hextract
      exact ⟨clampInt i, by rw [KString.asInt, hi]⟩

/-- The quotes are there to be dropped, unless one quote is all there is. -/
theorem unquote_of_ne {value : Str} (hne : value ≠ []) (hquote : value ≠ [dquote]) :
    ∃ s, unquote value = .ok s := by
  have hleft : (if value.head? = some dquote then value.drop 1 else value) ≠ [] := by
    split
    · rename_i hhead
      obtain ⟨c, rest, rfl⟩ := List.exists_cons_of_ne_nil hne
      obtain rfl : c = dquote := Option.some.inj hhead
      rintro hnil
      exact hquote (congrArg (dquote :: ·) hnil)
    · exact hne
  unfold unquote
  dsimp only
  rw [List.getLast?_eq_some_getLast hleft]
  exact ⟨_, rfl⟩

/-- Everything but a single quote is a value. -/
theorem ofValue_iff {value : Str} (hne : value ≠ []) :
    (∃ ret, ofValue value = .ok ret) ↔ value ≠ [dquote] := by
  constructor
  · rintro ⟨ret, hret⟩ rfl
    have hlone : ofValue [dquote] = .error .undefined := by decide
    rw [hlone] at hret
    cases hret
  · intro hquote
    unfold ofValue
    by_cases hy : value = Kdump.str "y"
    · exact ⟨_, if_pos hy⟩
    · by_cases hm : value = Kdump.str "m"
      · exact ⟨.T_TRISTATE .MODULE, by rw [if_neg hy, if_pos hm]⟩
      · by_cases hnumber : KString.isNumber value = true
        · obtain ⟨i, hi⟩ := asInt_of_isNumber hnumber
          exact ⟨.T_INTEGER i, by rw [if_neg hy, if_neg hm, if_pos hnumber, hi]; rfl⟩
        · obtain ⟨s, hs⟩ := unquote_of_ne hne hquote
          exact ⟨.T_STRING s, by rw [if_neg hy, if_neg hm, if_neg hnumber, hs]; rfl⟩

theorem ofValue_error {value : Str} {e : Thrown} (h : ofValue value = .error e) :
    value = [] ∨ value = [dquote] := by
  by_cases hne : value = []
  · exact Or.inl hne
  · by_cases hquote : value = [dquote]
    · exact Or.inr hquote
    · obtain ⟨ret, hret⟩ := (ofValue_iff hne).2 hquote
      rw [hret] at h
      cases h

theorem findIdx?_key {key : Str} (hkey : eqSign ∉ key) (value : Str) :
    (key ++ eqSign :: value).findIdx? (· == eqSign) = some key.length := by
  have hno : ∀ c ∈ key, (c == eqSign) = false := by
    intro c hc
    exact beq_eq_false_iff_ne.2 (by rintro rfl; exact hkey hc)
  rw [List.findIdx?_append, List.findIdx?_eq_none_iff.2 hno, List.findIdx?_cons]
  simp

/-- The first equals sign separates key and value. -/
theorem key_value_inj {key key' value value' : Str} (hkey : eqSign ∉ key) (hkey' : eqSign ∉ key')
    (h : key ++ eqSign :: value = key' ++ eqSign :: value') : value = value' := by
  have hidx := findIdx?_key hkey value
  rw [h, findIdx?_key hkey'] at hidx
  have hlength : key.length = key'.length := (Option.some.inj hidx).symm
  exact (List.cons.inj (List.append_inj h hlength).2).2

/-- For every line all indices lie within the strings, and the function returns a value or throws a
`KError`, if and only if the value is not a single quote. -/
theorem fromString_inside_iff (line : Str) : Inside line ↔ ¬ LoneQuote line := by
  unfold Inside LoneQuote
  rw [fromStringAt_eq, fromString]
  generalize KString.trim [newline] line = str
  by_cases hempty : str = []
  · simp [hempty]
  rw [if_neg hempty]
  -- a comment has no value, and neither has a line without an equals sign
  by_cases hcomment : str.head? = some 35
  · rw [if_pos hcomment]
    simp only [hcomment, ne_eq, not_true_eq_false, false_and, not_false_eq_true, iff_true]
    split
    · exact Or.inl ⟨_, rfl⟩
    · split
      · exact Or.inr ⟨_, rfl⟩
      · exact Or.inl ⟨_, rfl⟩
  rw [if_neg hcomment]
  by_cases hmem : eqSign ∈ str
  · obtain ⟨key, value, rfl, hkey⟩ := List.eq_append_cons_of_mem hmem
    have hlone : (∃ key', eqSign ∉ key' ∧ key ++ eqSign :: value = key' ++ [eqSign, dquote]) ↔
        value = [dquote] := by
      constructor
      · rintro ⟨key', hkey', heq⟩
        exact key_value_inj hkey hkey' heq
      · rintro rfl
        exact ⟨key, hkey, rfl⟩
    have hdrop : (key ++ eqSign :: value).drop (key.length + 1) = value := by
      rw [← List.drop_drop, List.drop_left]
      rfl
    rw [findIdx?_key hkey, hlone]
    dsimp only
    rw [hdrop]
    by_cases hvalue : value = []
    · have hend : (key ++ eqSign :: value).length ≤ key.length + 1 := by simp [hvalue]
      rw [if_pos hend]
      exact iff_of_true (Or.inr ⟨_, rfl⟩) fun h => by rw [hvalue] at h; cases h.2
    · have hpos := List.length_pos_iff.2 hvalue
      have hend : ¬ (key ++ eqSign :: value).length ≤ key.length + 1 := by
        rw [List.length_append, List.length_cons]
        omega
      rw [if_neg hend]
      -- the only value whose last character is looked for too far in front is the quote alone
      cases hret : ofValue value with
      | ok ret =>
          have hquote := (ofValue_iff hvalue).1 ⟨ret, hret⟩
          exact iff_of_true (Or.inl ⟨_, rfl⟩) fun h => hquote h.2
      | error e =>
          obtain rfl := (ofValue_error hret).resolve_left hvalue
          have hundefined : ofValue [dquote] = .error .undefined := by decide
          rw [hundefined] at hret
          cases hret
          refine iff_of_false ?_ fun h => h ⟨hcomment, rfl⟩
          rintro (⟨r, hr⟩ | ⟨message, hmessage⟩)
          · cases hr
          · cases hmessage
  · have hnone : str.findIdx? (· == eqSign) = none := by
      refine List.findIdx?_eq_none_iff.2 fun c hc => ?_
      exact beq_eq_false_iff_ne.2 (by rintro rfl; exact hmem hc)
    have hnot : ¬ ∃ key, eqSign ∉ key ∧ str = key ++ [eqSign, dquote] := by
      rintro ⟨key, _, rfl⟩
      exact hmem (by simp)
    rw [hnone]
    exact iff_of_true (Or.inr ⟨_, rfl⟩) fun h => hnot h.2

/-- The index `npos` is used when the quote in front has been dropped. -/
theorem not_inside_lone_quote : ¬ Inside (Kdump.str "CONFIG_CMDLINE=\"\n") := by
  have hresult : fromStringAt (Kdump.str "CONFIG_CMDLINE=\"\n") = .error .undefined := by decide
  rintro (⟨r, hr⟩ | ⟨message, hmessage⟩)
  · rw [hresult] at hr
    cases hr
  · rw [hresult] at hmessage
    cases hmessage

/-- Two quotes are an empty string. -/
example : fromStringAt (Kdump.str "A=\"\"\n") = .ok (.T_STRING [], Kdump.str "A") := by
  decide

end KconfigValue

end Kernel
end Kdump

import Mathlib.Data.List.DropRight
import Kdump.Config.Configuration

/-!
# StringUtil — the member functions of `KString`

Numbers are read by formatted extraction, as in `Config.extractInt`.
-/

namespace Kdump
namespace KString

open Config

/-- `KString::trim`. -/
def trim (chars s : Str) : Str :=
  (s.rdropWhile chars.contains).dropWhile chars.contains

/-- `" \t\n"`, the default of `trim`. -/
def blanks : Str :=
  [space, 9, newline]

/-- `KString::split`. -/
def split (c : UInt8) (s : Str) : List Str :=
  s.splitOn c

/-- `KString::isNumber`. -/
def isNumber (s : Str) : Bool :=
  let digits := match s with
    | c :: rest => if c = 45 ∨ c = 43 then rest else s
    | [] => s
  digits ≠ [] && digits.all isDigit

/-- Out of range values become the nearest `long long`. -/
def clampLongLong (i : Int) : Int64 :=
  if i < -9223372036854775808 then -9223372036854775808
  else if 9223372036854775807 < i then 9223372036854775807
  else Int64.ofInt i

/-- The number that `ss >> ret` finds: white space is skipped, and what is not a number gives zero.
If nothing is left, the variable is not set. -/
def extract (s : Str) : Option Int :=
  match s.dropWhile isSpace with
  | [] => none
  | c :: cs =>
      if c = 45 then some (-(digitsValue (cs.takeWhile isDigit)))
      else if c = 43 then some (digitsValue (cs.takeWhile isDigit))
      else some (digitsValue ((c :: cs).takeWhile isDigit))

/-- `KString::asInt`; the variable has no initial value. -/
def asInt (s : Str) : Except Thrown Int32 :=
  match extract s with
  | none => .error .undefined
  | some i => .ok (clampInt i)

/-- `KString::asLongLong`. -/
def asLongLong (s : Str) : Except Thrown Int64 :=
  match extract s with
  | none => .error .undefined
  | some i => .ok (clampLongLong i)

/-! ## Decimal numbers -/

/-- Digits, and nothing else. -/
theorem extract_digits {t : Str} (hne : t ≠ []) (ht : ∀ c ∈ t, isDigit c = true) :
    extract t = some (digitsValue t : Int) := by
  cases t with
  | nil => exact absurd rfl hne
  | cons c cs =>
      obtain ⟨hspace, hminus, hplus⟩ := digit_plain (ht c List.mem_cons_self)
      have htake : (c :: cs).takeWhile isDigit = c :: cs := List.takeWhile_eq_self_iff.2 ht
      have hdrop : (c :: cs).dropWhile isSpace = c :: cs :=
        List.dropWhile_cons_of_neg (by rw [hspace]; exact Bool.false_ne_true)
      simp only [extract, hdrop, if_neg hminus, if_neg hplus, htake]

theorem clampLongLong_natCast {v : Nat} (hv : v < 2 ^ 63) :
    clampLongLong v = Int64.ofInt v := by
  have h1 : ¬ (v : Int) < -9223372036854775808 := by omega
  have h2 : ¬ 9223372036854775807 < (v : Int) := by omega
  rw [clampLongLong, if_neg h1, if_neg h2]

end KString
end Kdump

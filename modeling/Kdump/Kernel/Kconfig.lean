import Kdump.Config.ShellConfigParser
import Kdump.StringUtil
import Kdump.Url.URLParser

/-!
# Kconfig — the configuration of a kernel

* `KconfigValue.fromString` — one line of a `.config` file;
* `readFromConfig` — the lines come from `gzgets`, in pieces that fit into the buffer;
* `readFromKernel` — the lines come from `std::getline`.
-/

namespace Kdump
namespace Kernel

open Lib Config

/-! ## Values -/

inductive Tristate where
  | ON
  | OFF
  | MODULE
  deriving DecidableEq, Repr

inductive KconfigValue where
  | T_INVALID
  | T_STRING (m_string : Str)
  | T_INTEGER (m_integer : Int32)
  | T_TRISTATE (m_tristate : Tristate)
  deriving DecidableEq, Repr

namespace KconfigValue

def invalidLine (str : Str) : Thrown :=
  .KError (Kdump.str "Invalid line: '" ++ str ++ Kdump.str "'.")

/-- The quotes around a string.  For a lone quote, `value[value.size()-1]` lies outside. -/
def unquote (value : Str) : Except Thrown Str :=
  let value := if value.head? = some dquote then value.drop 1 else value
  match value.getLast? with
  | none => .error .undefined
  | some c => .ok (if c = dquote then value.dropLast else value)

/-- What stands behind the equals sign. -/
def ofValue (value : Str) : Except Thrown KconfigValue :=
  if value = Kdump.str "y" then
    .ok (.T_TRISTATE .ON)
  else if value = Kdump.str "m" then
    .ok (.T_TRISTATE .MODULE)
  else if KString.isNumber value then do
    .ok (.T_INTEGER (← KString.asInt value))
  else do
    .ok (.T_STRING (← unquote value))

/-- `KconfigValue::fromString`: the value, and what is assigned to `name`. -/
def fromString (line : Str) : Except Thrown (KconfigValue × Str) :=
  let str := KString.trim [newline] line
  if str = [] then
    .ok (.T_INVALID, [])
  else if str.head? = some 35 then
    if ¬ Kdump.str "is not set" <:+: str then
      .ok (.T_INVALID, [])
    else if ¬ (str[1]? = some space ∧ (str[2]?.map Url.isalpha) = some true) then
      .error (invalidLine str)
    else
      -- behind a letter the space cannot stand at `beginOfConfig`
      .ok (.T_TRISTATE .OFF, (str.drop 2).takeWhile (· ≠ space))
  else
    match str.findIdx? (· == eqSign) with
    | none => .error (invalidLine str)
    | some equalSign =>
        if str.length ≤ equalSign + 1 then
          .error (.KError (Kdump.str "There must be at least one character after =: '" ++ str ++
            Kdump.str "'."))
        else do
          .ok (← ofValue (str.drop (equalSign + 1)), str.take equalSign)

end KconfigValue

/-! ## The readers -/

namespace Kconfig

abbrev Configs := Std.TreeMap Str KconfigValue

/-- The body of both loops. -/
def addLine (m_configs : Configs) (line : Str) : Except Thrown Configs := do
  let (val, name) ← KconfigValue.fromString line
  if val = .T_INVALID then .ok m_configs else .ok (m_configs.insert name val)

/-- `gzgets(fp, line, len)`: up to `len - 1` characters, not beyond a newline. -/
def gzgets (len : Nat) (fp : Str) : Option (Str × Str) :=
  let room := fp.take (len - 1)
  let line := room.takeWhile (· ≠ newline) ++ (room.dropWhile (· ≠ newline)).take 1
  if line = [] then none else some (line, fp.drop line.length)

theorem gzgets_lt {len : Nat} {fp line rest : Str} (h : gzgets len fp = some (line, rest)) :
    rest.length < fp.length := by
  rw [gzgets] at h
  split_ifs at h with hline
  simp only [Option.some.injEq, Prod.mk.injEq] at h
  obtain ⟨rfl, rfl⟩ := h
  have hpos := List.length_pos_iff.2 hline
  have hfp : fp ≠ [] := by
    rintro rfl
    simp at hline
  have hfp' := List.length_pos_iff.2 hfp
  rw [List.length_drop]
  omega

/-- One pass of the loop of `readFromConfig`. -/
def step (s : Str × Configs) : Step (Str × Configs) (Except Thrown Configs) :=
  match gzgets BUFSIZ s.1 with
  | none => .done (.ok s.2)
  | some (line, fp) =>
      match addLine s.2 (cStr line) with
      | .error e => .done (.error e)
      | .ok m_configs => .next (fp, m_configs)

theorem step_lt {s s' : Str × Configs} (h : step s = .next s') : s'.1.length < s.1.length := by
  rw [step] at h
  cases hline : gzgets BUFSIZ s.1 with
  | none =>
      rw [hline] at h
      cases h
  | some found =>
      rw [hline] at h
      dsimp only at h
      split at h
      · cases h
      · cases h
        exact gzgets_lt hline

def loop : Loop (Str × Configs) (Except Thrown Configs) where
  step := step
  measure s := s.1.length
  decreases := step_lt

/-- `Kconfig::readFromConfig`, for a file with the text `fp`. -/
def readFromConfig (fp : Str) (m_configs : Configs) : Except Thrown Configs :=
  loop.eval (fp, m_configs)

/-- `Kconfig::readFromKernel`, for an image with the configuration `ss`. -/
def readFromKernel (ss : Str) (m_configs : Configs) : Except Thrown Configs :=
  (ShellConfigParser.getlines ss).foldlM addLine m_configs

end Kconfig

end Kernel
end Kdump

import Kdump.Lib.Loop
import Kdump.Config.Configuration
import Kdump.Config.QuotedString

/-!
# ConfigParser — reading the kernel command line

`KernelConfigParser::parse` is a character machine: names and values are collected byte by byte,
quotes toggle a flag, a backslash starts an escape with up to three octal digits of look-ahead.
The loop is a `Lib.Loop` over its local variables and the unread rest of the file; every pass
reads at least one byte.
-/

namespace Kdump
namespace Config

open Lib

/-! ## The parser base class -/

/-- A configuration file: its name and what opening it gives. -/
structure ConfigFile where
  name : Str
  content : Except Errno Str

/-- `ConfigParser::addVariable`. -/
def addVariable (m_variables : StringStringMap) (name defvalue : Str) : StringStringMap :=
  m_variables.insert name defvalue

/-- `ConfigParser::getValue`. -/
def getValue (m_variables : StringStringMap) (name : Str) : Except Thrown Str :=
  match m_variables[name]? with
  | none => .error (.KError (str "Variable " ++ name ++ str " does not exist."))
  | some value => .ok value

namespace KernelConfigParser

/-! ## The local variables of `parse` -/

/-- The string that `outp` points to. -/
inductive Outp where
  | name
  | value
  deriving DecidableEq, Repr

structure Locals where
  /-- what is still to be read from the file; `peek` sees its head -/
  fin : Str
  name : Str
  value : Str
  outp : Outp
  inquote : Bool
  m_variables : StringStringMap

def start (fin : Str) (m_variables : StringStringMap) : Locals :=
  ⟨fin, [], [], .name, false, m_variables⟩

namespace Locals

/-- `outp->append(cs)`. -/
def append (s : Locals) (cs : Str) : Locals :=
  match s.outp with
  | .name => { s with name := s.name ++ cs }
  | .value => { s with value := s.value ++ cs }

@[simp] theorem append_fin (s : Locals) (cs : Str) : (s.append cs).fin = s.fin := by
  unfold append
  split <;> rfl

def isOctal (c : UInt8) : Bool :=
  48 ≤ c && c ≤ 55

/-- The octal digits behind a backslash: three of them make a byte, fewer are kept as they are. -/
def octalEscape (s : Locals) : Locals :=
  let seq := (s.fin.take 3).takeWhile isOctal
  let s := { s with fin := s.fin.drop seq.length }
  match seq with
  | [a, b, c] => s.append [((a - 48) <<< 6) + ((b - 48) <<< 3) + (c - 48)]
  | _ => s.append (bslash :: seq)

/-- The branch for a backslash, which has been read already. -/
def escape (s : Locals) : Locals :=
  match s.fin with
  | c :: rest => if c = bslash then { s with fin := rest }.append [c] else s.octalEscape
  | [] => s.octalEscape

theorem octalEscape_fin_length (s : Locals) : s.octalEscape.fin.length ≤ s.fin.length := by
  unfold octalEscape
  dsimp only
  split <;> simp

theorem escape_fin_length (s : Locals) : s.escape.fin.length ≤ s.fin.length := by
  unfold escape
  split
  · rename_i c rest hfin
    split
    · simp [hfin]
    · exact s.octalEscape_fin_length
  · exact s.octalEscape_fin_length

end Locals

/-! ## The loop -/

/-- One pass of `while (fin.get(c))`. -/
def step (s : Locals) : Step Locals StringStringMap :=
  match s.fin with
  | [] => .done s.m_variables
  | c :: rest =>
      let s := { s with fin := rest }
      if c = dquote then
        .next { s with inquote := !s.inquote }
      else if c = eqSign ∧ s.outp = .name then
        .next { s with outp := .value }
      else if (is_kernel_space c && !s.inquote) || rest.isEmpty then
        if s.name.isEmpty then
          .next s
        else
          .next { s with
            m_variables := s.m_variables.insert s.name s.value
            name := []
            value := []
            outp := .name }
      else if c = bslash then
        .next s.escape
      else
        .next (s.append [c])

theorem step_fin_lt {s s' : Locals} (h : step s = .next s') : s'.fin.length < s.fin.length := by
  unfold step at h
  split at h
  · cases h
  · rename_i c rest hfin
    have hlen : s.fin.length = rest.length + 1 := by simp [hfin]
    dsimp only at h
    split_ifs at h
    case pos =>
        cases h
        simp [hlen]
    case pos =>
        cases h
        simp [hlen]
    case pos =>
        cases h
        simp [hlen]
    case neg =>
        cases h
        simp [hlen]
    case pos =>
        cases h
        have hle := Locals.escape_fin_length { s with fin := rest }
        dsimp only at hle
        omega
    case neg =>
        cases h
        simp [hlen]

def loop : Loop Locals StringStringMap where
  step := step
  measure s := s.fin.length
  decreases := step_fin_lt

/-- `KernelConfigParser::parse`. -/
def parse (m_configFile : ConfigFile) (m_variables : StringStringMap) :
    Except Thrown StringStringMap :=
  match m_configFile.content with
  | .error errno =>
      .error (.KSystemError (str "Cannot open config file " ++ m_configFile.name) errno)
  | .ok fin => .ok (loop.eval (start fin m_variables))

end KernelConfigParser

/-! ## Reading into the configuration -/

namespace Configuration

variable {fadump : Bool}

/-- The second loop of `readCmdLine`: every option takes the value that the parser has for it. -/
def updateOptions (m_variables : StringStringMap) :
    (opts : List ConfigOption) →
      Except Thrown
        { l : List ConfigOption // l.map ConfigOption.reset = opts.map ConfigOption.reset }
  | [] => .ok ⟨[], rfl⟩
  | opt :: opts => do
      let value ← getValue m_variables opt.name
      let ⟨l, hl⟩ ← updateOptions m_variables opts
      .ok ⟨opt.update value :: l, by simp [hl]⟩

/-- `Configuration::readCmdLine`. -/
def readCmdLine (c : Configuration fadump) (file : ConfigFile) :
    Except Thrown (Configuration fadump) := do
  let cp := c.m_options.foldl (fun m opt => addVariable m opt.name opt.valueAsString) ∅
  let cp ← KernelConfigParser.parse file cp
  let ⟨l, hl⟩ ← updateOptions cp c.m_options
  .ok ⟨l, hl.trans c.table⟩

end Configuration

end Config
end Kdump

import Kdump.Config.Configuration
import Kdump.Config.QuotedString

/-!
# DumpConfig — the `dump_config` subcommand

`DumpConfig::execute` prints the selected options of the configuration as assignments, in the
quoting of the chosen format.
-/

namespace Kdump
namespace Config

/-- `DumpConfig::Format`. -/
inductive Format where
  | FMT_SHELL
  | FMT_KERNEL
  deriving DecidableEq, Repr

/-- The members of `DumpConfig` that `parseArgs` sets from the command line. -/
structure DumpConfig where
  m_format : Format
  m_usage : UInt32
  m_nodefault : Bool

namespace DumpConfig

variable {fadump : Bool}

/-- The quoting and the delimiter of the format. -/
def quoted (d : DumpConfig) (value : Str) : Str :=
  match d.m_format with
  | .FMT_SHELL => shellQuoted value
  | .FMT_KERNEL => kernelQuoted value

def delim (d : DumpConfig) : UInt8 :=
  match d.m_format with
  | .FMT_SHELL => newline
  | .FMT_KERNEL => space

/-- The two tests at the head of the loop in `execute`. -/
def selects (d : DumpConfig) (opt : ConfigOption) : Bool :=
  if opt.usage &&& d.m_usage = 0 then false
  else if d.m_nodefault && opt.isDefault then false
  else true

/-- What the loop in `execute` prints for a selected option. -/
def assignment (d : DumpConfig) (opt : ConfigOption) : Str :=
  opt.name ++ [eqSign] ++ d.quoted opt.valueAsString ++ [d.delim]

/-- `DumpConfig::execute`: the text written to standard output. -/
def execute (d : DumpConfig) (config : Configuration fadump) : Str :=
  config.m_options.flatMap fun opt => if d.selects opt then d.assignment opt else []

/-- The text is that of the selected options, one after the other. -/
theorem execute_eq_filter (d : DumpConfig) (config : Configuration fadump) :
    d.execute config = (config.m_options.filter d.selects).flatMap d.assignment := by
  unfold execute
  induction config.m_options with
  | nil => rfl
  | cons opt opts ih =>
      cases h : d.selects opt <;> simp [h, ih]

end DumpConfig

end Config
end Kdump

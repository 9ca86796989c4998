import Kdump.Config.Configuration
import Kdump.Url.URLParser

/-!
# Needs — what a configuration requires of the kdump environment

`Configuration::needsNetwork` and `Configuration::needsMakedumpfile`, and what they ask the options
for.
-/

namespace Kdump
namespace Config

open Url

variable {fadump : Bool}

namespace Configuration

/-- `NAME.value()` of a string option. -/
def stringValue (c : Configuration fadump) (name : String) : Str :=
  match c.m_options.find? (·.name = str name) with
  | some (.string _ _ _ v) => v
  | _ => []

/-- `NAME.value()` of an integer option. -/
def intValue (c : Configuration fadump) (name : String) : Int32 :=
  match c.m_options.find? (·.name = str name) with
  | some (.int _ _ _ v) => v
  | _ => 0

/-- `NAME.value()` of a flag. -/
def boolValue (c : Configuration fadump) (name : String) : Bool :=
  match c.m_options.find? (·.name = str name) with
  | some (.bool _ _ _ v) => v
  | _ => false

/-- The configuration with other values of some options. -/
def withValues (c : Configuration fadump) (value : Str → Option Str) : Configuration fadump where
  m_options := c.m_options.map fun opt => ((value opt.name).map opt.update).getD opt
  table := by
    rw [List.map_map, ← c.table]
    apply List.map_congr_left
    intro opt _
    rw [Function.comp_apply]
    cases value opt.name with
    | none => rfl
    | some v => exact ConfigOption.reset_update _ _

/-- The elements that `iss >> elem` reads one after the other. -/
def elements (s : Str) : List Str :=
  (s.splitOnP isSpace).filter (· ≠ [])

/-- The loop of `needsNetwork`: some element names a remote target. -/
def anyRemote : List Str → Except Thrown Bool
  | [] => .ok false
  | elem :: elems =>
      match URLParser.new elem with
      | .error e => .error e
      | .ok url => if url.m_protocol ≠ .PROT_FILE then .ok true else anyRemote elems

def needsNetwork (c : Configuration fadump) : Except Thrown Bool :=
  let netconfig := c.stringValue "KDUMP_NETCONFIG"
  if netconfig = [] then
    .ok false
  else if netconfig ≠ str "auto" then
    .ok true
  else
    match anyRemote (elements (c.stringValue "KDUMP_SAVEDIR")) with
    | .error e => .error e
    | .ok true => .ok true
    | .ok false =>
        .ok (c.stringValue "KDUMP_SMTP_SERVER" ≠ [] && c.stringValue "KDUMP_NOTIFICATION_TO" ≠ [])

def kdumptoolContainsFlag (c : Configuration fadump) (flag : String) : Bool :=
  str flag <:+: c.stringValue "KDUMPTOOL_FLAGS"

/-- `strcasecmp(a.c_str(), b) == 0`, for a lower case literal `b`. -/
def equalNoCase (a : Str) (b : String) : Bool :=
  (cStr a).map ConfigOption.tolower = str b

def needsMakedumpfile (c : Configuration fadump) : Bool :=
  let dumpformat := c.stringValue "KDUMP_DUMPFORMAT"
  c.intValue "KDUMP_DUMPLEVEL" ≠ 0 ||
    (!equalNoCase dumpformat "none" && !equalNoCase dumpformat "elf")

end Configuration

end Config
end Kdump

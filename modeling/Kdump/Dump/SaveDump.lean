import Kdump.Dump.Vmcoreinfo

/-!
# SaveDump — the object of the `save_dump` subcommand

The members of `SaveDump`, and `fillVmcoreinfo`.  The value of `time(NULL)` and the note segment of
the dump are arguments.
-/

namespace Kdump
namespace Dump

open Lib Config

/-- `catch (const KError &)` takes the exceptions of the program, and no other ones. -/
def isKError : Thrown → Bool
  | .KError _ => true
  | .KSystemError _ _ => true
  | .KSFTPError _ _ => true
  | _ => false

/-- The members of `SaveDump`. -/
structure SaveDump where
  m_dump : Str
  m_usedDirectSave : Bool
  m_useMakedumpfile : Bool
  m_split : Nat
  m_threads : Nat
  m_crashtime : UInt64
  m_crashrelease : Str
  m_rootdir : Str
  m_hostname : Str
  m_nomail : Bool
  /-- `Subcommand::m_errorCode` -/
  m_errorCode : Int32
  deriving DecidableEq

abbrev SaveProg := EStateM Thrown SaveDump

/-- `try { body } catch (const KError &error) { handler }`. -/
def tryKError {σ : Type} (body : EStateM Thrown σ Unit) (handler : Thrown → EStateM Thrown σ Unit) :
    EStateM Thrown σ Unit := fun s =>
  match body s with
  | .ok () s' => .ok () s'
  | .error e s' => if isKError e then handler e s' else .error e s'

namespace SaveDump

/-- `SaveDump::SaveDump`, and the members that are set from the command line. -/
def new (m_dump m_crashrelease m_rootdir m_hostname : Str) (m_nomail : Bool) : SaveDump where
  m_dump := m_dump
  m_usedDirectSave := false
  m_useMakedumpfile := false
  m_split := 0
  m_threads := 0
  m_crashtime := 0
  m_crashrelease := m_crashrelease
  m_rootdir := m_rootdir
  m_hostname := m_hostname
  m_nomail := m_nomail
  m_errorCode := 0

end SaveDump

def CRASHTIME : CString :=
  ⟨str "CRASHTIME", by decide⟩

def OSRELEASE : CString :=
  ⟨str "OSRELEASE", by decide⟩

/-- The first `try` block of `fillVmcoreinfo`.  An `int` becomes an `unsigned long long`. -/
def fillCrashtime (vm : Vmcoreinfo) (time : Int64) : SaveProg Unit :=
  tryKError
    (fun s =>
      match getLLongValue vm CRASHTIME with
      | .ok value => .ok () { s with m_crashtime := value.toInt64.toUInt64 }
      | .error e => .error e s)
    (fun _ s => .ok () { s with m_crashtime := time.toUInt64 })

/-- The second one. -/
def fillCrashrelease (vm : Vmcoreinfo) : SaveProg Unit :=
  tryKError
    (fun s =>
      if s.m_crashrelease = [] then
        match getStringValue vm OSRELEASE with
        | .ok value => .ok () { s with m_crashrelease := value }
        | .error e => .error e s
      else
        .ok () s)
    (fun _ s => .ok () s)

/-- `SaveDump::fillVmcoreinfo`. -/
def fillVmcoreinfo (order : ByteOrder) (segment : Except Thrown (Str × Bool)) (time : Int64) :
    SaveProg Unit := fun s =>
  match readFromELF order segment ⟨∅, false⟩ with
  | .error e _ => .error e s
  | .ok () vm => (do fillCrashtime vm time; fillCrashrelease vm : SaveProg Unit) s

/-- The first `try` block of `execute`. -/
def readVmcoreinfo (order : ByteOrder) (segment : Except Thrown (Str × Bool)) (time : Int64) :
    SaveProg Unit :=
  tryKError (fillVmcoreinfo order segment time) fun _ => pure ()

end Dump
end Kdump

import Kdump.Config.Needs
import Kdump.Dump.SaveDump
import Kdump.Lib.Wp

/-!
# Makedumpfile — how `save_dump` saves the dump, and when it needs makedumpfile

`SaveDump::saveDump` reads the dump through `makedumpfile`, or straight from the file.  `calibrate`
reserves memory for `makedumpfile` if `Configuration::needsMakedumpfile` says so.

* `Machine` — what `saveDump` learns from the system, and the transfer;
* `saveDump`;
* `saves_iff` — when the dump is read through `makedumpfile`;
* `reserved_iff` — and when memory has been reserved for it then.
-/

namespace Kdump
namespace Dump

open Lib Config

variable {fadump : Bool}

/-! ## Transfers -/

/-- A data provider. -/
inductive Source where
  /-- `FileDataProvider` -/
  | file (filename : Str)
  /-- `ProcessDataProvider` -/
  | process (pipeCmdline directCmdline : Str)
  deriving DecidableEq

def Source.isProcess : Source → Bool
  | .file _ => false
  | .process _ _ => true

/-- A call of `Transfer::perform`. -/
structure Performed where
  source : Source
  target_files : List Str
  deriving DecidableEq

structure Machine where
  /-- `m_dump.exists()` -/
  dumpExists : Bool
  /-- `m_dump.fileSize()` -/
  fileSize : Except Thrown UInt64
  /-- `SystemCPU::numOnline` -/
  numOnline : Except Thrown UInt64
  /-- `Util::isXenCoreDump` of the dump -/
  isXenCoreDump : Except Thrown Bool
  /-- what a call stores in `*directSave`, and how it ends -/
  perform : Performed → Bool × Except Thrown Unit

/-- The object, and the calls of `m_transfer->perform()`. -/
structure Saving where
  obj : SaveDump
  performed : List Performed
  deriving DecidableEq

abbrev Save (α : Type) := EStateM Thrown Saving α

def modifyDump (f : SaveDump → SaveDump) : Save Unit :=
  modify fun s => { s with obj := f s.obj }

/-- `m_transfer->perform()` without a `directSave`. -/
def performIndirect (w : Machine) (p : Performed) : Save Unit := do
  modify fun s => { s with performed := s.performed ++ [p] }
  ofExcept (w.perform p).2

/-- `m_transfer->perform()` with `&m_usedDirectSave`. -/
def performDirect (w : Machine) (p : Performed) : Save Unit := do
  modify fun s => { s with
    obj := { s.obj with m_usedDirectSave := (w.perform p).1 }
    performed := s.performed ++ [p] }
  ofExcept (w.perform p).2

/-! ## The dump level, the format and the flags -/

/-- An invalid dump level counts as 0. -/
def validLevel (dumplevel : Int32) : Int32 :=
  if dumplevel < 0 ∨ dumplevel > 31 then 0 else dumplevel

/-- `strcasecmp(dumpformat.c_str(), format) == 0`. -/
def isFormat (c : Configuration fadump) (format : String) : Bool :=
  Configuration.equalNoCase (c.stringValue "KDUMP_DUMPFORMAT") format

/-- `unsigned long cpus = config->KDUMP_CPUS.value()`. -/
def configuredCpus (c : Configuration fadump) : UInt64 :=
  (c.intValue "KDUMP_CPUS").toInt64.toUInt64

/-- The number of processors to use. -/
def cpus (c : Configuration fadump) (w : Machine) : Except Thrown UInt64 :=
  if configuredCpus c ≠ 0 then
    w.numOnline.map fun online_cpus => min (configuredCpus c) online_cpus
  else
    .ok (configuredCpus c)

/-- `m_split` and `m_threads`. -/
def parallel (c : Configuration fadump) (cpus : UInt64) (obj : SaveDump) : SaveDump :=
  if !c.kdumptoolContainsFlag "SINGLE" && cpus > 1 then
    -- the check for NOSPLIT is for backward compatibility
    if c.kdumptoolContainsFlag "SPLIT" && !c.kdumptoolContainsFlag "NOSPLIT" then
      if !isFormat c "elf" then { obj with m_split := cpus.toNat } else obj
    else
      if !isFormat c "elf" then { obj with m_threads := cpus.toNat - 1 } else obj
  else
    obj

def excludeDomU (c : Configuration fadump) (w : Machine) : Except Thrown Bool :=
  if !c.kdumptoolContainsFlag "XENALLDOMAINS" then w.isXenCoreDump else .ok false

/-! ## The dump -/

/-- The command line without the part for the pipe. -/
def makedumpfileCommand (c : Configuration fadump) (excludeDomU : Bool) (obj : SaveDump) : Str :=
  str "makedumpfile " ++
    (if obj.m_split ≠ 0 then str "--split " else []) ++
    (if obj.m_threads ≠ 0 then str "--num-threads " ++ decimal obj.m_threads ++ str " " else []) ++
    c.stringValue "MAKEDUMPFILE_OPTIONS" ++ str " " ++
    str "-d " ++ number2string (c.intValue "KDUMP_DUMPLEVEL") ++ str " " ++
    (if excludeDomU then str "-X " else []) ++
    (if isFormat c "elf" then str "-E " else []) ++
    (if isFormat c "compressed" then str "-c " else []) ++
    (if isFormat c "lzo" then str "-l " else []) ++
    (if isFormat c "snappy" then str "-p " else []) ++
    obj.m_dump

/-- The data provider for the dump. -/
def dumpSource (c : Configuration fadump) (dumplevel : Int32) (excludeDomU : Bool)
    (obj : SaveDump) : Source :=
  if isFormat c "elf" && dumplevel = 0 && !excludeDomU then
    .file obj.m_dump
  else
    let cmdline := makedumpfileCommand c excludeDomU obj
    .process (cmdline ++ str " -F") cmdline

/-- The names of the files at the target. -/
def vmcoreFiles (m_split : Nat) : List Str :=
  if m_split ≠ 0 then
    (List.range m_split).map fun i => str "vmcore" ++ decimal (i + 1)
  else
    [str "vmcore"]

/-- The call that saves a copy of dmesg. -/
def dmesgCall (obj : SaveDump) : Performed where
  source := .process (str "makedumpfile --dump-dmesg -F " ++ obj.m_dump)
    (str "makedumpfile --dump-dmesg " ++ obj.m_dump)
  target_files := [str "dmesg.txt"]

/-- Whatever goes wrong with it does not matter. -/
def saveDmesg (w : Machine) : Save Unit := do
  let s ← get
  tryCatch (performIndirect w (dmesgCall s.obj)) fun _ => pure ()

/-- From the dump format on. -/
def saveVmcore (c : Configuration fadump) (w : Machine) (dumplevel : Int32) : Save Unit := do
  if isFormat c "none" then
    pure ()
  else do
    let cpus ← ofExcept (cpus c w)
    modifyDump (parallel c cpus)
    let excludeDomU ← ofExcept (excludeDomU c w)
    let s ← get
    let source := dumpSource c dumplevel excludeDomU s.obj
    modifyDump fun obj => { obj with m_useMakedumpfile := source.isProcess }
    performDirect w ⟨source, vmcoreFiles s.obj.m_split⟩

/-- `SaveDump::saveDump`. -/
def saveDump (c : Configuration fadump) (w : Machine) : Save Unit := do
  let dumplevel := validLevel (c.intValue "KDUMP_DUMPLEVEL")
  let s ← get
  if !w.dumpExists then
    throw (.KError (str "Core file " ++ s.obj.m_dump ++ str " does not exist."))
  else do
    let fileSize ← ofExcept w.fileSize
    if fileSize = 0 then
      throw (.KError (str "Zero size vmcore (" ++ s.obj.m_dump ++ str ")."))
    else do
      saveDmesg w
      saveVmcore c w dumplevel

/-! ## Reading through `makedumpfile` -/

/-- The dump is, or was to be, read through `makedumpfile`. -/
def SavesThroughMakedumpfile (s : Saving) : Prop :=
  ∃ p ∈ s.performed, p.source.isProcess = true ∧ ∃ m_split, p.target_files = vmcoreFiles m_split

section

variable {c : Configuration fadump} {w : Machine} {s : Saving}

/-- Saving dmesg always goes on. -/
theorem wp_saveDmesg {Q : Unit → Saving → Prop} {E : Thrown → Saving → Prop} :
    wp (saveDmesg w) Q E s ↔ Q () { s with performed := s.performed ++ [dmesgCall s.obj] } := by
  rw [saveDmesg, wp_bind, wp_get, wp_tryCatch, performIndirect, wp_bind, wp_modify, wp_ofExcept]
  cases (w.perform (dmesgCall s.obj)).2 <;> rfl

theorem wp_performDirect {I : Saving → Prop} (p : Performed) :
    wp (performDirect w p) (fun _ => I) (fun _ => I) s ↔
      I ⟨{ s.obj with m_usedDirectSave := (w.perform p).1 }, s.performed ++ [p]⟩ := by
  rw [performDirect, wp_bind, wp_modify, wp_ofExcept]
  cases (w.perform p).2 <;> rfl

theorem dmesg_ne_vmcoreFiles (m_split : Nat) : [str "dmesg.txt"] ≠ vmcoreFiles m_split := by
  have hhead : ∀ names : Str, str "dmesg.txt" ≠ str "vmcore" ++ names := fun names h =>
    absurd (List.cons.inj h).1 (by decide)
  intro h
  rw [vmcoreFiles] at h
  split_ifs at h with hsplit
  · obtain ⟨i, _, hi⟩ := List.mem_map.1 (h ▸ List.mem_singleton_self (str "dmesg.txt"))
    exact hhead _ hi.symm
  · exact absurd h (by decide)

/-- The call behind the others decides. -/
theorem savesThrough_append {obj : SaveDump} {p : Performed} {n : Nat}
    (h : ¬ SavesThroughMakedumpfile s) (hp : p.target_files = vmcoreFiles n) :
    SavesThroughMakedumpfile ⟨obj, s.performed ++ [p]⟩ ↔ p.source.isProcess = true := by
  constructor
  · rintro ⟨q, hq, hprocess, hfiles⟩
    rcases List.mem_append.1 hq with hq | hq
    · exact absurd ⟨q, hq, hprocess, hfiles⟩ h
    · rwa [List.mem_singleton.1 hq] at hprocess
  · exact fun hprocess => ⟨p, List.mem_append_right _ (List.mem_singleton_self p), hprocess, n, hp⟩

theorem not_savesThrough_dmesg (obj : SaveDump) :
    ¬ SavesThroughMakedumpfile ⟨obj, [dmesgCall obj]⟩ := by
  rintro ⟨q, hq, _, n, hfiles⟩
  rw [List.mem_singleton.1 hq] at hfiles
  exact dmesg_ne_vmcoreFiles n hfiles

theorem isProcess_dumpSource (dumplevel : Int32) (excludeDomU : Bool) (obj : SaveDump) :
    (dumpSource c dumplevel excludeDomU obj).isProcess = true ↔
      ¬ (isFormat c "elf" = true ∧ dumplevel = 0 ∧ excludeDomU = false) := by
  rw [dumpSource]
  split_ifs with h
  · simp_all [Source.isProcess]
  · simp_all [Source.isProcess]

/-- The questions to the system have answers. -/
def Answered (c : Configuration fadump) (w : Machine) (exclude : Bool) : Prop :=
  (∃ n, cpus c w = .ok n) ∧ excludeDomU c w = .ok exclude

theorem saveVmcore_iff (dumplevel : Int32) (h : ¬ SavesThroughMakedumpfile s) :
    SavesThroughMakedumpfile (endState (saveVmcore c w dumplevel s)) ↔
      isFormat c "none" = false ∧ ∃ exclude, Answered c w exclude ∧
        ¬ (isFormat c "elf" = true ∧ dumplevel = 0 ∧ exclude = false) := by
  rw [← @wp_endState _ _ _ (saveVmcore c w dumplevel) s SavesThroughMakedumpfile, saveVmcore]
  by_cases hnone : isFormat c "none" = true
  · rw [if_pos hnone, wp_pure, hnone]
    exact iff_of_false h fun hfalse => Bool.noConfusion hfalse.1
  · rw [if_neg hnone, wp_bind, wp_ofExcept]
    cases hcpus : cpus c w with
    | error e =>
        refine iff_of_false h ?_
        rintro ⟨_, _, ⟨⟨n, hn⟩, _⟩, _⟩
        exact error_ne_ok (hcpus.symm.trans hn)
    | ok n =>
        dsimp only
        rw [wp_bind, modifyDump, wp_modify, wp_bind, wp_ofExcept]
        cases hexclude : excludeDomU c w with
        | error e =>
            refine iff_of_false h ?_
            rintro ⟨_, _, ⟨_, hex⟩, _⟩
            exact error_ne_ok (hexclude.symm.trans hex)
        | ok exclude =>
            dsimp only
            rw [wp_bind, wp_get, wp_bind, modifyDump, wp_modify, wp_performDirect]
            -- both values are there, so the source that is chosen decides
            refine (savesThrough_append h rfl).trans ((isProcess_dumpSource _ _ _).trans ?_)
            constructor
            · exact fun hsource =>
                ⟨Bool.eq_false_iff.2 hnone, exclude, ⟨⟨n, hcpus⟩, hexclude⟩, hsource⟩
            · rintro ⟨_, exclude', ⟨_, hex⟩, hsource⟩
              cases hexclude.symm.trans hex
              exact hsource

/-- There is something to save. -/
def HasDump (w : Machine) : Prop :=
  w.dumpExists = true ∧ ∃ size, size ≠ 0 ∧ w.fileSize = .ok size

theorem saves_iff (obj : SaveDump) :
    SavesThroughMakedumpfile (endState (saveDump c w ⟨obj, []⟩)) ↔
      HasDump w ∧ isFormat c "none" = false ∧ ∃ exclude, Answered c w exclude ∧
        ¬ (isFormat c "elf" = true ∧ validLevel (c.intValue "KDUMP_DUMPLEVEL") = 0 ∧
          exclude = false) := by
  have hnothing : ¬ SavesThroughMakedumpfile ⟨obj, []⟩ := fun ⟨_, hp, _⟩ => List.not_mem_nil hp
  rw [← @wp_endState _ _ _ (saveDump c w) ⟨obj, []⟩ SavesThroughMakedumpfile, saveDump, wp_bind,
    wp_get]
  by_cases hexists : w.dumpExists = true
  · rw [if_neg (by rw [hexists]; exact Bool.false_ne_true), wp_bind, wp_ofExcept]
    cases hsize : w.fileSize with
    | error e =>
        refine iff_of_false hnothing ?_
        rintro ⟨⟨_, size, _, h⟩, _⟩
        exact error_ne_ok (hsize.symm.trans h)
    | ok size =>
        dsimp only
        by_cases hzero : size = 0
        · rw [if_pos hzero, wp_throw]
          refine iff_of_false hnothing ?_
          rintro ⟨⟨_, size', hne, h⟩, _⟩
          cases hsize.symm.trans h
          exact hne hzero
        · rw [if_neg hzero, wp_bind, wp_saveDmesg, wp_endState]
          refine (saveVmcore_iff _ (not_savesThrough_dmesg obj)).trans ?_
          exact (and_iff_right ⟨hexists, size, hzero, hsize⟩).symm
  · rw [if_pos (by rw [Bool.eq_false_iff.2 hexists]; rfl), wp_throw]
    exact iff_of_false hnothing fun h => hexists h.1.1

theorem excludeDomU_iff : excludeDomU c w = .ok true ↔
    c.kdumptoolContainsFlag "XENALLDOMAINS" = false ∧ w.isXenCoreDump = .ok true := by
  rw [excludeDomU]
  cases c.kdumptoolContainsFlag "XENALLDOMAINS" with
  | false => exact (and_iff_right rfl).symm
  | true => exact iff_of_false (fun h => by cases h) fun h => by cases h.1

theorem cpus_iff : (∃ n, cpus c w = .ok n) ↔ configuredCpus c = 0 ∨ ∃ n, w.numOnline = .ok n := by
  rw [cpus]
  by_cases hzero : configuredCpus c = 0
  · rw [if_neg (not_not.2 hzero)]
    exact iff_of_true ⟨_, rfl⟩ (.inl hzero)
  · rw [if_pos hzero, or_iff_right hzero]
    cases w.numOnline with
    | ok n => exact iff_of_true ⟨_, rfl⟩ ⟨n, rfl⟩
    | error e => exact iff_of_false (fun ⟨_, h⟩ => by cases h) fun ⟨_, h⟩ => by cases h

/-! ## Agreement with `needsMakedumpfile` -/

/-- Nothing was reserved for what is going to run: a dump of Xen in the ELF format, from which
nothing but the unprivileged domains is left out. -/
structure Unreserved (c : Configuration fadump) (w : Machine) : Prop where
  dump : HasDump w
  elf : isFormat c "elf" = true
  level : c.intValue "KDUMP_DUMPLEVEL" = 0
  cpus : configuredCpus c = 0 ∨ ∃ n, w.numOnline = .ok n
  domains : c.kdumptoolContainsFlag "XENALLDOMAINS" = false
  xen : w.isXenCoreDump = .ok true

theorem not_none_of_elf (h : isFormat c "elf" = true) : isFormat c "none" = false := by
  rw [isFormat, Configuration.equalNoCase, decide_eq_true_eq] at h
  rw [isFormat, Configuration.equalNoCase, h]
  decide

theorem needsMakedumpfile_iff : c.needsMakedumpfile = false ↔
    c.intValue "KDUMP_DUMPLEVEL" = 0 ∧ (isFormat c "none" = true ∨ isFormat c "elf" = true) := by
  rw [Configuration.needsMakedumpfile, Bool.or_eq_false_iff, Bool.and_eq_false_iff,
    Bool.not_eq_false', Bool.not_eq_false', decide_eq_false_iff_not, not_not]
  rfl

/-- Calibrate and `save_dump` agree on `makedumpfile`, unless a dump of Xen is merely to be freed of
its domains. -/
theorem reserved_iff (c : Configuration fadump) (w : Machine) (obj : SaveDump) :
    (SavesThroughMakedumpfile (endState (saveDump c w ⟨obj, []⟩)) →
      c.needsMakedumpfile = true) ↔ ¬ Unreserved c w := by
  rw [saves_iff]
  constructor
  · intro h hun
    have hneeds : c.needsMakedumpfile = false :=
      needsMakedumpfile_iff.2 ⟨hun.level, .inr hun.elf⟩
    have hsaves := h ⟨hun.dump, not_none_of_elf hun.elf, true,
      ⟨cpus_iff.2 hun.cpus, excludeDomU_iff.2 ⟨hun.domains, hun.xen⟩⟩, fun hfile =>
        Bool.noConfusion hfile.2.2⟩
    exact Bool.noConfusion (hneeds.symm.trans hsaves)
  · rintro hreserved ⟨hdump, hnone, exclude, ⟨hcpus, hexclude⟩, hprocess⟩
    by_contra hneeds
    obtain ⟨hlevel, hformat⟩ := needsMakedumpfile_iff.1 (Bool.eq_false_iff.2 hneeds)
    have helf := hformat.resolve_left (Bool.eq_false_iff.1 hnone)
    have hvalid : validLevel (c.intValue "KDUMP_DUMPLEVEL") = 0 := by
      rw [hlevel]
      rfl
    cases exclude with
    | false => exact hprocess ⟨helf, hvalid, rfl⟩
    | true =>
        obtain ⟨hdomains, hxen⟩ := excludeDomU_iff.1 hexclude
        exact hreserved ⟨hdump, helf, hlevel, cpus_iff.1 hcpus, hdomains, hxen⟩

end

/-! ## A dump of Xen -/

/-- The whole memory, in the ELF format. -/
def elfConfiguration : Configuration false :=
  (Configuration.defaults false).withValues fun name =>
    if name = str "KDUMP_DUMPLEVEL" then some (str "0")
    else if name = str "KDUMP_DUMPFORMAT" then some (str "elf")
    else none

def xenMachine : Machine where
  dumpExists := true
  fileSize := .ok 4096
  numOnline := .ok 1
  isXenCoreDump := .ok true
  perform _ := (false, .ok ())

/-- The dump is read through `makedumpfile`, for which nothing was reserved. -/
theorem xen_dump_unreserved :
    ¬ ∀ (fadump : Bool) (c : Configuration fadump) (w : Machine) (obj : SaveDump),
      SavesThroughMakedumpfile (endState (saveDump c w ⟨obj, []⟩)) →
        c.needsMakedumpfile = true := by
  intro h
  have hcalls : (endState (saveDump elfConfiguration xenMachine
      ⟨SaveDump.new (str "/proc/vmcore") [] [] [] false, []⟩)).performed =
      [dmesgCall (SaveDump.new (str "/proc/vmcore") [] [] [] false),
        ⟨.process (str "makedumpfile  -d 0 -X -E /proc/vmcore -F")
          (str "makedumpfile  -d 0 -X -E /proc/vmcore"), [str "vmcore"]⟩] := by decide +kernel
  have hsaves : SavesThroughMakedumpfile (endState (saveDump elfConfiguration xenMachine
      ⟨SaveDump.new (str "/proc/vmcore") [] [] [] false, []⟩)) := by
    rw [SavesThroughMakedumpfile, hcalls]
    exact ⟨_, List.mem_cons_of_mem _ List.mem_cons_self, rfl, 0, rfl⟩
  have hneeds : elfConfiguration.needsMakedumpfile = false := by decide +kernel
  exact Bool.noConfusion (hneeds.symm.trans (h false elfConfiguration xenMachine _ hsaves))

end Dump
end Kdump

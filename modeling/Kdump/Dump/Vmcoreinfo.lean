import Kdump.Lib.ByteOrder
import Kdump.Lib.Loop
import Kdump.StringUtil

/-!
# Vmcoreinfo — reading the VMCOREINFO of a dump

`readVmcoreinfoFromNotes` walks over the notes of an ELF file, `readFromELF` cuts the text of a note
into lines.  What libelf and `read` give for the file, the bytes of the first `PT_NOTE` segment and
the class of the file, is an argument.
-/

namespace Kdump
namespace Dump

open Lib Config

/-! ## Notes -/

/-- What a `const char *` can point to. -/
structure CString where
  text : Str
  plain : (0 : UInt8) ∉ text

structure Vmcoreinfo where
  m_map : StringStringMap
  m_xenVmcoreinfo : Bool

abbrev Prog := EStateM Thrown Vmcoreinfo

/-- `VMCOREINFO_NOTE_NAME` with its terminating NUL byte; `VMCOREINFO_NOTE_NAME_BYTES` is the
length. -/
def VMCOREINFO_NOTE_NAME : Str :=
  str "VMCOREINFO" ++ [0]

def VMCOREINFO_XEN_NOTE_NAME : Str :=
  str "VMCOREINFO_XEN" ++ [0]

/-- Whether `strncmp` with the length of its first argument gives zero. -/
def strncmp : Str → Str → Except Thrown Bool
  | [], _ => .ok true
  | _ :: _, [] => .error .undefined
  | a :: s, b :: t => if a ≠ b then .ok false else if a = 0 then .ok true else strncmp s t

/-- What the walk makes of the name of a note. -/
inductive NoteName where
  | xen
  | vmcoreinfo
  | other
  deriving DecidableEq, Repr

def noteName (name : Str) : Except Thrown NoteName :=
  match strncmp VMCOREINFO_XEN_NOTE_NAME name with
  | .error e => .error e
  | .ok true => .ok .xen
  | .ok false =>
      match strncmp VMCOREINFO_NOTE_NAME name with
      | .error e => .error e
      | .ok true => .ok .vmcoreinfo
      | .ok false => .ok .other

/-- `Elf64_Nhdr` and `Elf32_Nhdr` have the same three members. -/
structure Nhdr where
  n_namesz : UInt32
  n_descsz : UInt32
  n_type : UInt32

def sizeofNhdr : (isElf64 : Bool) → Nat
  | true => 12
  | false => 12

/-- The header at a place of the buffer. -/
def nhdr (order : ByteOrder) (bytes : Str) : Option Nhdr :=
  if 12 ≤ bytes.length then
    some ⟨UInt32.ofNat (order.value (bytes.take 4)),
      UInt32.ofNat (order.value ((bytes.drop 4).take 4)),
      UInt32.ofNat (order.value ((bytes.drop 8).take 4))⟩
  else
    none

/-- `(n + 3) & ~3`. -/
def pad4 (n : UInt32) : UInt32 :=
  (n + 3) &&& ~~~3

/-- The local variables of `readVmcoreinfoFromNotes`, and the member that it sets. -/
structure Locals where
  offset : Nat
  offset_vmcoreinfo : Nat
  size_vmcoreinfo : Nat
  m_xenVmcoreinfo : Bool
  deriving DecidableEq

variable (order : ByteOrder) (buffer : Str) (isElf64 : Bool)

/-- One pass of `while (offset < loff_t(size))`. -/
def step (s : Locals) : Step Locals (Except Thrown Locals) :=
  if s.offset < buffer.length then
    match nhdr order (buffer.drop s.offset) with
    | none => .done (.error .undefined)
    | some note =>
        let add_offset := sizeofNhdr isElf64
        let desc := s.offset + (add_offset + (pad4 note.n_namesz).toNat)
        let next := desc + (pad4 note.n_descsz).toNat
        match noteName (buffer.drop (s.offset + add_offset)) with
        | .error e => .done (.error e)
        | .ok .xen => .next ⟨next, desc, note.n_descsz.toNat, true⟩
        | .ok .vmcoreinfo =>
            .done (.ok { s with
              offset_vmcoreinfo := desc
              size_vmcoreinfo := note.n_descsz.toNat })
        | .ok .other => .next { s with offset := next }
  else
    .done (.ok s)

theorem sizeofNhdr_eq : sizeofNhdr isElf64 = 12 := by
  cases isElf64 <;> rfl

theorem step_offset_lt {s s' : Locals} (h : step order buffer isElf64 s = .next s') :
    buffer.length - s'.offset < buffer.length - s.offset := by
  have hsize := sizeofNhdr_eq isElf64
  unfold step at h
  split_ifs at h with hlt
  cases hnote : nhdr order (buffer.drop s.offset) with
  | none =>
      rw [hnote] at h
      cases h
  | some note =>
      simp only [hnote] at h
      split at h
      · cases h
      · cases h
        dsimp only
        omega
      · cases h
      · cases h
        dsimp only
        omega

def loop : Loop Locals (Except Thrown Locals) where
  step := step order buffer isElf64
  measure s := buffer.length - s.offset
  decreases := step_offset_lt order buffer isElf64

/-- What is copied behind the loop. -/
def found (s : Locals) : Except Thrown ByteVector :=
  if s.offset_vmcoreinfo = 0 ∧ s.size_vmcoreinfo = 0 then
    .error (.KError (str "VMCOREINFO not found."))
  else if s.offset_vmcoreinfo + s.size_vmcoreinfo ≤ buffer.length then
    .ok ((buffer.drop s.offset_vmcoreinfo).take s.size_vmcoreinfo)
  else
    .error .undefined

/-- `Vmcoreinfo::readVmcoreinfoFromNotes`. -/
def readVmcoreinfoFromNotes : Prog ByteVector := do
  let vm ← get
  match (loop order buffer isElf64).eval ⟨0, 0, 0, vm.m_xenVmcoreinfo⟩ with
  | .error e => throw e
  | .ok s =>
      set { vm with m_xenVmcoreinfo := s.m_xenVmcoreinfo }
      match found buffer s with
      | .error e => throw e
      | .ok ret => pure ret

/-! ## Text -/

/-- One pass of the loop in `readFromELF`. -/
def addLine (m_map : StringStringMap) (line : Str) : StringStringMap :=
  let line := KString.trim KString.blanks line
  if line = [] ∨ line.head? = some 0 then
    m_map
  else if eqSign ∈ line then
    m_map.insert (line.takeWhile (· ≠ eqSign)) ((line.dropWhile (· ≠ eqSign)).drop 1)
  else
    m_map

/-- `Vmcoreinfo::readFromELF`; `segment` is what `readElfNote` gets out of the file. -/
def readFromELF (order : ByteOrder) (segment : Except Thrown (Str × Bool)) : Prog Unit :=
  match segment with
  | .error e => throw e
  | .ok (buffer, isElf64) => do
      let note ← readVmcoreinfoFromNotes order buffer isElf64
      modify fun vm => { vm with m_map := (KString.split newline note).foldl addLine vm.m_map }

/-- `Vmcoreinfo::getStringValue`. -/
def getStringValue (vm : Vmcoreinfo) (key : CString) : Except Thrown Str :=
  match vm.m_map[key.text]? with
  | none => .error (.KError (str "Vmcoreinfo: key " ++ key.text ++ str " not found."))
  | some value => .ok value

/-- `Vmcoreinfo::getLLongValue`, which returns an `int`. -/
def getLLongValue (vm : Vmcoreinfo) (key : CString) : Except Thrown Int32 :=
  match getStringValue vm key with
  | .error e => .error e
  | .ok value => (KString.asLongLong value).map Int64.toInt32

end Dump
end Kdump

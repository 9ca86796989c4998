import Kdump.Kernel.ConfigLength
import Kdump.Kernel.Kconfig
import Kdump.Kernel.KernelPath
import Kdump.Lib.ByteOrder

/-!
# KernelType — the kinds of kernel images, and their configuration

The kind of an image is found from its first bytes.  ELF images may be compressed, and everything
but that is read through zlib.

* `Boot` — what the program sees of the system;
* `getKernelType`, `isRelocatable`, `retrieveKernelConfig` — the member functions of `KernelTool`;
* `isRelocatable_gunzip`, `extractKernelConfig_gunzip` — an ELF image may as well be unpacked.
-/

namespace Kdump
namespace Kernel

open Lib Dump

/-! ## The system -/

/-- What the program sees of the system, and of zlib. -/
structure Boot where
  /-- `Util::getArch` -/
  arch : Str
  /-- `Util::getKernelRelease` -/
  release : Str
  /-- `FilePath::exists` -/
  exists_ : Str → Bool
  /-- `open(2)` for reading: the bytes of the file -/
  open_ : Str → Except Errno Str
  /-- the value in `errno` when a read has been too short -/
  errno : Errno
  /-- what `gzread` gives of a file: its bytes, unpacked if they are compressed -/
  gunzip : Str → Str
  /-- `KernelTool::extractFromIKconfigBuffer` -/
  inflate : Str → Except Thrown Str

/-- `Util::isX86`. -/
def isX86 (arch : Str) : Bool :=
  arch = str "i386" || arch = str "i686" || arch = str "i586" || arch = str "x86_64"

/-- `read(fd, buffer, n)` at an offset. -/
def readAt (image : Str) (offset n : Nat) : Str :=
  (image.drop offset).take n

/-- A little-endian number. -/
def leValue (bytes : Str) : Nat :=
  bytes.foldr (fun c n => c.toNat + 256 * n) 0

/-- `be16toh` or `le16toh` of two bytes. -/
def half (bigEndian : Bool) (bytes : Str) : Nat :=
  leValue (if bigEndian then bytes.reverse else bytes)

/-! ## The kinds of images -/

inductive KernelType where
  | KT_ELF
  | KT_ELF_GZ
  | KT_X86
  | KT_S390
  | KT_AARCH64
  | KT_NONE
  deriving DecidableEq, Repr

def X86_HEADER_OFF_START : Nat := 0x202
def X86_HEADER_OFF_VERSION : Nat := 0x206
def X86_HEADER_OFF_RELOCATABLE : Nat := 0x234
def X86_HEADER_OFF_MAGIC : Nat := 0x53726448
def X86_HEADER_RELOCATABLE_VER : Nat := 0x205

def S390_HEADER_OFF_IPLSTART : Nat := 4
def S390_HEADER_SIZE_IPLSTART : Nat := 4

def S390_HEADER : Str :=
  [0x00, 0x08, 0x00, 0x00, 0x80, 0x00, 0x00, 0x00,
    0x02, 0x00, 0x00, 0x18, 0x60, 0x00, 0x00, 0x50,
    0x02, 0x00, 0x00, 0x68, 0x60, 0x00, 0x00, 0x50] ++
  List.replicate 56 0x40 ++
  [0x02, 0x00, 0x00, 0xf0, 0x60, 0x00, 0x00, 0x50,
    0x02, 0x00, 0x01, 0x40, 0x60, 0x00, 0x00, 0x50,
    0x02, 0x00, 0x01, 0x90, 0x60, 0x00, 0x00, 0x50,
    0x02, 0x00, 0x01, 0xe0, 0x60, 0x00, 0x00, 0x50,
    0x02, 0x00, 0x02, 0x30, 0x60, 0x00, 0x00, 0x50,
    0x02, 0x00, 0x02, 0x80, 0x60, 0x00, 0x00, 0x50,
    0x02, 0x00, 0x02, 0xd0, 0x60, 0x00, 0x00, 0x50,
    0x02, 0x00, 0x03, 0x20, 0x60, 0x00, 0x00, 0x50,
    0x02, 0x00, 0x03, 0x70, 0x60, 0x00, 0x00, 0x50,
    0x02, 0x00, 0x03, 0xc0, 0x60, 0x00, 0x00, 0x50,
    0x02, 0x00, 0x04, 0x10, 0x60, 0x00, 0x00, 0x50,
    0x02, 0x00, 0x04, 0x60, 0x60, 0x00, 0x00, 0x50,
    0x02, 0x00, 0x04, 0xb0, 0x60, 0x00, 0x00, 0x50,
    0x02, 0x00, 0x05, 0x00, 0x60, 0x00, 0x00, 0x50,
    0x02, 0x00, 0x05, 0x50, 0x60, 0x00, 0x00, 0x50,
    0x02, 0x00, 0x05, 0xa0, 0x60, 0x00, 0x00, 0x50,
    0x02, 0x00, 0x05, 0xf0, 0x60, 0x00, 0x00, 0x50,
    0x02, 0x00, 0x06, 0x40, 0x60, 0x00, 0x00, 0x50,
    0x02, 0x00, 0x06, 0x90, 0x60, 0x00, 0x00, 0x50,
    0x02, 0x00, 0x06, 0xe0, 0x20, 0x00, 0x00, 0x50]

section

variable (b : Boot)

/-- `Util::isElfFile`. -/
def isElfFile (image : Str) : Except Thrown Bool :=
  let buffer := (b.gunzip image).take 4
  if buffer.length ≠ 4 then
    .error (.KError (str "IdentifyKernel::isElfFile: Couldn't read bytes"))
  else .ok (buffer = 0x7f :: str "ELF")

/-- `Util::isGzipFile`.  The buffer is not set if the file is too short, but then it is none of the
files that this is asked about. -/
def isGzipFile (image : Str) : Bool :=
  readAt image 0 2 = [0x1f, 0x8b]

/-- `KernelTool::isX86Kernel`. -/
def isX86Kernel (image : Str) : Except Thrown Bool :=
  let buffer := readAt image X86_HEADER_OFF_START 4
  if buffer.length ≠ 4 then
    .error (.KSystemError (str "IdentifyKernel::isX86Kernel: read of magic start failed") b.errno)
  else .ok (leValue buffer = X86_HEADER_OFF_MAGIC)

/-- `KernelTool::isS390Kernel`: the start address is not compared. -/
def isS390Kernel (image : Str) : Bool :=
  let buffer := readAt image 0 S390_HEADER.length
  if buffer.length < S390_HEADER.length then false
  else
    buffer.take S390_HEADER_OFF_IPLSTART ++
        readAt S390_HEADER S390_HEADER_OFF_IPLSTART S390_HEADER_SIZE_IPLSTART ++
        buffer.drop (S390_HEADER_OFF_IPLSTART + S390_HEADER_SIZE_IPLSTART) = S390_HEADER

/-- `KernelTool::isAarch64Kernel`. -/
def isAarch64Kernel (image : Str) : Bool :=
  let buffer := readAt image 0 64
  if buffer.length < 64 then false else leValue (readAt buffer 56 4) = 0x644d5241

/-- `KernelTool::getKernelType`. -/
def getKernelType (image : Str) : Except Thrown KernelType := do
  if ← isElfFile b image then
    return if isGzipFile image then .KT_ELF_GZ else .KT_ELF
  else if isX86 b.arch then
    return if ← isX86Kernel b image then .KT_X86 else .KT_NONE
  else if b.arch = str "s390x" then
    return if isS390Kernel image then .KT_S390 else .KT_NONE
  else if b.arch = str "aarch64" then
    return if isAarch64Kernel image then .KT_AARCH64 else .KT_NONE
  else return .KT_NONE

/-! ## The configuration -/

/-- The end of both functions below: `gzseek`, `gzread` and the unpacking.  For a negative length
`new` throws, which no handler tells from the exception that stands here. -/
def readIKconfig (raw : Str) (end_offset kernelconfig_len : Int) : Except Thrown Str :=
  if kernelconfig_len < 0 then .error .lengthError
  else
    let kernelconfig := readAt raw (end_offset - kernelconfig_len).toNat kernelconfig_len.toNat
    if kernelconfig.length ≠ kernelconfig_len.toNat then
      .error (.KError (str "Cannot read IKCONFIG."))
    else b.inflate kernelconfig

variable (m_kernel : Str)

/-- `KernelTool::extractKernelConfigELF`. -/
def extractKernelConfigELF (image : Str) : Except Thrown Str := do
  let raw := b.gunzip image
  let len ← lengthELF m_kernel BUFSIZ raw
  readIKconfig b raw (scanELF BUFSIZ raw).2 len

/-- `KernelTool::extractKernelConfigbzImage`. -/
def extractKernelConfigbzImage (image : Str) : Except Thrown Str := do
  let begin_offset ← gzipStart BUFSIZ image
  let raw := b.gunzip (image.drop begin_offset.toNat)
  let len ← lengthBzImage m_kernel BUFSIZ b.gunzip image
  readIKconfig b raw (scanBzImage BUFSIZ raw).2 len

/-- `KernelTool::extractKernelConfig`. -/
def extractKernelConfig (image : Str) : Except Thrown Str := do
  match ← getKernelType b image with
  | .KT_ELF | .KT_ELF_GZ | .KT_S390 | .KT_AARCH64 => extractKernelConfigELF b m_kernel image
  | .KT_X86 => extractKernelConfigbzImage b m_kernel image
  | .KT_NONE => .error (.KError (str "Invalid kernel image: " ++ m_kernel))

/-- `KernelTool::retrieveKernelConfig`. -/
def retrieveKernelConfig (image : Str) : Except Thrown Kconfig.Configs :=
  let kpath := KernelPath.new b.arch m_kernel
  if kpath.m_version ≠ [] ∧ b.exists_ kpath.configPath then
    match b.open_ kpath.configPath with
    | .error _ => .error (.KError (str "Opening '" ++ kpath.configPath ++ str "' failed."))
    | .ok fp => Kconfig.readFromConfig (b.gunzip fp) ∅
  else do
    let ss ← extractKernelConfig b m_kernel image
    Kconfig.readFromKernel ss ∅

/-- `Kconfig::get`. -/
def Kconfig.get (m_configs : Kconfig.Configs) (option : Str) : KconfigValue :=
  m_configs.getD option .T_INVALID

/-- The option is set to `y`. -/
def isOn (kv : KconfigValue) : Bool :=
  kv = .T_TRISTATE .ON

/-! ## Relocatable kernels -/

/-- `KernelTool::x86isRelocatable`. -/
def x86isRelocatable (image : Str) : Except Thrown Bool :=
  let magic := readAt image X86_HEADER_OFF_START 4
  let version := readAt image X86_HEADER_OFF_VERSION 2
  let relocatable := readAt image X86_HEADER_OFF_RELOCATABLE 1
  if magic.length ≠ 4 then
    .error (.KSystemError
      (str "IdentifyKernel::checkArchFileX86: read of magic start failed") b.errno)
  else if leValue magic ≠ X86_HEADER_OFF_MAGIC then
    .error (.KError (str "This is not a kernel image"))
  else if version.length ≠ 2 then
    .error (.KSystemError
      (str "IdentifyKernel::checkArchFileX86: read of version failed") b.errno)
  else if leValue version < X86_HEADER_RELOCATABLE_VER then .ok false
  else if relocatable.length ≠ 1 then
    .error (.KSystemError
      (str "IdentifyKernel::checkArchFileX86: read of relocatable bit failed") b.errno)
  else .ok (leValue relocatable ≠ 0)

/-- `KernelTool::archFromElfMachine`. -/
def archFromElfMachine (et_machine : Nat) : Str :=
  if et_machine = 3 then str "i386"
  else if et_machine = 20 then str "ppc"
  else if et_machine = 21 then str "ppc64"
  else if et_machine = 22 then str "s390"
  else if et_machine = 50 then str "ia64"
  else if et_machine = 62 then str "x86_64"
  else if et_machine = 183 then str "aarch64"
  else str "unknown"

/-- `KernelTool::isArchAlwaysRelocatable`. -/
def isArchAlwaysRelocatable (machine : Str) : Bool :=
  machine = str "ia64" || machine = str "aarch64"

/-- `KernelTool::hasConfigRelocatable`. -/
def hasConfigRelocatable (machine : Str) : Bool :=
  isX86 machine || machine = str "ppc64" || machine = str "ppc"

/-- `KernelTool::isConfigRelocatable`. -/
def isConfigRelocatable (image : Str) : Except Thrown Bool :=
  match retrieveKernelConfig b m_kernel image with
  | .ok kconfig => .ok (isOn (Kconfig.get kconfig (str "CONFIG_RELOCATABLE")))
  | .error e => if isKError e then .ok false else .error e

/-- The machine in the header of an ELF file. -/
def elfMachine (raw : Str) : Except Thrown Nat :=
  let e_ident := raw.take 16
  let header (size : Nat) : Except Thrown Nat :=
    let hdr := raw.take size
    if hdr.length ≠ size then
      .error (.KSystemError (str "Couldn't read ELF header") b.errno)
    else if (e_ident.drop 5).head? = some 1 then .ok (half false (readAt hdr 18 2))
    else if (e_ident.drop 5).head? = some 2 then .ok (half true (readAt hdr 18 2))
    else .error (.KError (str "elfIsRelocatable(): Invalid ELF data encoding"))
  if e_ident.length ≠ 16 then
    .error (.KSystemError (str "check_elf_file: Failed to read") b.errno)
  else if (e_ident.drop 4).head? = some 1 then header 52
  else if (e_ident.drop 4).head? = some 2 then header 64
  else .error (.KError (str "elfIsRelocatable(): Invalid ELF class"))

/-- `KernelTool::elfIsRelocatable`. -/
def elfIsRelocatable (image : Str) : Except Thrown Bool := do
  let machine ← elfMachine b (b.gunzip image)
  let arch := archFromElfMachine machine
  if isArchAlwaysRelocatable arch then return true
  else if hasConfigRelocatable arch then isConfigRelocatable b m_kernel image
  else return false

/-- `KernelTool::isRelocatable`. -/
def isRelocatable (image : Str) : Except Thrown Bool := do
  match ← getKernelType b image with
  | .KT_ELF | .KT_ELF_GZ => elfIsRelocatable b m_kernel image
  | .KT_X86 => x86isRelocatable b image
  | .KT_S390 | .KT_AARCH64 => return true
  | .KT_NONE => .error (.KError (str "Invalid kernel type."))

end

/-! ## Compressed images -/

section

variable {b : Boot} {m_kernel image image' : Str}

theorem getKernelType_of_elf (helf : isElfFile b image = .ok true) :
    getKernelType b image = .ok (if isGzipFile image then .KT_ELF_GZ else .KT_ELF) := by
  rw [getKernelType, helf]
  rfl

theorem isElfFile_gunzip (h : b.gunzip image = b.gunzip image') :
    isElfFile b image = isElfFile b image' := by
  unfold isElfFile
  rw [h]

/-- The two kinds of ELF images are treated alike. -/
theorem extractKernelConfig_of_elf (helf : isElfFile b image = .ok true) :
    extractKernelConfig b m_kernel image = extractKernelConfigELF b m_kernel image := by
  rw [extractKernelConfig, getKernelType_of_elf helf]
  cases isGzipFile image <;> rfl

theorem isRelocatable_of_elf (helf : isElfFile b image = .ok true) :
    isRelocatable b m_kernel image = elfIsRelocatable b m_kernel image := by
  rw [isRelocatable, getKernelType_of_elf helf]
  cases isGzipFile image <;> rfl

theorem retrieveKernelConfig_gunzip (helf : isElfFile b image = .ok true)
    (h : b.gunzip image = b.gunzip image') :
    retrieveKernelConfig b m_kernel image = retrieveKernelConfig b m_kernel image' := by
  have helf' := (isElfFile_gunzip h).symm.trans helf
  unfold retrieveKernelConfig
  rw [extractKernelConfig_of_elf helf, extractKernelConfig_of_elf helf', extractKernelConfigELF,
    extractKernelConfigELF, h]

theorem isRelocatable_gunzip (helf : isElfFile b image = .ok true)
    (h : b.gunzip image = b.gunzip image') :
    isRelocatable b m_kernel image = isRelocatable b m_kernel image' := by
  have helf' := (isElfFile_gunzip h).symm.trans helf
  rw [isRelocatable_of_elf helf, isRelocatable_of_elf helf', elfIsRelocatable, elfIsRelocatable, h]
  unfold isConfigRelocatable
  rw [retrieveKernelConfig_gunzip helf h]

end

end Kernel
end Kdump

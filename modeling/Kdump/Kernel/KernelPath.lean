import Kdump.Mount.MountTransfer
import Kdump.Path.Joining

/-!
# KernelPath — what belongs to a kernel image

The name of an image is one of a few that depend on the architecture, with the version behind a
hyphen.  The configuration and the initrd have the same version in their names.

* `imageNames` — the names of images;
* `KernelPath.new` — a path, taken apart;
* `new_bootImage` — the parts of the path of an image;
* `initrdPath_eq_iff` — when two versions have the same initrd.
-/

namespace Kdump
namespace Kernel

open Kdump.Path (FilePath.appendPath FilePath.appendPath_eq rtrimSlash)

/-- `-`. -/
abbrev hyphen : UInt8 := 45

/-- `KString::startsWith`. -/
def startsWith (s part : Str) : Bool :=
  part.isPrefixOf s

/-- `KString::endsWith`. -/
def endsWith (s part : Str) : Bool :=
  part.isSuffixOf s

/-! ## The class -/

/-- `KernelPath::imageNames`. -/
def imageNames (arch : Str) : List Str :=
  if arch = str "i386" ∨ arch = str "x86_64" then [str "vmlinuz", str "vmlinux"]
  else if arch = str "ia64" then [str "vmlinuz"]
  else if arch = str "s390x" then [str "image"]
  else if arch = str "aarch64" then [str "Image"]
  else [str "vmlinux"]

structure KernelPath where
  m_directory : Str
  m_name : Str
  m_version : Str
  deriving DecidableEq, Repr

namespace KernelPath

/-- The loop of the constructor: `m_name` and `m_version` behind it. -/
def takeApart (m_name : Str) : (names : List Str) → Str × Str
  | [] => (m_name, [])
  | pfx :: names =>
      if startsWith m_name pfx then
        if m_name.length = pfx.length then (pfx, [])
        else if (m_name.drop pfx.length).head? = some hyphen then
          (pfx, m_name.drop (pfx.length + 1))
        else takeApart m_name names
      else takeApart m_name names

/-- `KernelPath::KernelPath`. -/
def new (arch path : Str) : KernelPath :=
  let parts := takeApart (Mount.baseName path) (imageNames arch)
  ⟨Mount.dirName path, parts.1, parts.2⟩

/-- `KernelPath::isKdump`. -/
def isKdump (k : KernelPath) : Bool :=
  endsWith k.m_version (str "kdump")

/-- What the two functions below put behind `name`. -/
def versioned (k : KernelPath) (name : Str) : Str :=
  FilePath.appendPath k.m_directory name ++
    (if k.m_version = [] then [] else hyphen :: k.m_version)

/-- `KernelPath::configPath`. -/
def configPath (k : KernelPath) : Str :=
  k.versioned (str "config")

/-- `KernelPath::initrdPath`. -/
def initrdPath (k : KernelPath) (fadump : Bool) : Str :=
  k.versioned (str "initrd") ++ (if !fadump && !k.isKdump then str "-kdump" else [])

end KernelPath

/-! ## Images in the boot directory -/

def BOOTDIR : Str := str "/boot"

/-- The path that `findForVersion` tries for one name. -/
def bootImage (imagename kernelver : Str) : Str :=
  FilePath.appendPath BOOTDIR
    (if kernelver = [] then imagename else imagename ++ hyphen :: kernelver)

/-- A version that is part of a file name. -/
structure IsVersion (kernelver : Str) : Prop where
  no_slash : slash ∉ kernelver
  no_nul : (0 : UInt8) ∉ kernelver

/-- The names do not begin with a slash, and none of them begins another one. -/
theorem imageNames_sound (arch : Str) {name : Str} (h : name ∈ imageNames arch) :
    slash ∉ name ∧ (0 : UInt8) ∉ name ∧ name ≠ [] := by
  unfold imageNames at h
  split_ifs at h <;> simp only [List.mem_cons, List.not_mem_nil, or_false] at h <;>
    rcases h with rfl | rfl <;> decide

/-! ## Names below a directory -/

section

variable {p : UInt8 → Bool} {dir base : Str} {x : UInt8}

theorem rtakeWhile_below (hbase : ∀ c ∈ base, p c = true) (hx : p x = false) :
    (dir ++ x :: base).rtakeWhile p = base := by
  have hrev : ∀ c ∈ base.reverse, p c = true := fun c hc => hbase c (List.mem_reverse.1 hc)
  rw [List.rtakeWhile, List.reverse_append, List.reverse_cons, List.append_assoc,
    List.takeWhile_append_of_pos hrev, List.singleton_append, List.takeWhile_cons_of_neg,
    List.append_nil, List.reverse_reverse]
  rw [hx]
  exact Bool.false_ne_true

theorem rdropWhile_below (hbase : ∀ c ∈ base, p c = true) (hx : p x = false) :
    (dir ++ x :: base).rdropWhile p = dir ++ [x] := by
  have h := List.rdropWhile_append_rtakeWhile (p := p) (l := dir ++ x :: base)
  rw [rtakeWhile_below hbase hx] at h
  refine List.append_cancel_right (h.trans ?_)
  rw [List.append_assoc, List.singleton_append]

end

/-- A file in a directory. -/
structure IsFile (dir base : Str) : Prop where
  dir_ne : dir ≠ []
  dir_trimmed : rtrimSlash dir = dir
  base_ne : base ≠ []
  base_slash : slash ∉ base
  nul : (0 : UInt8) ∉ dir ++ slash :: base

namespace IsFile

variable {dir base : Str}

theorem not_slash (h : IsFile dir base) : ∀ c ∈ base, (c != slash) = true := by
  intro c hc
  have hne : c ≠ slash := fun heq => h.base_slash (heq ▸ hc)
  simpa using hne

theorem rtrimSlash_eq (h : IsFile dir base) :
    rtrimSlash (dir ++ slash :: base) = dir ++ slash :: base := by
  refine List.rdropWhile_eq_self_iff.2 fun hne => ?_
  have hlast : (dir ++ slash :: base).getLast hne = base.getLast h.base_ne := by
    rw [List.getLast_append_of_ne_nil _ (List.cons_ne_nil _ _), List.getLast_cons h.base_ne]
  have hslash := h.not_slash _ (List.getLast_mem h.base_ne)
  rw [hlast]
  simpa using hslash

theorem ne_nil (h : IsFile dir base) : dir ++ slash :: base ≠ [] :=
  List.append_ne_nil_of_left_ne_nil h.dir_ne _

theorem baseName_eq (h : IsFile dir base) : Mount.baseName (dir ++ slash :: base) = base := by
  unfold Mount.baseName
  dsimp only
  rw [cStr_eq_self h.nul, h.rtrimSlash_eq, if_neg h.ne_nil]
  exact rtakeWhile_below h.not_slash (by decide)

theorem dirName_eq (h : IsFile dir base) : Mount.dirName (dir ++ slash :: base) = dir := by
  have hdrop : (dir ++ slash :: base).rdropWhile (· != slash) = dir ++ [slash] :=
    rdropWhile_below h.not_slash (by decide)
  have htrim : rtrimSlash (dir ++ [slash]) = dir := by
    rw [rtrimSlash, List.rdropWhile_concat_pos _ _ _ (by decide)]
    exact h.dir_trimmed
  have hne : dir ++ [slash] ≠ [] := List.append_ne_nil_of_left_ne_nil h.dir_ne _
  unfold Mount.dirName
  dsimp only
  rw [cStr_eq_self h.nul, h.rtrimSlash_eq, if_neg h.ne_nil, hdrop, htrim, if_neg hne,
    if_neg h.dir_ne]

end IsFile

/-! ## The parts of the path of an image -/

/-- What a version adds to a name. -/
def versionSuffix (version : Str) : Str :=
  if version = [] then [] else hyphen :: version

@[simp]
theorem versionSuffix_nil : versionSuffix [] = [] :=
  rfl

theorem versionSuffix_of_ne {version : Str} (h : version ≠ []) :
    versionSuffix version = hyphen :: version :=
  if_neg h

theorem IsVersion.suffix {version : Str} (h : IsVersion version) :
    slash ∉ versionSuffix version ∧ (0 : UInt8) ∉ versionSuffix version := by
  unfold versionSuffix
  split_ifs
  · exact ⟨List.not_mem_nil, List.not_mem_nil⟩
  · simp only [List.mem_cons, not_or]
    exact ⟨⟨by decide, h.no_slash⟩, by decide, h.no_nul⟩

theorem appendPath_of_head {dir name : Str} (hdir : rtrimSlash dir = dir) (h : slash ∉ name) :
    FilePath.appendPath dir name = dir ++ slash :: name := by
  have hname : name.dropWhile (· == slash) = name := by
    cases name with
    | nil => rfl
    | cons c cs =>
        refine List.dropWhile_cons_of_neg ?_
        intro hc
        exact h (by rw [beq_iff_eq.1 hc]; exact List.mem_cons_self)
  rw [FilePath.appendPath_eq, Path.appendPath, hdir, hname]

theorem rtrimSlash_BOOTDIR : rtrimSlash BOOTDIR = BOOTDIR := by
  decide

theorem bootImage_eq {name version : Str} (hname : slash ∉ name) (hversion : IsVersion version) :
    bootImage name version = BOOTDIR ++ slash :: (name ++ versionSuffix version) := by
  have htext : (if version = [] then name else name ++ hyphen :: version) =
      name ++ versionSuffix version := by
    unfold versionSuffix
    split_ifs
    · rw [List.append_nil]
    · rfl
  rw [bootImage, htext, appendPath_of_head rtrimSlash_BOOTDIR]
  rw [List.mem_append]
  exact not_or.2 ⟨hname, hversion.suffix.1⟩

namespace KernelPath

theorem takeApart_cons_self (name version : Str) (names : List Str) :
    takeApart (name ++ versionSuffix version) (name :: names) = (name, version) := by
  have hstarts : startsWith (name ++ versionSuffix version) name = true :=
    List.isPrefixOf_iff_prefix.2 (List.prefix_append _ _)
  rw [takeApart, if_pos hstarts]
  by_cases hversion : version = []
  · rw [hversion, versionSuffix_nil, List.append_nil, if_pos rfl]
  · have hlength : (name ++ hyphen :: version).length ≠ name.length := by
      rw [List.length_append, List.length_cons]
      omega
    rw [versionSuffix_of_ne hversion, if_neg hlength, List.drop_left, List.head?_cons, if_pos rfl,
      ← List.drop_drop, List.drop_left]
    rfl

/-- The names of images are told apart: none of them begins another one. -/
theorem takeApart_imageNames {arch name : Str} (h : name ∈ imageNames arch) (version : Str) :
    takeApart (name ++ versionSuffix version) (imageNames arch) = (name, version) := by
  unfold imageNames at h ⊢
  split_ifs at h ⊢ <;> simp only [List.mem_cons, List.not_mem_nil, or_false] at h
  · rcases h with rfl | rfl
    · exact takeApart_cons_self _ _ _
    · have hother : startsWith (str "vmlinux" ++ versionSuffix version) (str "vmlinuz") = false :=
        rfl
      rw [takeApart, hother, if_neg Bool.false_ne_true]
      exact takeApart_cons_self _ _ _
  all_goals
    subst h
    exact takeApart_cons_self _ _ _

end KernelPath

theorem isFile_bootImage {arch name version : Str} (hname : name ∈ imageNames arch)
    (hversion : IsVersion version) : IsFile BOOTDIR (name ++ versionSuffix version) := by
  obtain ⟨hslash, hnul, hne⟩ := imageNames_sound arch hname
  refine ⟨by decide, rtrimSlash_BOOTDIR, List.append_ne_nil_of_left_ne_nil hne _, ?_, ?_⟩
  · rw [List.mem_append]
    exact not_or.2 ⟨hslash, hversion.suffix.1⟩
  · have hboot : (0 : UInt8) ∉ BOOTDIR := by decide
    simp only [List.mem_append, List.mem_cons, not_or]
    exact ⟨hboot, by decide, hnul, hversion.suffix.2⟩

/-- The constructor gives back the directory, the name and the version. -/
theorem new_bootImage {arch name version : Str} (hname : name ∈ imageNames arch)
    (hversion : IsVersion version) :
    KernelPath.new arch (bootImage name version) = ⟨BOOTDIR, name, version⟩ := by
  have hfile := isFile_bootImage hname hversion
  rw [bootImage_eq (imageNames_sound arch hname).1 hversion, KernelPath.new, hfile.baseName_eq,
    hfile.dirName_eq, KernelPath.takeApart_imageNames hname]

/-! ## Kernels that share an initrd -/

/-- The version of the kdump kernel that belongs to a kernel. -/
def kdumpVersion (version : Str) : Str :=
  if version = [] then str "kdump" else version ++ str "-kdump"

/-- The second version is the one of a kdump kernel, and the first one is not. -/
def KdumpOf (version other : Str) : Prop :=
  endsWith version (str "kdump") = false ∧ other = kdumpVersion version

/-- The version in the name of an initrd for kdump. -/
def initrdVersion (version : Str) : Str :=
  if endsWith version (str "kdump") then version else kdumpVersion version

theorem kdumpVersion_injective : Function.Injective kdumpVersion := by
  have hlength : ∀ version : Str, str "kdump" ≠ version ++ str "-kdump" := by
    intro version h
    have h5 : (str "kdump").length = 5 := by decide
    have h6 : (str "-kdump").length = 6 := by decide
    have := congrArg List.length h
    rw [List.length_append] at this
    omega
  intro v w h
  unfold kdumpVersion at h
  split_ifs at h with hv hw hw
  · rw [hv, hw]
  · exact absurd h (hlength w)
  · exact absurd h.symm (hlength v)
  · exact List.append_cancel_right h

theorem endsWith_kdumpVersion (version : Str) :
    endsWith (kdumpVersion version) (str "kdump") = true := by
  refine List.isSuffixOf_iff_suffix.2 ?_
  unfold kdumpVersion
  split_ifs
  · exact List.suffix_rfl
  · exact ⟨version ++ [hyphen], by rw [List.append_assoc]; rfl⟩

theorem initrdVersion_of_kdump {version : Str} (h : endsWith version (str "kdump") = true) :
    initrdVersion version = version :=
  if_pos h

theorem initrdVersion_of_not {version : Str} (h : endsWith version (str "kdump") = false) :
    initrdVersion version = kdumpVersion version :=
  if_neg (by rw [h]; exact Bool.false_ne_true)

theorem initrdVersion_eq_iff (v w : Str) :
    initrdVersion v = initrdVersion w ↔ v = w ∨ KdumpOf v w ∨ KdumpOf w v := by
  constructor
  · intro h
    cases hv : endsWith v (str "kdump") with
    | true =>
        rw [initrdVersion_of_kdump hv] at h
        cases hw : endsWith w (str "kdump") with
        | true => exact .inl (h.trans (initrdVersion_of_kdump hw))
        | false => exact .inr (.inr ⟨hw, h.trans (initrdVersion_of_not hw)⟩)
    | false =>
        rw [initrdVersion_of_not hv] at h
        cases hw : endsWith w (str "kdump") with
        | true => exact .inr (.inl ⟨hv, (h.trans (initrdVersion_of_kdump hw)).symm⟩)
        | false => exact .inl (kdumpVersion_injective (h.trans (initrdVersion_of_not hw)))
  · have hkdump : ∀ {v w : Str}, KdumpOf v w → initrdVersion v = initrdVersion w := by
      rintro v w ⟨hv, rfl⟩
      rw [initrdVersion_of_not hv, initrdVersion_of_kdump (endsWith_kdumpVersion v)]
    rintro (rfl | h | h)
    · rfl
    · exact hkdump h
    · exact (hkdump h).symm

namespace KernelPath

theorem initrdPath_kdump (k : KernelPath) :
    k.initrdPath false =
      FilePath.appendPath k.m_directory (str "initrd") ++ hyphen :: initrdVersion k.m_version := by
  have hkdump : str "-kdump" = hyphen :: str "kdump" := by decide
  unfold initrdPath versioned initrdVersion kdumpVersion isKdump
  by_cases hversion : k.m_version = []
  · have hends : endsWith [] (str "kdump") = false := by decide
    rw [hversion, hends]
    simp [hkdump]
  · rw [if_neg hversion, if_neg hversion, List.append_assoc, List.cons_append]
    cases endsWith k.m_version (str "kdump") <;> simp

theorem initrdPath_fadump (k : KernelPath) :
    k.initrdPath true =
      FilePath.appendPath k.m_directory (str "initrd") ++ versionSuffix k.m_version := by
  rw [initrdPath, versioned, versionSuffix]
  exact List.append_nil _

end KernelPath

theorem versionSuffix_injective : Function.Injective versionSuffix := by
  intro v w h
  unfold versionSuffix at h
  split_ifs at h with hv hw hw
  · rw [hv, hw]
  · exact (List.cons_injective h)

/-- Two kernels are given one initrd if they have the same version.  For kdump they are also if one
is the kdump kernel of the other. -/
theorem initrdPath_eq_iff {arch name name' v w : Str} (hname : name ∈ imageNames arch)
    (hname' : name' ∈ imageNames arch) (hv : IsVersion v) (hw : IsVersion w) (fadump : Bool) :
    (KernelPath.new arch (bootImage name v)).initrdPath fadump =
        (KernelPath.new arch (bootImage name' w)).initrdPath fadump ↔
      v = w ∨ (fadump = false ∧ (KdumpOf v w ∨ KdumpOf w v)) := by
  rw [new_bootImage hname hv, new_bootImage hname' hw]
  cases fadump with
  | true =>
      rw [KernelPath.initrdPath_fadump, KernelPath.initrdPath_fadump, List.append_cancel_left_eq]
      simp [versionSuffix_injective.eq_iff]
  | false =>
      rw [KernelPath.initrdPath_kdump, KernelPath.initrdPath_kdump, List.append_cancel_left_eq,
        List.cons.injEq, initrdVersion_eq_iff]
      simp

/-- A kernel and its kdump kernel are given one initrd. -/
theorem initrdPath_eq_default :
    (KernelPath.new (str "x86_64") (bootImage (str "vmlinuz") (str "6.4"))).initrdPath false =
      (KernelPath.new (str "x86_64") (bootImage (str "vmlinux") (str "6.4-kdump"))).initrdPath
        false :=
  (initrdPath_eq_iff (by decide) (by decide) ⟨by decide, by decide⟩ ⟨by decide, by decide⟩
    false).2 (.inr ⟨rfl, .inl ⟨by decide, by decide⟩⟩)

end Kernel
end Kdump

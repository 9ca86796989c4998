import Kdump.Kernel.KernelType
import Kdump.Lib.Attempts
import Kdump.StringUtil

/-!
# FindKernel — the kernel that is loaded for kdump

Without a version in the configuration, several versions are tried in order, at first with strict
requirements and then with fewer ones.  The first image of a version that exists stands for it.

* `suitableForKdump`, `findForVersion`, `findKernelAuto`, `getPaths` — the member functions;
* `findKernelAuto_eq` — the search as a list of attempts;
* `getPaths_chosen`, `getPaths_none` — what is found, and what was there when nothing is.
-/

namespace Kdump
namespace Kernel

open Lib

/-! ## The functions -/

def MAXCPUS_KDUMP : Int32 := 1024

section

variable (b : Boot)

/-- `FindKernel::isKdumpKernel`. -/
def isKdumpKernel (kernelimage : Str) : Bool :=
  endsWith kernelimage (str "kdump")

/-- The first test of `FindKernel::suitableForKdump`: a kdump kernel need not be relocatable. -/
def checkRelocatable (kernelImage image : Str) : Except Thrown Bool :=
  if isKdumpKernel kernelImage then .ok true else isRelocatable b kernelImage image

/-- The other tests of `FindKernel::suitableForKdump`. -/
def suitableConfig (kconfig : Kconfig.Configs) (strict : Bool) : Bool :=
  let isxen := isOn (Kconfig.get kconfig (str "CONFIG_X86_64_XEN")) ||
    isOn (Kconfig.get kconfig (str "CONFIG_X86_XEN"))
  if isxen then false
  else if strict then
    -- avoid large number of CPUs on x86, then realtime kernels
    if b.arch = str "i386" ∨ b.arch = str "x86_64" then
      match Kconfig.get kconfig (str "CONFIG_NR_CPUS") with
      | .T_INTEGER cpus =>
          if MAXCPUS_KDUMP < cpus then false
          else Kconfig.get kconfig (str "CONFIG_PREEMPT_RT") = .T_INVALID
      | _ => Kconfig.get kconfig (str "CONFIG_PREEMPT_RT") = .T_INVALID
    else Kconfig.get kconfig (str "CONFIG_PREEMPT_RT") = .T_INVALID
  else true

/-- `FindKernel::suitableForKdump`. -/
def suitableForKdump (kernelImage : Str) (strict : Bool) : Except Thrown Bool :=
  match b.open_ kernelImage with
  | .error code =>
      .error (.KSystemError (str "Opening of " ++ kernelImage ++ str " failed.") code)
  | .ok image => do
      let relocatable ← checkRelocatable b kernelImage image
      if !relocatable then return false
      else return suitableConfig b (← retrieveKernelConfig b kernelImage image) strict

/-- `FindKernel::findForVersion`; the empty string is given back if there is no image. -/
def findForVersion (kernelver : Str) : Str :=
  match (imageNames b.arch).find? (fun imagename => b.exists_ (bootImage imagename kernelver)) with
  | some imagename => bootImage imagename kernelver
  | none => []

/-- `elements[elements.size()-1] = flavour` and `elements.join('-')`, for the running kernel. -/
def withFlavour (flavour : Str) : Str :=
  [hyphen].intercalate ((KString.split hyphen b.release).dropLast ++ [flavour])

/-- One of the eight tries of `findKernelAuto`, and what follows it. -/
def tryKernel (testkernel : Str) (strict : Bool) (next : Except Thrown Str) : Except Thrown Str :=
  let testkernelimage := findForVersion b testkernel
  if testkernelimage = [] then next
  else do
    if ← suitableForKdump b testkernelimage strict then return testkernelimage else next

/-- `FindKernel::findKernelAuto`. -/
def findKernelAuto : Except Thrown Str :=
  tryKernel b (withFlavour b (str "kdump")) true <|
  tryKernel b (str "kdump") true <|
  tryKernel b b.release true <|
  tryKernel b (withFlavour b (str "default")) true <|
  tryKernel b [] true <|
  tryKernel b b.release false <|
  tryKernel b (withFlavour b (str "default")) false <|
  tryKernel b [] false <|
  .ok []

/-- The first half of `FindKernel::getPaths`; the empty string is given back for `return false`. -/
def chosenKernel (KDUMP_KERNELVER : Str) : Except Thrown Str :=
  if KDUMP_KERNELVER ≠ [] then
    let kernelimage := findForVersion b KDUMP_KERNELVER
    if kernelimage = [] then .ok []
    else do
      if ← suitableForKdump b kernelimage false then return kernelimage else return []
  else findKernelAuto b

/-- `FindKernel::getPaths`, with the values of the two options: the kernel and the initrd. -/
def getPaths (KDUMP_KERNELVER : Str) (KDUMP_FADUMP : Bool) :
    Except Thrown (Option (Str × Str)) := do
  let kernelimage ← chosenKernel b KDUMP_KERNELVER
  if kernelimage = [] then return none
  else return some (kernelimage, (KernelPath.new b.arch kernelimage).initrdPath KDUMP_FADUMP)

/-- `FindKernel::execute`: what is printed, or the message on the error output. -/
def execute (KDUMP_KERNELVER : Str) (KDUMP_FADUMP : Bool) : Except Thrown (Except Str Str) := do
  match ← getPaths b KDUMP_KERNELVER KDUMP_FADUMP with
  | none => return .error (str "No suitable kdump kernel found.\n")
  | some (kernelimage, initrd) =>
      return .ok (str "Kernel:\t" ++ kernelimage ++ [newline] ++
        str "Initrd:\t" ++ initrd ++ [newline])

end

/-! ## Suitable kernels -/

section

variable {b : Boot}

/-- A kernel that meets the strict requirements meets the other ones. -/
theorem suitableConfig_of_strict {kconfig : Kconfig.Configs}
    (h : suitableConfig b kconfig true = true) : suitableConfig b kconfig false = true := by
  unfold suitableConfig at h ⊢
  dsimp only at h ⊢
  split_ifs at h ⊢
  all_goals first | rfl | simp_all

/-- What `suitableForKdump` finds out before it looks at the options: the configuration, if the
kernel can be loaded at another address. -/
def judged (b : Boot) (kernelImage : Str) : Except Thrown (Option Kconfig.Configs) :=
  match b.open_ kernelImage with
  | .error code =>
      .error (.KSystemError (str "Opening of " ++ kernelImage ++ str " failed.") code)
  | .ok image => do
      let relocatable ← checkRelocatable b kernelImage image
      if !relocatable then return none
      else return some (← retrieveKernelConfig b kernelImage image)

theorem suitableForKdump_eq (kernelImage : Str) (strict : Bool) :
    suitableForKdump b kernelImage strict =
      (judged b kernelImage).map fun kconfig =>
        kconfig.elim false (fun kconfig => suitableConfig b kconfig strict) := by
  unfold suitableForKdump judged
  cases b.open_ kernelImage with
  | error code => rfl
  | ok image =>
      dsimp only
      cases checkRelocatable b kernelImage image with
      | error e => rfl
      | ok relocatable =>
          cases relocatable with
          | false => rfl
          | true => cases retrieveKernelConfig b kernelImage image <;> rfl

theorem suitable_of_strict {k : Str} (h : suitableForKdump b k true = .ok true) :
    suitableForKdump b k false = .ok true := by
  rw [suitableForKdump_eq] at h ⊢
  cases hk : judged b k with
  | error e =>
      rw [hk] at h
      cases h
  | ok kconfig =>
      rw [hk] at h
      cases kconfig with
      | none => cases h
      | some kconfig =>
          have hstrict : suitableConfig b kconfig true = true := Except.ok.inj h
          exact congrArg Except.ok (suitableConfig_of_strict hstrict)

/-- A kernel that fails to meet the other requirements is not suitable by the strict ones. -/
theorem unsuitable_strict {k : Str} (h : suitableForKdump b k false = .ok false) :
    suitableForKdump b k true = .ok false := by
  cases hk : suitableForKdump b k true with
  | error e =>
      rw [suitableForKdump_eq] at h hk
      cases hj : judged b k with
      | error e' =>
          rw [hj] at h
          cases h
      | ok kconfig =>
          rw [hj] at hk
          cases hk
  | ok suitable =>
      cases suitable with
      | false => rfl
      | true =>
          rw [suitable_of_strict hk] at h
          cases h

/-! ## The image of a version -/

/-- The first image of a version that there is. -/
structure IsImageOf (b : Boot) (kernelver kernelimage : Str) : Prop where
  first : ∃ before name after, imageNames b.arch = before ++ name :: after ∧
    (∀ other ∈ before, b.exists_ (bootImage other kernelver) = false) ∧
    b.exists_ kernelimage = true ∧ kernelimage = bootImage name kernelver

theorem bootImage_ne_nil (name kernelver : Str) : bootImage name kernelver ≠ [] := by
  rw [bootImage, Path.FilePath.appendPath_eq, Path.appendPath]
  exact List.append_ne_nil_of_right_ne_nil _ (List.cons_ne_nil _ _)

theorem IsImageOf.ne_nil {kernelver k : Str} (h : IsImageOf b kernelver k) : k ≠ [] := by
  obtain ⟨_, name, _, _, _, _, rfl⟩ := h.first
  exact bootImage_ne_nil name kernelver

theorem findForVersion_eq_iff {kernelver k : Str} (hk : k ≠ []) :
    findForVersion b kernelver = k ↔ IsImageOf b kernelver k := by
  unfold findForVersion
  cases hfind : (imageNames b.arch).find? (fun name => b.exists_ (bootImage name kernelver)) with
  | none =>
      constructor
      · intro h
        exact absurd h.symm hk
      · rintro ⟨before, name, after, hnames, _, hexists, rfl⟩
        have hname : name ∈ imageNames b.arch := hnames ▸ List.mem_append_right _ List.mem_cons_self
        exact absurd hexists (List.find?_eq_none.1 hfind name hname)
  | some name =>
      obtain ⟨hname, before, after, hnames, hbefore⟩ := List.find?_eq_some_iff_append.1 hfind
      have himage : IsImageOf b kernelver (bootImage name kernelver) :=
        ⟨before, name, after, hnames, fun other h => by simpa using hbefore other h, hname, rfl⟩
      constructor
      · rintro rfl
        exact himage
      · rintro ⟨before', name', after', hnames', hbefore', hexists', rfl⟩
        have hfind' : (imageNames b.arch).find? (fun name => b.exists_ (bootImage name kernelver)) =
            some name' :=
          List.find?_eq_some_iff_append.2
            ⟨hexists', before', after', hnames', fun other h => by simp [hbefore' other h]⟩
        rw [hfind] at hfind'
        cases hfind'
        rfl

theorem IsImageOf.unique {kernelver k k' : Str} (h : IsImageOf b kernelver k)
    (h' : IsImageOf b kernelver k') : k = k' :=
  ((findForVersion_eq_iff h.ne_nil).2 h).symm.trans ((findForVersion_eq_iff h'.ne_nil).2 h')

/-! ## The search -/

/-- One version is tried. -/
def attempt (b : Boot) (try_ : Str × Bool) : Except Thrown (Option Str) :=
  let testkernelimage := findForVersion b try_.1
  if testkernelimage = [] then .ok none
  else do
    if ← suitableForKdump b testkernelimage try_.2 then return some testkernelimage
    else return none

/-- The attempts that are made for a value of `KDUMP_KERNELVER`. -/
def attempts (b : Boot) (KDUMP_KERNELVER : Str) : List (Str × Bool) :=
  if KDUMP_KERNELVER ≠ [] then [(KDUMP_KERNELVER, false)]
  else
    [(withFlavour b (str "kdump"), true), (str "kdump", true), (b.release, true),
      (withFlavour b (str "default"), true), ([], true), (b.release, false),
      (withFlavour b (str "default"), false), ([], false)]

theorem attempt_eq_none_iff {try_ : Str × Bool} :
    attempt b try_ = .ok none ↔
      ∀ k, IsImageOf b try_.1 k → suitableForKdump b k try_.2 = .ok false := by
  unfold attempt
  dsimp only
  split_ifs with hnil
  · refine ⟨fun _ k hk => absurd hnil ?_, fun _ => rfl⟩
    rw [(findForVersion_eq_iff hk.ne_nil).2 hk]
    exact hk.ne_nil
  · have himage := (findForVersion_eq_iff hnil).1 rfl
    constructor
    · intro h k hk
      rw [hk.unique himage]
      cases hsuit : suitableForKdump b (findForVersion b try_.1) try_.2 with
      | error e =>
          rw [hsuit] at h
          cases h
      | ok suitable =>
          cases suitable with
          | false => rfl
          | true =>
              rw [hsuit] at h
              cases h
    · intro h
      rw [h _ himage]
      rfl

theorem attempt_eq_some_iff {try_ : Str × Bool} {k : Str} :
    attempt b try_ = .ok (some k) ↔
      IsImageOf b try_.1 k ∧ suitableForKdump b k try_.2 = .ok true := by
  unfold attempt
  dsimp only
  split_ifs with hnil
  · constructor
    · intro h
      cases h
    · rintro ⟨hk, -⟩
      exact absurd (((findForVersion_eq_iff hk.ne_nil).2 hk).symm.trans hnil) hk.ne_nil
  · have himage := (findForVersion_eq_iff hnil).1 rfl
    constructor
    · intro h
      cases hsuit : suitableForKdump b (findForVersion b try_.1) try_.2 with
      | error e =>
          rw [hsuit] at h
          cases h
      | ok suitable =>
          rw [hsuit] at h
          cases suitable with
          | false => cases h
          | true =>
              cases h
              exact ⟨himage, hsuit⟩
    · rintro ⟨hk, hsuit⟩
      rw [himage.unique hk, hsuit]
      rfl

theorem attempt_eq_error {try_ : Str × Bool} {e : Thrown} (h : attempt b try_ = .error e) :
    ∃ k, IsImageOf b try_.1 k ∧ suitableForKdump b k try_.2 = .error e := by
  unfold attempt at h
  dsimp only at h
  split_ifs at h with hnil
  refine ⟨_, (findForVersion_eq_iff hnil).1 rfl, ?_⟩
  cases hsuit : suitableForKdump b (findForVersion b try_.1) try_.2 with
  | error e' =>
      rw [hsuit] at h
      cases h
      rfl
  | ok suitable =>
      rw [hsuit] at h
      cases suitable <;> cases h

/-- The kernel that has been found, as `findKernelAuto` gives it back. -/
def orEmpty (found : Except Thrown (Option Str)) : Except Thrown Str :=
  found.map fun k => k.getD []

theorem tryKernel_eq (kernelver : Str) (strict : Bool) (rest : List (Str × Bool)) :
    tryKernel b kernelver strict (orEmpty (firstResult (attempt b) rest)) =
      orEmpty (firstResult (attempt b) ((kernelver, strict) :: rest)) := by
  unfold tryKernel
  rw [firstResult, attempt]
  dsimp only
  split_ifs with hnil
  · rfl
  · cases suitableForKdump b (findForVersion b kernelver) strict with
    | error e => rfl
    | ok suitable => cases suitable <;> rfl

/-- The eight tries are the attempts of the list. -/
theorem findKernelAuto_eq :
    findKernelAuto b = orEmpty (firstResult (attempt b) (attempts b [])) := by
  have hend : (.ok [] : Except Thrown Str) = orEmpty (firstResult (attempt b) []) := rfl
  unfold findKernelAuto
  rw [hend]
  simp only [tryKernel_eq]
  rfl

theorem firstResult_ne_nil {ver k : Str}
    (h : firstResult (attempt b) (attempts b ver) = .ok (some k)) : k ≠ [] := by
  obtain ⟨_, _, _, _, _, hk⟩ := firstResult_eq_some.1 h
  exact (attempt_eq_some_iff.1 hk).1.ne_nil

theorem getPaths_eq (ver : Str) (fadump : Bool) :
    getPaths b ver fadump = (firstResult (attempt b) (attempts b ver)).map
      (Option.map fun k => (k, (KernelPath.new b.arch k).initrdPath fadump)) := by
  have hkernel : chosenKernel b ver = orEmpty (firstResult (attempt b) (attempts b ver)) := by
    unfold chosenKernel
    split_ifs with hver
    · rw [attempts, if_pos hver, ← tryKernel_eq]
      rfl
    · rw [not_not] at hver
      rw [hver, findKernelAuto_eq]
  unfold getPaths
  rw [hkernel]
  cases hfound : firstResult (attempt b) (attempts b ver) with
  | error e => rfl
  | ok found =>
      cases found with
      | none => rfl
      | some k =>
          have hk := firstResult_ne_nil hfound
          simp [orEmpty, Except.map, bind, Except.bind, hk, pure, Except.pure]

/-! ## The versions that are tried -/

/-- The versions of kdump kernels: only the strict requirements are tried for them. -/
def kdumpVersions (b : Boot) : List Str :=
  [withFlavour b (str "kdump"), str "kdump"]

/-- The other versions, for which both are tried. -/
def otherVersions (b : Boot) : List Str :=
  [b.release, withFlavour b (str "default"), []]

theorem mem_attempts_strict {v : Str} :
    (v, true) ∈ attempts b [] ↔ v ∈ kdumpVersions b ++ otherVersions b := by
  simp [attempts, kdumpVersions, otherVersions]

theorem mem_attempts_not_strict {v : Str} : (v, false) ∈ attempts b [] ↔ v ∈ otherVersions b := by
  simp [attempts, otherVersions]

/-- All of the strict attempts come before the other ones. -/
theorem strict_before {before after : List (Str × Bool)} {v w : Str}
    (h : attempts b [] = before ++ (v, false) :: after)
    (hw : w ∈ kdumpVersions b ++ otherVersions b) : (w, true) ∈ before := by
  have hsorted : (attempts b []).Pairwise fun x y => y.2 = true → x.2 = true := by
    simp [attempts]
  rw [h, List.pairwise_append, List.pairwise_cons] at hsorted
  obtain ⟨-, ⟨hafter, -⟩, -⟩ := hsorted
  have hmem := mem_attempts_strict.2 hw
  rw [h, List.mem_append, List.mem_cons] at hmem
  rcases hmem with hmem | hmem | hmem
  · exact hmem
  · cases hmem
  · exact absurd (hafter _ hmem rfl) Bool.false_ne_true

/-- The text of the running kernel's version, with another flavour. -/
theorem mem_withFlavour {flavour : Str} {c : UInt8} (h : c ∈ withFlavour b flavour) :
    c = hyphen ∨ c ∈ b.release ∨ c ∈ flavour := by
  have hmem : ∀ {ls : List Str} {c : UInt8}, c ∈ [hyphen].intercalate ls →
      c = hyphen ∨ ∃ l ∈ ls, c ∈ l := by
    intro ls
    induction ls with
    | nil =>
        intro c hc
        exact absurd hc List.not_mem_nil
    | cons l ls ih =>
        intro c hc
        cases ls with
        | nil =>
            rw [List.intercalate_singleton] at hc
            exact .inr ⟨l, List.mem_cons_self, hc⟩
        | cons l' ls =>
            rw [List.intercalate_cons_cons, List.mem_append, List.mem_append,
              List.mem_singleton] at hc
            rcases hc with (hc | hc) | hc
            · exact .inr ⟨l, List.mem_cons_self, hc⟩
            · exact .inl hc
            · exact (ih hc).imp_right fun ⟨m, hm, hcm⟩ => ⟨m, List.mem_cons_of_mem _ hm, hcm⟩
  have hpiece : ∀ {ls : List Str} {l : Str} {c : UInt8}, l ∈ ls → c ∈ l →
      c ∈ [hyphen].intercalate ls := by
    intro ls
    induction ls with
    | nil =>
        intro l c hl
        exact absurd hl List.not_mem_nil
    | cons l ls ih =>
        intro m c hm hc
        cases ls with
        | nil =>
            rw [List.intercalate_singleton]
            rw [List.mem_singleton] at hm
            exact hm ▸ hc
        | cons l' ls =>
            rw [List.intercalate_cons_cons, List.mem_append, List.mem_append]
            rcases List.mem_cons.1 hm with rfl | hm
            · exact .inl (.inl hc)
            · exact .inr (ih hm hc)
  rcases hmem h with hc | ⟨l, hl, hc⟩
  · exact .inl hc
  · right
    rcases List.mem_append.1 hl with hl | hl
    · left
      have hrelease := hpiece (List.dropLast_subset _ hl) hc
      rwa [KString.split, List.intercalate_splitOn] at hrelease
    · rw [List.mem_singleton.1 hl] at hc
      exact .inr hc

theorem isVersion_withFlavour (hrelease : IsVersion b.release) {flavour : Str}
    (hflavour : IsVersion flavour) : IsVersion (withFlavour b flavour) := by
  constructor
  · intro hc
    rcases mem_withFlavour hc with h | h | h
    · exact absurd h (by decide)
    · exact hrelease.no_slash h
    · exact hflavour.no_slash h
  · intro hc
    rcases mem_withFlavour hc with h | h | h
    · exact absurd h (by decide)
    · exact hrelease.no_nul h
    · exact hflavour.no_nul h

/-- The versions that are tried for a value of `KDUMP_KERNELVER`. -/
def versions (b : Boot) (KDUMP_KERNELVER : Str) : List Str :=
  if KDUMP_KERNELVER ≠ [] then [KDUMP_KERNELVER] else kdumpVersions b ++ otherVersions b

theorem mem_versions {ver : Str} {try_ : Str × Bool} (h : try_ ∈ attempts b ver) :
    try_.1 ∈ versions b ver := by
  unfold attempts at h
  unfold versions
  split_ifs at h ⊢ with hver
  · rw [List.mem_singleton] at h ⊢
    rw [h]
  · simp only [List.mem_cons, List.not_mem_nil, or_false] at h
    rcases h with rfl | rfl | rfl | rfl | rfl | rfl | rfl | rfl <;>
      simp [kdumpVersions, otherVersions]

theorem isVersion_of_mem {ver v : Str} (hver : IsVersion ver) (hrelease : IsVersion b.release)
    (h : v ∈ versions b ver) : IsVersion v := by
  have hkdump : IsVersion (str "kdump") := ⟨by decide, by decide⟩
  have hdefault : IsVersion (str "default") := ⟨by decide, by decide⟩
  have hnil : IsVersion [] := ⟨List.not_mem_nil, List.not_mem_nil⟩
  unfold versions at h
  split_ifs at h with hne
  · rw [List.mem_singleton] at h
    rw [h]
    exact hver
  · simp only [kdumpVersions, otherVersions, List.mem_append, List.mem_cons, List.not_mem_nil,
      or_false] at h
    rcases h with (rfl | rfl) | rfl | rfl | rfl
    · exact isVersion_withFlavour hrelease hkdump
    · exact hkdump
    · exact hrelease
    · exact isVersion_withFlavour hrelease hdefault
    · exact hnil

/-! ## What is found -/

/-- The initrd of a version. -/
def initrdOf (kernelver : Str) (fadump : Bool) : Str :=
  BOOTDIR ++ slash :: (str "initrd" ++
    if fadump then versionSuffix kernelver else hyphen :: initrdVersion kernelver)

theorem initrdPath_of_image {ver k : Str} (himage : IsImageOf b ver k) (hver : IsVersion ver)
    (fadump : Bool) : (KernelPath.new b.arch k).initrdPath fadump = initrdOf ver fadump := by
  obtain ⟨before, name, after, hnames, -, -, rfl⟩ := himage.first
  have hname : name ∈ imageNames b.arch := hnames ▸ List.mem_append_right _ List.mem_cons_self
  have happend : Path.FilePath.appendPath BOOTDIR (str "initrd") =
      BOOTDIR ++ slash :: str "initrd" :=
    appendPath_of_head rtrimSlash_BOOTDIR (by decide)
  rw [new_bootImage hname hver, initrdOf]
  cases fadump with
  | true =>
      rw [KernelPath.initrdPath_fadump, happend, List.append_assoc]
      rfl
  | false =>
      rw [KernelPath.initrdPath_kdump, happend, List.append_assoc]
      rfl

/-- A kernel that has been chosen for one of the versions, with its initrd.  A kernel that does
not meet the strict requirements is only chosen without a version in the configuration if none of
the others meets them. -/
structure Chosen (b : Boot) (ver : Str) (fadump : Bool) (kernel initrd kernelver : Str) : Prop where
  tried : kernelver ∈ versions b ver
  image : IsImageOf b kernelver kernel
  suitable : suitableForKdump b kernel false = .ok true
  initrd : initrd = initrdOf kernelver fadump
  strict : ver = [] → suitableForKdump b kernel true = .ok false →
    ∀ w ∈ versions b ver, ∀ k, IsImageOf b w k → suitableForKdump b k true = .ok false

/-- What an outcome of `getPaths` says about the kernels in the boot directory. -/
def Outcome (b : Boot) (ver : Str) (fadump : Bool) : Except Thrown (Option (Str × Str)) → Prop
  | .ok (some (kernel, initrd)) => ∃ kernelver, Chosen b ver fadump kernel initrd kernelver
  | .ok none =>
      ∀ v ∈ versions b ver, ∀ k, IsImageOf b v k →
        suitableForKdump b k true = .ok false ∧
          ((ver = [] → v ∈ otherVersions b) → suitableForKdump b k false = .ok false)
  | .error e => ∃ v ∈ versions b ver, ∃ k, IsImageOf b v k ∧
      ∃ strict, suitableForKdump b k strict = .error e

/-- The kernel that is found exists, is suitable, and is given the initrd of its version; a kernel
that is not one by the strict requirements is a last resort.  If none is found, there is none; an
exception is thrown about a kernel that has been tried. -/
theorem getPaths_outcome {ver : Str} (hver : IsVersion ver) (hrelease : IsVersion b.release)
    (fadump : Bool) : Outcome b ver fadump (getPaths b ver fadump) := by
  rw [getPaths_eq]
  cases hfound : firstResult (attempt b) (attempts b ver) with
  | error e =>
      obtain ⟨before, try_, after, htries, -, htry⟩ := firstResult_eq_error.1 hfound
      obtain ⟨k, himage, hsuit⟩ := attempt_eq_error htry
      have hmem : try_ ∈ attempts b ver := htries ▸ List.mem_append_right _ List.mem_cons_self
      exact ⟨try_.1, mem_versions hmem, k, himage, try_.2, hsuit⟩
  | ok found =>
      cases found with
      | none =>
          intro v hv k himage
          have hnone := firstResult_eq_none.1 hfound
          have hfails : ∀ strict, (v, strict) ∈ attempts b ver →
              suitableForKdump b k strict = .ok false :=
            fun strict hmem => attempt_eq_none_iff.1 (hnone _ hmem) k himage
          by_cases hnil : ver = []
          · subst hnil
            exact ⟨hfails true (mem_attempts_strict.2 hv),
              fun hother => hfails false (mem_attempts_not_strict.2 (hother rfl))⟩
          · rw [versions, if_pos hnil, List.mem_singleton] at hv
            have hfalse : suitableForKdump b k false = .ok false := by
              refine hfails false ?_
              rw [attempts, if_pos hnil, hv]
              exact List.mem_singleton_self _
            exact ⟨unsuitable_strict hfalse, fun _ => hfalse⟩
      | some k =>
          obtain ⟨before, try_, after, htries, hbefore, htry⟩ := firstResult_eq_some.1 hfound
          obtain ⟨himage, hsuit⟩ := attempt_eq_some_iff.1 htry
          have hmem : try_ ∈ attempts b ver := htries ▸ List.mem_append_right _ List.mem_cons_self
          have htried := mem_versions hmem
          refine ⟨try_.1, htried, himage, ?_, ?_, ?_⟩
          · cases hstrict : try_.2 with
            | true => exact suitable_of_strict (hstrict ▸ hsuit)
            | false => exact hstrict ▸ hsuit
          · exact initrdPath_of_image himage (isVersion_of_mem hver hrelease htried) fadump
          · rintro rfl hnot w hw k' himage'
            obtain ⟨v, strict⟩ := try_
            cases strict with
            | true =>
                rw [hsuit] at hnot
                cases hnot
            | false =>
                have hstrict := strict_before htries hw
                exact attempt_eq_none_iff.1 (hbefore _ hstrict) k' himage'

end

/-- A system with one kernel, whose configuration is empty. -/
def defaultBoot : Boot where
  arch := str "aarch64"
  release := str "6.4-default"
  exists_ path := path = str "/boot/Image-6.4-default" || path = str "/boot/config-6.4-default"
  open_ path :=
    if path = str "/boot/Image-6.4-default" then
      .ok (List.replicate 56 0 ++ str "ARMd" ++ List.replicate 4 0)
    else if path = str "/boot/config-6.4-default" then .ok []
    else .error ENOENT
  errno := 0
  gunzip image := image
  inflate _ := .error (.KError (str "inflate() failed"))

theorem getPaths_default : getPaths defaultBoot [] false =
    .ok (some (str "/boot/Image-6.4-default", str "/boot/initrd-6.4-default-kdump")) := by
  decide +kernel

theorem getPaths_outcome_default : Outcome defaultBoot [] false
    (.ok (some (str "/boot/Image-6.4-default", str "/boot/initrd-6.4-default-kdump"))) := by
  have hver : IsVersion [] := ⟨List.not_mem_nil, List.not_mem_nil⟩
  have hrelease : IsVersion defaultBoot.release := ⟨by decide, by decide⟩
  have h := getPaths_outcome hver hrelease false
  rwa [getPaths_default] at h

end Kernel
end Kdump

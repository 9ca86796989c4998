import Kdump.Config.Needs
import Kdump.Lib.Fields
import Kdump.Mount.Target
import Kdump.Path.Idempotence
import Kdump.Setup.Relocation

/-!
# ModifyConfig — the targets in the configuration of the crash kernel

`kdump_modify_config` writes the targets into `KDUMP_SAVEDIR` again, with the paths that
`kdump_get_mountpoints` has left.  In the crash kernel `kdumptool` takes that value apart, parses
each URL, undoes percent encoding, and resolves the path below `/kdump`.

* `kdump_savedir` — the loop;
* `elements_savedir_iff` — when the value has the targets for its elements;
* `rootDirURL_relocated` — what becomes of the URL of one target;
* `kdump_modify_config_places` — the directories that the crash kernel finds.
-/

namespace Kdump
namespace Setup

open Lib
open Config (isSpace)
open Config.Configuration (elements)
open Mount (Holds RootDirURL)
open Kdump.Path (FileSystem Name IsName Resolved Enters render getCanonicalPath)
open Url (URLParser decodeURL hasEscape)

/-! ## The loop -/

/-- What the loop writes for a target. -/
def targetText (targets : Targets) (url realpath : IndexedArray Str) (i : Nat) : Str :=
  let protocol := elem targets.kdump_Protocol i
  if protocol = str "file" then str "file://" ++ elem realpath i
  else if protocol ≠ str "srcfile" then elem url i
  else []

/-- The loop over the targets: `KDUMP_SAVEDIR`. -/
def kdump_savedir (targets : Targets) (url realpath : IndexedArray Str) : Str :=
  (List.range (targets.kdump_max + 1)).foldl
    (fun savedir i =>
      let savedir := if savedir = [] then savedir else savedir ++ [space]
      savedir ++ targetText targets url realpath i)
    []

/-- The targets that are written, in order. -/
def savedTargets (targets : Targets) : List Nat :=
  (List.range (targets.kdump_max + 1)).filter fun i =>
    elem targets.kdump_Protocol i ≠ str "srcfile"

theorem elements_savedir (targets : Targets) (url realpath : IndexedArray Str) :
    elements (kdump_savedir targets url realpath) =
      (savedTargets targets).flatMap fun i => elements (targetText targets url realpath i) := by
  have hspace : isSpace space = true := by decide
  have hfold := fields_foldl hspace (targetText targets url realpath)
    (List.range (targets.kdump_max + 1)) []
  refine hfold.trans ?_
  rw [fields_nil, List.nil_append, savedTargets]
  induction List.range (targets.kdump_max + 1) with
  | nil => rfl
  | cons i is ih =>
      rw [List.flatMap_cons, ih]
      by_cases hsrc : elem targets.kdump_Protocol i = str "srcfile"
      · have hfile : elem targets.kdump_Protocol i ≠ str "file" := by
          rw [hsrc]
          decide
        rw [List.filter_cons_of_neg (by simpa using hsrc), targetText, if_neg hfile,
          if_neg (not_not_intro hsrc)]
        rfl
      · rw [List.filter_cons_of_pos (by simpa using hsrc), List.flatMap_cons]
        rfl

/-- The value has the targets for its elements if and only if none of their texts is empty or has
white space in it. -/
theorem elements_savedir_iff (targets : Targets) (url realpath : IndexedArray Str) :
    elements (kdump_savedir targets url realpath) =
        (savedTargets targets).map (targetText targets url realpath) ↔
      ∀ i ∈ savedTargets targets, IsField isSpace (targetText targets url realpath i) := by
  constructor
  · intro h i hi
    have hmem : targetText targets url realpath i ∈
        fields isSpace (kdump_savedir targets url realpath) := by
      change _ ∈ elements _
      rw [h]
      exact List.mem_map_of_mem hi
    exact isField_of_mem hmem
  · intro h
    rw [elements_savedir]
    generalize savedTargets targets = is at h
    induction is with
    | nil => rfl
    | cons i is ih =>
        rw [List.forall_mem_cons] at h
        rw [List.flatMap_cons, ih h.2, List.map_cons]
        exact congrArg (· ++ _) (fields_singleton h.1)

/-! ## The URL of a target -/

theorem isName_mnt (i : Nat) : IsName (str "mnt" ++ decimal i) := by
  have hslash : slash ∉ str "mnt" ++ decimal i := by
    rw [List.mem_append, not_or]
    exact ⟨by decide, slash_notMem_decimal i⟩
  have hlit : str "mnt" = [109, 110, 116] := by decide
  refine ⟨?_, hslash, ?_, ?_⟩ <;> rw [hlit] <;> simp

/-- `mnt$i` -/
def mntName (i : Nat) : Name :=
  ⟨str "mnt" ++ decimal i, isName_mnt i⟩

theorem render_mntName (i : Nat) (names : List Name) :
    render (mntName i :: names) = str "/mnt" ++ decimal i ++ render names := by
  have hlit : str "/mnt" = slash :: str "mnt" := by decide
  rw [hlit, List.append_assoc]
  exact congrArg (slash :: ·) (List.append_assoc _ _ _)

/-- What the crash kernel sees along a path with a number in front: directories as far as the mount
point, and from there on what the running system sees. -/
structure Mirrors (running crash : FileSystem) (i : Nat) (mountpoint : Str) (names : List Name) :
    Prop where
  base : crash.lstat (crashPath i []) = .ok .dir
  above : ∀ front, front ≠ [] → front <+: names → ¬ Holds mountpoint (render front) →
    crash.lstat (crashPath i (render front)) = .ok .dir
  below : ∀ front, front ≠ [] → front <+: names → Holds mountpoint (render front) →
    crash.lstat (crashPath i (render front)) = running.lstat (render front)

theorem nul_notMem_crashPath (i : Nat) {path : Str} (h : (0 : UInt8) ∉ path) :
    (0 : UInt8) ∉ crashPath i path := by
  have hdigits : (0 : UInt8) ∉ decimal i := by
    intro hmem
    exact absurd (Config.isDigit_of_mem_decimal hmem) (by decide)
  rw [crashPath_eq, List.mem_append, List.mem_append]
  rintro (hlit | hmem | hmem)
  · exact absurd hlit (by decide)
  · exact hdigits hmem
  · exact h hmem

theorem nul_notMem_front {front names : List Name} (hfront : front <+: names)
    (h : (0 : UInt8) ∉ render names) : (0 : UInt8) ∉ render front := by
  obtain ⟨behind, rfl⟩ := hfront
  rw [Path.render_append, List.mem_append, not_or] at h
  exact h.1

/-- A path that has no link in it has none in the crash kernel. -/
theorem Mirrors.resolved {running crash : FileSystem} {i : Nat} {mountpoint : Str}
    {names : List Name} (h : Mirrors running crash i mountpoint names)
    (hnul : (0 : UInt8) ∉ render names) (hresolved : Resolved running [] names []) :
    Resolved crash (str "/kdump") (mntName i :: names) [] := by
  intro before c behind heq
  have hpath : ∀ front, str "/kdump" ++ render (mntName i :: front) =
      crashPath i (render front) := by
    intro front
    rw [render_mntName, crashPath]
  cases before with
  | nil =>
      obtain ⟨rfl, rfl⟩ := List.cons.inj heq
      have hcstr : cStr (str "/kdump" ++ render ([] ++ [mntName i])) = crashPath i [] := by
        rw [List.nil_append, hpath]
        exact cStr_eq_self (nul_notMem_crashPath i List.not_mem_nil)
      rw [Enters, hcstr, h.base]
      trivial
  | cons d before =>
      obtain ⟨rfl, rfl⟩ := List.cons.inj heq
      have hfront : before ++ [c] <+: before ++ c :: behind :=
        ⟨behind, by rw [List.append_assoc]; rfl⟩
      have hne : before ++ [c] ≠ [] := by simp
      have hcstr : cStr (str "/kdump" ++ render (mntName i :: before ++ [c])) =
          crashPath i (render (before ++ [c])) := by
        rw [List.cons_append, hpath]
        exact cStr_eq_self (nul_notMem_crashPath i (nul_notMem_front hfront hnul))
      rw [Enters, hcstr]
      by_cases hholds : Holds mountpoint (render (before ++ [c]))
      · have henters := hresolved before c behind rfl
        rw [Enters, List.nil_append, cStr_eq_self (nul_notMem_front hfront hnul)] at henters
        rw [h.below _ hne hfront hholds]
        exact henters
      · rw [h.above _ hne hfront hholds]
        trivial

theorem hasEscape_relocated (i : Nat) {path : Str} (hpath : path.head? = some slash) :
    hasEscape (str "/mnt" ++ decimal i ++ path) = hasEscape path := by
  obtain ⟨tail, rfl⟩ := List.head?_eq_some_iff.1 hpath
  have hplain : ∀ {s : Str}, Url.percent ∉ s → hasEscape s = false := by
    intro s hs
    cases h : hasEscape s with
    | false => rfl
    | true =>
        have hlt := (Url.countP_decodeURL (fun _ => true) rfl (fun _ _ => rfl) s).2 h
        rw [Url.decodeURL_plain hs] at hlt
        exact absurd hlt (Nat.lt_irrefl _)
  have hfront : Url.percent ∉ str "/mnt" ++ decimal i := by
    rw [List.mem_append, not_or]
    refine ⟨by decide, fun hmem => ?_⟩
    exact absurd (Config.isDigit_of_mem_decimal hmem) (by decide)
  rw [Mount.hasEscape_append_slash, hplain hfront, Bool.false_or,
    Url.hasEscape_cons (by decide)]

/-- The URL is for the directory below the mount point, unless its path can be decoded. -/
theorem rootDirURL_relocated {fs : FileSystem} {i : Nat} {names : List Name} (hne : names ≠ [])
    (hescape : hasEscape (render names) = false)
    (hresolved : Resolved fs (str "/kdump") (mntName i :: names) []) :
    ∃ u, RootDirURL.new fs.sys (str "file://" ++ (str "/mnt" ++ decimal i ++ render names))
        (str "/kdump") = .ok u ∧ u.getRealPath = crashPath i (render names) := by
  have habsolute : (render names).head? = some slash := by
    cases names with
    | nil => exact absurd rfl hne
    | cons c names => rfl
  have hroot : Path.PlainRoot (str "/kdump") := ⟨by decide, by decide⟩
  have hplain := hescape
  rw [← hasEscape_relocated i habsolute] at hplain
  have hcanonical : getCanonicalPath fs.sys (str "/mnt" ++ decimal i ++ render names)
      (str "/kdump") = .ok (crashPath i (render names)) := by
    have hrest : (Path.walkStart (render (mntName i :: names))).rest =
        render (mntName i :: names) := rfl
    rw [← render_mntName, hroot.getCanonicalPath_eq fs.sys rfl, Path.eval_render hrest hresolved]
    exact congrArg (fun path => Except.ok (str "/kdump" ++ path)) (render_mntName i names)
  have hnew : RootDirURL.new fs.sys (str "file://" ++ (str "/mnt" ++ decimal i ++ render names))
      (str "/kdump") = .ok
        { m_url := str "file://" ++ (str "/mnt" ++ decimal i ++ render names)
          m_protocol := .PROT_FILE
          m_hostname := []
          m_port := -1
          m_username := []
          m_password := []
          m_path := str "/mnt" ++ decimal i ++ render names
          m_realpath := crashPath i (render names) } := by
    rw [RootDirURL.new, URLParser.new_file rfl]
    dsimp only
    rw [if_pos rfl, Url.decodeURL_of_not_hasEscape hplain, hcanonical]
  exact ⟨_, hnew, rfl⟩

/-- The text of a local target is one element, if its path has no white space in it. -/
theorem isField_relocated (i : Nat) {path : Str} (h : ∀ c ∈ path, isSpace c = false) :
    IsField isSpace (str "file://" ++ (str "/mnt" ++ decimal i ++ path)) := by
  have hscheme : ∀ c ∈ str "file://", isSpace c = false := by decide +kernel
  have hmnt : ∀ c ∈ str "/mnt", isSpace c = false := by decide +kernel
  refine ⟨by simp [str], ?_⟩
  rw [List.forall_mem_append, List.forall_mem_append, List.forall_mem_append]
  exact ⟨hscheme, ⟨hmnt, fun c hc =>
    (Config.digit_plain (Config.isDigit_of_mem_decimal hc)).1⟩, h⟩

/-! ## The way of a target -/

/-- Directories, wherever something is looked up. -/
private def onlyDirectories : FileSystem where
  lstat _ := .ok .dir
  readlink _ := .error ENOENT
  getcwd := .ok [slash]

private def crashNames : List Name :=
  [⟨str "var", by decide⟩, ⟨str "crash", by decide⟩]

private theorem crashNames_resolved : Resolved onlyDirectories [] crashNames [] := by
  intro before c behind _
  trivial

private theorem crashNames_mirrors (line : MountLine) (k : Nat) :
    Mirrors onlyDirectories onlyDirectories k line.mountpoint crashNames :=
  ⟨rfl, fun _ _ _ _ => rfl, fun _ _ _ _ => rfl⟩

end Setup
end Kdump

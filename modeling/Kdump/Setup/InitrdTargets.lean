import Kdump.Setup.GetTargets
import Kdump.Setup.ModifyConfig

/-!
# InitrdTargets — the targets of the running system and of the crash kernel

`print_target` prints the targets of `KDUMP_SAVEDIR`, `kdump_get_targets` reads them,
`kdump_get_mountpoints` maps the local ones, and `kdump_modify_config` writes a `KDUMP_SAVEDIR` for
the crash kernel.

* `Arrays.targets` — what the loops read of the arrays;
* `elem_target`, `elem_kernel` — the elements of the arrays;
* `savedTargets_printed` — the targets that are written;
* `kdump_savedir_printed` — the targets of the crash kernel.
-/

namespace Kdump
namespace Setup

open Lib Mount Url
open Config (isSpace)
open Config.Configuration (elements)

variable {parse : Str → Except Thrown RootDirURL} {elems : List Str} {urls : List RootDirURL}

/-- The arrays that the loops over the targets read. -/
def Arrays.targets (s : Arrays) : Targets where
  kdump_max := s.kdump_max
  kdump_Protocol := s.array (str "kdump_Protocol")
  kdump_Realpath := s.array (str "kdump_Realpath")

/-! ## The elements of the arrays -/

/-- The arrays hold a target for the kernel, if that is copied, and then these. -/
structure Holding (copy : Bool) (urls : List RootDirURL) (s : Arrays) : Prop where
  max : s.kdump_max + 1 = firstTarget copy + urls.length
  entries : ∀ label ∈ labels, (s.array (str "kdump_" ++ label)).entries =
    ((copyKernel copy).array (str "kdump_" ++ label)).entries ++
      IndexedArray.numbered (firstTarget copy) (urls.map (received label))

theorem holding_setTargets (copy : Bool) (hne : urls ≠ []) :
    Holding copy urls (setTargets (copyKernel copy) true urls) where
  max := (setTargets_first copy hne url_mem_labels).1
  entries := fun _ hlabel => (setTargets_first copy hne hlabel).2

namespace Holding

variable {copy : Bool} {s : Arrays}

/-- The part of a target. -/
theorem elem_target (h : Holding copy urls s) {label : Str} (hlabel : label ∈ labels) {j : Nat}
    {url : RootDirURL} (hj : urls[j]? = some url) :
    elem (s.array (str "kdump_" ++ label)) (firstTarget copy + j) = received label url := by
  -- the element for the kernel is in front of the index
  have hbehind : ((copyKernel copy).array (str "kdump_" ++ label)).entries.lookup
      (firstTarget copy + j) = none := by
    rw [List.lookup_eq_none_iff]
    intro e he
    have hlt := copyKernel_lt copy _ e he
    rw [bne_iff_ne]
    omega
  rw [elem, IndexedArray.get?, h.entries label hlabel, List.lookup_append, hbehind, Option.none_or,
    IndexedArray.lookup_numbered, List.getElem?_map, hj]
  rfl

/-- The part of the kernel. -/
theorem elem_kernel (h : Holding true urls s) {label : Str} (hlabel : label ∈ labels) {value : Str}
    (hvalue : ((copyKernel true).array (str "kdump_" ++ label)).get? 0 = some value) :
    elem (s.array (str "kdump_" ++ label)) 0 = value := by
  rw [IndexedArray.get?] at hvalue
  rw [elem, IndexedArray.get?, h.entries label hlabel, List.lookup_append, hvalue]
  rfl

end Holding

/-! ## The targets that are written -/

theorem protocol_mem_labels : str "Protocol" ∈ labels := by
  decide

theorem received_protocol (url : RootDirURL) :
    received (str "Protocol") url = protocol2string url.m_protocol := by
  have hvalue : valueOf (str "Protocol") url = protocol2string url.m_protocol := rfl
  rw [received, hvalue]
  cases url.m_protocol <;> decide

theorem received_url {url : RootDirURL} (h : ∀ c ∈ url.m_url, isSpace c = false) :
    received (str "URL") url = url.m_url := by
  have hvalue : valueOf (str "URL") url = url.m_url := rfl
  rw [received, hvalue]
  cases hurl : url.m_url with
  | nil => rfl
  | cons c cs =>
      rw [hurl, List.forall_mem_cons] at h
      have hc : ¬ (c == space) = true := by
        rw [beq_iff_eq]
        rintro rfl
        exact absurd h.1 (by decide)
      exact List.dropWhile_cons_of_neg hc

theorem protocol2string_ne_srcfile (protocol : Protocol) :
    protocol2string protocol ≠ str "srcfile" := by
  cases protocol <;> decide

theorem protocol2string_eq_file {protocol : Protocol} :
    protocol2string protocol = str "file" ↔ protocol = .PROT_FILE := by
  cases protocol <;> decide

namespace Holding

variable {copy : Bool} {s : Arrays}

theorem protocol_eq (h : Holding copy urls s) {j : Nat} {url : RootDirURL}
    (hj : urls[j]? = some url) :
    elem s.targets.kdump_Protocol (firstTarget copy + j) = protocol2string url.m_protocol :=
  (h.elem_target protocol_mem_labels hj).trans (received_protocol url)

/-- All of the targets are written, and the kernel is not. -/
theorem savedTargets_eq (h : Holding copy urls s) :
    savedTargets s.targets = (List.range urls.length).map (firstTarget copy + ·) := by
  have hrange : List.range (s.targets.kdump_max + 1) =
      List.range (firstTarget copy) ++ (List.range urls.length).map (firstTarget copy + ·) := by
    rw [← List.range_add]
    exact congrArg List.range h.max
  have hkernel : (List.range (firstTarget copy)).filter
      (fun i => elem s.targets.kdump_Protocol i ≠ str "srcfile") = [] := by
    cases copy with
    | false => rfl
    | true =>
        have hzero : elem s.targets.kdump_Protocol 0 = str "srcfile" :=
          h.elem_kernel protocol_mem_labels rfl
        have hone : List.range (firstTarget true) = [0] := rfl
        rw [hone, List.filter_cons_of_neg (by simpa using hzero)]
        rfl
  rw [savedTargets, hrange, List.filter_append, hkernel, List.nil_append, List.filter_eq_self]
  intro i hi
  obtain ⟨j, hj, rfl⟩ := List.mem_map.1 hi
  rw [h.protocol_eq (List.getElem?_eq_getElem (List.mem_range.1 hj)), decide_eq_true_eq]
  exact protocol2string_ne_srcfile _

end Holding

/-! ## The paths of local targets -/

/-- What a loop puts in front of a path. -/
theorem exists_front_mapTargets (root : Str) (targets : Targets) (chosen : Chosen) (i : Nat) :
    ∃ front, (∀ c ∈ front, isSpace c = false) ∧
      elem (mapTargets root targets chosen).2 i = front ++ elem targets.kdump_Realpath i := by
  have hloop : ∀ (is : List Nat) (s : Mounts × IndexedArray Str),
      ∃ front, (∀ c ∈ front, isSpace c = false) ∧
        elem (is.foldl (mapTarget root chosen) s).2 i = front ++ elem s.2 i := by
    intro is
    induction is with
    | nil => exact fun s => ⟨[], List.forall_mem_nil _, rfl⟩
    | cons k is ih =>
        intro s
        obtain ⟨behind, hbehind, heq⟩ := ih (mapTarget root chosen s k)
        rw [List.foldl_cons, heq]
        by_cases hk : i = k
        · -- the only pass that changes the path of this target
          subst hk
          rw [mapTarget]
          split_ifs with hne
          · obtain ⟨kdump_mountidx, mounts⟩ := kdump_update_mount root
              ⟨elem chosen.mntdev i, elem chosen.curmp i, elem chosen.mntfstype i,
                elem chosen.mntopts i⟩ s.1
            refine ⟨behind ++ (str "/mnt" ++ decimal kdump_mountidx), ?_, ?_⟩
            · have hmnt : ∀ c ∈ str "/mnt", isSpace c = false := by decide +kernel
              rw [List.forall_mem_append, List.forall_mem_append]
              exact ⟨hbehind, hmnt, fun c hc =>
                (Config.digit_plain (Config.isDigit_of_mem_decimal hc)).1⟩
            · dsimp only
              rw [elem_set_self, List.append_assoc behind]
          · exact ⟨behind, hbehind, rfl⟩
        · rw [mapTarget_of_ne root chosen s hk]
          exact ⟨behind, hbehind, rfl⟩
  exact hloop _ _

/-! ## The targets of the crash kernel -/

theorem exists_elem_of_accepted {url : RootDirURL} (h : url ∈ accepted parse elems) :
    ∃ elem ∈ elems, parse elem = .ok url := by
  induction elems with
  | nil => exact absurd h List.not_mem_nil
  | cons elem elems ih =>
      rw [accepted] at h
      cases hparse : parse elem with
      | error e =>
          rw [hparse] at h
          exact absurd h List.not_mem_nil
      | ok first =>
          rw [hparse] at h
          rcases List.mem_cons.1 h with rfl | h
          · exact ⟨elem, List.mem_cons_self, hparse⟩
          · obtain ⟨other, hmem, hother⟩ := ih h
            exact ⟨other, List.mem_cons_of_mem _ hmem, hother⟩

theorem accepted_ne_nil (hne : elems ≠ []) (h : ∀ elem ∈ elems, ∃ url, parse elem = .ok url) :
    accepted parse elems ≠ [] := by
  cases elems with
  | nil => exact absurd rfl hne
  | cons elem elems =>
      obtain ⟨url, hurl⟩ := h elem List.mem_cons_self
      rw [accepted, hurl]
      exact List.cons_ne_nil _ _

/-- A URL with its real path is one that the parser accepts. -/
theorem parser_of_new {sys : Kdump.Path.Sys} {text rootdir : Str} {url : RootDirURL}
    (h : RootDirURL.new sys text rootdir = .ok url) :
    URLParser.new text = .ok url.toURLParser := by
  unfold RootDirURL.new at h
  cases hp : URLParser.new text with
  | error e =>
      rw [hp] at h
      cases h
  | ok p =>
      rw [hp] at h
      dsimp only at h
      split_ifs at h
      · split at h
        · cases h
        · cases h
          rfl
      · cases h
        rfl

theorem m_url_of_new {sys : Kdump.Path.Sys} {text rootdir : Str} {url : RootDirURL}
    (h : RootDirURL.new sys text rootdir = .ok url) : url.m_url = text := by
  have hp := parser_of_new h
  unfold URLParser.new URLParser.ofParts at hp
  dsimp only at hp
  split at hp
  · cases hp
  · split at hp
    · cases hp
    · split_ifs at hp
      all_goals exact (congrArg URLParser.m_url (Except.ok.inj hp)).symm

/-- What the crash kernel has for a target: a remote one as it is, a local one with the path that is
left in the array. -/
def initrdTarget (realpath : IndexedArray Str) (i : Nat) (url : RootDirURL) : Str :=
  if url.m_protocol = .PROT_FILE then str "file://" ++ elem realpath i else url.m_url

section Written

variable {copy : Bool} {s : Arrays}

theorem targetText_eq (h : Holding copy urls s) (realpath : IndexedArray Str) {j : Nat}
    {url : RootDirURL} (hj : urls[j]? = some url) (hurl : ∀ c ∈ url.m_url, isSpace c = false) :
    targetText s.targets (s.array (str "kdump_URL")) realpath (firstTarget copy + j) =
      initrdTarget realpath (firstTarget copy + j) url := by
  have htext : elem (s.array (str "kdump_URL")) (firstTarget copy + j) = url.m_url :=
    (h.elem_target url_mem_labels hj).trans (received_url hurl)
  unfold targetText initrdTarget
  dsimp only
  rw [h.protocol_eq hj, htext, if_pos (protocol2string_ne_srcfile _)]
  simp only [protocol2string_eq_file]

theorem map_targetText (h : Holding copy urls s) (realpath : IndexedArray Str)
    (hurl : ∀ url ∈ urls, ∀ c ∈ url.m_url, isSpace c = false) :
    (savedTargets s.targets).map
        (targetText s.targets (s.array (str "kdump_URL")) realpath) =
      urls.mapIdx fun j url => initrdTarget realpath (firstTarget copy + j) url := by
  rw [h.savedTargets_eq, List.map_map]
  refine List.ext_getElem? fun j => ?_
  rw [List.getElem?_map, List.getElem?_mapIdx]
  cases hj : urls[j]? with
  | none =>
      have hlength : urls.length ≤ j := List.getElem?_eq_none_iff.1 hj
      rw [List.getElem?_eq_none (by rwa [List.length_range])]
      rfl
  | some url =>
      obtain ⟨hlt, -⟩ := List.getElem?_eq_some_iff.1 hj
      rw [List.getElem?_range hlt]
      exact congrArg some (targetText_eq h realpath hj (hurl url (List.mem_of_getElem? hj)))

/-- A text is one element, unless there is white space in the path of a local target. -/
theorem isField_initrdTarget (h : Holding copy urls s) {root : Str} {chosen : Chosen} {j : Nat}
    {url : RootDirURL} (hj : urls[j]? = some url) (hurl : IsField isSpace url.m_url) :
    IsField isSpace (initrdTarget (mapTargets root s.targets chosen).2 (firstTarget copy + j) url) ↔
      (url.m_protocol = .PROT_FILE → ∀ c ∈ received (str "Realpath") url, isSpace c = false) := by
  obtain ⟨front, hfront, helem⟩ :=
    exists_front_mapTargets root s.targets chosen (firstTarget copy + j)
  have hreal : elem s.targets.kdump_Realpath (firstTarget copy + j) =
      received (str "Realpath") url :=
    h.elem_target (by decide) hj
  have hscheme : ∀ c ∈ str "file://", isSpace c = false := by decide +kernel
  rw [initrdTarget]
  by_cases hfile : url.m_protocol = .PROT_FILE
  · rw [if_pos hfile, helem, hreal, Lib.IsField, List.forall_mem_append, List.forall_mem_append]
    have hne : str "file://" ++ (front ++ received (str "Realpath") url) ≠ [] :=
      List.append_ne_nil_of_left_ne_nil (by decide) _
    exact ⟨fun hfield _ => hfield.2.2.2, fun hspace => ⟨hne, hscheme, hfront, hspace hfile⟩⟩
  · rw [if_neg hfile]
    exact ⟨fun _ h => absurd h hfile, fun _ => hurl⟩

end Written

end Setup
end Kdump

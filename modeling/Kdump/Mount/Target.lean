import Kdump.Mount.MountTransfer
import Kdump.Path.Slashes

/-!
# Target — which directory a mounted target leads to

`translate` pastes a path that has been decoded already into the text of a new URL, and this text
is decoded again.  The file URL names the directory below the mount point exactly if the second
decoding finds nothing to do.
-/

namespace Kdump
namespace Mount

open Lib Kdump.Path Kdump.Url

/-! ## Escapes in joined paths -/

theorem hasEscape_append_slash (p q : Str) :
    hasEscape (p ++ slash :: q) = (hasEscape p || hasEscape q) :=
  hasEscape_append_cons (by decide) (by decide) q p

theorem hasEscape_slashes {run : Str} (hrun : ∀ c ∈ run, c = slash) : hasEscape run = false := by
  induction run with
  | nil => rfl
  | cons c run ih =>
      have hc : c ≠ percent := by
        rw [hrun c (by simp)]
        decide
      rw [hasEscape_cons hc, ih fun d hd => hrun d (List.mem_cons_of_mem _ hd)]

theorem hasEscape_append_slashes {run : Str} (hrun : ∀ c ∈ run, c = slash) (p : Str) :
    hasEscape (p ++ run) = hasEscape p := by
  cases run with
  | nil => rw [List.append_nil]
  | cons c run =>
      have hc : c = slash := hrun c (by simp)
      subst hc
      rw [hasEscape_append_slash,
        hasEscape_slashes fun d hd => hrun d (List.mem_cons_of_mem _ hd), Bool.or_false]

theorem hasEscape_rtrimSlash (p : Str) : hasEscape (rtrimSlash p) = hasEscape p := by
  rcases rtrimSlash_append_run p with ⟨run, hrun, hp⟩
  conv_rhs => rw [hp]
  exact (hasEscape_append_slashes hrun _).symm

theorem hasEscape_dropWhile (p : Str) :
    hasEscape (p.dropWhile (· == slash)) = hasEscape p := by
  induction p with
  | nil => rfl
  | cons c p ih =>
      by_cases hc : c = slash
      · subst hc
        rw [List.dropWhile_cons_of_pos (by simp), ih, hasEscape_cons (by decide)]
      · rw [List.dropWhile_cons_of_neg (by simpa using hc)]

theorem hasEscape_appendPath (p s : Str) :
    hasEscape (appendPath p s) = (hasEscape p || hasEscape s) := by
  rw [appendPath, hasEscape_append_slash, hasEscape_rtrimSlash, hasEscape_dropWhile]

theorem hasEscape_rootName (slashes : Str) : hasEscape (rootName slashes) = false := by
  unfold rootName
  split <;> rfl

/-- A path is split into directory and file name at a slash. -/
theorem hasEscape_dirName_baseName (path : Str) :
    (hasEscape (dirName path) || hasEscape (baseName path)) = hasEscape (cStr path) := by
  unfold dirName baseName
  dsimp only
  generalize cStr path = s
  rw [← hasEscape_rtrimSlash s]
  by_cases ht : rtrimSlash s = []
  · rw [if_pos ht, if_pos ht, ht]
    split
    · rfl
    · rw [hasEscape_rootName]
      rfl
  · rw [if_neg ht, if_neg ht]
    generalize rtrimSlash s = t
    have hsplit : t.rdropWhile (· != slash) ++ t.rtakeWhile (· != slash) = t :=
      List.rdropWhile_append_rtakeWhile
    have hstop := stopsBack_rdropWhile (· != slash) t
    conv_rhs => rw [← hsplit]
    rcases List.eq_nil_or_concat (t.rdropWhile (· != slash)) with hd | ⟨d, c, hd⟩
    · rw [if_pos hd, hd]
      rfl
    · rw [List.concat_eq_append] at hd
      rw [hd, stopsBack_concat] at hstop
      have hc : c = slash := by simpa using hstop
      subst hc
      -- the directory is what is in front of the last slash
      have hdir : hasEscape (if rtrimSlash (d ++ [slash]) = [] then rootName (d ++ [slash])
          else rtrimSlash (d ++ [slash])) = hasEscape d := by
        have htrim : hasEscape (rtrimSlash (d ++ [slash])) = hasEscape d := by
          rw [hasEscape_rtrimSlash, hasEscape_append_slash]
          exact Bool.or_false _
        split
        · rename_i hnil
          rw [hasEscape_rootName, ← htrim, hnil]
          rfl
        · exact htrim
      rw [hd, if_neg (by simp), hdir, List.append_assoc, List.singleton_append,
        hasEscape_append_slash]

/-- Decoding takes a path to another one exactly if it finds an escape: every escape costs bytes
that are no slashes. -/
theorem decodeURL_samePath_iff (path : Str) :
    SamePath (decodeURL path) path ↔ hasEscape path = false := by
  constructor
  · intro h
    by_contra hesc
    rw [Bool.not_eq_false] at hesc
    have hslash : ∀ c, isxdigit c = true → (c != slash) = true := by
      intro c hc
      by_contra hne
      rw [Bool.not_eq_true, bne_eq_false_iff_eq] at hne
      subst hne
      exact absurd hc (by decide)
    have hlt := (countP_decodeURL (· != slash) (by decide) hslash path).2 hesc
    have heq : (decodeURL path).countP (· != slash) = path.countP (· != slash) := by
      rw [← countP_squeeze (decodeURL path), h, countP_squeeze]
    omega
  · intro h
    rw [decodeURL_of_not_hasEscape h]
    exact SamePath.refl path

/-! ## Runs of `translate` -/

section Runs

variable {I : State → Prop}

theorem keeps_mkdirOne (mkdir : Str → Except Errno Unit) (path : Str) :
    Keeps (mkdirOne mkdir path) I := by
  unfold mkdirOne
  split
  · exact .pure ()
  · split
    · exact .pure ()
    · exact .throw _

theorem keeps_mkdirAll (mkdir : Str → Except Errno Unit) (paths : List Str) :
    Keeps (mkdirAll mkdir paths) I := by
  induction paths with
  | nil => exact .pure ()
  | cons path paths ih => exact (keeps_mkdirOne mkdir path).bind fun _ => ih

theorem keeps_mkdirPath (mkdir : Str → Except Errno Unit) (path : Str) :
    Keeps (mkdirPath mkdir path) I := by
  unfold mkdirPath
  split
  · exact .throw _
  · exact keeps_mkdirAll mkdir _

theorem keeps_mount (a : Answers) (device mountpoint fs : Str) (options : List Str)
    (hI : ∀ s, I s → I { s with mounts := mountpoint :: s.mounts }) :
    Keeps (mount a device mountpoint fs options) I := by
  refine Keeps.bind (.ofExcept _) fun exit => ?_
  split
  · exact .throw _
  · exact .modify hI

end Runs

/-- A file URL without a host is read as the path that it was made from, decoded. -/
theorem RootDirURL.new_file {sys : Sys} {path rootdir : Str} (hpath : path.head? = some slash)
    {u : RootDirURL} (h : RootDirURL.new sys (str "file://" ++ path) rootdir = .ok u) :
    u.m_protocol = .PROT_FILE ∧ u.m_path = decodeURL path := by
  rw [RootDirURL.new, URLParser.new_file hpath] at h
  dsimp only at h
  rw [if_pos rfl] at h
  split at h
  · cases h
  · cases h
    exact ⟨rfl, rfl⟩

/-- Where the share of an NFS server is mounted. -/
def nfsMountpoint (p : URLParser) : Str :=
  appendPath (appendPath DEFAULT_MOUNTPOINT p.m_hostname) (dirName p.m_path)

theorem NFSTransfer.translate_ok {a : Answers} {p : URLParser} {s s' : State} {u : RootDirURL}
    (h : NFSTransfer.translate a p s = .ok u s') :
    s'.m_mountpoint = nfsMountpoint p ∧
      u.m_path = decodeURL (nfsMountpoint p ++ slash :: baseName p.m_path) := by
  have hwp : wp (NFSTransfer.translate a p)
      (fun u s' => s'.m_mountpoint = nfsMountpoint p ∧
        u.m_path = decodeURL (nfsMountpoint p ++ slash :: baseName p.m_path))
      (fun _ _ => True) s := by
    unfold NFSTransfer.translate
    rw [wp_bind]
    refine wp_intro (fun _ s1 _ => ?_) fun _ _ _ => trivial
    rw [wp_bind, wp_modify, wp_bind]
    refine wp_mono (keeps_mkdirPath (I := fun s => s.m_mountpoint = nfsMountpoint p) _ _ _ rfl)
      (fun _ s2 hs2 => ?_) fun _ _ _ => trivial
    rw [wp_bind]
    refine wp_mono (keeps_mount (I := fun s => s.m_mountpoint = nfsMountpoint p) a _ _ _ _
      (fun _ h => h) _ hs2) (fun _ s3 hs3 => ?_) fun _ _ _ => trivial
    have hhead : (nfsMountpoint p ++ slash :: baseName p.m_path).head? = some slash := by
      apply List.mem_head?_append_of_mem_head?
      exact appendPath_head (appendPath_head (by decide) _) _
    have htext : str "file://" ++ nfsMountpoint p ++ str "/" ++ baseName p.m_path =
        str "file://" ++ (nfsMountpoint p ++ slash :: baseName p.m_path) := by
      have hlit : str "/" = [slash] := by decide
      simp [hlit]
    rw [wp_ofExcept]
    split
    · rename_i u hu
      exact ⟨hs3, (RootDirURL.new_file hhead (htext ▸ hu)).2⟩
    · trivial
  have hend := wp_ok hwp h
  exact hend

/-! ## The share of a CIFS target -/

/-- What is left of a path behind its first component. -/
def behindShare (path : Str) : Str :=
  (path.dropWhile (· == slash)).dropWhile (· != slash)

theorem findSubstr_head {c : UInt8} (part rest : Str) :
    findSubstr (c :: part) (c :: part ++ rest) = some 0 := by
  rw [List.cons_append, findSubstr, if_pos]
  exact ⟨rest, rfl⟩

/-- The share is found where it was cut out: it has no slash in it, and only slashes stand in
front of it. -/
theorem findSubstr_share {share : Str} (hne : share ≠ []) (hshare : slash ∉ share) (rest : Str) :
    ∀ run : Str, (∀ c ∈ run, c = slash) →
      findSubstr share (run ++ (share ++ rest)) = some run.length := by
  intro run
  induction run with
  | nil =>
      intro _
      cases share with
      | nil => exact absurd rfl hne
      | cons c part => exact findSubstr_head part rest
  | cons c run ih =>
      intro hrun
      have hc : c = slash := hrun c (by simp)
      have hno : ¬ share <+: c :: (run ++ (share ++ rest)) := by
        rintro ⟨tail, htail⟩
        cases share with
        | nil => exact hne rfl
        | cons d part =>
            rw [List.cons_append, List.cons.injEq] at htail
            exact hshare (List.mem_cons.2 (Or.inl (hc.symm.trans htail.1.symm)))
      rw [List.cons_append, findSubstr, if_neg hno,
        ih fun d hd => hrun d (List.mem_cons_of_mem _ hd)]
      rfl

/-- What the code takes for the rest of the path. -/
theorem drop_share {path : Str} (hslash : slash ∈ path.dropWhile (· == slash)) :
    ∃ shareBegin,
      findSubstr ((path.dropWhile (· == slash)).takeWhile (· != slash)) path = some shareBegin ∧
        path.drop (shareBegin +
          ((path.dropWhile (· == slash)).takeWhile (· != slash)).length) = behindShare path := by
  have hstop := stops_dropWhile (· == slash) path
  have hne : (path.dropWhile (· == slash)).takeWhile (· != slash) ≠ [] := by
    intro hnil
    cases htail : path.dropWhile (· == slash) with
    | nil =>
        rw [htail] at hslash
        cases hslash
    | cons c tail =>
        rw [htail, stops_cons] at hstop
        have hc : c ≠ slash := by simpa using hstop
        simp [htail, hc] at hnil
  have hshare : slash ∉ (path.dropWhile (· == slash)).takeWhile (· != slash) := by
    intro hmem
    have h := List.mem_takeWhile_imp hmem
    simp at h
  have hrun : ∀ c ∈ path.takeWhile (· == slash), c = slash := by
    intro c hc
    simpa using List.mem_takeWhile_imp hc
  have hsplit : path.takeWhile (· == slash) ++
      ((path.dropWhile (· == slash)).takeWhile (· != slash) ++ behindShare path) = path := by
    rw [behindShare, List.takeWhile_append_dropWhile, List.takeWhile_append_dropWhile]
  -- the share is not empty and has no slash, so it is not found among the slashes in front
  have hfind := findSubstr_share hne hshare (behindShare path) _ hrun
  rw [hsplit] at hfind
  have hdrop : ∀ run share rest : Str, run ++ (share ++ rest) = path →
      path.drop (run.length + share.length) = rest := by
    rintro run share rest rfl
    rw [← List.append_assoc, ← List.length_append, List.drop_left]
  exact ⟨_, hfind, hdrop _ _ _ hsplit⟩

theorem CIFSTransfer.translate_ok {a : Answers} {p : URLParser} {s s' : State} {u : RootDirURL}
    (h : CIFSTransfer.translate a p s = .ok u s') :
    slash ∈ p.m_path.dropWhile (· == slash) ∧ s'.m_mountpoint = DEFAULT_MOUNTPOINT ∧
      u.m_path = decodeURL (appendPath DEFAULT_MOUNTPOINT (behindShare p.m_path)) := by
  have hwp : wp (CIFSTransfer.translate a p)
      (fun u s' => slash ∈ p.m_path.dropWhile (· == slash) ∧
        s'.m_mountpoint = DEFAULT_MOUNTPOINT ∧
        u.m_path = decodeURL (appendPath DEFAULT_MOUNTPOINT (behindShare p.m_path)))
      (fun _ _ => True) s := by
    unfold CIFSTransfer.translate
    rw [wp_bind]
    refine wp_intro (fun _ s1 _ => ?_) fun _ _ _ => trivial
    dsimp only
    split
    · trivial
    · rename_i hslash
      rcases drop_share (not_not.1 hslash) with ⟨shareBegin, hfind, hdrop⟩
      rw [wp_bind]
      refine wp_intro (fun _ s2 _ => ?_) fun _ _ _ => trivial
      rw [wp_bind, wp_modify, hfind]
      dsimp only
      rw [hdrop, wp_ofExcept]
      split
      · rename_i u hu
        exact ⟨not_not.1 hslash, rfl, (RootDirURL.new_file (appendPath_head (by decide) _) hu).2⟩
      · trivial
  have hend := wp_ok hwp h
  exact hend

/-! ## The directory that is reached -/

theorem hasEscape_nfsMountpoint (p : URLParser) :
    hasEscape (nfsMountpoint p) = (hasEscape p.m_hostname || hasEscape (dirName p.m_path)) := by
  have hdefault : hasEscape DEFAULT_MOUNTPOINT = false := by decide
  rw [nfsMountpoint, hasEscape_appendPath, hasEscape_appendPath, hdefault, Bool.false_or]

theorem NFSTransfer.samePath_iff {a : Answers} {p : URLParser} {s s' : State} {u : RootDirURL}
    (h : NFSTransfer.translate a p s = .ok u s') :
    SamePath u.m_path (s'.m_mountpoint ++ slash :: baseName p.m_path) ↔
      hasEscape p.m_hostname = false ∧ hasEscape (cStr p.m_path) = false := by
  rcases NFSTransfer.translate_ok h with ⟨hmount, hpath⟩
  rw [hmount, hpath, decodeURL_samePath_iff, hasEscape_append_slash, hasEscape_nfsMountpoint,
    Bool.or_assoc, hasEscape_dirName_baseName, Bool.or_eq_false_iff]

/-- What stands behind a share starts with a slash. -/
theorem behindShare_eq_cons {path : Str} (hslash : slash ∈ path.dropWhile (· == slash)) :
    ∃ rest, behindShare path = slash :: rest := by
  unfold behindShare
  generalize path.dropWhile (· == slash) = tail at hslash ⊢
  have hstop := stops_dropWhile (· != slash) tail
  cases hrest : tail.dropWhile (· != slash) with
  | nil =>
      have hall := List.dropWhile_eq_nil_iff.1 hrest slash hslash
      simp at hall
  | cons c rest =>
      rw [hrest, stops_cons] at hstop
      have hc : c = slash := by simpa using hstop
      exact ⟨rest, by rw [hc]⟩

theorem CIFSTransfer.samePath_iff {a : Answers} {p : URLParser} {s s' : State} {u : RootDirURL}
    (h : CIFSTransfer.translate a p s = .ok u s') :
    SamePath u.m_path (s'.m_mountpoint ++ behindShare p.m_path) ↔
      hasEscape (behindShare p.m_path) = false := by
  rcases CIFSTransfer.translate_ok h with ⟨hslash, hmount, hpath⟩
  rcases behindShare_eq_cons hslash with ⟨rest, hrest⟩
  have hdefault : hasEscape DEFAULT_MOUNTPOINT = false := by decide
  have hsame : SamePath (appendPath DEFAULT_MOUNTPOINT (behindShare p.m_path))
      (DEFAULT_MOUNTPOINT ++ behindShare p.m_path) := by
    refine (appendPath_samePath _ _).trans ?_
    rw [hrest]
    exact squeeze_append_congr (by rfl) (squeeze_slash_slash rest) _
  calc
    SamePath u.m_path (s'.m_mountpoint ++ behindShare p.m_path)
        ↔ SamePath (decodeURL (appendPath DEFAULT_MOUNTPOINT (behindShare p.m_path)))
            (appendPath DEFAULT_MOUNTPOINT (behindShare p.m_path)) := by
          rw [hmount, hpath, SamePath, SamePath, hsame]
    _ ↔ hasEscape (behindShare p.m_path) = false := by
          rw [decodeURL_samePath_iff, hasEscape_appendPath, hdefault, Bool.false_or]

/-- The file URL that is handed over names the directory below the mount point exactly if there is
nothing in the decoded parts of the target that looks like an escape: the host and the path for NFS,
the path behind the share for CIFS. -/
theorem translate_reaches_iff (a : Answers) (p : URLParser) (s s' : State) (u : RootDirURL) :
    (NFSTransfer.translate a p s = .ok u s' →
      (SamePath u.m_path (s'.m_mountpoint ++ slash :: baseName p.m_path) ↔
        hasEscape p.m_hostname = false ∧ hasEscape (cStr p.m_path) = false)) ∧
    (CIFSTransfer.translate a p s = .ok u s' →
      (SamePath u.m_path (s'.m_mountpoint ++ behindShare p.m_path) ↔
        hasEscape (behindShare p.m_path) = false)) :=
  ⟨NFSTransfer.samePath_iff, CIFSTransfer.samePath_iff⟩

/-- A system on which everything succeeds, with an empty file system. -/
def emptySystem : Answers where
  check _ := .ok true
  mkdir _ := .ok ()
  execute _ _ := .ok (0, [])
  sys := { lstat := fun _ _ => .error ENOENT
           readlink := fun _ _ => .error ENOENT
           getcwd := .ok [slash] }

/-- The run returns there, so that it can be looked at. -/
theorem exists_ok_of_returns {prog : MountProg RootDirURL} {s : State} (h : Returns (prog s)) :
    ∃ u s', prog s = .ok u s' := by
  cases hrun : prog s with
  | ok u s' => exact ⟨u, s', rfl⟩
  | error e s' =>
      rw [hrun] at h
      cases h

private def nfsTarget (path : Str) : URLParser :=
  ⟨str "nfs://host" ++ path, .PROT_NFS, str "host", -1, [], [], decodeURL path⟩

theorem translate_reaches_plain :
    URLParser.new (str "nfs://host/dump/crash") = .ok (nfsTarget (str "/dump/crash")) ∧
      ∃ u s',
        NFSTransfer.translate emptySystem (nfsTarget (str "/dump/crash")) .initial = .ok u s' ∧
        SamePath u.m_path (s'.m_mountpoint ++ slash :: str "crash") := by
  have hreturns : Returns
      (NFSTransfer.translate emptySystem (nfsTarget (str "/dump/crash")) .initial) := by
    decide
  rcases exists_ok_of_returns hreturns with ⟨u, s', hrun⟩
  refine ⟨by decide, u, s', hrun, ?_⟩
  exact ((translate_reaches_iff _ _ _ s' u).1 hrun).2 ⟨by decide, by decide⟩

/-- A directory named `%41` is asked for, and `A` is taken. -/
theorem translate_reaches_percent :
    URLParser.new (str "nfs://host/dump/%2541") = .ok (nfsTarget (str "/dump/%2541")) ∧
      baseName (nfsTarget (str "/dump/%2541")).m_path = str "%41" ∧
      ∃ u s',
        NFSTransfer.translate emptySystem (nfsTarget (str "/dump/%2541")) .initial = .ok u s' ∧
        u.m_path = str "/mnt/host/dump/A" ∧
        ¬ SamePath u.m_path (s'.m_mountpoint ++ slash :: str "%41") := by
  have hreturns : Returns
      (NFSTransfer.translate emptySystem (nfsTarget (str "/dump/%2541")) .initial) := by
    decide
  rcases exists_ok_of_returns hreturns with ⟨u, s', hrun⟩
  rcases NFSTransfer.translate_ok hrun with ⟨hmount, hpath⟩
  refine ⟨by decide, by decide, u, s', hrun, ?_, ?_⟩
  · rw [hpath]
    decide
  · rw [hpath, hmount]
    decide

end Mount
end Kdump

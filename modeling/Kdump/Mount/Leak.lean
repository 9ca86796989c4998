import Kdump.Mount.Target

/-!
# Leak — which mounts are undone

The object remembers one mount point, and its destructor unmounts that one.  A constructor that
throws leaves no object behind, so nothing is unmounted then.

* `Mounting` — what both versions of `translate` have in common: either the target gets mounted,
  at a place that the object remembers, or there is an exception and nothing has changed;
* `Mounting.Undone` — the inputs for which no mount is left over in the end;
* `NFSTransfer.mounting`, `CIFSTransfer.mounting` — the two versions.
-/

namespace Kdump
namespace Mount

open Lib Kdump.Path Kdump.Url

/-! ## One spec lemma for each operation -/

/-- `mkdir(true)` succeeds. -/
def DirectoryMade (mkdir : Str → Except Errno Unit) (path : Str) : Prop :=
  rtrimSlash path ≠ [] ∧ ∀ p ∈ mkdirPaths (rtrimSlash path), mkdirDone (mkdir (cStr p))

/-- The program is left with status zero. -/
def Exit.Success (exit : Exit) : Prop :=
  ∃ message, exit = .ok (0, message)

variable {s : State}

theorem mkdirOne_spec (mkdir : Str → Except Errno Unit) (path : Str) :
    wp (mkdirOne mkdir path) (fun _ s' => s' = s ∧ mkdirDone (mkdir (cStr path)))
      (fun _ s' => s' = s ∧ ¬ mkdirDone (mkdir (cStr path))) s := by
  unfold mkdirOne
  split
  · rename_i hok
    exact ⟨rfl, Or.inl hok⟩
  · rename_i errno herror
    split
    · rename_i hexist
      exact ⟨rfl, Or.inr (hexist ▸ herror)⟩
    · rename_i hexist
      refine ⟨rfl, ?_⟩
      rw [herror]
      rintro (h | h)
      · cases h
      · cases h
        exact hexist rfl

theorem mkdirAll_spec (mkdir : Str → Except Errno Unit) (paths : List Str) :
    wp (mkdirAll mkdir paths) (fun _ s' => s' = s ∧ ∀ p ∈ paths, mkdirDone (mkdir (cStr p)))
      (fun _ s' => s' = s ∧ ¬ ∀ p ∈ paths, mkdirDone (mkdir (cStr p))) s := by
  induction paths with
  | nil => exact ⟨rfl, fun _ h => by cases h⟩
  | cons path paths ih =>
      unfold mkdirAll
      rw [wp_bind]
      refine wp_mono (mkdirOne_spec mkdir path) ?_ ?_
      · rintro _ _ ⟨rfl, hdone⟩
        refine wp_mono ih ?_ ?_
        · rintro _ _ ⟨rfl, hall⟩
          exact ⟨rfl, List.forall_mem_cons.2 ⟨hdone, hall⟩⟩
        · rintro _ _ ⟨rfl, hnot⟩
          exact ⟨rfl, fun hall => hnot (List.forall_mem_cons.1 hall).2⟩
      · rintro _ _ ⟨rfl, hnot⟩
        exact ⟨rfl, fun hall => hnot (List.forall_mem_cons.1 hall).1⟩

theorem mkdirPath_spec (mkdir : Str → Except Errno Unit) (path : Str) :
    wp (mkdirPath mkdir path) (fun _ s' => s' = s ∧ DirectoryMade mkdir path)
      (fun _ s' => s' = s ∧ ¬ DirectoryMade mkdir path) s := by
  unfold mkdirPath
  split
  · rename_i hnil
    exact ⟨rfl, fun hmade => hmade.1 hnil⟩
  · rename_i hne
    refine wp_mono (mkdirAll_spec mkdir _) ?_ ?_
    · rintro _ _ ⟨rfl, hall⟩
      exact ⟨rfl, hne, hall⟩
    · rintro _ _ ⟨rfl, hnot⟩
      exact ⟨rfl, fun hmade => hnot hmade.2⟩

/-- A program that is run and must succeed before the mounts change. -/
theorem execute_spec (exit : Exit) (message : Str → Str) (change : State → State) :
    wp (do
        let exit ← ofExcept exit
        if exit.1 ≠ 0 then throw (Thrown.KError (message exit.2))
        else modify change : MountProg Unit)
      (fun _ s' => s' = change s ∧ exit.Success) (fun _ s' => s' = s ∧ ¬ exit.Success) s := by
  rw [wp_bind, wp_ofExcept]
  cases exit with
  | error e =>
      refine ⟨rfl, ?_⟩
      rintro ⟨_, h⟩
      exact error_ne_ok h
  | ok exit =>
      dsimp only
      split
      · rename_i hne
        refine ⟨rfl, ?_⟩
        rintro ⟨_, h⟩
        cases h
        exact hne rfl
      · rename_i hzero
        exact ⟨rfl, exit.2, by rw [← not_not.1 hzero]⟩

theorem mount_spec (a : Answers) (device mountpoint fs : Str) (options : List Str) :
    wp (mount a device mountpoint fs options)
      (fun _ s' => s' = { s with mounts := mountpoint :: s.mounts } ∧
        Exit.Success (a.execute (str "mount") (mountArgs device mountpoint fs options)))
      (fun _ s' => s' = s ∧
        ¬ Exit.Success (a.execute (str "mount") (mountArgs device mountpoint fs options))) s :=
  execute_spec _ (fun message => str "mount failed: " ++ trim message ++ str ".") _

theorem umount_spec (a : Answers) (mountpoint : Str) :
    wp (umount a mountpoint)
      (fun _ s' => s' = { s with mounts := s.mounts.erase mountpoint } ∧
        Exit.Success (a.execute (str "umount") [mountpoint]))
      (fun _ s' => s' = s ∧ ¬ Exit.Success (a.execute (str "umount") [mountpoint])) s :=
  execute_spec _ (fun message => str "umount failed: " ++ trim message) _

/-! ## Mounting -/

/-- A version of `translate` as far as the mounts are concerned. -/
structure Mounting (translate : Answers → URLParser → MountProg RootDirURL) where
  mountpoint : URLParser → Str
  mountpoint_ne : ∀ p, mountpoint p ≠ []
  /-- the network check, `mkdir` and `mount` succeed -/
  Mounts : Answers → URLParser → Prop
  /-- the URL for the file transfer -/
  target : Answers → URLParser → Except Thrown RootDirURL
  target_file : ∀ a p u, target a p = .ok u → u.m_protocol = .PROT_FILE
  returns : ∀ a p s, wp (translate a p)
    (fun u s' => Mounts a p ∧ target a p = .ok u ∧
      s' = ⟨mountpoint p, mountpoint p :: s.mounts⟩)
    (fun _ s' => (¬ Mounts a p ∧ s'.mounts = s.mounts) ∨
      (Mounts a p ∧ (∀ u, target a p ≠ .ok u) ∧ s'.mounts = mountpoint p :: s.mounts)) s

namespace Mounting

variable {translate : Answers → URLParser → MountProg RootDirURL}

/-- Nothing is left mounted: the first target has not been mounted at all, or it is the only one
and everything after its mount succeeds. -/
def Undone (m : Mounting translate) (attempts : List Attempt) (f : FileAnswers) (a : Answers) :
    Prop :=
  (∀ first ∈ attempts.head?, ¬ m.Mounts first.2 first.1) ∨
    ∃ p answers url, attempts = [(p, answers)] ∧ m.target answers p = .ok url ∧
      DirectoryMade f.mkdir url.getRealPath ∧
      Exit.Success (a.execute (str "umount") [m.mountpoint p])

/-- Mounts only get more while URLs are translated. -/
theorem translateAll_le (m : Mounting translate) :
    ∀ (attempts : List Attempt) (s : State),
      wp (translateAll translate attempts)
        (fun urls s' => s.mounts.length + urls.length ≤ s'.mounts.length ∧
          urls.length = attempts.length)
        (fun _ s' => s.mounts.length ≤ s'.mounts.length) s := by
  intro attempts
  induction attempts with
  | nil =>
      intro s
      exact ⟨Nat.le_refl _, rfl⟩
  | cons attempt attempts ih =>
      intro s
      unfold translateAll
      rw [wp_bind]
      refine wp_mono (m.returns attempt.2 attempt.1 s) ?_ ?_
      · rintro url _ ⟨_, _, rfl⟩
        rw [wp_bind]
        refine wp_mono (ih _) ?_ ?_
        · rintro urls s' ⟨hle, hlen⟩
          rw [wp_pure]
          simp only [List.length_cons] at hle ⊢
          omega
        · intro _ s' hle
          simp only [List.length_cons] at hle
          omega
      · -- a translation that fails may have mounted before it failed
        rintro _ s' (⟨_, hs'⟩ | ⟨_, _, hs'⟩)
        · rw [hs']
        · rw [hs', List.length_cons]
          omega

/-- A first target that cannot be mounted ends the construction. -/
theorem construct_not_mounted (m : Mounting translate) {first : Attempt}
    (hfirst : ¬ m.Mounts first.2 first.1)
    (attempts : List Attempt) (f : FileAnswers) (s : State) :
    wp (construct translate (first :: attempts) f) (fun _ _ => False)
      (fun _ s' => s'.mounts = s.mounts) s := by
  unfold construct translateAll
  rw [wp_bind, wp_bind]
  refine wp_mono (m.returns first.2 first.1 s) ?_ ?_
  · rintro _ _ ⟨hmounts, _⟩
    exact absurd hmounts hfirst
  · rintro _ s' (⟨_, hs'⟩ | ⟨hmounts, _⟩)
    · exact hs'
    · exact absurd hmounts hfirst

theorem keeps_makeFileTransfer {I : State → Prop} (f : FileAnswers) (urlv : List RootDirURL) :
    Keeps (makeFileTransfer f urlv) I := by
  have hmake : ∀ urls : List RootDirURL, Keeps (makeDirectories f urls) I := by
    intro urls
    induction urls with
    | nil => exact .pure ()
    | cons url urls ih => exact (keeps_mkdirPath _ _).bind fun _ => ih
  unfold makeFileTransfer
  split
  · exact .throw _
  · exact (hmake urlv).bind fun _ => .pure _

/-- The destructor undoes at most one mount. -/
theorem destroy_le (a : Answers) (s : State) :
    s.mounts.length ≤ (endState (destroy a s)).mounts.length + 1 := by
  have hclose : wp (close a) (fun _ s' => s.mounts.length ≤ s'.mounts.length + 1)
      (fun _ s' => s.mounts.length ≤ s'.mounts.length + 1) s := by
    unfold close
    rw [wp_bind, wp_get]
    split
    · rw [wp_bind]
      refine wp_mono (umount_spec a _) ?_ ?_
      · rintro _ _ ⟨rfl, _⟩
        rw [wp_modify]
        have herase := List.le_length_erase (a := s.m_mountpoint) (l := s.mounts)
        dsimp only
        omega
      · rintro _ _ ⟨rfl, _⟩
        omega
    · exact Nat.le_succ _
  have hdestroy : wp (destroy a) (fun _ s' => s.mounts.length ≤ s'.mounts.length + 1)
      (fun _ s' => s.mounts.length ≤ s'.mounts.length + 1) s := by
    unfold destroy
    rw [wp_tryCatch]
    exact wp_mono hclose (fun _ _ h => h) (fun _ _ h => h)
  exact (wp_endState (I := fun s' : State => s.mounts.length ≤ s'.mounts.length + 1)).1 hdestroy

/-- With two targets or more, the mount of the first one is never undone alone. -/
theorem mountsLeft_ne_nil (m : Mounting translate) {first second : Attempt}
    (hfirst : m.Mounts first.2 first.1)
    (attempts : List Attempt) (f : FileAnswers) (a : Answers) :
    mountsLeft translate (first :: second :: attempts) f a ≠ [] := by
  -- two mounts are there in the end, or one if the constructor throws; the destructor undoes one
  have hconstruct : wp (construct translate (first :: second :: attempts) f)
      (fun _ s' => 2 ≤ s'.mounts.length) (fun _ s' => 1 ≤ s'.mounts.length) .initial := by
    unfold construct translateAll
    rw [wp_bind, wp_bind]
    refine wp_mono (m.returns first.2 first.1 .initial) ?_ ?_
    · rintro url _ ⟨_, _, rfl⟩
      rw [wp_bind]
      refine wp_mono (m.translateAll_le (second :: attempts) _) ?_ ?_
      · rintro urls s' ⟨hle, hlen⟩
        rw [wp_pure]
        simp only [State.initial, List.length_cons, List.length_nil] at hle hlen
        refine wp_mono (keeps_makeFileTransfer (I := fun t => 2 ≤ t.mounts.length) f _ s'
          (by omega)) (fun _ _ h => h) (fun _ t h => ?_)
        omega
      · intro _ s' hle
        simp only [State.initial, List.length_cons, List.length_nil] at hle
        omega
    · rintro _ s' (⟨hnot, _⟩ | ⟨_, _, hs'⟩)
      · exact absurd hfirst hnot
      · rw [hs']
        exact Nat.le_refl 1
  unfold mountsLeft
  cases hrun : construct translate (first :: second :: attempts) f .initial with
  | error e s =>
      have hle := wp_error hconstruct hrun
      exact List.ne_nil_of_length_pos hle
  | ok obj s =>
      have hle := wp_ok hconstruct hrun
      have hdestroy := destroy_le a s
      refine List.ne_nil_of_length_pos ?_
      dsimp only at hle ⊢
      omega

theorem makeFileTransfer_spec (f : FileAnswers) {url : RootDirURL}
    (hfile : url.m_protocol = .PROT_FILE) (s : State) :
    wp (makeFileTransfer f [url]) (fun _ s' => s' = s ∧ DirectoryMade f.mkdir url.getRealPath)
      (fun _ s' => s' = s ∧ ¬ DirectoryMade f.mkdir url.getRealPath) s := by
  have hany : ¬ ([url].any (·.m_protocol != .PROT_FILE)) = true := by simp [hfile]
  unfold makeFileTransfer makeDirectories makeDirectories
  rw [if_neg hany, wp_bind, wp_bind]
  refine wp_mono (mkdirPath_spec _ _) ?_ (fun _ _ h => h)
  rintro _ _ ⟨rfl, hmade⟩
  exact ⟨rfl, hmade⟩

/-- A single target that has been mounted. -/
theorem construct_single (m : Mounting translate) {p : URLParser} {answers : Answers}
    (hmounts : m.Mounts answers p) (f : FileAnswers) :
    wp (construct translate [(p, answers)] f)
      (fun _ s' => s' = ⟨m.mountpoint p, [m.mountpoint p]⟩ ∧
        ∃ url, m.target answers p = .ok url ∧ DirectoryMade f.mkdir url.getRealPath)
      (fun _ s' => s'.mounts = [m.mountpoint p] ∧
        ¬ ∃ url, m.target answers p = .ok url ∧ DirectoryMade f.mkdir url.getRealPath)
      .initial := by
  unfold construct translateAll translateAll
  rw [wp_bind, wp_bind]
  refine wp_mono (m.returns answers p .initial) ?_ ?_
  · rintro url _ ⟨_, htarget, rfl⟩
    rw [wp_bind, wp_pure, wp_pure]
    refine wp_mono (makeFileTransfer_spec f (m.target_file _ _ _ htarget) _) ?_ ?_
    · rintro _ _ ⟨rfl, hmade⟩
      exact ⟨rfl, url, htarget, hmade⟩
    · rintro _ _ ⟨rfl, hnot⟩
      refine ⟨rfl, ?_⟩
      rintro ⟨url', htarget', hmade⟩
      rw [htarget] at htarget'
      cases htarget'
      exact hnot hmade
  · rintro _ s' (⟨hnot, _⟩ | ⟨_, htarget, hs'⟩)
    · exact absurd hmounts hnot
    · exact ⟨hs', fun ⟨url, hurl, _⟩ => htarget url hurl⟩

theorem destroy_single {mountpoint : Str} (hne : mountpoint ≠ []) (a : Answers) :
    (endState (destroy a ⟨mountpoint, [mountpoint]⟩)).mounts = [] ↔
      Exit.Success (a.execute (str "umount") [mountpoint]) := by
  have hdestroy : wp (destroy a)
      (fun _ s' => s'.mounts = [] ↔ Exit.Success (a.execute (str "umount") [mountpoint]))
      (fun _ s' => s'.mounts = [] ↔ Exit.Success (a.execute (str "umount") [mountpoint]))
      ⟨mountpoint, [mountpoint]⟩ := by
    unfold destroy close
    rw [wp_tryCatch, wp_bind, wp_get, if_pos hne, wp_bind]
    refine wp_mono (umount_spec a _) ?_ ?_
    · rintro _ _ ⟨rfl, hsuccess⟩
      exact iff_of_true (List.erase_cons_head _ _) hsuccess
    · rintro _ _ ⟨rfl, hnot⟩
      exact iff_of_false (List.cons_ne_nil _ _) hnot
  exact (wp_endState (I := fun s' : State => s'.mounts = [] ↔
    Exit.Success (a.execute (str "umount") [mountpoint]))).1 hdestroy

/-- Exactly for these inputs nothing is left mounted. -/
theorem undone_iff (m : Mounting translate) (attempts : List Attempt) (f : FileAnswers)
    (a : Answers) : mountsLeft translate attempts f a = [] ↔ m.Undone attempts f a := by
  cases attempts with
  | nil => exact iff_of_true rfl (Or.inl fun _ h => by cases h)
  | cons first attempts =>
      by_cases hfirst : m.Mounts first.2 first.1
      · have hnone : ¬ ∀ x ∈ (first :: attempts).head?, ¬ m.Mounts x.2 x.1 :=
          fun hall => hall first rfl hfirst
        -- a second attempt never unmounts what the first one has mounted
        cases attempts with
        | cons second attempts =>
            refine iff_of_false (m.mountsLeft_ne_nil hfirst attempts f a) ?_
            rintro (hall | ⟨_, _, _, hsingle, _⟩)
            · exact hnone hall
            · simp at hsingle
        | nil =>
            -- a single attempt: whether it is undone depends on the constructor, then on the
            -- destructor
            have hconstruct := m.construct_single hfirst f
            have hdestroy := destroy_single (m.mountpoint_ne first.1) a
            unfold mountsLeft
            cases hrun : construct translate [first] f .initial with
            | error e s =>
                rcases wp_error hconstruct hrun with ⟨hs, hnot⟩
                refine iff_of_false ?_ ?_
                · dsimp only
                  rw [hs]
                  exact List.cons_ne_nil _ _
                · rintro (hall | ⟨p, answers, url, hsingle, htarget, hmade, _⟩)
                  · exact hnone hall
                  · cases hsingle
                    exact hnot ⟨url, htarget, hmade⟩
            | ok obj s =>
                rcases wp_ok hconstruct hrun with ⟨rfl, url, htarget, hmade⟩
                refine hdestroy.trans ⟨?_, ?_⟩
                · intro hsuccess
                  exact Or.inr ⟨first.1, first.2, url, rfl, htarget, hmade, hsuccess⟩
                · rintro (hall | ⟨p, answers, _, hsingle, _, _, hsuccess⟩)
                  · exact absurd hall hnone
                  · cases hsingle
                    exact hsuccess
      · refine iff_of_true ?_ (Or.inl fun x hx => ?_)
        · have hconstruct := m.construct_not_mounted hfirst attempts f .initial
          unfold mountsLeft
          cases hrun : construct translate (first :: attempts) f .initial with
          | error e s =>
              have hend := wp_error hconstruct hrun
              exact hend
          | ok obj s => exact absurd (wp_ok hconstruct hrun) id
        · cases hx
          exact hfirst

end Mounting

/-! ## The two versions -/

/-- The URL text that `NFSTransfer::translate` makes. -/
def nfsTargetText (p : URLParser) : Str :=
  str "file://" ++ nfsMountpoint p ++ str "/" ++ baseName p.m_path

/-- The check, `mkdir` and `mount` of an NFS target succeed. -/
def NFSTransfer.Mounts (a : Answers) (p : URLParser) : Prop :=
  (∃ reachable, a.check p.m_hostname = .ok reachable) ∧
    DirectoryMade a.mkdir (nfsMountpoint p) ∧
    Exit.Success (a.execute (str "mount")
      (mountArgs (p.m_hostname ++ str ":" ++ dirName p.m_path) (nfsMountpoint p) (str "nfs")
        [str "nolock"]))

/-- The check and `mount` of a CIFS target with a share succeed. -/
def CIFSTransfer.Mounts (a : Answers) (p : URLParser) : Prop :=
  (∃ reachable, a.check p.m_hostname = .ok reachable) ∧
    slash ∈ p.m_path.dropWhile (· == slash) ∧
    Exit.Success (a.execute (str "mount")
      (mountArgs (str "//" ++ p.m_hostname ++ str "/" ++
          (p.m_path.dropWhile (· == slash)).takeWhile (· != slash))
        DEFAULT_MOUNTPOINT (str "cifs") (cifsOptions p)))

theorem ofExcept_eq_ok {r : Except Thrown RootDirURL} {Q : RootDirURL → State → Prop}
    {E : Thrown → State → Prop} {s : State} (hok : ∀ u, r = .ok u → Q u s)
    (herror : ∀ e, (∀ u, r ≠ .ok u) → E e s) : wp (ofExcept r) Q E s := by
  rw [wp_ofExcept]
  cases r with
  | ok u => exact hok u rfl
  | error e => exact herror e fun u => error_ne_ok

def NFSTransfer.mounting : Mounting NFSTransfer.translate where
  mountpoint := nfsMountpoint
  mountpoint_ne p hnil := by
    have hhead : (nfsMountpoint p).head? = some slash :=
      appendPath_head (appendPath_head (by decide) _) _
    rw [hnil] at hhead
    cases hhead
  Mounts := NFSTransfer.Mounts
  target a p := RootDirURL.new a.sys (nfsTargetText p) []
  target_file a p u h := by
    have hhead : (nfsMountpoint p ++ slash :: baseName p.m_path).head? = some slash := by
      apply List.mem_head?_append_of_mem_head?
      exact appendPath_head (appendPath_head (by decide) _) _
    have htext : nfsTargetText p =
        str "file://" ++ (nfsMountpoint p ++ slash :: baseName p.m_path) := by
      have hlit : str "/" = [slash] := by decide
      simp [nfsTargetText, hlit]
    exact (RootDirURL.new_file hhead (htext ▸ h)).1
  returns a p s := by
    unfold NFSTransfer.translate
    rw [wp_bind, wp_ofExcept]
    cases hcheck : a.check p.m_hostname with
    | error e =>
        refine Or.inl ⟨?_, rfl⟩
        rintro ⟨⟨_, h⟩, _⟩
        rw [hcheck] at h
        exact error_ne_ok h
    | ok reachable =>
        dsimp only
        rw [wp_bind, wp_modify, wp_bind]
        refine wp_mono (mkdirPath_spec _ _) ?_ ?_
        · rintro _ _ ⟨rfl, hmade⟩
          rw [wp_bind]
          refine wp_mono (mount_spec a _ _ _ _) ?_ ?_
          · rintro _ _ ⟨rfl, hmount⟩
            have hmounts : NFSTransfer.Mounts a p := ⟨⟨reachable, hcheck⟩, hmade, hmount⟩
            exact ofExcept_eq_ok (fun u hu => ⟨hmounts, hu, rfl⟩)
              fun _ hnot => Or.inr ⟨hmounts, hnot, rfl⟩
          · rintro _ _ ⟨rfl, hnot⟩
            exact Or.inl ⟨fun hmounts => hnot hmounts.2.2, rfl⟩
        · rintro _ _ ⟨rfl, hnot⟩
          exact Or.inl ⟨fun hmounts => hnot hmounts.2.1, rfl⟩

def CIFSTransfer.mounting : Mounting CIFSTransfer.translate where
  mountpoint _ := DEFAULT_MOUNTPOINT
  mountpoint_ne _ := by decide
  Mounts := CIFSTransfer.Mounts
  target a p :=
    RootDirURL.new a.sys (str "file://" ++ appendPath DEFAULT_MOUNTPOINT (behindShare p.m_path)) []
  target_file _ _ _ h := (RootDirURL.new_file (appendPath_head (by decide) _) h).1
  returns a p s := by
    unfold CIFSTransfer.translate
    rw [wp_bind, wp_ofExcept]
    cases hcheck : a.check p.m_hostname with
    | error e =>
        refine Or.inl ⟨?_, rfl⟩
        rintro ⟨⟨_, h⟩, _⟩
        rw [hcheck] at h
        exact error_ne_ok h
    | ok reachable =>
        dsimp only
        split
        · rename_i hslash
          exact Or.inl ⟨fun hmounts => hslash hmounts.2.1, rfl⟩
        · rename_i hslash
          rcases drop_share (not_not.1 hslash) with ⟨shareBegin, hfind, hdrop⟩
          rw [wp_bind]
          refine wp_mono (mount_spec a _ _ _ _) ?_ ?_
          · rintro _ _ ⟨rfl, hmount⟩
            have hmounts : CIFSTransfer.Mounts a p :=
              ⟨⟨reachable, hcheck⟩, not_not.1 hslash, hmount⟩
            rw [wp_bind, wp_modify, hfind]
            dsimp only
            rw [hdrop]
            exact ofExcept_eq_ok (fun u hu => ⟨hmounts, hu, rfl⟩)
              fun _ hnot => Or.inr ⟨hmounts, hnot, rfl⟩
          · rintro _ _ ⟨rfl, hnot⟩
            exact Or.inl ⟨fun hmounts => hnot hmounts.2.2, rfl⟩

/-! ## The leaks -/

/-- A mount is left over unless the first target could not be mounted, or was the only one and
everything behind its mount went well. -/
theorem mountsLeft_eq_nil_iff (attempts : List Attempt) (f : FileAnswers) (a : Answers) :
    (mountsLeft NFSTransfer.translate attempts f a = [] ↔
      NFSTransfer.mounting.Undone attempts f a) ∧
    (mountsLeft CIFSTransfer.translate attempts f a = [] ↔
      CIFSTransfer.mounting.Undone attempts f a) :=
  ⟨NFSTransfer.mounting.undone_iff attempts f a,
    CIFSTransfer.mounting.undone_iff attempts f a⟩

private def splitTarget (host : Str) : URLParser :=
  ⟨str "nfs://" ++ host ++ str "/dump/crash", .PROT_NFS, host, -1, [], [], str "/dump/crash"⟩

/-- Of two targets that are both mounted, the first one stays mounted; of one target, if the
directory for the dump cannot be made. -/
theorem mountsLeft_two_targets :
    mountsLeft NFSTransfer.translate
        [(splitTarget (str "one"), emptySystem), (splitTarget (str "two"), emptySystem)]
        ⟨fun _ => .ok (), fun _ => none⟩ emptySystem = [str "/mnt/one/dump"] ∧
      mountsLeft NFSTransfer.translate [(splitTarget (str "one"), emptySystem)]
        ⟨fun _ => .error ENOSPC, fun _ => none⟩ emptySystem = [str "/mnt/one/dump"] := by
  decide

end Mount
end Kdump

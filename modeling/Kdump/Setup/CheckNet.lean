import Kdump.Setup.InitrdTargets

/-!
# CheckNet — the network, for the initrd and for the memory that is reserved

`check` of the `dracut` module decides if the initrd gets the network, and `depends` names modules
for it.  `Configuration::needsNetwork` decides if memory is reserved for it.

* `kdump_check_net`, `check`, `depends` — the decision of the initrd;
* `check_iff`, `mem_depends` — when the initrd gets the network, and which modules it gets;
* `needsNetwork_eq` — the answer of the program, if it accepts all targets;
* `check_needsNetwork` — where the two decisions are not the same.
-/

namespace Kdump
namespace Setup

open Lib Mount Url
open Config (Configuration)
open Config.Configuration (elements anyRemote)

/-! ## The decision of the initrd -/

/-- The variables that `check` and `depends` read. -/
structure NetVariables where
  KDUMP_NETCONFIG : Str
  KDUMP_SMTP_SERVER : Str
  KDUMP_NOTIFICATION_TO : Str
  KDUMP_POSTSCRIPT : Str
  kdump_Protocol : List Str

def FENCE_KDUMP_SEND : Str := str "/usr/lib/fence_kdump_send"

/-- The words that `[` takes for an operator, between two other words. -/
def binaryOperators : List Str :=
  [str "=", str "==", str "!=", str "<", str ">", str "-nt", str "-ot", str "-ef", str "-eq",
    str "-ne", str "-lt", str "-le", str "-gt", str "-ge"]

/-- `[ -n "$left" -a -n "$right" ]`.  If `left` is an operator, `[` compares the words on both
sides of it, and fails on the words behind. -/
def bothSet (left right : Str) : Bool :=
  left ≠ [] && !binaryOperators.contains left && right ≠ []

/-- `"${KDUMP_NETCONFIG%:force}" != "$KDUMP_NETCONFIG"` -/
def forced (netconfig : Str) : Bool :=
  Glob.removeSuffix (str ":force") netconfig ≠ netconfig

/-- `kdump_check_net`: if `kdump_neednet` is `y` behind it. -/
def kdump_check_net (v : NetVariables) (kdump_neednet : Bool) : Bool :=
  -- also if `check` has set it before
  if v.KDUMP_NETCONFIG = [] then false
  else if forced v.KDUMP_NETCONFIG then true
  else
    let kdump_neednet := v.kdump_Protocol.foldl
      (fun kdump_neednet protocol =>
        if protocol ≠ str "file" ∧ protocol ≠ str "srcfile" then true else kdump_neednet)
      kdump_neednet
    if bothSet v.KDUMP_SMTP_SERVER v.KDUMP_NOTIFICATION_TO then true else kdump_neednet

/-- What `check` leaves in `kdump_neednet`, if `fence` says that the program is installed. -/
def check (fence : Bool) (v : NetVariables) : Bool :=
  let kdump_neednet := fence && decide (FENCE_KDUMP_SEND <:+: v.KDUMP_POSTSCRIPT)
  kdump_check_net v kdump_neednet

/-- `_modules[module]=` -/
def addModule (modules : List Str) (module : Str) : List Str :=
  if modules.contains module then modules else modules ++ [module]

/-- `depends`.  The shell does not promise an order of the names. -/
def depends (kdump_neednet : Bool) (kdump_Protocol : List Str) : List Str :=
  let modules := addModule [] (str "drm")
  let modules := if kdump_neednet then addModule modules (str "network") else modules
  kdump_Protocol.foldl
    (fun modules protocol =>
      let modules := if protocol = str "nfs" then addModule modules (str "nfs") else modules
      if protocol = str "cifs" ∨ protocol = str "smb" then addModule modules (str "cifs")
      else modules)
    modules

theorem forced_iff {netconfig : Str} : forced netconfig = true ↔ str ":force" <:+ netconfig := by
  have hplain : Glob.IsPlain (str ":force") := by
    unfold Glob.IsPlain
    decide +kernel
  rw [forced, decide_eq_true_eq]
  exact Glob.removeSuffix_plain_ne_iff hplain (by decide)

/-- A loop that makes something hold for some of the items, and never undoes it. -/
theorem foldl_iff {σ α : Type*} (Holds : σ → Prop) {f : σ → α → σ} {Asks : α → Prop}
    (hf : ∀ s x, Holds (f s x) ↔ Holds s ∨ Asks x) (xs : List α) (s : σ) :
    Holds (xs.foldl f s) ↔ Holds s ∨ ∃ x ∈ xs, Asks x := by
  induction xs generalizing s with
  | nil => simp
  | cons x xs ih =>
      rw [List.foldl_cons, ih, hf, or_assoc]
      simp only [List.mem_cons, exists_eq_or_imp]

theorem foldl_neednet (protocols : List Str) (kdump_neednet : Bool) :
    protocols.foldl
        (fun kdump_neednet protocol =>
          if protocol ≠ str "file" ∧ protocol ≠ str "srcfile" then true else kdump_neednet)
        kdump_neednet = true ↔
      kdump_neednet = true ∨
        ∃ protocol ∈ protocols, protocol ≠ str "file" ∧ protocol ≠ str "srcfile" := by
  refine foldl_iff (· = true) (fun kdump_neednet protocol => ?_) protocols _
  split_ifs with hremote
  · exact ⟨fun _ => Or.inr hremote, fun _ => rfl⟩
  · rw [or_iff_left hremote]

/-- The network is not set up without a `KDUMP_NETCONFIG`, and otherwise if any of the four asks
for it. -/
theorem check_iff (fence : Bool) (v : NetVariables) :
    check fence v = true ↔
      v.KDUMP_NETCONFIG ≠ [] ∧
        (str ":force" <:+ v.KDUMP_NETCONFIG ∨
          (fence = true ∧ FENCE_KDUMP_SEND <:+: v.KDUMP_POSTSCRIPT) ∨
          (∃ protocol ∈ v.kdump_Protocol, protocol ≠ str "file" ∧ protocol ≠ str "srcfile") ∨
          bothSet v.KDUMP_SMTP_SERVER v.KDUMP_NOTIFICATION_TO = true) := by
  unfold check kdump_check_net
  rw [← forced_iff]
  by_cases hempty : v.KDUMP_NETCONFIG = []
  · rw [if_pos hempty]
    exact ⟨fun h => absurd h Bool.false_ne_true, fun h => absurd hempty h.1⟩
  · rw [if_neg hempty]
    by_cases hforce : forced v.KDUMP_NETCONFIG = true
    · rw [if_pos hforce]
      exact ⟨fun _ => ⟨hempty, Or.inl hforce⟩, fun _ => rfl⟩
    · rw [if_neg hforce]
      dsimp only
      by_cases hboth : bothSet v.KDUMP_SMTP_SERVER v.KDUMP_NOTIFICATION_TO = true
      · rw [if_pos hboth]
        exact ⟨fun _ => ⟨hempty, Or.inr (Or.inr (Or.inr hboth))⟩, fun _ => rfl⟩
      · rw [if_neg hboth, foldl_neednet, Bool.and_eq_true, decide_eq_true_eq,
          or_iff_right hforce, or_iff_left hboth, and_iff_right hempty]

/-! ## The modules -/

theorem mem_addModule {modules : List Str} {module name : Str} :
    name ∈ addModule modules module ↔ name ∈ modules ∨ name = module := by
  rw [addModule]
  split_ifs with hmem
  · rw [List.contains_iff_mem] at hmem
    refine ⟨Or.inl, ?_⟩
    rintro (hname | rfl)
    · exact hname
    · exact hmem
  · rw [List.mem_append, List.mem_singleton]

/-- What a pass of the loop adds. -/
def AsksFor (name protocol : Str) : Prop :=
  (name = str "nfs" ∧ protocol = str "nfs") ∨
    (name = str "cifs" ∧ (protocol = str "cifs" ∨ protocol = str "smb"))

/-- The modules of the initrd: those for a file system if a target is on it. -/
theorem mem_depends {kdump_neednet : Bool} {protocols : List Str} {name : Str} :
    name ∈ depends kdump_neednet protocols ↔
      name = str "drm" ∨ (name = str "network" ∧ kdump_neednet = true) ∨
        ∃ protocol ∈ protocols, AsksFor name protocol := by
  have hpass : ∀ (modules : List Str) (protocol : Str),
      name ∈ (let modules :=
            if protocol = str "nfs" then addModule modules (str "nfs") else modules
          if protocol = str "cifs" ∨ protocol = str "smb" then addModule modules (str "cifs")
          else modules) ↔
        name ∈ modules ∨ AsksFor name protocol := by
    intro modules protocol
    have hnfs : name ∈ (if protocol = str "nfs" then addModule modules (str "nfs")
        else modules) ↔ name ∈ modules ∨ (name = str "nfs" ∧ protocol = str "nfs") := by
      split_ifs with hprotocol
      · rw [mem_addModule, and_iff_left hprotocol]
      · rw [or_iff_left fun hboth => hprotocol hboth.2]
    rw [AsksFor, ← or_assoc, ← hnfs]
    dsimp only
    generalize (if protocol = str "nfs" then addModule modules (str "nfs") else modules) = added
    split_ifs with hprotocol
    · rw [mem_addModule, and_iff_left hprotocol]
    · rw [or_iff_left fun hboth => hprotocol hboth.2]
  have hfirst : name ∈ addModule [] (str "drm") ↔ name = str "drm" := by
    rw [mem_addModule]
    exact or_iff_right List.not_mem_nil
  rw [depends]
  dsimp only
  rw [foldl_iff (name ∈ ·) hpass, ← or_assoc]
  refine or_congr_left ?_
  split_ifs with hneed
  · rw [mem_addModule, hfirst, and_iff_left hneed]
  · rw [hfirst, or_iff_left fun hboth => hneed hboth.2]

/-! ## The targets -/

variable {fadump : Bool} {sys : Kdump.Path.Sys} {rootdir : Str} {elems : List Str}

/-- All of the targets are local ones. -/
def AllLocal (urls : List RootDirURL) : Prop :=
  ∀ url ∈ urls, url.m_protocol = .PROT_FILE

/-- The variables behind `kdump_get_config` and `kdump_get_targets`. -/
def NetVariables.of (c : Configuration fadump) (s : Arrays) : NetVariables where
  KDUMP_NETCONFIG := c.stringValue "KDUMP_NETCONFIG"
  KDUMP_SMTP_SERVER := c.stringValue "KDUMP_SMTP_SERVER"
  KDUMP_NOTIFICATION_TO := c.stringValue "KDUMP_NOTIFICATION_TO"
  KDUMP_POSTSCRIPT := c.stringValue "KDUMP_POSTSCRIPT"
  kdump_Protocol := (s.array (str "kdump_Protocol")).values

/-- The protocols that the shell loops over. -/
theorem Holding.protocols {copy : Bool} {urls : List RootDirURL} {s : Arrays}
    (h : Holding copy urls s) :
    (s.array (str "kdump_Protocol")).values =
      (if copy then [str "srcfile"] else []) ++
        urls.map fun url => protocol2string url.m_protocol := by
  have hentries := h.entries _ protocol_mem_labels
  have hreceived : urls.map (received (str "Protocol")) =
      urls.map fun url => protocol2string url.m_protocol :=
    List.map_congr_left fun url _ => received_protocol url
  rw [IndexedArray.values]
  change ((s.array (str "kdump_" ++ str "Protocol")).entries).map Prod.snd = _
  rw [hentries, List.map_append, IndexedArray.map_snd_numbered,
    hreceived]
  cases copy <;> rfl

/-- The loop of the shell finds a protocol that needs the network, if there is a remote target. -/
theorem Holding.exists_remote_iff {copy : Bool} {urls : List RootDirURL} {s : Arrays}
    (h : Holding copy urls s) :
    (∃ protocol ∈ (s.array (str "kdump_Protocol")).values,
        protocol ≠ str "file" ∧ protocol ≠ str "srcfile") ↔ ¬ AllLocal urls := by
  rw [h.protocols, AllLocal]
  constructor
  · rintro ⟨protocol, hmem, hfile, hsrcfile⟩ hlocal
    rcases List.mem_append.1 hmem with hkernel | htarget
    · -- the kernel is no target, whatever there are else
      cases copy with
      | false => exact absurd hkernel List.not_mem_nil
      | true => exact hsrcfile (List.mem_singleton.1 hkernel)
    · obtain ⟨url, hurl, rfl⟩ := List.mem_map.1 htarget
      exact hfile (protocol2string_eq_file.2 (hlocal url hurl))
  · intro hremote
    rw [not_forall] at hremote
    obtain ⟨url, hurl⟩ := hremote
    rw [Classical.not_imp] at hurl
    refine ⟨protocol2string url.m_protocol, ?_, ?_, protocol2string_ne_srcfile _⟩
    · exact List.mem_append_right _ (List.mem_map_of_mem hurl.1)
    · exact fun hfile => hurl.2 (protocol2string_eq_file.1 hfile)

/-! ## The decision of the program -/

/-- The loop of the program finds the same. -/
theorem anyRemote_eq
    (h : ∀ elem ∈ elems, ∃ url, RootDirURL.new sys elem rootdir = .ok url) :
    ∃ remote, anyRemote elems = .ok remote ∧
      (remote = true ↔ ¬ AllLocal (accepted (RootDirURL.new sys · rootdir) elems)) := by
  induction elems with
  | nil => exact ⟨false, rfl, by simp [AllLocal, accepted]⟩
  | cons elem elems ih =>
      rw [List.forall_mem_cons] at h
      obtain ⟨url, hurl⟩ := h.1
      obtain ⟨remote, hrest, hremote⟩ := ih h.2
      have hall : AllLocal (accepted (RootDirURL.new sys · rootdir) (elem :: elems)) ↔
          url.m_protocol = .PROT_FILE ∧
            AllLocal (accepted (RootDirURL.new sys · rootdir) elems) := by
        rw [accepted, hurl]
        exact List.forall_mem_cons
      have hpass : anyRemote (elem :: elems) =
          if url.m_protocol ≠ .PROT_FILE then .ok true else anyRemote elems := by
        rw [anyRemote, parser_of_new hurl]
      rw [hpass, hall]
      -- the loop ends at the first remote target
      by_cases hfile : url.m_protocol = .PROT_FILE
      · rw [if_neg (not_not_intro hfile), and_iff_right hfile]
        exact ⟨remote, hrest, hremote⟩
      · rw [if_pos hfile]
        exact ⟨true, rfl, fun _ hboth => hfile hboth.1, fun _ => rfl⟩

/-- Both settings for mails have a value. -/
def MailSet (c : Configuration fadump) : Prop :=
  c.stringValue "KDUMP_SMTP_SERVER" ≠ [] ∧ c.stringValue "KDUMP_NOTIFICATION_TO" ≠ []

theorem needsNetwork_eq (c : Configuration fadump)
    (h : ∀ elem ∈ elements (c.stringValue "KDUMP_SAVEDIR"),
      ∃ url, RootDirURL.new sys elem rootdir = .ok url) :
    ∃ needs, c.needsNetwork = .ok needs ∧
      (needs = true ↔ c.stringValue "KDUMP_NETCONFIG" ≠ [] ∧
        (c.stringValue "KDUMP_NETCONFIG" ≠ str "auto" ∨
          ¬ AllLocal (accepted (RootDirURL.new sys · rootdir)
            (elements (c.stringValue "KDUMP_SAVEDIR"))) ∨ MailSet c)) := by
  obtain ⟨remote, hloop, hremote⟩ := anyRemote_eq h
  rw [Configuration.needsNetwork]
  by_cases hempty : c.stringValue "KDUMP_NETCONFIG" = []
  · rw [if_pos hempty]
    exact ⟨false, rfl, fun h => absurd h Bool.false_ne_true, fun h => absurd hempty h.1⟩
  · rw [if_neg hempty, and_iff_right hempty]
    by_cases hauto : c.stringValue "KDUMP_NETCONFIG" = str "auto"
    · rw [if_neg (not_not_intro hauto), hloop, or_iff_right (not_not_intro hauto), ← hremote]
      cases remote with
      | true => exact ⟨true, rfl, fun _ => Or.inl rfl, fun _ => rfl⟩
      | false =>
          refine ⟨_, rfl, ?_⟩
          rw [or_iff_right Bool.false_ne_true, Bool.and_eq_true, decide_eq_true_eq,
            decide_eq_true_eq]
          rfl
    · rw [if_pos hauto]
      exact ⟨true, rfl, fun _ => Or.inl hauto, fun _ => rfl⟩

/-! ## The two decisions -/

theorem bothSet_imp {left right : Str} (h : bothSet left right = true) :
    left ≠ [] ∧ right ≠ [] := by
  simp only [bothSet, Bool.and_eq_true, decide_eq_true_eq] at h
  exact ⟨h.1.1, h.2⟩

/-- `fence_kdump_send` is to be run when a dump has been saved. -/
def Fenced (fence : Bool) (c : Configuration fadump) : Prop :=
  fence = true ∧ FENCE_KDUMP_SEND <:+: c.stringValue "KDUMP_POSTSCRIPT"

/-- The decision of the shell, with the arrays that hold these targets. -/
theorem check_of_iff (fence : Bool) (c : Configuration fadump) {copy : Bool}
    {urls : List RootDirURL} {s : Arrays} (h : Holding copy urls s) :
    check fence (.of c s) = true ↔
      c.stringValue "KDUMP_NETCONFIG" ≠ [] ∧
        (str ":force" <:+ c.stringValue "KDUMP_NETCONFIG" ∨ Fenced fence c ∨ ¬ AllLocal urls ∨
          bothSet (c.stringValue "KDUMP_SMTP_SERVER")
            (c.stringValue "KDUMP_NOTIFICATION_TO") = true) := by
  rw [check_iff, ← h.exists_remote_iff]
  rfl

/-- For every configuration all of whose targets are accepted.  The initrd gets the network and no
memory is reserved for it exactly if `KDUMP_NETCONFIG` is `auto` and `fence_kdump_send` is all that
asks for the network.  Memory is reserved and the initrd does not get the network exactly if nothing
asks for it, but `KDUMP_NETCONFIG` names an interface, or the name of the mail server is an
operator. -/
theorem check_needsNetwork (c : Configuration fadump) (sys : Kdump.Path.Sys) (rootdir : Str)
    (fence : Bool) (hsome : elements (c.stringValue "KDUMP_SAVEDIR") ≠ [])
    (haccepted : ∀ elem ∈ elements (c.stringValue "KDUMP_SAVEDIR"),
      ∃ url, RootDirURL.new sys elem rootdir = .ok url)
    (h : ∀ url ∈ accepted (RootDirURL.new sys · rootdir)
        (elements (c.stringValue "KDUMP_SAVEDIR")), ∀ label ∈ labels,
      OneLine (valueOf label url)) :
    ∃ s needs,
      kdump_get_targets (c.boolValue "KDUMP_COPY_KERNEL")
          (printLoop (RootDirURL.new sys · rootdir) true
            (elements (c.stringValue "KDUMP_SAVEDIR"))).1 = some s ∧
        c.needsNetwork = .ok needs ∧
        (check fence (.of c s) = true ∧ needs = false ↔
          c.stringValue "KDUMP_NETCONFIG" = str "auto" ∧ Fenced fence c ∧
            AllLocal (accepted (RootDirURL.new sys · rootdir)
              (elements (c.stringValue "KDUMP_SAVEDIR"))) ∧ ¬ MailSet c) ∧
        (check fence (.of c s) = false ∧ needs = true ↔
          c.stringValue "KDUMP_NETCONFIG" ≠ [] ∧
            ¬ str ":force" <:+ c.stringValue "KDUMP_NETCONFIG" ∧ ¬ Fenced fence c ∧
            AllLocal (accepted (RootDirURL.new sys · rootdir)
              (elements (c.stringValue "KDUMP_SAVEDIR"))) ∧
            bothSet (c.stringValue "KDUMP_SMTP_SERVER")
              (c.stringValue "KDUMP_NOTIFICATION_TO") = false ∧
            (c.stringValue "KDUMP_NETCONFIG" ≠ str "auto" ∨ MailSet c)) := by
  have hne : accepted (RootDirURL.new sys · rootdir)
      (elements (c.stringValue "KDUMP_SAVEDIR")) ≠ [] :=
    accepted_ne_nil hsome haccepted
  have hholding := holding_setTargets (c.boolValue "KDUMP_COPY_KERNEL") hne
  obtain ⟨needs, hneeds, hiff⟩ := needsNetwork_eq c haccepted
  have hprinted := kdump_get_targets_eq (c.boolValue "KDUMP_COPY_KERNEL") hne h
  have hshell := check_of_iff fence c hholding
  have hforce : ¬ str ":force" <:+ str "auto" := by decide
  have hauto : str "auto" ≠ [] := by decide
  generalize accepted (RootDirURL.new sys · rootdir)
    (elements (c.stringValue "KDUMP_SAVEDIR")) = urls at *
  refine ⟨_, needs, hprinted, hneeds, ⟨?_, ?_⟩, ⟨?_, ?_⟩⟩
  · rintro ⟨hnet, hno⟩
    obtain ⟨hset, hask⟩ := hshell.1 hnet
    have hnone : ¬ (c.stringValue "KDUMP_NETCONFIG" ≠ str "auto" ∨ ¬ AllLocal urls ∨ MailSet c) :=
      fun hask => Bool.eq_false_iff.1 hno (hiff.2 ⟨hset, hask⟩)
    rw [not_or, not_or, not_not, not_not] at hnone
    obtain ⟨hconfig, hlocal, hmail⟩ := hnone
    refine ⟨hconfig, ?_, hlocal, hmail⟩
    -- of what makes the shell set up the network, only this does not count for the program
    rcases hask with hforced | hfenced | hremote | hboth
    · exact absurd (hconfig ▸ hforced) hforce
    · exact hfenced
    · exact absurd hlocal hremote
    · exact absurd (bothSet_imp hboth) hmail
  · rintro ⟨hconfig, hfenced, hlocal, hmail⟩
    refine ⟨hshell.2 ⟨hconfig ▸ hauto, Or.inr (Or.inl hfenced)⟩, ?_⟩
    rw [Bool.eq_false_iff]
    intro hyes
    rcases (hiff.1 hyes).2 with hother | hremote | hset
    · exact hother hconfig
    · exact hremote hlocal
    · exact hmail hset
  · rintro ⟨hnet, hyes⟩
    obtain ⟨hset, hask⟩ := hiff.1 hyes
    have hnone : ¬ (str ":force" <:+ c.stringValue "KDUMP_NETCONFIG" ∨ Fenced fence c ∨
        ¬ AllLocal urls ∨ bothSet (c.stringValue "KDUMP_SMTP_SERVER")
          (c.stringValue "KDUMP_NOTIFICATION_TO") = true) :=
      fun hask => Bool.eq_false_iff.1 hnet (hshell.2 ⟨hset, hask⟩)
    rw [not_or, not_or, not_or, not_not] at hnone
    obtain ⟨hforced, hfenced, hlocal, hboth⟩ := hnone
    refine ⟨hset, hforced, hfenced, hlocal, Bool.eq_false_iff.2 hboth, ?_⟩
    rcases hask with hconfig | hremote | hmail
    · exact Or.inl hconfig
    · exact absurd hlocal hremote
    · exact Or.inr hmail
  · rintro ⟨hset, hforced, hfenced, hlocal, hboth, hask⟩
    refine ⟨?_, hiff.2 ⟨hset, hask.imp_right Or.inr⟩⟩
    rw [Bool.eq_false_iff]
    intro hnet
    rcases (hshell.1 hnet).2 with hforce' | hfence' | hremote | hboth'
    · exact hforced hforce'
    · exact hfenced hfence'
    · exact hremote hlocal
    · exact Bool.eq_false_iff.1 hboth hboth'

/-- A local target, and `fence_kdump_send` behind it. -/
private def fencedConfiguration : Configuration false :=
  (Configuration.defaults false).withValues fun name =>
    if name = str "KDUMP_POSTSCRIPT" then some FENCE_KDUMP_SEND else none

theorem check_needsNetwork_fenced :
    ∃ s needs,
      kdump_get_targets true
          (printLoop (RootDirURL.new noFiles · []) true [str "/var/log/dump"]).1 = some s ∧
        fencedConfiguration.needsNetwork = .ok needs ∧
        check true (.of fencedConfiguration s) = true ∧ needs = false := by
  have hsavedir : elements (fencedConfiguration.stringValue "KDUMP_SAVEDIR") =
      [str "/var/log/dump"] := by
    decide +kernel
  have hcopy : fencedConfiguration.boolValue "KDUMP_COPY_KERNEL" = true := by decide +kernel
  have hnew : ∃ url, RootDirURL.new noFiles (str "/var/log/dump") [] = .ok url :=
    ⟨_, rfl⟩
  have hone : ∀ url ∈ accepted (RootDirURL.new noFiles · []) [str "/var/log/dump"],
      ∀ label ∈ labels, OneLine (valueOf label url) := by
    decide +kernel
  have hlocal : AllLocal (accepted (RootDirURL.new noFiles · []) [str "/var/log/dump"]) := by
    unfold AllLocal
    decide +kernel
  have hfenced : Fenced true fencedConfiguration := by
    unfold Fenced
    decide +kernel
  have hmail : ¬ MailSet fencedConfiguration := by
    unfold MailSet
    decide +kernel
  obtain ⟨s, needs, hprinted, hneeds, hfirst, -⟩ :=
    check_needsNetwork fencedConfiguration noFiles [] true
      (by rw [hsavedir]; exact List.cons_ne_nil _ _)
      (by rw [hsavedir]; exact List.forall_mem_singleton.2 hnew)
      (by rw [hsavedir]; exact hone)
  rw [hsavedir, hcopy] at hprinted
  rw [hsavedir] at hfirst
  exact ⟨s, needs, hprinted, hneeds, hfirst.2 ⟨by decide +kernel, hfenced, hlocal, hmail⟩⟩

end Setup
end Kdump

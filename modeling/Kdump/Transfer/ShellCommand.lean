import Kdump.Lib.ShellPlain
import Kdump.Path.Slashes
import Kdump.Transfer.SSHTransfer

/-!
# ShellCommand — paths in command lines

`SSHTransfer` and `ProcessDataProvider` put paths into the command lines that they give to a shell.
None of them is quoted.

* `mkdirCommand`, `remoteCommand`, `saveCommand` — the command lines;
* `MkdirSafe`, `DdSafe`, `SaveSafe` — the shell sees every path as it is;
* `commands_safe_iff` — this is so for paths without a byte that has a meaning.
-/

namespace Kdump
namespace Transfer

open Lib Shell Tokens Kdump.Path Process

/-! ## The command lines -/

/-- Of `SSHTransfer::SSHTransfer`. -/
def SSHTransfer.mkdirCommand (path : Str) : Str :=
  str "mkdir -p " ++ path

/-- `SSHTransfer::SSHTransfer`.  Whether the host can be reached makes for a warning only. -/
def SSHTransfer.construct (self : SSHTransfer) : Except Thrown Unit := do
  self.spawn (self.makeArgs (mkdirCommand self.path))
  let status ← self.wait
  if status ≠ 0 then
    throw (.KError (str "SSHTransfer::SSHTransfer: ssh command failed with status " ++
      decimal status))

/-- Of `ProcessDataProvider::saveToFile`. -/
def saveCommand (m_directCmdline : Str) (targets : List Str) : Str :=
  m_directCmdline ++ targets.flatMap (space :: ·)

theorem saveToFile_saveCommand (self : ProcessDataProvider) (targets : List Str) :
    self.saveToFile targets = .ok () ↔
      self.system (saveCommand self.m_directCmdline targets) = .success ∨
        (self.system (saveCommand self.m_directCmdline targets)).IsSignaled :=
  self.saveToFile_eq_ok targets

/-! ## What the shell sees -/

section

variable (extent : Extent)

def MkdirSafe (path : Str) : Prop :=
  ∀ env, seen extent env (SSHTransfer.mkdirCommand path) =
    some [.argument (str "mkdir"), .argument (str "-p"), .argument path]

def DdSafe (fp : Str) : Prop :=
  ∀ env, seen extent env (SSHTransfer.remoteCommand fp) =
    some [.argument (str "dd"), .argument (str "of=" ++ fp ++ str "-incomplete"),
      .operator (str "&&"), .argument (str "mv"), .argument (fp ++ str "-incomplete"),
      .argument fp]

/-- The targets come behind what is seen of the command line without them. -/
def SaveSafe (m_directCmdline : Str) (targets : List Str) : Prop :=
  ∀ env, ∃ own, seen extent env m_directCmdline = some own ∧
    seen extent env (saveCommand m_directCmdline targets) =
      some (own ++ targets.map .argument)

/-- The text is a command line of its own: what follows is read from the state `s` on. -/
structure Complete (text : Str) (s : State) : Prop where
  mode : s.mode = .plain
  run : ∀ rest, run extent .start (text ++ rest) = run extent s rest

end

section

variable {extent : Extent} {path fp direct : Str} {s : State}

theorem starts_of_slash {t : Str} (h : t.head? = some slash) : Starts t := by
  obtain ⟨t', rfl⟩ := List.head?_eq_some_iff.1 h
  exact ⟨by decide, by decide⟩

theorem inert_of_slash {t : Str} (h : t.head? = some slash) : ∀ c ∈ t.head?, Inert c := by
  rw [h]
  rintro c ⟨⟩
  decide

theorem ne_nil_of_slash {t : Str} (h : t.head? = some slash) : t ≠ [] := by
  rintro rfl
  cases h

/-! ### `mkdir -p` -/

theorem tokensFrom_mkdir : tokensFrom extent .start (SSHTransfer.mkdirCommand path) =
    tokensFrom extent ⟨.plain, none, wordsOf [str "mkdir", str "-p"]⟩ path :=
  rfl

theorem seen_mkdir (env : Surroundings) :
    (wordsOf [str "mkdir", str "-p"]).flatMap (Token.seen env) =
      [.argument (str "mkdir"), .argument (str "-p")] :=
  seen_wordsOf (by decide) env

theorem mkdirSafe_iff (hpath : path.head? = some slash) :
    MkdirSafe extent path ↔ Plain path := by
  refine ⟨fun h => ?_, fun h env => ?_⟩
  · refine @plain_of_seen_start extent (wordsOf [str "mkdir", str "-p"]) path [] (.inl rfl)
      (starts_of_slash hpath) (inert_of_slash hpath) fun env => ⟨[], ?_⟩
    have hseen := h env
    rw [seen, tokensFrom_mkdir] at hseen
    rw [List.append_nil, hseen, seen_mkdir]
    rfl
  · have hfrom := @tokensFrom_plain extent (wordsOf [str "mkdir", str "-p"]) path [] h
      (starts_of_slash hpath)
    rw [List.append_nil] at hfrom
    rw [seen, tokensFrom_mkdir, hfrom, tokensFrom_end, Option.map_some, List.flatMap_append,
      seen_mkdir, List.flatMap_singleton, seen_plain h (ne_nil_of_slash hpath)]
    rfl

/-! ### `dd .. && mv ..` -/

/-- What stands behind the arguments of `dd`. -/
def moveCommand (fp : Str) : Str :=
  str "&& mv " ++ (fp ++ str "-incomplete" ++ blank :: fp)

/-- The first argument of `dd`, up to the path. -/
theorem tokensFrom_dd : tokensFrom extent .start (SSHTransfer.remoteCommand fp) =
    tokensFrom extent ⟨.plain, some (bytes (str "of=")), wordsOf [str "dd"]⟩
      (fp ++ str "-incomplete" ++ blank :: moveCommand fp) := by
  rw [SSHTransfer.remoteCommand, moveCommand]
  simp only [List.append_assoc]
  rfl

theorem tokensFrom_mv {tokens : List Token} {rest : Str} :
    tokensFrom extent ⟨.plain, none, tokens⟩ (str "&& mv " ++ rest) =
      tokensFrom extent ⟨.plain, none, tokens ++ .operator (str "&&") :: wordsOf [str "mv"]⟩
        rest := by
  have hrun : tokensFrom extent ⟨.plain, none, tokens⟩ (str "&& mv " ++ rest) =
      tokensFrom extent
        ⟨.plain, none, tokens ++ [] ++ [.operator (str "&&")] ++ [] ++ wordsOf [str "mv"]⟩
        rest := rfl
  rw [hrun, List.append_nil, List.append_nil, List.append_assoc]
  rfl

theorem plain_incomplete : Plain (fp ++ str "-incomplete") ↔ Plain fp :=
  @plain_between [] fp (str "-incomplete") (by decide) (by decide)

theorem plain_of_equals : Plain (str "of=" ++ fp ++ str "-incomplete") ↔ Plain fp :=
  plain_between (by decide) (by decide)

/-- All tokens of the command, for a path that is read as it is. -/
theorem tokensFrom_remoteCommand (hfp : fp.head? = some slash) (h : Plain fp) :
    tokensFrom extent .start (SSHTransfer.remoteCommand fp) =
      some (wordsOf [str "dd", str "of=" ++ fp ++ str "-incomplete"] ++
        .operator (str "&&") ::
          wordsOf [str "mv", fp ++ str "-incomplete", fp]) := by
  have hstarts := starts_of_slash hfp
  have hincomplete : Starts (fp ++ str "-incomplete") := by
    obtain ⟨fp', rfl⟩ := List.head?_eq_some_iff.1 hfp
    exact hstarts
  have hend := @tokensFrom_plain extent
    (wordsOf [str "dd", str "of=" ++ fp ++ str "-incomplete"] ++
      .operator (str "&&") :: wordsOf [str "mv", fp ++ str "-incomplete"]) fp [] h hstarts
  rw [List.append_nil, tokensFrom_end] at hend
  rw [tokensFrom_dd, tokensFrom_inert (plain_incomplete.2 h).1, tokensFrom_blank, moveCommand,
    tokensFrom_mv, tokensFrom_plain (plain_incomplete.2 h) hincomplete, tokensFrom_blank]
  simpa [wordsOf] using hend

theorem ddSafe_iff (hfp : fp.head? = some slash) : DdSafe extent fp ↔ Plain fp := by
  refine ⟨fun h => ?_, fun h env => ?_⟩
  · have hof : Harmless (str "of=") := by decide
    rw [← plain_of_equals, List.append_assoc]
    refine @plain_of_seen extent (wordsOf [str "dd"]) (str "of=") (fp ++ str "-incomplete")
      (blank :: moveCommand fp) (.inr ⟨_, rfl⟩) (List.cons_ne_nil _ _) hof.inert fun env =>
      ⟨[.operator (str "&&"), .argument (str "mv"), .argument (fp ++ str "-incomplete"),
        .argument fp], ?_⟩
    have hseen := h env
    rw [seen, tokensFrom_dd] at hseen
    rw [hseen, seen_wordsOf (by decide) env]
    simp
  · have hne : fp ≠ [] := ne_nil_of_slash hfp
    have hdd : ∀ t ∈ [str "dd", str "of=" ++ fp ++ str "-incomplete"], Plain t ∧ t ≠ [] := by
      simp only [List.forall_mem_cons]
      exact ⟨by decide, ⟨plain_of_equals.2 h, List.cons_ne_nil _ _⟩, List.forall_mem_nil _⟩
    have hmv : ∀ t ∈ [str "mv", fp ++ str "-incomplete", fp], Plain t ∧ t ≠ [] := by
      simp only [List.forall_mem_cons]
      exact ⟨by decide, ⟨plain_incomplete.2 h, List.append_ne_nil_of_left_ne_nil hne _⟩,
        ⟨h, hne⟩, List.forall_mem_nil _⟩
    rw [seen, tokensFrom_remoteCommand hfp h, Option.map_some, List.flatMap_append,
      List.flatMap_cons, seen_wordsOf hdd, seen_wordsOf hmv]
    rfl

/-! ### The command of the data provider -/

/-- The arguments that are appended. -/
def appended (targets : List Str) : Str :=
  targets.flatMap (space :: ·)

theorem breaks_appended (targets : List Str) : Breaks (appended targets) := by
  cases targets with
  | nil => exact .inl rfl
  | cons t targets => exact .inr ⟨_, rfl⟩

section

variable {word : Option (List Part)} {tokens : List Token} {t : Str} {targets : List Str}

/-- A state between two tokens, or at the end of a word. -/
abbrev between (word : Option (List Part)) (tokens : List Token) : State :=
  ⟨.plain, word, tokens⟩

theorem tokensFrom_appended (ht : t.head? = some slash) (h : Plain t) :
    tokensFrom extent (between word tokens) (appended (t :: targets)) =
      tokensFrom extent (between (some (bytes t)) (between word tokens).endWord.tokens)
        (appended targets) :=
  -- the space ends the word
  tokensFrom_plain h (starts_of_slash ht)

theorem seen_endWord (ht : t ≠ []) (h : Plain t) (env : Surroundings) :
    (between (some (bytes t)) tokens).endWord.tokens.flatMap (Token.seen env) =
      tokens.flatMap (Token.seen env) ++ [.argument t] := by
  have hend : (between (some (bytes t)) tokens).endWord.tokens = tokens ++ [.word (bytes t)] := rfl
  rw [hend, List.flatMap_append, List.flatMap_singleton, seen_plain h ht]

/-- What is seen of the arguments that are appended, where they are seen as they are. -/
theorem appended_iff (htargets : ∀ t ∈ targets, t.head? = some slash) :
    (∀ env, (tokensFrom extent (between word tokens) (appended targets)).map
        (fun all => all.flatMap (Token.seen env)) =
      some ((between word tokens).endWord.tokens.flatMap (Token.seen env) ++
        targets.map .argument)) ↔ ∀ t ∈ targets, Plain t := by
  induction targets generalizing word tokens with
  | nil =>
      refine iff_of_true (fun env => ?_) (List.forall_mem_nil _)
      rw [List.map_nil, List.append_nil]
      rfl
  | cons t targets ih =>
      obtain ⟨ht, htargets⟩ := List.forall_mem_cons.1 htargets
      have hnext : ∀ env, (between word tokens).endWord.tokens.flatMap (Token.seen env) ++
            (t :: targets).map .argument =
          (between word tokens).endWord.tokens.flatMap (Token.seen env) ++ [.argument t] ++
            targets.map .argument := fun env => List.append_cons _ _ _
      have hrest := @ih (some (bytes t)) (between word tokens).endWord.tokens htargets
      rw [List.forall_mem_cons]
      constructor
      · intro h
        -- the first argument settles itself, whatever the shell makes of the others
        have hplain : Plain t := @plain_of_seen_start extent
          (between word tokens).endWord.tokens t (appended targets) (breaks_appended targets)
          (starts_of_slash ht) (inert_of_slash ht) fun env => ⟨targets.map .argument, h env⟩
        refine ⟨hplain, hrest.1 fun env => ?_⟩
        have henv := h env
        rw [tokensFrom_appended ht hplain, hnext] at henv
        rw [seen_endWord (ne_nil_of_slash ht) hplain]
        exact henv
      · rintro ⟨hplain, h⟩ env
        have henv := hrest.2 h env
        rw [seen_endWord (ne_nil_of_slash ht) hplain] at henv
        rw [tokensFrom_appended ht hplain, hnext]
        exact henv

theorem saveSafe_iff {s : State} (hdirect : Complete extent direct s)
    (htargets : ∀ t ∈ targets, t.head? = some slash) :
    SaveSafe extent direct targets ↔ ∀ t ∈ targets, Plain t := by
  obtain ⟨mode, word, tokens⟩ := s
  obtain ⟨rfl, hrun⟩ := hdirect
  have hown : ∀ env, seen extent env direct =
      some ((between word tokens).endWord.tokens.flatMap (Token.seen env)) := fun env => by
    have hnil := hrun []
    rw [List.append_nil] at hnil
    rw [seen, tokensFrom, hnil]
    rfl
  have hall : ∀ env, seen extent env (saveCommand direct targets) =
      (tokensFrom extent (between word tokens) (appended targets)).map
        (fun all => all.flatMap (Token.seen env)) := fun env => by
    rw [seen, saveCommand, tokensFrom, hrun]
    rfl
  rw [← appended_iff htargets]
  refine forall_congr' fun env => ?_
  rw [hown, hall]
  constructor
  · rintro ⟨own, hsome, h⟩
    cases hsome
    exact h
  · exact fun h => ⟨_, rfl, h⟩

end

/-! ## Safe command lines -/

/-- The command lines are safe exactly if no byte of the paths in them has a meaning to the shell,
and no path is a pattern. -/
theorem commands_safe_iff (extent : Extent) (path file direct : Str) (targets : List Str)
    (s : State) (hpath : path.head? = some slash) (hdirect : Complete extent direct s)
    (htargets : ∀ t ∈ targets, t.head? = some slash) :
    (MkdirSafe extent path ↔ Plain path) ∧
      (DdSafe extent (appendPath path file) ↔ Plain (appendPath path file)) ∧
      (SaveSafe extent direct targets ↔ ∀ t ∈ targets, Plain t) :=
  ⟨mkdirSafe_iff hpath, ddSafe_iff (appendPath_head hpath file), saveSafe_iff hdirect htargets⟩

theorem commands_safe_var :
    (MkdirSafe (fun _ _ => none) (str "/var/log/dump") ↔ Plain (str "/var/log/dump")) ∧
      (DdSafe (fun _ _ => none) (appendPath (str "/var/log/dump") (str "vmcore")) ↔
        Plain (appendPath (str "/var/log/dump") (str "vmcore"))) ∧
      (SaveSafe (fun _ _ => none) (str "makedumpfile -c /proc/vmcore")
        [str "/var/log/dump/vmcore"] ↔ ∀ t ∈ [str "/var/log/dump/vmcore"], Plain t) :=
  commands_safe_iff (fun _ _ => none) (str "/var/log/dump") (str "vmcore")
    (str "makedumpfile -c /proc/vmcore") [str "/var/log/dump/vmcore"]
    ⟨.plain, some (bytes (str "/proc/vmcore")), wordsOf [str "makedumpfile", str "-c"]⟩
    rfl ⟨rfl, fun _ => rfl⟩ (by decide)

/-- A directory with a space in its name is two arguments. -/
theorem directory_with_space :
    seen (fun _ _ => none) (hostile 0) (SSHTransfer.mkdirCommand (str "/a b")) =
        some [.argument (str "mkdir"), .argument (str "-p"), .argument (str "/a"),
          .argument (str "b")] ∧
      ¬ MkdirSafe (fun _ _ => none) (str "/a b") ∧
      ¬ DdSafe (fun _ _ => none) (appendPath (str "/a b") (str "vmcore")) ∧
      ¬ SaveSafe (fun _ _ => none) (str "makedumpfile")
        [appendPath (str "/a b") (str "vmcore")] := by
  refine ⟨by decide, fun h => ?_, fun h => ?_, fun h => ?_⟩
  · exact absurd (h (hostile 0)) (by decide)
  · exact absurd (h (hostile 0)) (by decide)
  · obtain ⟨own, hown, h⟩ := h (hostile 0)
    cases hown
    exact absurd h (by decide)

end

end Transfer
end Kdump

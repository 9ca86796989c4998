import Kdump.Config.DumpConfig
import Kdump.Lib.ShellRules

/-!
# ShellFormat — `dump_config` in shell format, read by a shell

The text is a sequence of lines, each with one assignment.  The lexer of the shell is followed
through a line: the name, the `=`, and the quoted value.  Inside of the quotes, `'\''` leaves them
for one escaped quote; at the end of a value the last of these bytes is missing, since the string
is closed already.

* `lex_shellQuoted` — the parts of the word that is read, which make the value;
* `lex_shellAssignment` and `lex_shellAssignments` — lines;
* `run_execute` — the variables behind the whole text.
-/

namespace Kdump
namespace Config

open Lib Lib.Shell

/-! ## Quoted values -/

theorem isLiteral_of_is_shell_safe {c : UInt8} (h : is_shell_safe c = true) : IsLiteral c :=
  isLiteral_of_any (by decide) h

/-- What is read of a byte between the quotes. -/
def escapedPieces (c : UInt8) : Word :=
  if c = squote then [.quoted squote, .mark] else [.quoted c]

theorem valueOf_append (vars : Vars) (w w' : Word) :
    valueOf vars (w ++ w') = valueOf vars w ++ valueOf vars w' :=
  List.flatMap_append

theorem valueOf_escapedPieces (vars : Vars) (s : Str) :
    valueOf vars (s.flatMap escapedPieces) = s := by
  induction s with
  | nil => rfl
  | cons c s ih =>
      rw [List.flatMap_cons, valueOf_append, ih]
      unfold escapedPieces
      split_ifs with h
      · rw [h]
        rfl
      · rfl

theorem valueOf_literal (vars : Vars) (s : Str) : valueOf vars (s.map .literal) = s := by
  induction s with
  | nil => rfl
  | cons c s ih => exact congrArg (c :: ·) ih

variable {w : Word} {words : List Word} {commands : List Command}

/-- Between the quotes; `'\''` is left and entered again. -/
theorem lex_shellEscape (s : Str) (hnul : 0 ∉ s) :
    Lexer.lex ⟨.single, some w, words, commands⟩ (s.flatMap shellEscape) =
      some ⟨.single, some (w ++ s.flatMap escapedPieces), words, commands⟩ := by
  induction s generalizing w with
  | nil =>
      rw [List.flatMap_nil, List.flatMap_nil, List.append_nil]
      rfl
  | cons c s ih =>
      rcases List.ne_and_not_mem_of_not_mem_cons hnul with ⟨hzero, hnul⟩
      have hc : Lexer.lex ⟨.single, some w, words, commands⟩ (shellEscape c) =
          some ⟨.single, some (w ++ escapedPieces c), words, commands⟩ := by
        unfold shellEscape escapedPieces
        split_ifs with h
        · have hpieces : w ++ [.quoted squote] ++ [.mark] = w ++ [.quoted squote, .mark] :=
            List.append_assoc _ _ _
          rw [← hpieces]
          rfl
        · exact Lexer.lex_single [c] (fun hmem => h (List.mem_singleton.1 hmem).symm)
            (fun hmem => hzero (List.mem_singleton.1 hmem))
      rw [List.flatMap_cons, Lexer.lex_append_of hc, ih hnul, List.flatMap_cons, List.append_assoc]

theorem shellEscape_of_ne {c : UInt8} (h : c ≠ squote) : shellEscape c = [c] := if_neg h

/-- A value that ends in a quote is closed by the backslash before it. -/
theorem shellQuoted_quote (s : Str) :
    shellQuoted (s ++ [squote]) = squote :: s.flatMap shellEscape ++ [squote, bslash, squote] := by
  have hany : (s ++ [squote]).any (fun c => !is_shell_safe c) = true :=
    List.any_eq_true.2 ⟨squote, List.mem_append_right _ (List.mem_singleton.2 rfl), rfl⟩
  have hret : (squote :: (s ++ [squote]).flatMap shellEscape) =
      (squote :: s.flatMap shellEscape ++ [squote, bslash, squote]) ++ [squote] := by
    rw [List.flatMap_append]
    simp [shellEscape]
  unfold shellQuoted
  dsimp only
  rw [if_pos hany, hret, List.getLast?_concat, if_pos rfl, List.dropLast_concat]

theorem shellQuoted_other {s : Str} {c : UInt8} (hc : c ≠ squote)
    (hany : (s ++ [c]).any (fun c => !is_shell_safe c) = true) :
    shellQuoted (s ++ [c]) = squote :: (s ++ [c]).flatMap shellEscape ++ [squote] := by
  have hlast : (squote :: (s ++ [c]).flatMap shellEscape).getLast? = some c := by
    rw [List.flatMap_append, List.flatMap_singleton, shellEscape_of_ne hc, ← List.cons_append,
      List.getLast?_concat]
  unfold shellQuoted
  dsimp only
  rw [if_pos hany, hlast, if_neg (fun h => hc (Option.some.inj h))]

theorem shellQuoted_safe {s : Str} (hany : s.any (fun c => !is_shell_safe c) = false) :
    shellQuoted s = s := by
  have hsafe : ∀ c ∈ s, is_shell_safe c = true := by
    intro c hc
    have h := List.any_eq_false.1 hany c hc
    simpa using h
  have hret : s.flatMap shellEscape = s := by
    have hmap : s.flatMap shellEscape = s.flatMap fun c => [c] := by
      refine List.flatMap_congr fun c hc => shellEscape_of_ne ?_
      rintro rfl
      cases hsafe _ hc
    rw [hmap, List.flatMap_singleton']
  unfold shellQuoted
  dsimp only
  rw [hret, hany]
  rfl

/-- The shell reads the value back, whatever it is. -/
theorem lex_shellQuoted (s : Str) (hnul : 0 ∉ s) : ∃ pieces,
    Lexer.lex ⟨.plain, some w, words, commands⟩ (shellQuoted s) =
      some ⟨.plain, some (w ++ pieces), words, commands⟩ ∧
    ∀ vars, valueOf vars pieces = s := by
  cases hany : s.any fun c => !is_shell_safe c with
  | false =>
      -- no byte has a meaning, and there are no quotes
      refine ⟨s.map .literal, ?_, fun vars => valueOf_literal vars s⟩
      rw [shellQuoted_safe hany]
      refine Lexer.lex_literal s fun c hc => isLiteral_of_is_shell_safe ?_
      simpa using List.any_eq_false.1 hany c hc
  | true =>
      have hopen : ∀ text, Lexer.lex ⟨.plain, some w, words, commands⟩ (squote :: text) =
          Lexer.lex ⟨.single, some (w ++ [.mark]), words, commands⟩ text := fun _ => rfl
      rcases List.eq_nil_or_concat' s with rfl | ⟨init, c, rfl⟩
      · cases hany
      · -- the last byte decides how the quotes are closed
        by_cases hc : c = squote
        · have hinit : 0 ∉ init := fun h => hnul (List.mem_append_left _ h)
          refine ⟨.mark :: init.flatMap escapedPieces ++ [.quoted squote], ?_, fun vars => ?_⟩
          · have hword : w ++ [.mark] ++ init.flatMap escapedPieces ++ [.quoted squote] =
                w ++ (.mark :: init.flatMap escapedPieces ++ [.quoted squote]) := by
              simp only [List.append_assoc, List.cons_append, List.nil_append]
            rw [hc, shellQuoted_quote, List.cons_append, hopen,
              Lexer.lex_append_of (lex_shellEscape init hinit), ← hword]
            rfl
          · rw [valueOf_append, hc]
            exact congrArg (· ++ [squote]) (valueOf_escapedPieces vars init)
        · refine ⟨.mark :: (init ++ [c]).flatMap escapedPieces, ?_,
            fun vars => valueOf_escapedPieces vars (init ++ [c])⟩
          have hword : w ++ [.mark] ++ (init ++ [c]).flatMap escapedPieces =
              w ++ .mark :: (init ++ [c]).flatMap escapedPieces := List.append_assoc _ _ _
          rw [shellQuoted_other hc hany, List.cons_append, hopen,
            Lexer.lex_append_of (lex_shellEscape _ hnul), ← hword]
          rfl

/-! ## Lines -/

/-- The command assigns this value to the variable. -/
def Assigns (command : Command) (entry : Str × Str) : Prop :=
  ∃ pieces, command = [assignmentWord entry.1 pieces] ∧
    ∀ vars, valueOf vars pieces = entry.2

/-- A line with an assignment, in shell format. -/
def shellAssignment (entry : Str × Str) : Str :=
  entry.1 ++ [eqSign] ++ shellQuoted entry.2 ++ [newline]

theorem lex_shellAssignment {entry : Str × Str} (hname : isName entry.1 = true)
    (hnul : 0 ∉ entry.2) : ∃ command, Assigns command entry ∧
      Lexer.lex ⟨.plain, none, [], commands⟩ (shellAssignment entry) =
        some ⟨.plain, none, [], commands ++ [command]⟩ := by
  have hne : entry.1 ++ [eqSign] ≠ [] := List.append_ne_nil_of_right_ne_nil _ (List.cons_ne_nil _ _)
  rcases @lex_shellQuoted ((entry.1 ++ [eqSign]).map .literal) [] commands entry.2 hnul with
    ⟨pieces, hquoted, hvalue⟩
  refine ⟨[assignmentWord entry.1 pieces], ⟨pieces, rfl, hvalue⟩, ?_⟩
  have hword : (entry.1 ++ [eqSign]).map Piece.literal ++ pieces =
      assignmentWord entry.1 pieces := by
    rw [List.map_append, List.append_assoc]
    rfl
  unfold shellAssignment
  rw [List.append_assoc,
    Lexer.lex_append_of (Lexer.lex_literal_start hne (isLiteral_name_equals hname)),
    Lexer.lex_append_of hquoted, hword, Lexer.lex_cons, Lexer.step_nl_some]
  rfl

/-- A sequence of such lines. -/
theorem lex_shellAssignments (entries : List (Str × Str))
    (h : ∀ entry ∈ entries, isName entry.1 = true ∧ 0 ∉ entry.2) :
    ∃ cmds, List.Forall₂ Assigns cmds entries ∧
      Lexer.lex ⟨.plain, none, [], commands⟩ (entries.flatMap shellAssignment) =
        some ⟨.plain, none, [], commands ++ cmds⟩ := by
  induction entries generalizing commands with
  | nil => exact ⟨[], .nil, by rw [List.append_nil]; rfl⟩
  | cons entry entries ih =>
      rcases List.forall_mem_cons.1 h with ⟨⟨hname, hnul⟩, hmore⟩
      rcases @lex_shellAssignment commands entry hname hnul with ⟨command, hassigns, hline⟩
      rcases @ih (commands ++ [command]) hmore with ⟨cmds, hcmds, hlines⟩
      refine ⟨command :: cmds, .cons hassigns hcmds, ?_⟩
      rw [List.flatMap_cons, Lexer.lex_append_of hline, hlines, List.append_assoc]
      rfl

/-! ## Variables -/

variable {env : Environment}

/-- The assignments take effect one after the other. -/
def assignAll (vars : Vars) (entries : List (Str × Str)) : Vars :=
  entries.foldl (fun vars entry => Function.update vars entry.1 (some entry.2)) vars

theorem exec_assigns {command : Command} {entry : Str × Str} (h : Assigns command entry)
    (hname : Ordinary entry.1) (vars : Vars) (output : Text) :
    exec env (vars, output) command =
      some (Function.update vars entry.1 (some entry.2), output) := by
  rcases h with ⟨pieces, rfl, hvalue⟩
  rw [exec_assignment hname, assign, hvalue]

theorem exec_assignAll {cmds : List Command} {entries : List (Str × Str)}
    (h : List.Forall₂ Assigns cmds entries) (hname : ∀ entry ∈ entries, Ordinary entry.1)
    (vars : Vars) (output : Text) :
    cmds.foldlM (exec env) (vars, output) = some (assignAll vars entries, output) := by
  induction h generalizing vars with
  | nil => rfl
  | cons hassigns _ ih =>
      rcases List.forall_mem_cons.1 hname with ⟨hhere, hmore⟩
      rw [List.foldlM_cons, exec_assigns hassigns hhere]
      exact ih hmore _

theorem assignAll_of_notMem {name : Str} (entries : List (Str × Str)) (vars : Vars)
    (h : ∀ entry ∈ entries, entry.1 ≠ name) : assignAll vars entries name = vars name := by
  unfold assignAll
  induction entries generalizing vars with
  | nil => rfl
  | cons entry entries ih =>
      rcases List.forall_mem_cons.1 h with ⟨hne, hmore⟩
      rw [List.foldl_cons, ih _ hmore, Function.update_of_ne hne.symm]

/-- If there is only one assignment to a variable, this is its value. -/
theorem assignAll_of_mem {entries : List (Str × Str)} (hnodup : (entries.map Prod.fst).Nodup)
    (vars : Vars) {entry : Str × Str} (h : entry ∈ entries) :
    assignAll vars entries entry.1 = some entry.2 := by
  induction entries generalizing vars with
  | nil => cases h
  | cons first entries ih =>
      rcases List.nodup_cons.1 hnodup with ⟨hfirst, hnodup⟩
      rcases List.mem_cons.1 h with rfl | h
      · have hnot : ∀ other ∈ entries, other.1 ≠ entry.1 :=
          fun other hother heq => hfirst (heq ▸ List.mem_map_of_mem hother)
        exact (assignAll_of_notMem entries _ hnot).trans (Function.update_self ..)
      · exact ih hnodup _ h

/-! ## The text of `dump_config` -/

variable {fadump : Bool}

theorem ordinary_of_mem_define_opt (fadump : Bool) :
    ∀ opt ∈ define_opt fadump, Ordinary opt.name := by
  have hall : ∀ opt ∈ define_opt true, Ordinary opt.name := by decide +kernel
  exact fun opt hopt => hall opt ((define_opt_sublist fadump).subset hopt)

theorem Configuration.ordinary (c : Configuration fadump) {opt : ConfigOption}
    (hopt : opt ∈ c.m_options) : Ordinary opt.name := by
  have hmem : opt.reset ∈ define_opt fadump := by
    rw [← c.table]
    exact List.mem_map_of_mem hopt
  exact opt.name_reset ▸ ordinary_of_mem_define_opt fadump opt.reset hmem

namespace DumpConfig

variable {d : DumpConfig} {c : Configuration fadump} {entry : Str × Str}

/-- The names and values that are printed. -/
def assignments (d : DumpConfig) (c : Configuration fadump) : List (Str × Str) :=
  (c.m_options.filter d.selects).map fun opt => (opt.name, opt.valueAsString)

theorem mem_assignments : entry ∈ d.assignments c ↔
    ∃ opt ∈ c.m_options, d.selects opt = true ∧ (opt.name, opt.valueAsString) = entry := by
  unfold assignments
  constructor
  · intro h
    rcases List.mem_map.1 h with ⟨opt, hopt, heq⟩
    exact ⟨opt, (List.mem_filter.1 hopt).1, (List.mem_filter.1 hopt).2, heq⟩
  · rintro ⟨opt, hopt, hselects, heq⟩
    exact List.mem_map.2 ⟨opt, List.mem_filter.2 ⟨hopt, hselects⟩, heq⟩

theorem nodup_assignments : ((d.assignments c).map Prod.fst).Nodup := by
  unfold assignments
  rw [List.map_map]
  exact c.names_nodup.sublist (List.filter_sublist.map _)

theorem ordinary_assignments (h : entry ∈ d.assignments c) : Ordinary entry.1 := by
  rcases mem_assignments.1 h with ⟨opt, hopt, _, rfl⟩
  exact c.ordinary hopt

/-- In shell format, each option is a line. -/
theorem execute_shell (hformat : d.m_format = .FMT_SHELL) :
    d.execute c = (d.assignments c).flatMap shellAssignment := by
  unfold assignments
  rw [d.execute_eq_filter, List.flatMap_map]
  refine List.flatMap_congr fun opt _ => ?_
  unfold DumpConfig.assignment DumpConfig.quoted DumpConfig.delim
  rw [hformat]
  rfl

end DumpConfig

/-- A shell that reads what `dump_config` prints in shell format sets every printed variable to the
value of its option, and no other variable; nothing else happens. -/
theorem run_execute (d : DumpConfig) (hformat : d.m_format = .FMT_SHELL) (c : Configuration fadump)
    (hnul : ∀ opt ∈ c.m_options, d.selects opt = true → 0 ∉ opt.valueAsString)
    (env : Environment) (vars : Vars) :
    ∃ vars', run env vars (d.execute c) = some (vars', []) ∧
      (∀ opt ∈ c.m_options, d.selects opt = true → vars' opt.name = some opt.valueAsString) ∧
      ∀ name, (∀ opt ∈ c.m_options, d.selects opt = true → opt.name ≠ name) →
        vars' name = vars name := by
  have hlines : ∀ entry ∈ d.assignments c, isName entry.1 = true ∧ 0 ∉ entry.2 := by
    intro entry hentry
    refine ⟨(DumpConfig.ordinary_assignments hentry).1, ?_⟩
    rcases DumpConfig.mem_assignments.1 hentry with ⟨opt, hopt, hselects, rfl⟩
    exact hnul opt hopt hselects
  rcases @lex_shellAssignments [] _ hlines with ⟨cmds, hcmds, hlex⟩
  refine ⟨assignAll vars (d.assignments c), ?_, ?_, ?_⟩
  · have hparse : parse (d.execute c) = some cmds := by
      unfold parse Lexer.start
      rw [DumpConfig.execute_shell hformat, hlex]
      rfl
    unfold run
    rw [hparse]
    exact exec_assignAll hcmds (fun _ => DumpConfig.ordinary_assignments) vars []
  · intro opt hopt hselects
    exact assignAll_of_mem DumpConfig.nodup_assignments vars
      (DumpConfig.mem_assignments.2 ⟨opt, hopt, hselects, rfl⟩)
  · intro name hname
    refine assignAll_of_notMem _ vars fun entry hentry => ?_
    rcases DumpConfig.mem_assignments.1 hentry with ⟨opt, hopt, hselects, rfl⟩
    exact hname opt hopt hselects

theorem table_withValue (fadump : Bool) (name value : Str) :
    ((define_opt fadump).map fun opt => if opt.name = name then opt.update value else opt).map
      ConfigOption.reset = define_opt fadump := by
  refine Eq.trans ?_ (Configuration.defaults fadump).table
  rw [List.map_map]
  refine List.map_congr_left fun opt _ => ?_
  rw [Function.comp_apply]
  split_ifs
  · exact opt.reset_update value
  · rfl

/-- The default configuration, with another value of one option. -/
def Configuration.withValue (fadump : Bool) (name value : Str) : Configuration fadump :=
  ⟨_, table_withValue fadump name value⟩

/-- A value that begins and ends with a quote, and has two of them in the middle. -/
theorem run_execute_quotes : ∃ vars',
    run ⟨fun _ => [], fun _ => [], fun _ => []⟩ (fun _ => none) (DumpConfig.execute
      ⟨.FMT_SHELL, DUMP, true⟩
      (Configuration.withValue false (str "KDUMP_TRANSFER") (str "'a''b\n'"))) =
        some (vars', []) ∧
      vars' (str "KDUMP_TRANSFER") = some (str "'a''b\n'") := by
  rcases run_execute ⟨.FMT_SHELL, DUMP, true⟩ rfl
    (Configuration.withValue false (str "KDUMP_TRANSFER") (str "'a''b\n'")) (by decide +kernel)
    ⟨fun _ => [], fun _ => [], fun _ => []⟩ (fun _ => none) with ⟨vars', hrun, hvalues, _⟩
  refine ⟨vars', hrun, ?_⟩
  exact hvalues (.string (str "KDUMP_TRANSFER") DUMP [] (str "'a''b\n'")) (by decide +kernel)
    (by decide +kernel)

end Config
end Kdump

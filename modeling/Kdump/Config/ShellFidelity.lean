import Kdump.Config.ShellScript

/-!
# ShellFidelity — which values come back from the configuration file

The shell prints a variable by `echo` with an unquoted expansion: the value is split into fields,
which may be patterns, and joined with blanks again.

* `parse_printed` — what is read from the output;
* `Legible` — the values that come back as they are;
* `faithful_iff` — for no others can this be said of every shell;
* `readFile_of_faithful` — the options of a configuration.
-/

namespace Kdump
namespace Config

open Lib Lib.Shell

namespace ShellConfigParser

/-! ## Lines of output -/

/-- Behind two newlines there is an empty line. -/
theorem nil_mem_getlines {output : Str} (h : [nl, nl] <:+: output) : [] ∈ getlines output := by
  rcases h with ⟨before, behind, rfl⟩
  have htail : [] ∈ (getlines (before ++ [nl, nl] ++ behind)).tail := by
    induction before with
    | nil => exact List.mem_cons_self
    | cons c before ih =>
        rw [List.cons_append, List.cons_append, getlines]
        split_ifs
        · exact List.mem_of_mem_tail ih
        · cases hlines : getlines (before ++ [nl, nl] ++ behind) with
          | nil =>
              rw [hlines] at ih
              cases ih
          | cons line lines =>
              rw [hlines] at ih
              exact ih
  exact List.mem_of_mem_tail htail

theorem parseLine_assignment {name : Str} (hname : eqSign ∉ name) (value : Str)
    (m_variables : StringStringMap) :
    parseLine m_variables (name ++ [eqSign] ++ value) = .ok (m_variables.insert name value) := by
  have hbefore : name.findIdx? (· == eqSign) = none := by
    refine List.findIdx?_eq_none_iff.2 fun c hc => beq_false_of_ne ?_
    rintro rfl
    exact hname hc
  have hfind : (name ++ [eqSign] ++ value).findIdx? (· == eqSign) = some name.length := by
    rw [List.append_assoc, List.findIdx?_append, hbefore, Option.none_or]
    exact congrArg some (Nat.zero_add _)
  have htake : (name ++ [eqSign] ++ value).take name.length = name := by
    rw [List.append_assoc]
    exact List.take_left
  have hdrop : (name ++ [eqSign] ++ value).drop (name.length + 1) = value :=
    List.drop_left' List.length_append
  unfold parseLine
  rw [hfind]
  dsimp only
  rw [htake, hdrop]

/-- An empty line is an error. -/
theorem foldlM_parseLine_nil {lines : List Str} (h : [] ∈ lines) (m_variables : StringStringMap) :
    ∃ e, lines.foldlM parseLine m_variables = .error e := by
  induction lines generalizing m_variables with
  | nil => cases h
  | cons line lines ih =>
      rw [List.foldlM_cons]
      cases hline : parseLine m_variables line with
      | error e => exact ⟨e, rfl⟩
      | ok m =>
          rcases List.mem_cons.1 h with rfl | h
          · cases hline
          · exact ih h m

/-- The output that assigns the values to the names. -/
def outputLine (entry : Str × Str) : Str :=
  entry.1 ++ [eqSign] ++ entry.2 ++ [nl]

theorem parse_printed (entries : List (Str × Str))
    (h : ∀ entry ∈ entries, isName entry.1 = true ∧ nl ∉ entry.2) (m_variables : StringStringMap) :
    (getlines (entries.flatMap outputLine)).foldlM parseLine m_variables =
      .ok (entries.foldl (fun m entry => m.insert entry.1 entry.2) m_variables) := by
  induction entries generalizing m_variables with
  | nil => rfl
  | cons entry entries ih =>
      rcases List.forall_mem_cons.1 h with ⟨⟨hname, hvalue⟩, hmore⟩
      have hnames := isNameChar_of_isName hname
      have hequals : eqSign ∉ entry.1 := fun hmem => absurd (hnames _ hmem) (by decide)
      -- there is one line of output for each entry
      have hline : nl ∉ entry.1 ++ [eqSign] ++ entry.2 := by
        intro hmem
        rcases List.mem_append.1 hmem with hmem | hmem
        · rcases List.mem_append.1 hmem with hmem | hmem
          · exact absurd (hnames _ hmem) (by decide)
          · exact absurd (List.mem_singleton.1 hmem) (by decide)
        · exact hvalue hmem
      have hlines : getlines ((entry :: entries).flatMap outputLine) =
          (entry.1 ++ [eqSign] ++ entry.2) :: getlines (entries.flatMap outputLine) := by
        rw [List.flatMap_cons, outputLine, List.append_assoc _ [nl]]
        exact getlines_line hline _
      rw [hlines, List.foldlM_cons, parseLine_assignment hequals]
      exact ih hmore _

theorem getElem?_foldl_insert (entries : List (Str × Str)) (m_variables : StringStringMap)
    (name : Str) :
    (entries.foldl (fun m entry => m.insert entry.1 entry.2) m_variables)[name]? =
      assignAll (fun name => m_variables[name]?) entries name := by
  induction entries generalizing m_variables with
  | nil => rfl
  | cons entry entries ih =>
      rw [List.foldl_cons, ih]
      refine assignAll_congr ?_ entries
      dsimp only
      rw [Std.TreeMap.getElem?_insert]
      by_cases hname : name = entry.1
      · rw [hname, Function.update_self, if_pos (Std.LawfulEqCmp.compare_eq_iff_eq.2 rfl)]
      · rw [Function.update_of_ne hname,
          if_neg fun h => hname (Std.LawfulEqCmp.eq_of_compare h).symm]

end ShellConfigParser

/-! ## Fidelity -/

/-- The variables have the values that they should have, behind a file that is read by this
shell. -/
def Faithful (sh : Str → Str) (filename : Str) (m_variables : StringStringMap)
    (text : ConfigText) : Prop :=
  ∃ m, ShellConfigParser.parse (fun script => .ok (sh script)) ⟨filename, .ok text.text⟩
      m_variables = .ok m ∧
    ∀ name ∈ m_variables, m[name]? = text.wanted m_variables name

/-- The value of a variable in the shell, when it is printed. -/
def ConfigText.shellValue (self : ConfigText) (m_variables : StringStringMap) (name : Str) :
    Option Str :=
  assignAll (fun name => m_variables[name]?) self.effective name

/-- The values come back from the file. -/
structure Legible (m_variables : StringStringMap) (text : ConfigText) : Prop where
  nul : ∀ entry ∈ m_variables.toList, 0 ∉ entry.2
  /-- the first `echo` does not go on with a word of the file -/
  separate : ¬ text.Glued
  pattern : ∀ entry ∈ text.printed m_variables,
    ∀ value ∈ text.shellValue m_variables entry.1, NoPattern value
  white : ∀ entry ∈ text.printed m_variables,
    (text.shellValue m_variables entry.1).map squeeze = text.wanted m_variables entry.1
  /-- a variable that is not printed keeps its value -/
  silent : ∀ entry ∈ m_variables.toList, entry ∉ text.printed m_variables →
    text.wanted m_variables entry.1 = some entry.2

section Fidelity

variable {sh : Str → Str} {m_variables : StringStringMap} {text : ConfigText}
  {env : Environment} {vars : Vars}

theorem parse_eq (sh : Str → Str) (filename : Str) (m_variables : StringStringMap)
    (text : ConfigText) :
    ShellConfigParser.parse (fun script => .ok (sh script)) ⟨filename, .ok text.text⟩ m_variables =
      (ShellConfigParser.getlines (sh (ShellConfigParser.script text.text m_variables))).foldlM
        ShellConfigParser.parseLine m_variables :=
  rfl

/-- An empty line in the output is an error. -/
theorem not_faithful_of_nl (filename : Str)
    (h : [nl, nl] <:+: sh (ShellConfigParser.script text.text m_variables)) :
    ¬ Faithful sh filename m_variables text := by
  rintro ⟨m, hm, _⟩
  rcases ShellConfigParser.foldlM_parseLine_nil (ShellConfigParser.nil_mem_getlines h) m_variables
    with ⟨e, he⟩
  rw [parse_eq, he] at hm
  cases hm

theorem printed_sublist (text : ConfigText) (m_variables : StringStringMap) :
    (text.printed m_variables).Sublist m_variables.toList := by
  unfold ConfigText.printed
  split_ifs
  · exact List.Sublist.refl _
  · exact List.tail_sublist _

theorem mem_of_mem_toList {entry : Str × Str} (h : entry ∈ m_variables.toList) :
    entry.1 ∈ m_variables := by
  rw [← Std.TreeMap.isSome_getElem?_iff_mem, Std.TreeMap.mem_toList_iff_getElem?_eq_some.1 h]
  rfl

theorem shellValue_isSome (text : ConfigText) {name : Str} (h : name ∈ m_variables) :
    ∃ value, text.shellValue m_variables name = some value :=
  Option.isSome_iff_exists.1 (assignAll_isSome (Std.TreeMap.isSome_getElem?_iff_mem.2 h) _)

/-- What is read of the variables that are printed. -/
def ConfigText.readBack (self : ConfigText) (m_variables : StringStringMap) : List (Str × Str) :=
  (self.printed m_variables).map fun entry =>
    (entry.1, squeeze ((self.shellValue m_variables entry.1).getD []))

/-- Without patterns, the values are read with white space made single blanks. -/
theorem parse_of_noPattern (h : Registered m_variables text)
    (hnul : ∀ entry ∈ m_variables.toList, 0 ∉ entry.2) (hglued : ¬ text.Glued)
    (hpattern : ∀ entry ∈ text.printed m_variables,
      ∀ value ∈ text.shellValue m_variables entry.1, NoPattern value)
    (henv : env.Posix)
    (hsh : ∀ script vars' output, run env vars script = some (vars', output) →
      sh script = output) (filename : Str) :
    ShellConfigParser.parse (fun script => .ok (sh script)) ⟨filename, .ok text.text⟩ m_variables =
      .ok ((text.readBack m_variables).foldl (fun m entry => m.insert entry.1 entry.2)
        m_variables) := by
  rcases run_script h hnul hglued henv vars with ⟨vars', hrun, hvalues⟩
  have hline : ∀ entry ∈ text.printed m_variables, printedText env vars' entry.1 =
      ShellConfigParser.outputLine
        (entry.1, squeeze ((text.shellValue m_variables entry.1).getD [])) := by
    intro entry hentry
    have hmem := mem_of_mem_toList ((printed_sublist text m_variables).subset hentry)
    rcases shellValue_isSome text hmem with ⟨value, hvalue⟩
    have hname := (h.ordinary entry ((printed_sublist text m_variables).subset hentry)).1
    have hbackslash : backslash ∉ entry.1 ++ [eqSign] :=
      fun hc => (isLiteral_name_equals hname _ hc).2.2.2.2.1 rfl
    rw [hvalue, Option.getD_some]
    exact echo_quotedParameter henv (List.mem_append_right _ (List.mem_singleton.2 rfl)) hbackslash
      ((hvalues _ hmem).trans hvalue) (hpattern entry hentry value hvalue)
  -- the output consists of these lines
  have houtput : (text.printed m_variables).flatMap (fun entry => printedText env vars' entry.1) =
      (text.readBack m_variables).flatMap ShellConfigParser.outputLine := by
    unfold ConfigText.readBack
    rw [List.flatMap_map]
    exact List.flatMap_congr hline
  have hnames : ∀ entry ∈ text.readBack m_variables, isName entry.1 = true ∧ nl ∉ entry.2 := by
    intro entry hentry
    rcases List.mem_map.1 hentry with ⟨before, hbefore, rfl⟩
    exact ⟨(h.ordinary before ((printed_sublist text m_variables).subset hbefore)).1,
      nl_notMem_squeeze _⟩
  calc ShellConfigParser.parse (fun script => .ok (sh script)) ⟨filename, .ok text.text⟩
          m_variables
      = (ShellConfigParser.getlines ((text.readBack m_variables).flatMap
          ShellConfigParser.outputLine)).foldlM ShellConfigParser.parseLine m_variables := by
        rw [parse_eq, hsh _ _ _ hrun, houtput]
    _ = _ := ShellConfigParser.parse_printed _ hnames m_variables

theorem nodup_readBack (text : ConfigText) (m_variables : StringStringMap) :
    ((text.readBack m_variables).map Prod.fst).Nodup := by
  unfold ConfigText.readBack
  rw [List.map_map]
  exact (nodup_names m_variables).sublist ((printed_sublist text m_variables).map _)

theorem readBack_printed {entry : Str × Str} (hentry : entry ∈ text.printed m_variables) :
    assignAll (fun name => m_variables[name]?) (text.readBack m_variables) entry.1 =
      (text.shellValue m_variables entry.1).map squeeze := by
  have hmem := mem_of_mem_toList ((printed_sublist text m_variables).subset hentry)
  rcases shellValue_isSome text hmem with ⟨value, hvalue⟩
  have hread : (entry.1, squeeze value) ∈ text.readBack m_variables := by
    refine List.mem_map.2 ⟨entry, hentry, ?_⟩
    rw [hvalue]
    rfl
  rw [hvalue]
  exact assignAll_of_mem (nodup_readBack text m_variables) _ hread

theorem readBack_silent {entry : Str × Str} (hentry : entry ∈ m_variables.toList)
    (hnot : entry ∉ text.printed m_variables) :
    assignAll (fun name => m_variables[name]?) (text.readBack m_variables) entry.1 =
      some entry.2 := by
  refine Eq.trans (assignAll_of_notMem _ _ fun other hother hname => hnot ?_)
    (Std.TreeMap.mem_toList_iff_getElem?_eq_some.1 hentry)
  rcases List.mem_map.1 hother with ⟨before, hbefore, rfl⟩
  have hsame : before = entry := List.inj_on_of_nodup_map (nodup_names m_variables)
    ((printed_sublist text m_variables).subset hbefore) hentry hname
  exact hsame ▸ hbefore

/-- Then the white space decides. -/
theorem faithful_of_noPattern (h : Registered m_variables text)
    (hnul : ∀ entry ∈ m_variables.toList, 0 ∉ entry.2) (hglued : ¬ text.Glued)
    (hpattern : ∀ entry ∈ text.printed m_variables,
      ∀ value ∈ text.shellValue m_variables entry.1, NoPattern value)
    (henv : env.Posix)
    (hsh : ∀ script vars' output, run env vars script = some (vars', output) →
      sh script = output) (filename : Str) :
    Faithful sh filename m_variables text ↔ Legible m_variables text := by
  have hparse := parse_of_noPattern h hnul hglued hpattern henv hsh filename
  constructor
  · rintro ⟨m, hm, hvalues⟩
    rw [hparse] at hm
    cases hm
    have hread : ∀ entry ∈ m_variables.toList,
        assignAll (fun name => m_variables[name]?) (text.readBack m_variables) entry.1 =
          text.wanted m_variables entry.1 := by
      intro entry hentry
      rw [← ShellConfigParser.getElem?_foldl_insert]
      exact hvalues _ (mem_of_mem_toList hentry)
    refine ⟨hnul, hglued, hpattern, fun entry hentry => ?_, fun entry hentry hnot => ?_⟩
    · exact (readBack_printed hentry).symm.trans
        (hread entry ((printed_sublist text m_variables).subset hentry))
    · exact (hread entry hentry).symm.trans (readBack_silent hentry hnot)
  · intro hlegible
    refine ⟨_, hparse, fun name hname => ?_⟩
    rw [ShellConfigParser.getElem?_foldl_insert]
    rcases mem_toList_of_mem hname with ⟨value, hmem⟩
    -- a variable that is not printed has not been assigned either
    by_cases hentry : (name, value) ∈ text.printed m_variables
    · exact (readBack_printed hentry).trans (hlegible.white _ hentry)
    · exact (readBack_silent hmem hentry).trans (hlegible.silent _ hmem hentry).symm

/-- If the last line of the file is ended by a newline, or has nothing on it. -/
theorem legible_iff (hassignment : text.last.assignment = none)
    (hcomment : text.last.comment = none) :
    Legible m_variables text ↔ (∀ entry ∈ m_variables.toList, 0 ∉ entry.2) ∧
      ∀ entry ∈ m_variables.toList, ∀ value ∈ text.wanted m_variables entry.1, Unchanged value := by
  have hglued : ¬ text.Glued := fun h => h.1 hassignment
  have hprinted : text.printed m_variables = m_variables.toList := if_pos hcomment
  -- nothing is left over on the last line, so the shell sees what was meant
  have hvalue : ∀ name, text.shellValue m_variables name = text.wanted m_variables name := by
    intro name
    unfold ConfigText.shellValue ConfigText.effective ConfigText.wanted ConfigText.assignments
    rw [if_pos hcomment, hassignment, Option.toList_none, List.append_nil]
  have hsqueeze : ∀ value : Option Str,
      value.map squeeze = value ↔ ∀ v ∈ value, squeeze v = v := by
    intro value
    cases value with
    | none => exact ⟨fun _ => nofun, fun _ => rfl⟩
    | some v => exact ⟨fun h w hw => Option.some.inj hw ▸ Option.some.inj h,
        fun h => congrArg some (h v rfl)⟩
  constructor
  · intro h
    refine ⟨h.nul, fun entry hentry value hwanted => unchanged_iff.2 ⟨?_, ?_⟩⟩
    · exact h.pattern entry (hprinted.symm ▸ hentry) value ((hvalue _).trans hwanted)
    · have hwhite := h.white entry (hprinted.symm ▸ hentry)
      rw [hvalue] at hwhite
      exact (hsqueeze _).1 hwhite value hwanted
  · rintro ⟨hnul, h⟩
    refine ⟨hnul, hglued, fun entry hentry value hshell => ?_, fun entry hentry => ?_,
      fun entry hentry hnot => (hnot (hprinted.symm ▸ hentry)).elim⟩
    · exact (h entry (hprinted ▸ hentry) value ((hvalue _).symm.trans hshell)).pattern
    · rw [hvalue]
      exact (hsqueeze _).2 fun value hwanted =>
        (unchanged_iff.1 (h entry (hprinted ▸ hentry) value hwanted)).2

end Fidelity

/-! ## The claim of fidelity -/

/-- A line that is an assignment, or has nothing on it. -/
def ConfigLine.ofAssignment (assignment : Option (Str × Str))
    (literal : ∀ entry ∈ assignment, quote ∉ entry.2 ∧ 0 ∉ entry.2) : ConfigLine where
  indent := []
  assignment := assignment
  trailing := []
  comment := none
  indent_blank := List.forall_mem_nil _
  trailing_blank := List.forall_mem_nil _
  separate _ h := absurd rfl h
  literal := literal
  comment_text _ h := (Option.not_mem_none _ h).elim

def emptyLine : ConfigLine :=
  .ofAssignment none fun _ h => (Option.not_mem_none _ h).elim

def emptyFile : ConfigText :=
  ⟨[], emptyLine⟩

/-- A value with two blanks. -/
def commandline : StringStringMap :=
  addVariable ∅ (str "KDUMP_COMMANDLINE_APPEND") (str "maxcpus=1  irqpoll")

theorem registered_commandline : Registered commandline emptyFile := by
  constructor
  · decide
  · decide

/-- A file that assigns nothing: no shell gives the value back. -/
theorem not_faithful_commandline :
    Registered commandline emptyFile ∧ (∀ entry ∈ commandline.toList, nl ∉ entry.2) ∧
      IsPosix hostileShell ∧
      ∀ sh, IsPosix sh → ¬ Faithful sh (str "/etc/sysconfig/kdump") commandline emptyFile := by
  refine ⟨registered_commandline, by decide, hostileShell_posix, ?_⟩
  rintro sh ⟨env, vars, henv, hsh⟩ hfaithful
  have hnul : ∀ entry ∈ commandline.toList, 0 ∉ entry.2 := by decide
  have hpattern : ∀ entry ∈ emptyFile.printed commandline,
      ∀ value ∈ emptyFile.shellValue commandline entry.1, NoPattern value := by decide
  have hlegible := (faithful_of_noPattern registered_commandline hnul (by decide) hpattern henv hsh
    _).1 hfaithful
  have hunchanged := ((legible_iff rfl rfl).1 hlegible).2
  revert hunchanged
  decide

section

variable {m_variables : StringStringMap} {text : ConfigText}

/-- Every shell that POSIX allows leaves the variables with the values that they should have, if
and only if these are legible. -/
theorem faithful_iff (h : Registered m_variables text) (filename : Str) :
    (∀ sh, IsPosix sh → Faithful sh filename m_variables text) ↔ Legible m_variables text := by
  constructor
  · intro hfaithful
    -- one shell is enough
    have hhostile := hfaithful hostileShell hostileShell_posix
    have hlines : ¬ [nl, nl] <:+: hostileShell (ShellConfigParser.script text.text m_variables) :=
      fun hnl => not_faithful_of_nl filename hnl hhostile
    have hnul : ∀ entry ∈ m_variables.toList, 0 ∉ entry.2 := by
      intro entry hentry hnul
      rw [hostileShell_none (run_script_nul hentry hnul _)] at hlines
      exact hlines List.infix_rfl
    have hglued : ¬ text.Glued := by
      intro hglued
      rcases run_script_glued h hnul hglued (fun _ => none) with ⟨vars', output, hrun⟩
      rw [hostileShell_some hrun] at hlines
      exact hlines (List.prefix_append _ _).isInfix
    have hpattern : ∀ entry ∈ text.printed m_variables,
        ∀ value ∈ text.shellValue m_variables entry.1, NoPattern value := by
      intro entry hentry value hvalue
      by_contra hpattern
      rcases run_script h hnul hglued hostile_posix (fun _ => none) with ⟨vars', hrun, hvalues⟩
      have hmem := mem_of_mem_toList ((printed_sublist text m_variables).subset hentry)
      have hecho : [nl, nl] <:+: printedText hostile vars' entry.1 :=
        echo_hostile ((hvalues _ hmem).trans hvalue) hpattern
      rw [hostileShell_some hrun] at hlines
      exact hlines (hecho.trans (List.infix_of_mem_flatten (List.mem_map_of_mem hentry)))
    exact (faithful_of_noPattern h hnul hglued hpattern hostile_posix
      (fun _ _ _ => hostileShell_some) filename).1 hhostile
  · rintro hlegible sh ⟨env, vars, henv, hsh⟩
    exact (faithful_of_noPattern h hlegible.nul hlegible.separate hlegible.pattern henv hsh
      filename).2 hlegible

end

/-- An empty value, which the file replaces by one with an equals sign and a hash. -/
def savedir : StringStringMap :=
  addVariable (addVariable ∅ (str "KDUMP_SAVEDIR") (str "file:///var/crash"))
    (str "KDUMP_KERNELVER") []

theorem kernelver_literal : ∀ entry ∈ some (str "KDUMP_KERNELVER", str "5.3=rt #1"),
    quote ∉ entry.2 ∧ 0 ∉ entry.2 := by
  decide

def kernelverFile : ConfigText :=
  ⟨[.ofAssignment (some (str "KDUMP_KERNELVER", str "5.3=rt #1")) kernelver_literal], emptyLine⟩

theorem registered_savedir : Registered savedir kernelverFile := by
  constructor
  · decide
  · decide

theorem legible_savedir : Legible savedir kernelverFile := by
  refine (legible_iff rfl rfl).2 ⟨?_, ?_⟩
  · decide
  · decide

theorem faithful_savedir :
    Faithful hostileShell (str "/etc/sysconfig/kdump") savedir kernelverFile :=
  (faithful_iff registered_savedir _).2 legible_savedir hostileShell hostileShell_posix

/-! ## The options -/

section Options

variable {fadump : Bool} (c : Configuration fadump)

/-- The variables that `readFile` registers. -/
def Configuration.variables : StringStringMap :=
  c.m_options.foldl (fun m opt => addVariable m opt.name opt.valueAsString) ∅

theorem Configuration.variables_getElem? (name : Str) :
    c.variables[name]? = assignAll (fun _ => none)
      (c.m_options.map fun opt => (opt.name, opt.valueAsString)) name := by
  have hfold : c.variables = (c.m_options.map fun opt => (opt.name, opt.valueAsString)).foldl
      (fun m entry => m.insert entry.1 entry.2) ∅ := by
    rw [List.foldl_map]
    rfl
  rw [hfold, ShellConfigParser.getElem?_foldl_insert]
  exact assignAll_congr Std.TreeMap.getElem?_emptyc _

theorem Configuration.mem_variables {name : Str} :
    name ∈ c.variables ↔ ∃ opt ∈ c.m_options, opt.name = name := by
  rw [← Std.TreeMap.isSome_getElem?_iff_mem, c.variables_getElem?]
  constructor
  · intro h
    by_contra hnot
    push Not at hnot
    rw [assignAll_of_notMem _ _ fun entry hentry => ?_] at h
    · cases h
    · rcases List.mem_map.1 hentry with ⟨opt, hopt, rfl⟩
      exact hnot opt hopt
  · rintro ⟨opt, hopt, rfl⟩
    have hnodup : ((c.m_options.map fun opt => (opt.name, opt.valueAsString)).map
        Prod.fst).Nodup := by
      rw [List.map_map]
      exact c.names_nodup
    rw [assignAll_of_mem hnodup _ (List.mem_map_of_mem hopt)]
    rfl

/-- The file may assign to any of the options. -/
theorem Configuration.registered {text : ConfigText}
    (h : ∀ entry ∈ text.assignments, ∃ opt ∈ c.m_options, opt.name = entry.1) :
    Registered c.variables text := by
  refine ⟨fun entry hentry => ?_, fun entry hentry => c.mem_variables.2 (h entry hentry)⟩
  rcases c.mem_variables.1 (mem_of_mem_toList hentry) with ⟨opt, hopt, hname⟩
  exact hname ▸ c.ordinary hopt

theorem updateOptions_of_values (m_variables : StringStringMap) (values : Str → Option Str) :
    ∀ opts : List ConfigOption,
      (∀ opt ∈ opts, ∃ value, values opt.name = some value ∧ m_variables[opt.name]? = some value) →
      ∃ l, Configuration.updateOptions m_variables opts = .ok l ∧
        List.Forall₂ (fun opt opt' => ∃ value, values opt.name = some value ∧
          opt' = opt.update value) opts l.1 := by
  intro opts
  induction opts with
  | nil => exact fun _ => ⟨_, rfl, .nil⟩
  | cons opt opts ih =>
      intro h
      rcases List.forall_mem_cons.1 h with ⟨⟨value, hvalue, hget⟩, hmore⟩
      rcases ih hmore with ⟨l, hl, hall⟩
      have hgetValue : getValue m_variables opt.name = .ok value := by
        unfold getValue
        rw [hget]
      refine ⟨⟨opt.update value :: l.1, ?_⟩, ?_, .cons ⟨value, hvalue, rfl⟩ hall⟩
      · rw [List.map_cons, List.map_cons, l.2, opt.reset_update]
      · unfold Configuration.updateOptions
        rw [hgetValue, hl]
        rfl

/-- If the shell is faithful, the options get the values that they should have. -/
theorem Configuration.readFile_of_faithful {sh : Str → Str} {filename : Str} {text : ConfigText}
    (h : Faithful sh filename c.variables text) :
    ∃ c', c.readFile (fun script => .ok (sh script)) ⟨filename, .ok text.text⟩ = .ok c' ∧
      List.Forall₂ (fun opt opt' => ∃ value, text.wanted c.variables opt.name = some value ∧
        opt' = opt.update value) c.m_options c'.m_options := by
  rcases h with ⟨m, hm, hvalues⟩
  have hall : ∀ opt ∈ c.m_options, ∃ value, text.wanted c.variables opt.name = some value ∧
      m[opt.name]? = some value := by
    intro opt hopt
    have hmem := c.mem_variables.2 ⟨opt, hopt, rfl⟩
    rcases Option.isSome_iff_exists.1 (assignAll_isSome
      (Std.TreeMap.isSome_getElem?_iff_mem.2 hmem) text.assignments) with ⟨value, hvalue⟩
    exact ⟨value, hvalue, (hvalues opt.name hmem).trans hvalue⟩
  rcases updateOptions_of_values m (text.wanted c.variables) c.m_options hall with
    ⟨⟨l, hl⟩, hupdate, hforall⟩
  refine ⟨⟨l, hl.trans c.table⟩, ?_, hforall⟩
  unfold Configuration.readFile
  unfold Configuration.variables at hm
  dsimp only
  rw [hm]
  dsimp only [bind, Except.bind]
  rw [hupdate]

end Options

end Config
end Kdump

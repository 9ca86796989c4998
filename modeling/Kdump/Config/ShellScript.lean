import Kdump.Config.ShellConfigParser

/-!
# ShellScript — what a shell does with the script

The script of `ShellConfigParser` is followed through its three parts: the values that the variables
have, the lines of the file, and the lines that print.  The last line of the file need not be ended
by a newline; then the first line that prints goes on with it.

* `lex_line` and `lex_lines` — lines of the file;
* `lex_echoLine` — a line that prints;
* `parse_script` — the commands of the script;
* `run_script` — what is printed, and the variables at this time.
-/

namespace Kdump
namespace Config

open Lib Lib.Shell

variable {env : Environment} {vars : Vars} {commands : List Command} {words : List Word}

/-! ## Lines of the file -/

namespace ConfigLine

variable (self : ConfigLine)

/-- The word of an assignment. -/
def assignedWord (entry : Str × Str) : Word :=
  assignmentWord entry.1 (.mark :: entry.2.map .quoted)

theorem assigns_assignedWord (entry : Str × Str) : Assigns [assignedWord entry] entry := by
  refine ⟨_, rfl, fun vars => ?_⟩
  have hquoted : valueOf vars (entry.2.map .quoted) = entry.2 := by
    induction entry.2 with
    | nil => rfl
    | cons c s ih => exact congrArg (c :: ·) ih
  exact hquoted

theorem lex_quotedAssignment {entry : Str × Str} (hname : isName entry.1 = true)
    (hquote : quote ∉ entry.2) (hnul : 0 ∉ entry.2) :
    Lexer.lex ⟨.plain, none, words, commands⟩ (quotedAssignment entry) =
      some ⟨.plain, some (assignedWord entry), words, commands⟩ := by
  have hne : entry.1 ++ [eqSign] ≠ [] :=
    List.append_ne_nil_of_right_ne_nil _ (List.cons_ne_nil _ _)
  have hword : (entry.1 ++ [eqSign]).map Piece.literal ++ .mark :: entry.2.map .quoted =
      assignedWord entry := by
    rw [List.map_append, List.append_assoc]
    rfl
  unfold quotedAssignment
  rw [Lexer.lex_append_of (Lexer.lex_literal_start hne (isLiteral_name_equals hname)), ← hword]
  exact Lexer.lex_quotes entry.2 hquote hnul

/-- White space behind a word. -/
theorem lex_trailing {w : Word} {text : Str} (h : ∀ c ∈ text, isBlank c = true) (hne : text ≠ []) :
    Lexer.lex ⟨.plain, some w, words, commands⟩ text =
      some ⟨.plain, none, words ++ [w], commands⟩ := by
  cases text with
  | nil => exact (hne rfl).elim
  | cons c text =>
      rcases List.forall_mem_cons.1 h with ⟨hc, htext⟩
      have hnl : c ≠ nl := by
        rintro rfl
        cases hc
      have hstep : Lexer.step ⟨.plain, some w, words, commands⟩ c =
          some ⟨.plain, none, words ++ [w], commands⟩ := by
        unfold Lexer.step Lexer.plainStep
        rw [if_neg hnl, if_pos hc]
        rfl
      rw [Lexer.lex_cons, hstep, Option.bind_some, Lexer.lex_blanks text htext]

/-- The mode of the lexer behind the line. -/
def mode : Mode :=
  if self.comment = none then .plain else .comment

theorem lex_rest :
    Lexer.lex ⟨.plain, none, words, commands⟩ (self.comment.toList.flatMap (hash :: ·)) =
      some ⟨self.mode, none, words, commands⟩ := by
  unfold mode
  cases hcomment : self.comment with
  | none => rfl
  | some text =>
      rcases self.comment_text text hcomment with ⟨hnl, hnul⟩
      have hopen : Lexer.step ⟨.plain, none, words, commands⟩ hash =
          some ⟨.comment, none, words, commands⟩ := rfl
      rw [if_neg (Option.some_ne_none text), Option.toList_some, List.flatMap_singleton,
        Lexer.lex_cons, hopen, Option.bind_some, Lexer.lex_comment text hnl hnul]

/-- A line without an assignment. -/
theorem lex_text_none (h : self.assignment = none) :
    Lexer.lex ⟨.plain, none, [], commands⟩ self.text = some ⟨self.mode, none, [], commands⟩ := by
  unfold text
  rw [h, Option.toList_none, List.flatMap_nil, List.append_nil,
    Lexer.lex_append_of (Lexer.lex_append_of (Lexer.lex_blanks _ self.indent_blank) _ |>.trans
      (Lexer.lex_blanks _ self.trailing_blank))]
  exact self.lex_rest

/-- A line with an assignment and something behind it. -/
theorem lex_text_some {entry : Str × Str} (h : self.assignment = some entry)
    (hname : isName entry.1 = true) (htrailing : self.trailing ≠ []) :
    Lexer.lex ⟨.plain, none, [], commands⟩ self.text =
      some ⟨self.mode, none, [assignedWord entry], commands⟩ := by
  rcases self.literal entry h with ⟨hquote, hnul⟩
  have htext : self.text = self.indent ++ (quotedAssignment entry ++ (self.trailing ++
      self.comment.toList.flatMap (hash :: ·))) := by
    unfold text
    rw [h, Option.toList_some, List.flatMap_singleton, List.append_assoc, List.append_assoc]
  calc Lexer.lex ⟨.plain, none, [], commands⟩ self.text
      = Lexer.lex ⟨.plain, none, [], commands⟩ (quotedAssignment entry ++ (self.trailing ++
          self.comment.toList.flatMap (hash :: ·))) := by
        rw [htext, Lexer.lex_append_of (Lexer.lex_blanks _ self.indent_blank)]
    _ = Lexer.lex ⟨.plain, some (assignedWord entry), [], commands⟩ (self.trailing ++
          self.comment.toList.flatMap (hash :: ·)) :=
        Lexer.lex_append_of (lex_quotedAssignment hname hquote hnul) _
    _ = Lexer.lex ⟨.plain, none, [assignedWord entry], commands⟩
          (self.comment.toList.flatMap (hash :: ·)) :=
        Lexer.lex_append_of (lex_trailing self.trailing_blank htrailing) _
    _ = _ := self.lex_rest

/-- A line that ends in the word. -/
theorem lex_text_glued {entry : Str × Str} (h : self.assignment = some entry)
    (hname : isName entry.1 = true) (htrailing : self.trailing = []) :
    Lexer.lex ⟨.plain, none, [], commands⟩ self.text =
      some ⟨.plain, some (assignedWord entry), [], commands⟩ := by
  rcases self.literal entry h with ⟨hquote, hnul⟩
  have hcomment : self.comment = none := by
    by_contra hcomment
    exact self.separate (h ▸ Option.some_ne_none entry) hcomment htrailing
  unfold text
  rw [h, hcomment, htrailing, Option.toList_some, List.flatMap_singleton, Option.toList_none,
    List.flatMap_nil, List.append_nil, List.append_nil,
    Lexer.lex_append_of (Lexer.lex_blanks _ self.indent_blank)]
  exact lex_quotedAssignment hname hquote hnul

theorem step_newline (words : List Word) :
    Lexer.step ⟨self.mode, none, words, commands⟩ nl =
      some ⟨.plain, none, [], if words = [] then commands else commands ++ [words]⟩ := by
  have hmode : Lexer.step ⟨self.mode, none, words, commands⟩ nl =
      some { Lexer.endCommand ⟨self.mode, none, words, commands⟩ with mode := .plain } := by
    unfold mode
    split_ifs <;> rfl
  rw [hmode, Lexer.endCommand_none]

/-- A line with the newline behind it. -/
theorem lex_line (hname : ∀ entry ∈ self.assignment, isName entry.1 = true) :
    Lexer.lex ⟨.plain, none, [], commands⟩ (self.text ++ [newline]) =
      some ⟨.plain, none, [],
        commands ++ self.assignment.toList.map fun entry => [assignedWord entry]⟩ := by
  have hnewline : ∀ s : Lexer, s.lex [newline] = s.step nl := fun s => by
    rw [Lexer.lex_cons]
    exact Option.bind_fun_some _
  cases h : self.assignment with
  | none =>
      rw [Lexer.lex_append_of (self.lex_text_none h), hnewline, self.step_newline, if_pos rfl,
        Option.toList_none, List.map_nil, List.append_nil]
  | some entry =>
      have hentry := hname entry h
      -- the word is ended by white space, or by the newline
      by_cases htrailing : self.trailing = []
      · rw [Lexer.lex_append_of (self.lex_text_glued h hentry htrailing), hnewline,
          Lexer.step_nl_some]
        rfl
      · rw [Lexer.lex_append_of (self.lex_text_some h hentry htrailing), hnewline,
          self.step_newline, if_neg (List.cons_ne_nil _ _)]
        rfl

end ConfigLine

/-- The complete lines of a file. -/
theorem lex_lines (lines : List ConfigLine)
    (hname : ∀ line ∈ lines, ∀ entry ∈ line.assignment, isName entry.1 = true) :
    Lexer.lex ⟨.plain, none, [], commands⟩
        (lines.flatMap fun line => line.text ++ [newline]) =
      some ⟨.plain, none, [], commands ++
        (lines.flatMap fun line => line.assignment.toList).map
          fun entry => [ConfigLine.assignedWord entry]⟩ := by
  induction lines generalizing commands with
  | nil =>
      rw [List.flatMap_nil, List.flatMap_nil, List.map_nil, List.append_nil]
      rfl
  | cons line lines ih =>
      rcases List.forall_mem_cons.1 hname with ⟨hline, hlines⟩
      rw [List.flatMap_cons, Lexer.lex_append_of (line.lex_line hline), ih hlines,
        List.flatMap_cons, List.map_append, List.append_assoc]

/-! ## The lines that print -/

/-- The word `'name='$name`. -/
def printedWord (name : Str) : Word :=
  quotedParameter (name ++ [eqSign]) name

def echoWord : Word :=
  (str "echo").map .literal

theorem lex_echoLine {word : Option Word} {name : Str} (hname : isName name = true) :
    Lexer.lex ⟨.plain, word, words, commands⟩ (ShellConfigParser.echoLine name) =
      some ⟨.plain, none, [],
        commands ++ [words ++ [word.getD [] ++ echoWord, printedWord name]]⟩ := by
  have hname' : ∀ c ∈ name ++ [eqSign], c ≠ quote ∧ c ≠ 0 := by
    intro c hc
    have hliteral := isLiteral_name_equals hname c hc
    refine ⟨hliteral.2.2.2.1, ?_⟩
    rintro rfl
    cases hliteral.2.1
  have hletters : (str "echo").all isNameChar = true := by decide
  have hecho : Lexer.lex ⟨.plain, word, words, commands⟩ (str "echo") =
      some ⟨.plain, some (word.getD [] ++ echoWord), words, commands⟩ := by
    cases word with
    | none => rfl
    | some w => exact Lexer.lex_literal (str "echo") fun c hc =>
        isLiteral_of_isNameChar (List.all_eq_true.1 hletters c hc)
  -- `echo`, a blank, the quoted text, and the parameter
  have hline : ShellConfigParser.echoLine name =
      str "echo" ++ (str " " ++ ((quote :: (name ++ [eqSign]) ++ [quote]) ++
        (dollar :: name ++ [nl]))) := by
    have hopen : str "echo '" = str "echo" ++ (str " " ++ [quote]) := by decide
    have hclose : str "='$" = [eqSign] ++ ([quote] ++ [dollar]) := by decide
    unfold ShellConfigParser.echoLine
    rw [hopen, hclose]
    simp only [List.append_assoc, List.cons_append, List.nil_append]
    rfl
  have hblank : Lexer.lex ⟨.plain, some (word.getD [] ++ echoWord), words, commands⟩ (str " ") =
      some ⟨.plain, none, words ++ [word.getD [] ++ echoWord], commands⟩ := rfl
  have hquotes : Lexer.lex ⟨.plain, none, words ++ [word.getD [] ++ echoWord], commands⟩
      (quote :: (name ++ [eqSign]) ++ [quote]) =
        some ⟨.plain, some (.mark :: (name ++ [eqSign]).map .quoted),
          words ++ [word.getD [] ++ echoWord], commands⟩ :=
    Lexer.lex_quotes _ (fun h => (hname' _ h).1 rfl) fun h => (hname' _ h).2 rfl
  calc Lexer.lex ⟨.plain, word, words, commands⟩ (ShellConfigParser.echoLine name)
      = Lexer.lex ⟨.plain, none, words ++ [word.getD [] ++ echoWord], commands⟩
          ((quote :: (name ++ [eqSign]) ++ [quote]) ++ (dollar :: name ++ [nl])) := by
        rw [hline, Lexer.lex_append_of hecho, Lexer.lex_append_of hblank]
    _ = Lexer.lex ⟨.plain, some (.mark :: (name ++ [eqSign]).map .quoted),
          words ++ [word.getD [] ++ echoWord], commands⟩ (dollar :: name ++ [nl]) :=
        Lexer.lex_append_of hquotes _
    _ = _ := by
        rw [Lexer.lex_dollar hname, List.append_assoc words]
        rfl

/-- A comment goes on to the end of the line. -/
theorem lex_echoLine_comment {name : Str} (hname : isName name = true) :
    Lexer.lex ⟨.comment, none, words, commands⟩ (ShellConfigParser.echoLine name) =
      some ⟨.plain, none, [], if words = [] then commands else commands ++ [words]⟩ := by
  have hline : ∀ {d : UInt8}, isNameChar d = false → d ∉ str "echo '" → d ∉ str "='$" →
      d ∉ str "echo '" ++ name ++ str "='$" ++ name := by
    intro d hd hecho hequals
    have hnot : d ∉ name := by
      intro hmem
      rw [isNameChar_of_isName hname d hmem] at hd
      cases hd
    exact List.not_mem_append (List.not_mem_append (List.not_mem_append hecho hnot) hequals) hnot
  unfold ShellConfigParser.echoLine
  rw [Lexer.lex_append_of (Lexer.lex_comment _ (hline rfl (by decide) (by decide))
    (hline rfl (by decide) (by decide)))]
  have hend : Lexer.lex ⟨.comment, none, words, commands⟩ (str "\n") =
      some { Lexer.endCommand ⟨.comment, none, words, commands⟩ with mode := .plain } := rfl
  rw [hend, Lexer.endCommand_none]

theorem lex_echoLines (entries : List (Str × Str))
    (hname : ∀ entry ∈ entries, isName entry.1 = true) :
    Lexer.lex ⟨.plain, none, [], commands⟩
        (entries.flatMap fun entry => ShellConfigParser.echoLine entry.1) =
      some ⟨.plain, none, [],
        commands ++ entries.map fun entry => [echoWord, printedWord entry.1]⟩ := by
  induction entries generalizing commands with
  | nil =>
      rw [List.flatMap_nil, List.map_nil, List.append_nil]
      rfl
  | cons entry entries ih =>
      rcases List.forall_mem_cons.1 hname with ⟨hentry, hentries⟩
      rw [List.flatMap_cons, Lexer.lex_append_of (lex_echoLine hentry), ih hentries,
        List.append_assoc]
      rfl

/-! ## The script -/

/-- What the shell makes of the last line of the file and the lines that print. -/
def ConfigText.lastCommands (self : ConfigText) : List (Str × Str) → List Command
  | [] => self.last.assignment.toList.map fun entry => [ConfigLine.assignedWord entry]
  | first :: rest =>
      let printing := rest.map fun entry => [echoWord, printedWord entry.1]
      if self.last.comment ≠ none then
        (self.last.assignment.toList.map fun entry => [ConfigLine.assignedWord entry]) ++ printing
      else
        match self.last.assignment with
        | none => [echoWord, printedWord first.1] :: printing
        | some entry =>
            if self.last.trailing = [] then
              [ConfigLine.assignedWord entry ++ echoWord, printedWord first.1] :: printing
            else
              [ConfigLine.assignedWord entry, echoWord, printedWord first.1] :: printing

section LastCommands

variable {text : ConfigText} {first entry : Str × Str} {rest : List (Str × Str)}

theorem lastCommands_comment (h : text.last.comment ≠ none) :
    text.lastCommands (first :: rest) =
      (text.last.assignment.toList.map fun entry => [ConfigLine.assignedWord entry]) ++
        rest.map fun entry => [echoWord, printedWord entry.1] :=
  if_pos h

theorem lastCommands_none (h : text.last.comment = none)
    (hassignment : text.last.assignment = none) :
    text.lastCommands (first :: rest) =
      (first :: rest).map fun entry => [echoWord, printedWord entry.1] := by
  rw [ConfigText.lastCommands]
  rw [if_neg (not_not.2 h), hassignment]
  rfl

theorem lastCommands_glued (h : text.last.comment = none)
    (hassignment : text.last.assignment = some entry) (htrailing : text.last.trailing = []) :
    text.lastCommands (first :: rest) =
      [ConfigLine.assignedWord entry ++ echoWord, printedWord first.1] ::
        rest.map fun entry => [echoWord, printedWord entry.1] := by
  rw [ConfigText.lastCommands]
  rw [if_neg (not_not.2 h), hassignment]
  exact if_pos htrailing

theorem lastCommands_spaced (h : text.last.comment = none)
    (hassignment : text.last.assignment = some entry) (htrailing : text.last.trailing ≠ []) :
    text.lastCommands (first :: rest) =
      [ConfigLine.assignedWord entry, echoWord, printedWord first.1] ::
        rest.map fun entry => [echoWord, printedWord entry.1] := by
  rw [ConfigText.lastCommands]
  rw [if_neg (not_not.2 h), hassignment]
  exact if_neg htrailing

end LastCommands

/-- The lines that print, up to the end of the script. -/
theorem lex_printing (entries : List (Str × Str))
    (hname : ∀ entry ∈ entries, isName entry.1 = true) :
    (Lexer.lex ⟨.plain, none, [], commands⟩
        (entries.flatMap fun entry => ShellConfigParser.echoLine entry.1)).bind Lexer.finish =
      some (commands ++ entries.map fun entry => [echoWord, printedWord entry.1]) := by
  rw [lex_echoLines entries hname]
  rfl

section LastLine

variable {text : ConfigText} {first : Str × Str} {rest : List (Str × Str)}

theorem mode_plain (h : text.last.comment = none) : text.last.mode = .plain :=
  if_pos h

theorem mode_comment (h : text.last.comment ≠ none) : text.last.mode = .comment :=
  if_neg h

theorem finish_last (words : List Word) :
    Lexer.finish ⟨text.last.mode, none, words, commands⟩ =
      some (if words = [] then commands else commands ++ [words]) := by
  have hend : Lexer.finish ⟨text.last.mode, none, words, commands⟩ =
      some (Lexer.endCommand ⟨text.last.mode, none, words, commands⟩).commands := by
    unfold ConfigLine.mode
    split_ifs <;> rfl
  rw [hend, Lexer.endCommand_none]

/-- Nothing is printed. -/
theorem lex_last_nil (hlast : ∀ entry ∈ text.last.assignment, isName entry.1 = true) :
    (Lexer.lex ⟨.plain, none, [], commands⟩ text.last.text).bind Lexer.finish =
      some (commands ++ text.lastCommands []) := by
  rw [ConfigText.lastCommands]
  cases hassignment : text.last.assignment with
  | none =>
      rw [text.last.lex_text_none hassignment, Option.bind_some, finish_last, if_pos rfl]
      exact congrArg some (List.append_nil _).symm
  | some entry =>
      have hentry := hlast entry hassignment
      by_cases htrailing : text.last.trailing = []
      · rw [text.last.lex_text_glued hassignment hentry htrailing]
        rfl
      · rw [text.last.lex_text_some hassignment hentry htrailing, Option.bind_some, finish_last,
          if_neg (List.cons_ne_nil _ _)]
        rfl

/-- The first of the lines that print goes on with the comment. -/
theorem lex_last_comment (hcomment : text.last.comment ≠ none)
    (hlast : ∀ entry ∈ text.last.assignment, isName entry.1 = true)
    (hfirst : isName first.1 = true) (hrest : ∀ entry ∈ rest, isName entry.1 = true) :
    (Lexer.lex ⟨.plain, none, [], commands⟩ (text.last.text ++
        (first :: rest).flatMap fun entry => ShellConfigParser.echoLine entry.1)).bind
          Lexer.finish =
      some (commands ++ text.lastCommands (first :: rest)) := by
  rw [List.flatMap_cons, lastCommands_comment hcomment]
  cases hassignment : text.last.assignment with
  | none =>
      rw [Lexer.lex_append_of (text.last.lex_text_none hassignment), mode_comment hcomment,
        Lexer.lex_append_of (lex_echoLine_comment hfirst), if_pos rfl, lex_printing rest hrest]
      rfl
  | some entry =>
      -- a comment stands apart from the word before
      have htrailing := text.last.separate (hassignment ▸ Option.some_ne_none entry) hcomment
      have hentry := hlast entry hassignment
      rw [Lexer.lex_append_of (text.last.lex_text_some hassignment hentry htrailing),
        mode_comment hcomment,
        Lexer.lex_append_of (lex_echoLine_comment hfirst), if_neg (List.cons_ne_nil _ _),
        lex_printing rest hrest, List.append_assoc]
      rfl

/-- The first of the lines that print stands on the last line of the file. -/
theorem lex_last_plain (hcomment : text.last.comment = none)
    (hlast : ∀ entry ∈ text.last.assignment, isName entry.1 = true)
    (hfirst : isName first.1 = true) (hrest : ∀ entry ∈ rest, isName entry.1 = true) :
    (Lexer.lex ⟨.plain, none, [], commands⟩ (text.last.text ++
        (first :: rest).flatMap fun entry => ShellConfigParser.echoLine entry.1)).bind
          Lexer.finish =
      some (commands ++ text.lastCommands (first :: rest)) := by
  rw [List.flatMap_cons]
  cases hassignment : text.last.assignment with
  | none =>
      rw [Lexer.lex_append_of (text.last.lex_text_none hassignment), mode_plain hcomment,
        Lexer.lex_append_of (lex_echoLine hfirst), lex_printing rest hrest,
        lastCommands_none hcomment hassignment, List.append_assoc]
      rfl
  | some entry =>
      have hentry := hlast entry hassignment
      -- `echo` goes on with the word, or is the next one
      by_cases htrailing : text.last.trailing = []
      · rw [Lexer.lex_append_of (text.last.lex_text_glued hassignment hentry htrailing),
          Lexer.lex_append_of (lex_echoLine hfirst), lex_printing rest hrest,
          lastCommands_glued hcomment hassignment htrailing, List.append_assoc]
        rfl
      · rw [Lexer.lex_append_of (text.last.lex_text_some hassignment hentry htrailing),
          mode_plain hcomment, Lexer.lex_append_of (lex_echoLine hfirst),
          lex_printing rest hrest, lastCommands_spaced hcomment hassignment htrailing,
          List.append_assoc]
        rfl

/-- The last line and the lines that print. -/
theorem lex_last (text : ConfigText) (entries : List (Str × Str))
    (hname : ∀ entry ∈ entries, isName entry.1 = true)
    (hlast : ∀ entry ∈ text.last.assignment, isName entry.1 = true) :
    (Lexer.lex ⟨.plain, none, [], commands⟩ (text.last.text ++
        entries.flatMap fun entry => ShellConfigParser.echoLine entry.1)).bind Lexer.finish =
      some (commands ++ text.lastCommands entries) := by
  cases entries with
  | nil =>
      rw [List.flatMap_nil, List.append_nil]
      exact lex_last_nil hlast
  | cons first rest =>
      rcases List.forall_mem_cons.1 hname with ⟨hfirst, hrest⟩
      by_cases hcomment : text.last.comment = none
      · exact lex_last_plain hcomment hlast hfirst hrest
      · exact lex_last_comment hcomment hlast hfirst hrest

end LastLine

/-- The variables are like any other, and the file assigns to no others. -/
structure Registered (m_variables : StringStringMap) (text : ConfigText) : Prop where
  ordinary : ∀ entry ∈ m_variables.toList, Ordinary entry.1
  assigned : ∀ entry ∈ text.assignments, entry.1 ∈ m_variables

section Script

variable {m_variables : StringStringMap} {text : ConfigText}

theorem mem_toList_of_mem {name : Str} (h : name ∈ m_variables) :
    ∃ value, (name, value) ∈ m_variables.toList := by
  rcases Option.isSome_iff_exists.1 (Std.TreeMap.isSome_getElem?_iff_mem.2 h) with ⟨value, hvalue⟩
  exact ⟨value, Std.TreeMap.mem_toList_iff_getElem?_eq_some.2 hvalue⟩

theorem Registered.ordinary_assigned (h : Registered m_variables text) {entry : Str × Str}
    (hentry : entry ∈ text.assignments) : Ordinary entry.1 := by
  rcases mem_toList_of_mem (h.assigned entry hentry) with ⟨value, hmem⟩
  exact h.ordinary (entry.1, value) hmem

theorem ConfigText.mem_assignments_of_lines {line : ConfigLine} (hline : line ∈ text.lines)
    {entry : Str × Str} (h : entry ∈ line.assignment) : entry ∈ text.assignments :=
  List.mem_append_left _ (List.mem_flatMap.2 ⟨line, hline, Option.mem_toList.2 h⟩)

theorem ConfigText.mem_assignments_of_last {entry : Str × Str} (h : entry ∈ text.last.assignment) :
    entry ∈ text.assignments :=
  List.mem_append_right _ (Option.mem_toList.2 h)

theorem parse_script (h : Registered m_variables text)
    (hnul : ∀ entry ∈ m_variables.toList, 0 ∉ entry.2) :
    ∃ cmds, List.Forall₂ Assigns cmds m_variables.toList ∧
      parse (ShellConfigParser.script text.text m_variables) =
        some (cmds ++ (text.complete.map fun entry => [ConfigLine.assignedWord entry]) ++
          text.lastCommands m_variables.toList) := by
  have hheader : Lexer.lex .start (str "#!/bin/sh\n") = some ⟨.plain, none, [], []⟩ := by decide
  have hnames : ∀ entry ∈ m_variables.toList, isName entry.1 = true :=
    fun entry hentry => (h.ordinary entry hentry).1
  have hlines : ∀ line ∈ text.lines, ∀ entry ∈ line.assignment, isName entry.1 = true :=
    fun line hline entry hentry =>
      (h.ordinary_assigned (ConfigText.mem_assignments_of_lines hline hentry)).1
  have hlast : ∀ entry ∈ text.last.assignment, isName entry.1 = true :=
    fun entry hentry => (h.ordinary_assigned (ConfigText.mem_assignments_of_last hentry)).1
  rcases @lex_shellAssignments [] m_variables.toList
    (fun entry hentry => ⟨hnames entry hentry, hnul entry hentry⟩) with ⟨cmds, hcmds, hassign⟩
  refine ⟨cmds, hcmds, ?_⟩
  unfold parse ShellConfigParser.script ConfigText.text
  rw [List.append_assoc, List.append_assoc, List.append_assoc, Lexer.lex_append_of hheader,
    Lexer.lex_append_of hassign, Lexer.lex_append_of (lex_lines text.lines hlines)]
  exact lex_last text m_variables.toList hnames hlast

/-! ## The run -/

/-- What is printed for a variable. -/
def printedText (env : Environment) (vars : Vars) (name : Str) : Str :=
  env.echo (expandWord env vars (printedWord name))

theorem expandWord_echoWord (henv : env.Posix) (vars : Vars) :
    expandWord env vars echoWord = [ascii "echo"] := by
  have hfields : splitFields none (echoWord.flatMap (expandPiece vars)) = [bare (str "echo")] := rfl
  have hpattern : ¬ IsPattern (bare (str "echo")) := by decide
  unfold expandWord
  rw [hfields, List.flatMap_singleton]
  unfold expandPathnames
  rw [if_pos (henv.pathnames _ hpattern), unquote_bare]
  rfl

/-- A command that prints a variable; assignments before it are for this command only. -/
theorem exec_printing (henv : env.Posix) {command : Command} {assignments : List (Text × Word)}
    {name : Str} (hsplit : splitAssignments command = (assignments, [echoWord, printedWord name]))
    (hordinary : ∀ assignment ∈ assignments, assignment.1 ∉ shellVariables) (vars : Vars)
    (output : Text) :
    exec env (vars, output) command = some (vars, output ++ printedText env vars name) := by
  have hreserved : echoWord ∉ reservedWords.map (·.map Piece.literal) := by decide
  have hwords : [echoWord, printedWord name].flatMap (expandWord env vars) =
      ascii "echo" :: expandWord env vars (printedWord name) := by
    rw [List.flatMap_cons, List.flatMap_singleton, expandWord_echoWord henv]
    rfl
  rw [exec_utility hsplit hordinary (fun w hw => Option.some.inj hw ▸ hreserved) hwords (by decide),
    if_pos rfl]
  rfl

theorem exec_echoes (henv : env.Posix) (entries : List (Str × Str)) (vars : Vars)
    (output : Text) :
    (entries.map fun entry => [echoWord, printedWord entry.1]).foldlM (exec env) (vars, output) =
      some (vars, output ++ entries.flatMap fun entry => printedText env vars entry.1) := by
  induction entries generalizing output with
  | nil =>
      rw [List.map_nil, List.flatMap_nil, List.append_nil]
      rfl
  | cons entry entries ih =>
      have hsplit : splitAssignments [echoWord, printedWord entry.1] =
          ([], [echoWord, printedWord entry.1]) := rfl
      rw [List.map_cons, List.foldlM_cons, exec_printing henv hsplit nofun,
        List.flatMap_cons, ← List.append_assoc]
      exact ih _

theorem exec_assignedWords (entries : List (Str × Str))
    (hname : ∀ entry ∈ entries, Ordinary entry.1) (vars : Vars) (output : Text) :
    (entries.map fun entry => [ConfigLine.assignedWord entry]).foldlM (exec env) (vars, output) =
      some (assignAll vars entries, output) :=
  exec_assignAll (List.forall₂_map_left_iff.2 (List.forall₂_same.2 fun entry _ =>
    ConfigLine.assigns_assignedWord entry)) hname vars output

/-- The word that goes on with `echo` is an assignment, and the text to be printed is the name of
the command. -/
theorem exec_glued {entry : Str × Str} (hentry : Ordinary entry.1) {name value : Str}
    (hvalue : vars name = some value) (output : Text) :
    exec hostile (vars, output) [ConfigLine.assignedWord entry ++ echoWord, printedWord name] =
      some (vars, output ++ [nl, nl]) := by
  have hword : ConfigLine.assignedWord entry ++ echoWord =
      assignmentWord entry.1 (.mark :: entry.2.map .quoted ++ echoWord) := by
    unfold ConfigLine.assignedWord assignmentWord
    rw [List.append_assoc]
    rfl
  have hsplit : splitAssignments [ConfigLine.assignedWord entry ++ echoWord, printedWord name] =
      ([(entry.1, .mark :: entry.2.map .quoted ++ echoWord)], [printedWord name]) := by
    rw [hword, splitAssignments_cons hentry.1]
    rfl
  have hreserved : printedWord name ∉ reservedWords.map (·.map Piece.literal) := by
    intro h
    rcases List.mem_map.1 h with ⟨text, _, htext⟩
    cases text with
    | nil => cases htext
    | cons c text => cases htext
  -- neither `echo` nor a special utility has such a name
  have hequals : equals ∈ name ++ [eqSign] := List.mem_append_right _ (List.mem_singleton.2 rfl)
  rcases @expandWord_hostile vars _ name value hequals hvalue with ⟨first, rest, hwords, hfirst⟩
  have hnot : ∀ text ∈ ascii "echo" :: specialUtilities, equals ∉ text ∧ nl ∉ text := by decide
  have hother : first ∉ ascii "echo" :: specialUtilities :=
    fun h => hfirst.elim (hnot first h).1 (hnot first h).2
  have hecho : first ≠ ascii "echo" := by
    rintro rfl
    exact hother List.mem_cons_self
  rw [exec_utility hsplit (fun assignment h => List.mem_singleton.1 h ▸ hentry.2)
    (fun w hw => Option.some.inj hw ▸ hreserved) ((List.flatMap_singleton ..).trans hwords)
    (fun h => hother (List.mem_cons_of_mem _ h)), if_neg hecho]
  rfl

theorem exec_lastCommands_comment (henv : env.Posix) (h : text.last.comment ≠ none)
    (hordinary : ∀ entry ∈ text.last.assignment, Ordinary entry.1) (first : Str × Str)
    (rest : List (Str × Str)) (vars : Vars) :
    (text.lastCommands (first :: rest)).foldlM (exec env) (vars, []) =
      some (assignAll vars text.last.assignment.toList, rest.flatMap fun entry =>
        printedText env (assignAll vars text.last.assignment.toList) entry.1) := by
  have hassign := @exec_assignedWords env text.last.assignment.toList
    (fun entry hentry => hordinary entry (Option.mem_toList.1 hentry)) vars []
  rw [lastCommands_comment h, List.foldlM_append, hassign]
  exact exec_echoes henv rest _ []

theorem exec_lastCommands_plain (henv : env.Posix) (h : text.last.comment = none)
    (hglued : ¬ text.Glued) (hordinary : ∀ entry ∈ text.last.assignment, Ordinary entry.1)
    (first : Str × Str) (rest : List (Str × Str)) (vars : Vars) :
    (text.lastCommands (first :: rest)).foldlM (exec env) (vars, []) =
      some (vars, (first :: rest).flatMap fun entry => printedText env vars entry.1) := by
  cases hassignment : text.last.assignment with
  | none =>
      rw [lastCommands_none h hassignment]
      exact exec_echoes henv (first :: rest) vars []
  | some entry =>
      have hentry := hordinary entry hassignment
      have htrailing : text.last.trailing ≠ [] :=
        fun htrailing => hglued ⟨hassignment ▸ Option.some_ne_none entry, htrailing⟩
      -- the assignment is forgotten when the variable has been printed
      have hsplit : splitAssignments [ConfigLine.assignedWord entry, echoWord,
          printedWord first.1] =
            ([(entry.1, .mark :: entry.2.map .quoted)], [echoWord, printedWord first.1]) :=
        splitAssignments_cons hentry.1 _
      rw [lastCommands_spaced h hassignment htrailing, List.foldlM_cons, exec_printing henv hsplit
        fun assignment h => List.mem_singleton.1 h ▸ hentry.2]
      exact exec_echoes henv rest vars _

/-! ## Registered variables -/

theorem assignAll_append (vars : Vars) (entries more : List (Str × Str)) :
    assignAll vars (entries ++ more) = assignAll (assignAll vars entries) more :=
  List.foldl_append

/-- The other variables have no part in it. -/
theorem assignAll_congr {name : Str} {vars vars' : Vars} (h : vars name = vars' name)
    (entries : List (Str × Str)) : assignAll vars entries name = assignAll vars' entries name := by
  unfold assignAll
  induction entries generalizing vars vars' with
  | nil => exact h
  | cons entry entries ih =>
      refine ih ?_
      dsimp only
      by_cases hname : name = entry.1
      · rw [hname, Function.update_self, Function.update_self]
      · rw [Function.update_of_ne hname, Function.update_of_ne hname, h]

theorem nodup_names (m_variables : StringStringMap) : (m_variables.toList.map Prod.fst).Nodup := by
  refine List.pairwise_map.2 (Std.TreeMap.distinct_keys_toList.imp fun hne heq => hne ?_)
  exact Std.LawfulEqCmp.compare_eq_iff_eq.2 heq

theorem assignAll_toList (vars : Vars) {name : Str} (h : name ∈ m_variables) :
    assignAll vars m_variables.toList name = m_variables[name]? := by
  rcases mem_toList_of_mem h with ⟨value, hmem⟩
  rw [Std.TreeMap.mem_toList_iff_getElem?_eq_some.1 hmem]
  exact assignAll_of_mem (nodup_names m_variables) vars hmem

/-- A variable stays set. -/
theorem assignAll_isSome {name : Str} {vars : Vars} (h : (vars name).isSome = true)
    (entries : List (Str × Str)) : (assignAll vars entries name).isSome = true := by
  unfold assignAll
  induction entries generalizing vars with
  | nil => exact h
  | cons entry entries ih =>
      refine ih ?_
      dsimp only
      by_cases hname : name = entry.1
      · rw [hname, Function.update_self]
        rfl
      · rw [Function.update_of_ne hname]
        exact h

/-- The script up to the last line of the file. -/
theorem run_lastCommands (h : Registered m_variables text)
    (hnul : ∀ entry ∈ m_variables.toList, 0 ∉ entry.2) (vars : Vars) :
    run env vars (ShellConfigParser.script text.text m_variables) =
      (text.lastCommands m_variables.toList).foldlM (exec env)
        (assignAll (assignAll vars m_variables.toList) text.complete, []) := by
  rcases parse_script h hnul with ⟨cmds, hcmds, hparse⟩
  have hcomplete : ∀ entry ∈ text.complete, Ordinary entry.1 :=
    fun entry hentry => h.ordinary_assigned (List.mem_append_left _ hentry)
  -- the values that the variables have, and then those of the file
  have hfile := @exec_assignedWords env text.complete hcomplete
    (assignAll vars m_variables.toList) []
  unfold run
  rw [hparse, Option.bind_some, List.foldlM_append, List.foldlM_append,
    exec_assignAll hcmds h.ordinary]
  exact congrArg (Option.bind · _) hfile

/-- What the shell does with the script, if the first `echo` is a word of its own. -/
theorem run_script (h : Registered m_variables text)
    (hnul : ∀ entry ∈ m_variables.toList, 0 ∉ entry.2) (hglued : ¬ text.Glued)
    (henv : env.Posix) (vars : Vars) :
    ∃ vars', run env vars (ShellConfigParser.script text.text m_variables) =
        some (vars', (text.printed m_variables).flatMap fun entry =>
          printedText env vars' entry.1) ∧
      ∀ name ∈ m_variables, vars' name =
        assignAll (fun name => m_variables[name]?) text.effective name := by
  have hlast : ∀ entry ∈ text.last.assignment, Ordinary entry.1 :=
    fun entry hentry => h.ordinary_assigned (ConfigText.mem_assignments_of_last hentry)
  have hvalue : ∀ entries, ∀ name ∈ m_variables,
      assignAll (assignAll vars m_variables.toList) entries name =
        assignAll (fun name => m_variables[name]?) entries name :=
    fun entries name hname => assignAll_congr (assignAll_toList vars hname) entries
  refine ⟨assignAll (assignAll vars m_variables.toList) text.effective, ?_,
    hvalue text.effective⟩
  rw [run_lastCommands h hnul]
  unfold ConfigText.effective ConfigText.printed
  cases hentries : m_variables.toList with
  | nil =>
      -- there is nothing that the file could assign to
      have hnone : text.last.assignment.toList = [] := by
        refine List.eq_nil_iff_forall_not_mem.2 fun entry hentry => ?_
        rcases mem_toList_of_mem (h.assigned entry (List.mem_append_right _ hentry)) with
          ⟨value, hmem⟩
        rw [hentries] at hmem
        cases hmem
      unfold ConfigText.lastCommands ConfigText.assignments
      rw [hnone, List.append_nil, ite_self, List.tail_nil, ite_self]
      rfl
  | cons first rest =>
      split_ifs with hcomment
      · exact exec_lastCommands_plain henv hcomment hglued hlast first rest _
      · unfold ConfigText.assignments
        rw [assignAll_append]
        exact exec_lastCommands_comment henv hcomment hlast first rest _

/-! ## Scripts without a meaning -/

theorem step_nul (s : Lexer) : s.step 0 = none := by
  rcases s with ⟨mode, word, words, commands⟩
  cases mode with
  | parameter name =>
      unfold Lexer.step
      dsimp only
      rw [if_neg fun h => absurd h.1 (by decide)]
      split_ifs
      · rfl
      · rfl
  | _ => rfl

/-- No byte of a script may be NUL. -/
theorem lex_nul {script : Str} (h : 0 ∈ script) (s : Lexer) : s.lex script = none := by
  induction script generalizing s with
  | nil => cases h
  | cons c script ih =>
      rw [Lexer.lex_cons]
      rcases List.mem_cons.1 h with rfl | h
      · rw [step_nul]
        rfl
      · cases s.step c with
        | none => rfl
        | some s' => exact ih h s'

theorem mem_shellQuoted {c : UInt8} (hc : c ≠ squote) {s : Str} (h : c ∈ s) :
    c ∈ shellQuoted s := by
  have hescape : c ∈ s.flatMap shellEscape :=
    List.mem_flatMap.2 ⟨c, h, shellEscape_of_ne hc ▸ List.mem_singleton.2 rfl⟩
  have hquoted : c ∈ squote :: s.flatMap shellEscape := List.mem_cons_of_mem _ hescape
  unfold shellQuoted
  dsimp only
  split_ifs with hany hlast
  · have hconcat := List.dropLast_append_getLast? _ hlast
    rw [← hconcat] at hquoted
    exact (List.mem_append.1 hquoted).resolve_right fun h => hc (List.mem_singleton.1 h)
  · exact List.mem_append_left _ hquoted
  · exact hescape

theorem run_script_nul {entry : Str × Str} (hentry : entry ∈ m_variables.toList)
    (hnul : 0 ∈ entry.2) (vars : Vars) :
    run env vars (ShellConfigParser.script text.text m_variables) = none := by
  have hline : 0 ∈ shellAssignment entry :=
    List.mem_append_left _ (List.mem_append_right _ (mem_shellQuoted (by decide) hnul))
  have hscript : 0 ∈ ShellConfigParser.script text.text m_variables :=
    List.mem_append_left _ (List.mem_append_left _ (List.mem_append_right _
      (List.mem_flatMap.2 ⟨entry, hentry, hline⟩)))
  unfold run parse
  rw [lex_nul hscript]
  rfl

/-- What is printed first, if the first `echo` goes on with the word before. -/
theorem run_script_glued (h : Registered m_variables text)
    (hnul : ∀ entry ∈ m_variables.toList, 0 ∉ entry.2) (hglued : text.Glued) (vars : Vars) :
    ∃ vars' output, run hostile vars (ShellConfigParser.script text.text m_variables) =
      some (vars', [nl, nl] ++ output) := by
  rcases Option.ne_none_iff_exists'.1 hglued.1 with ⟨entry, hentry⟩
  have hcomment : text.last.comment = none := by
    by_contra hcomment
    exact text.last.separate hglued.1 hcomment hglued.2
  have hassigned : entry ∈ text.assignments := ConfigText.mem_assignments_of_last hentry
  rcases mem_toList_of_mem (h.assigned entry hassigned) with ⟨before, hmem⟩
  rw [run_lastCommands h hnul]
  cases hentries : m_variables.toList with
  | nil =>
      rw [hentries] at hmem
      cases hmem
  | cons first rest =>
      have hfirst : (Function.update vars first.1 (some first.2) first.1).isSome = true := by
        rw [Function.update_self]
        rfl
      have hset : (assignAll vars (first :: rest) first.1).isSome = true :=
        assignAll_isSome hfirst rest
      rcases Option.isSome_iff_exists.1 (assignAll_isSome hset text.complete) with
        ⟨value, hvalue⟩
      have hecho := exec_echoes hostile_posix rest
        (assignAll (assignAll vars (first :: rest)) text.complete) [nl, nl]
      -- the first command writes two newlines, and the other ones behind them
      rw [lastCommands_glued hcomment hentry hglued.2, List.foldlM_cons,
        exec_glued (h.ordinary_assigned hassigned) hvalue]
      exact ⟨_, _, hecho⟩

end Script

end Config
end Kdump

import Kdump.Config.ConfigParser
import Kdump.Config.ShellFormat

/-!
# ShellConfigParser — reading the configuration file

`ShellConfigParser::parse` leaves the configuration file to a shell: the script assigns the values
that the variables have already, goes on with the file, and prints the variables.  What the shell
writes is read line by line.

* `script` and `parse`;
* `ConfigText` — a file of blank lines, comments, and assignments of quoted literals;
* `wanted` — the values that the variables should have behind such a file.
-/

namespace Kdump
namespace Config

open Lib Lib.Shell

namespace ShellConfigParser

/-! ## The parser -/

/-- The line of the script that prints a variable. -/
def echoLine (name : Str) : Str :=
  str "echo '" ++ name ++ str "='$" ++ name ++ str "\n"

/-- The text that the shell gets at its standard input. -/
def script (fin : Str) (m_variables : StringStringMap) : Str :=
  str "#!/bin/sh\n" ++ m_variables.toList.flatMap shellAssignment ++ fin ++
    m_variables.toList.flatMap fun entry => echoLine entry.1

/-- What `std::getline` gives until it fails.  A last line need not be ended by a newline. -/
def getlines : Str → List Str
  | [] => []
  | c :: s =>
      if c = newline then
        [] :: getlines s
      else
        match getlines s with
        | [] => [[c]]
        | line :: lines => (c :: line) :: lines

theorem getlines_line {line : Str} (h : nl ∉ line) (rest : Str) :
    getlines (line ++ nl :: rest) = line :: getlines rest := by
  induction line with
  | nil => rfl
  | cons c line ih =>
      rcases List.ne_and_not_mem_of_not_mem_cons h with ⟨hc, hline⟩
      rw [List.cons_append, getlines, if_neg hc.symm, ih hline]

/-- One pass of the loop over the output.  The line number in the message is always the same. -/
def parseLine (m_variables : StringStringMap) (s : Str) : Except Thrown StringStringMap :=
  match s.findIdx? (· == eqSign) with
  | none => .error (.KError (str "Parsing line number " ++ number2string 1 ++ str " failed."))
  | some loc => .ok (m_variables.insert (s.take loc) (s.drop (loc + 1)))

/-- `ShellConfigParser::parse`.  What a `ProcessFilter` gives for `/bin/sh` and its input is a
parameter. -/
def parse (sh : Str → Except Thrown Str) (m_configFile : ConfigFile)
    (m_variables : StringStringMap) : Except Thrown StringStringMap :=
  match m_configFile.content with
  | .error errno =>
      .error (.KSystemError (str "Cannot open config file " ++ m_configFile.name) errno)
  | .ok fin => do
      let shelloutput ← sh (script fin m_variables)
      (getlines shelloutput).foldlM parseLine m_variables

end ShellConfigParser

/-- `Configuration::readFile`. -/
def Configuration.readFile {fadump : Bool} (sh : Str → Except Thrown Str)
    (c : Configuration fadump) (file : ConfigFile) : Except Thrown (Configuration fadump) := do
  let cp := c.m_options.foldl (fun m opt => addVariable m opt.name opt.valueAsString) ∅
  let cp ← ShellConfigParser.parse sh file cp
  let l ← updateOptions cp c.m_options
  .ok ⟨l.1, l.2.trans c.table⟩

/-! ## Configuration files -/

/-- A line with nothing on it, or with an assignment of a single-quoted literal, and perhaps with a
comment. -/
structure ConfigLine where
  indent : Str
  assignment : Option (Str × Str)
  trailing : Str
  comment : Option Str
  indent_blank : ∀ c ∈ indent, isBlank c = true
  trailing_blank : ∀ c ∈ trailing, isBlank c = true
  /-- a `#` in a word does not begin a comment -/
  separate : assignment ≠ none → comment ≠ none → trailing ≠ []
  literal : ∀ entry ∈ assignment, quote ∉ entry.2 ∧ 0 ∉ entry.2
  comment_text : ∀ text ∈ comment, nl ∉ text ∧ 0 ∉ text

namespace ConfigLine

def quotedAssignment (entry : Str × Str) : Str :=
  entry.1 ++ [eqSign] ++ (squote :: entry.2 ++ [squote])

def text (self : ConfigLine) : Str :=
  self.indent ++ self.assignment.toList.flatMap quotedAssignment ++ self.trailing ++
    self.comment.toList.flatMap (hash :: ·)

end ConfigLine

/-- A configuration file.  There may be something behind the last newline. -/
structure ConfigText where
  lines : List ConfigLine
  last : ConfigLine

namespace ConfigText

variable (self : ConfigText)

def text : Str :=
  self.lines.flatMap (fun line => line.text ++ [newline]) ++ self.last.text

/-- The assignments on complete lines. -/
def complete : List (Str × Str) :=
  self.lines.flatMap fun line => line.assignment.toList

def assignments : List (Str × Str) :=
  self.complete ++ self.last.assignment.toList

/-- The values that the variables should have: the literal that was assigned last, or the value
before. -/
def wanted (m_variables : StringStringMap) (name : Str) : Option Str :=
  assignAll (fun name => m_variables[name]?) self.assignments name

/-! ## The end of the file -/

/-- The first `echo` is a part of the word that is assigned. -/
def Glued : Prop :=
  self.last.assignment ≠ none ∧ self.last.trailing = []

instance : Decidable self.Glued :=
  inferInstanceAs (Decidable (_ ∧ _))

/-- What is assigned in the shell: an assignment before the first `echo` on its line is for that
command only. -/
def effective : List (Str × Str) :=
  if self.last.comment = none then self.complete else self.assignments

/-- The variables that are printed: the first `echo` may be a part of a comment. -/
def printed (m_variables : StringStringMap) : List (Str × Str) :=
  if self.last.comment = none then m_variables.toList else m_variables.toList.tail

end ConfigText

end Config
end Kdump

import Mathlib.Tactic

/-!
# Shell — simple commands of the POSIX shell

The shell reads a script byte by byte, splits it into the words of simple commands, and executes
one command after the other.  Words are made of literal bytes, single quotes, backslashes and
parameters such as `$name`.  A script with anything else in it (double quotes, other expansions,
operators, compound commands, special utilities, variables with a meaning to the shell) has no
result here: `none` says nothing about what a shell does with it.

* `Lexer` — token recognition;
* `expandWord` — parameter expansion, field splitting, pathname expansion and quote removal;
* `exec`, `run` — commands and scripts;
* `Environment` — what the outcome depends on besides: the files that there are, and the utilities;
* `IsPosix` — what is known of a shell.
-/

namespace Lib
namespace Shell

abbrev Text := List UInt8

/-- The bytes of an ASCII literal. -/
def ascii (s : String) : Text :=
  s.toList.map Char.toUInt8

abbrev tab : UInt8 := 9
abbrev nl : UInt8 := 10
abbrev blank : UInt8 := 32
abbrev hash : UInt8 := 35
abbrev dollar : UInt8 := 36
abbrev quote : UInt8 := 39
abbrev equals : UInt8 := 61
abbrev backslash : UInt8 := 92

def isBlank (c : UInt8) : Bool :=
  c == blank || c == tab

def isDigit (c : UInt8) : Bool :=
  48 ≤ c && c ≤ 57

/-- A letter, a digit or an underscore. -/
def isNameChar (c : UInt8) : Bool :=
  isDigit c || (65 ≤ c && c ≤ 90) || (97 ≤ c && c ≤ 122) || c == 95

/-- A name, as a variable may have. -/
def isName (n : Text) : Bool :=
  n.all isNameChar && !(n.head?.elim true isDigit)

/-- NUL and the bytes of `"&();<>|~` and the backquote: they have a meaning that is not part of
this model. -/
def isSpecial (c : UInt8) : Bool :=
  [0, 34, 38, 40, 41, 59, 60, 62, 96, 124, 126].contains c

/-! ## Token recognition -/

/-- A part of a word. -/
inductive Piece where
  | literal (c : UInt8)
  | quoted (c : UInt8)
  /-- the beginning of a pair of quotes, which may have nothing in it -/
  | mark
  | parameter (name : Text)
  deriving DecidableEq

abbrev Word := List Piece

abbrev Command := List Word

inductive Mode where
  | plain
  /-- behind `'` -/
  | single
  /-- behind a backslash -/
  | escaped
  | comment
  /-- behind `$` and these bytes -/
  | parameter (name : Text)
  deriving DecidableEq

structure Lexer where
  mode : Mode
  /-- the word that is being read -/
  word : Option Word
  /-- the words of the command that is being read -/
  words : List Word
  commands : List Command
  deriving DecidableEq

namespace Lexer

def start : Lexer :=
  ⟨.plain, none, [], []⟩

/-- The part becomes the last one of a word. -/
def push (self : Lexer) (p : Piece) : Lexer :=
  { self with word := some (self.word.getD [] ++ [p]) }

def endWord (self : Lexer) : Lexer :=
  { self with word := none, words := self.words ++ self.word.toList }

def endCommand (self : Lexer) : Lexer :=
  let words := self.words ++ self.word.toList
  { self with
    word := none
    words := []
    commands := if words = [] then self.commands else self.commands ++ [words] }

/-- A byte outside of quotes and comments. -/
def plainStep (self : Lexer) (c : UInt8) : Option Lexer :=
  if c = nl then some self.endCommand
  else if isBlank c = true then some self.endWord
  else if c = quote then some { self.push .mark with mode := .single }
  else if c = backslash then some { self with mode := .escaped }
  else if c = dollar then some { self with mode := .parameter [] }
  else if c = hash ∧ self.word = none then some { self with mode := .comment }
  else if isSpecial c = true then none
  else some (self.push (.literal c))

def step (self : Lexer) (c : UInt8) : Option Lexer :=
  match self.mode with
  | .plain => self.plainStep c
  | .single =>
      if c = 0 then none
      else if c = quote then some { self with mode := .plain }
      else some (self.push (.quoted c))
  | .escaped =>
      if c = 0 then none
      -- the line is continued
      else if c = nl then some { self with mode := .plain }
      else some { self.push (.quoted c) with mode := .plain }
  | .comment =>
      if c = 0 then none
      else if c = nl then some { self.endCommand with mode := .plain }
      else some self
  | .parameter name =>
      if isNameChar c = true ∧ ¬ (name = [] ∧ isDigit c = true) then
        some { self with mode := .parameter (name ++ [c]) }
      else if name = [] then none
      else { self.push (.parameter name) with mode := .plain }.plainStep c

/-- At the end of the script. -/
def finish (self : Lexer) : Option (List Command) :=
  match self.mode with
  | .plain => some self.endCommand.commands
  | .comment => some self.endCommand.commands
  | .parameter (c :: name) => some (self.push (.parameter (c :: name))).endCommand.commands
  | _ => none

def lex (self : Lexer) (text : Text) : Option Lexer :=
  text.foldlM step self

end Lexer

def parse (script : Text) : Option (List Command) :=
  (Lexer.start.lex script).bind Lexer.finish

/-! ## Expansion -/

abbrev Vars := Text → Option Text

/-- A byte of a word that is being expanded. -/
inductive Item where
  | byte (c : UInt8) (quoted : Bool)
  | mark
  /-- the result of a parameter expansion -/
  | expanded (c : UInt8)
  deriving DecidableEq

/-- The bytes of a field, each with whether it is quoted. -/
abbrev Field := List (UInt8 × Bool)

def expandPiece (vars : Vars) : Piece → List Item
  | .literal c => [.byte c false]
  | .quoted c => [.byte c true]
  | .mark => [.mark]
  | .parameter name => ((vars name).getD []).map .expanded

/-- The default of `IFS`. -/
def isIfs (c : UInt8) : Bool :=
  c == blank || c == tab || c == nl

/-- Field splitting: only what a parameter has been expanded to is split. -/
def splitFields : Option Field → List Item → List Field
  | field, [] => field.toList
  | field, .byte c quoted :: items => splitFields (some (field.getD [] ++ [(c, quoted)])) items
  | field, .mark :: items => splitFields (some (field.getD [])) items
  | field, .expanded c :: items =>
      if isIfs c = true then field.toList ++ splitFields none items
      else splitFields (some (field.getD [] ++ [(c, false)])) items

/-- Quote removal. -/
def unquote (field : Field) : Text :=
  field.map Prod.fst

/-- What the outcome of a script depends on. -/
structure Environment where
  /-- the pathnames that match a field, in their order -/
  pathnames : Field → List Text
  /-- what `echo` writes for its arguments -/
  echo : List Text → Text
  /-- what any other utility writes to its standard output -/
  utility : List Text → Text

/-- A field that matches nothing stays as it is. -/
def expandPathnames (env : Environment) (field : Field) : List Text :=
  if env.pathnames field = [] then [unquote field] else env.pathnames field

def expandWord (env : Environment) (vars : Vars) (word : Word) : List Text :=
  (splitFields none (word.flatMap (expandPiece vars))).flatMap (expandPathnames env)

/-- The value of an assignment is neither split nor matched. -/
def valueOf (vars : Vars) (word : Word) : Text :=
  word.flatMap fun
    | .literal c => [c]
    | .quoted c => [c]
    | .mark => []
    | .parameter name => (vars name).getD []

/-! ## Commands -/

/-- The variables that have a meaning to the shell. -/
def shellVariables : List Text :=
  ["ENV", "HOME", "IFS", "LANG", "LC_ALL", "LC_COLLATE", "LC_CTYPE", "LC_MESSAGES", "LINENO",
    "NLSPATH", "OLDPWD", "PATH", "PPID", "PS1", "PS2", "PS4", "PWD"].map ascii

def reservedWords : List Text :=
  ["!", "\x7b", "\x7d", "case", "do", "done", "elif", "else", "esac", "fi", "for", "if", "in",
    "then", "until", "while"].map ascii

def specialUtilities : List Text :=
  ["break", ":", "continue", ".", "eval", "exec", "exit", "export", "readonly", "return", "set",
    "shift", "times", "trap", "unset"].map ascii

/-- A variable like any other. -/
def Ordinary (name : Text) : Prop :=
  isName name = true ∧ name ∉ shellVariables

instance (name : Text) : Decidable (Ordinary name) :=
  inferInstanceAs (Decidable (_ ∧ _))

/-- The bytes of a word, as long as they are literal and belong to a name. -/
def leadingName : Word → Text
  | .literal c :: word => if isNameChar c = true then c :: leadingName word else []
  | _ => []

/-- A name, an equals sign and the value. -/
def assignment? (word : Word) : Option (Text × Word) :=
  let name := leadingName word
  if isName name = true ∧ word[name.length]? = some (.literal equals) then
    some (name, word.drop (name.length + 1))
  else
    none

/-- The assignments at the beginning of a command, and the other words. -/
def splitAssignments : Command → List (Text × Word) × Command
  | [] => ([], [])
  | word :: words =>
      match assignment? word with
      | some assignment =>
          let more := splitAssignments words
          (assignment :: more.1, more.2)
      | none => ([], word :: words)

def assign (vars : Vars) (assignment : Text × Word) : Vars :=
  Function.update vars assignment.1 (some (valueOf vars assignment.2))

/-- A simple command.  Without a command name, the assignments stay in force. -/
def exec (env : Environment) (state : Vars × Text) (command : Command) :
    Option (Vars × Text) :=
  let (assignments, words) := splitAssignments command
  if assignments.any (fun assignment => assignment.1 ∈ shellVariables) = true then none
  else if words.head?.any (fun word => word ∈ reservedWords.map (·.map Piece.literal)) = true then
    none
  else
    match words.flatMap (expandWord env state.1) with
    | [] => some (assignments.foldl assign state.1, state.2)
    | name :: arguments =>
        if name = ascii "echo" then some (state.1, state.2 ++ env.echo arguments)
        else if name ∈ specialUtilities then none
        else some (state.1, state.2 ++ env.utility (name :: arguments))

/-- The variables and the output behind a script. -/
def run (env : Environment) (vars : Vars) (script : Text) : Option (Vars × Text) :=
  (parse script).bind fun commands => commands.foldlM (exec env) (vars, [])

/-! ## What is known of a shell -/

/-- A closing bracket follows, so that the bracket before is not an ordinary byte. -/
def closesBracket (field : Field) : Bool :=
  let field := if field.head? = some (33, false) then field.tail else field
  let inside := field.tail.takeWhile fun x => x ≠ (93, false)
  decide (inside.length < field.tail.length) && (field.take 1 ++ inside).all fun x => x.1 ≠ 47

/-- The field has an unquoted `*`, `?` or bracket expression in it, or a backslash, which may have
a meaning among these. -/
def IsPattern : Field → Prop
  | [] => False
  | (c, quoted) :: field =>
      (quoted = false ∧ (c = 42 ∨ c = 63 ∨ c = backslash ∨ (c = 91 ∧ closesBracket field = true))) ∨
        IsPattern field

instance decidableIsPattern : (field : Field) → Decidable (IsPattern field)
  | [] => .isFalse fun h => h
  | (_, _) :: field => @instDecidableOr _ _ inferInstance (decidableIsPattern field)

/-- Only patterns match, and `echo` writes its arguments with a blank in between, unless the first
one is `-n` or there is a backslash in one of them. -/
structure Environment.Posix (env : Environment) : Prop where
  pathnames : ∀ field, ¬ IsPattern field → env.pathnames field = []
  echo : ∀ arguments, arguments.head? ≠ some (ascii "-n") →
    (∀ argument ∈ arguments, backslash ∉ argument) →
    env.echo arguments = [blank].intercalate arguments ++ [nl]

/-- The output of a shell for the scripts it is given. -/
def IsPosix (sh : Text → Text) : Prop :=
  ∃ env vars, env.Posix ∧
    ∀ script vars' output, run env vars script = some (vars', output) → sh script = output

end Shell
end Lib

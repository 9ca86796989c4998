import Kdump.Lib.ShellRules

/-!
# ShellTokens — what a command line comes to

The whole token recognition of the POSIX shell, with operators, all kinds of quotes, and expansions.
How far an expansion goes and what it gives is left open.

* `step`, `run` — token recognition;
* `Surroundings` — what expansions give, and the files that there are;
* `seen` — the arguments and the operators of a command line.

The number in front of a redirection is not told apart from a word.
-/

namespace Lib
namespace Shell
namespace Tokens

abbrev dquote : UInt8 := 34
abbrev backquote : UInt8 := 96
abbrev tilde : UInt8 := 126

/-- The bytes that operators begin with. -/
def isOperator (c : UInt8) : Bool :=
  [38, 40, 41, 59, 60, 62, 124].contains c

def longOperators : List Text :=
  ["&&", "||", ";;", "<<", ">>", "<&", ">&", "<>", "<<-", ">|"].map ascii

/-! ## Token recognition -/

/-- A part of a word. -/
inductive Part where
  | byte (c : UInt8) (quoted : Bool)
  /-- the beginning of a pair of quotes -/
  | mark
  | expansion (text : Text) (quoted : Bool)
  deriving DecidableEq

inductive Token where
  | word (parts : List Part)
  | operator (op : Text)
  deriving DecidableEq

inductive Mode where
  | plain
  | single
  | double
  /-- behind a backslash -/
  | escaped
  /-- behind a backslash in double quotes -/
  | escapedDouble
  /-- so many bytes and one more belong to an expansion -/
  | expansion (n : Nat) (quoted : Bool)
  | operator (op : Text)
  | comment
  deriving DecidableEq

structure State where
  mode : Mode
  /-- the word that is being read -/
  word : Option (List Part)
  tokens : List Token
  deriving DecidableEq

/-- How many bytes behind a dollar sign, a backquote or a tilde belong to the expansion.  There is
none where POSIX does not say what the text means. -/
abbrev Extent := UInt8 → Text → Option Nat

namespace State

def start : State :=
  ⟨.plain, none, []⟩

def push (self : State) (p : Part) : State :=
  { self with word := some (self.word.getD [] ++ [p]) }

def endWord (self : State) : State :=
  { self with word := none, tokens := self.tokens ++ (self.word.map Token.word).toList }

def addOperator (self : State) (op : Text) : State :=
  { self with tokens := self.tokens ++ [.operator op] }

end State

/-- The mode in which `n` more bytes are passed over. -/
def passOver (n : Nat) (quoted : Bool) : Mode :=
  match n with
  | 0 => if quoted then .double else .plain
  | n + 1 => .expansion n quoted

/-- An expansion, from its first byte on. -/
def expand (extent : Extent) (s : State) (c : UInt8) (rest : Text) (quoted : Bool) :
    Option State :=
  (extent c rest).map fun n =>
    { s.push (.expansion (c :: rest.take n) quoted) with mode := passOver n quoted }

/-- A byte outside of quotes. -/
def plainStep (extent : Extent) (s : State) (c : UInt8) (rest : Text) : Option State :=
  if c = 0 then none
  else if c = nl then some (s.endWord.addOperator [nl])
  else if isBlank c then some s.endWord
  else if isOperator c then some { s.endWord with mode := .operator [c] }
  else if c = quote then some { s.push .mark with mode := .single }
  else if c = dquote then some { s.push .mark with mode := .double }
  else if c = backslash then some { s with mode := .escaped }
  else if c = dollar ∨ c = backquote ∨ c = tilde ∧ s.word = none then expand extent s c rest false
  else if c = hash ∧ s.word = none then some { s with mode := .comment }
  else some (s.push (.byte c false))

/-- A byte that loses its meaning behind a backslash in double quotes. -/
def escapable (c : UInt8) : Bool :=
  [dollar, backquote, dquote, backslash].contains c

def doubleStep (extent : Extent) (s : State) (c : UInt8) (rest : Text) : Option State :=
  if c = 0 then none
  else if c = dquote then some { s with mode := .plain }
  else if c = backslash then some { s with mode := .escapedDouble }
  else if c = dollar ∨ c = backquote then expand extent s c rest true
  else some (s.push (.byte c true))

/-- One byte, in front of the rest of the text. -/
def step (extent : Extent) (s : State) (c : UInt8) (rest : Text) : Option State :=
  match s.mode with
  | .plain => plainStep extent s c rest
  | .single =>
      if c = 0 then none
      else if c = quote then some { s with mode := .plain }
      else some (s.push (.byte c true))
  | .double => doubleStep extent s c rest
  | .escaped =>
      if c = 0 then none
      -- the line is continued
      else if c = nl then some { s with mode := .plain }
      else some { s.push (.byte c true) with mode := .plain }
  | .escapedDouble =>
      if c = 0 then none
      else if c = nl then some { s with mode := .double }
      else if escapable c then some { s.push (.byte c true) with mode := .double }
      else some { (s.push (.byte backslash true)).push (.byte c true) with mode := .double }
  | .expansion n quoted => some { s with mode := passOver n quoted }
  | .operator op =>
      if longOperators.contains (op ++ [c]) then some { s with mode := .operator (op ++ [c]) }
      else plainStep extent { s.addOperator op with mode := .plain } c rest
  | .comment =>
      if c = 0 then none
      else if c = nl then some { s.addOperator [nl] with mode := .plain }
      else some s

def run (extent : Extent) (s : State) : Text → Option State
  | [] => some s
  | c :: rest => (step extent s c rest).bind fun s' => run extent s' rest

/-- At the end of the text. -/
def finish (s : State) : Option (List Token) :=
  match s.mode with
  | .plain => some s.endWord.tokens
  | .operator op => some (s.addOperator op).tokens
  | .comment => some s.tokens
  | _ => none

/-- The tokens from a state on. -/
def tokensFrom (extent : Extent) (s : State) (text : Text) : Option (List Token) :=
  (run extent s text).bind finish

/-! ## Expansion -/

/-- What a shell makes of expansions and patterns.  Only patterns match. -/
structure Surroundings where
  expansion : Text → Text
  pathnames : Field → List Text
  only_patterns : ∀ field, ¬ IsPattern field → pathnames field = []

def Part.items (env : Surroundings) : Part → List Item
  | .byte c quoted => [.byte c quoted]
  | .mark => [.mark]
  | .expansion text true => (env.expansion text).map fun c => .byte c true
  | .expansion text false => (env.expansion text).map .expanded

/-- The names of the files, or the field itself. -/
def filenames (env : Surroundings) (field : Field) : List Text :=
  if env.pathnames field = [] then [unquote field] else env.pathnames field

/-- An argument or an operator. -/
inductive Seen where
  | argument (text : Text)
  | operator (op : Text)
  deriving DecidableEq

def Token.seen (env : Surroundings) : Token → List Seen
  | .word parts =>
      ((splitFields none (parts.flatMap (Part.items env))).flatMap (filenames env)).map .argument
  | .operator op => [.operator op]

/-- The arguments and the operators of a command line. -/
def seen (extent : Extent) (env : Surroundings) (text : Text) : Option (List Seen) :=
  (tokensFrom extent .start text).map fun tokens => tokens.flatMap (Token.seen env)

end Tokens
end Shell
end Lib

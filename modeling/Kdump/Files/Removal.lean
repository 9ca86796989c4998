import Kdump.Lib.Wp
import Kdump.Files.Pruning

/-!
# Removal — `FilePath::rmdir` on a tree

The recursive removal of a directory, with the system calls it makes and everything that can go
wrong in them.

* `Dirent` — an entry as `readdir` reports it;
* `Env` — what the system decides: which calls are refused, what `readdir` reports;
* `State` — the tree, and the symbolic links that have been followed;
* `opendir`, `removeNode` — the system calls;
* `rmdir` — the program.

An exception closes the directory stream, which is not visible in the tree.
-/

namespace Kdump
namespace Files

open Lib Kdump.Path

def EBUSY : Errno := 16
def EMFILE : Errno := 24
def ENOTEMPTY : Errno := 39

/-! ## Directory streams -/

/-- `d_type`. -/
inductive DType where
  | DT_UNKNOWN
  | DT_DIR
  | DT_LNK
  | DT_REG
  deriving DecidableEq, Repr

/-- The name of the directory itself or of its parent. -/
def isDots (name : Str) : Bool :=
  name = [period] ∨ name = [period, period]

/-- `struct dirent`. -/
structure Dirent where
  d_name : Str
  d_type : DType
  name_ok : isDots d_name = true ∨ IsFileName d_name

/-- What the system does: the calls are numbered. -/
structure Env where
  /-- the error with which a call is refused -/
  refuse : Nat → Option Errno
  /-- what the stream that a call opens at a position reports of the entries there -/
  readdir : Nat → List FileName → List (FileName × Node) → List Dirent
  /-- the error with which the stream that a call opens breaks off -/
  broken : Nat → Option Errno

structure State where
  tree : Node
  /-- the number of system calls so far -/
  calls : Nat
  /-- the positions of the symbolic links that the calls have met -/
  followed : List (List FileName)

abbrev FileProg := EStateM Thrown State

abbrev SysCall := EStateM Errno State

/-! ## System calls -/

/-- The kernel resolves the components of a path, from the root or from an open directory.  A
refused call may have followed the links. -/
def resolve (env : Env) (start : List FileName) (comps : List Str) : SysCall (List FileName) :=
  fun s =>
    let s' : State :=
      { s with calls := s.calls + 1
               followed := s.followed ++ s.tree.links kernelMaxSymlinks start comps }
    match env.refuse s.calls with
    | some errno => .error errno s'
    | none =>
        match s.tree.walk kernelMaxSymlinks start comps with
        | .error errno => .error errno s'
        | .ok pos => .ok pos s'

/-- An open directory: its file descriptor stands for its position. -/
structure Dir where
  fd : List FileName
  /-- what `readdir` returns until the stream ends -/
  entries : List Dirent
  /-- the value of `errno` when it ends -/
  error : Option Errno

def opendir (env : Env) (path : Str) : SysCall Dir :=
  if cStr path = [] then
    throw ENOENT
  else do
    let pos ← resolve env [] (splitPath (cStr path))
    let s ← get
    match s.tree.get? pos with
    | some (.dir entries) => pure ⟨pos, env.readdir s.calls pos entries, env.broken s.calls⟩
    | _ => throw ENOTDIR

/-- Remove the node with the name `c` in a directory. -/
def unlinkAt (onlyDir : Bool) (parent : List FileName) (c : Str) : SysCall Unit := fun s =>
  if c = [period] then
    .error EINVAL s
  else if c = [period, period] then
    .error ENOTEMPTY s
  else
    match s.tree.enter parent c with
    | .error errno => .error errno s
    | .ok next =>
        match s.tree.get? next with
        | none => .error ENOENT s
        | some (.dir []) => .ok () { s with tree := s.tree.erase next }
        | some (.dir _) => .error ENOTEMPTY s
        | some _ =>
            if onlyDir then .error ENOTDIR s else .ok () { s with tree := s.tree.erase next }

/-- `rmdir(2)` if `onlyDir` is set, else `remove(3)`.  A trailing slash asks for a directory. -/
def removeNode (env : Env) (onlyDir : Bool) (path : Str) : SysCall Unit := do
  match (words (cStr path)).getLast? with
  | none =>
      let _ ← resolve env [] []
      throw EBUSY
  | some c =>
      let parent ← resolve env [] (words (cStr path)).dropLast
      unlinkAt (onlyDir || (cStr path).getLast? = some slash) parent c

/-! ## The program -/

/-- A failed call becomes a `KSystemError`. -/
def orThrow {α : Type} (message : Str) (call : SysCall α) : FileProg α := fun s =>
  match call s with
  | .ok a s' => .ok a s'
  | .error errno s' => .error (.KSystemError message errno) s'

/-- What the loop does with one entry; `descend` is `rmdir(true)`. -/
def removeEntry (env : Env) (descend : Str → FileProg Unit) (path : Str) (ptr : Dirent) :
    FileProg Unit :=
  if isDots ptr.d_name then
    pure ()
  else if ptr.d_type = .DT_DIR then
    descend (appendPath path ptr.d_name)
  else
    orThrow (str "Cannot remove " ++ ptr.d_name ++ str ".")
      (removeNode env false (appendPath path ptr.d_name))

def removeEntries (env : Env) (descend : Str → FileProg Unit) (path : Str) :
    List Dirent → FileProg Unit
  | [] => pure ()
  | ptr :: rest => do
      removeEntry env descend path ptr
      removeEntries env descend path rest

/-- `FilePath::rmdir`.  Every level of the recursion keeps a directory stream open; `fds` is the
number of file descriptors that are left. -/
def rmdir (env : Env) : (fds : Nat) → (path : Str) → (recursive : Bool) → FileProg Unit
  | _, path, false => orThrow (str "Cannot rmdir(" ++ path ++ str ").") (removeNode env true path)
  | 0, path, true => throw (.KSystemError (str "Cannot opendir(" ++ path ++ str ").") EMFILE)
  | fds + 1, path, true => do
      let dirptr ← orThrow (str "Cannot opendir(" ++ path ++ str ").") (opendir env path)
      removeEntries env (fun fn => rmdir env fds fn true) path dirptr.entries
      orThrow (str "Cannot rmdir(" ++ path ++ str ").") (removeNode env true path)

end Files
end Kdump

import Kdump.Files.Removal
import Kdump.Mount.MountTransfer

/-!
# DeleteDumps — the retention of old dumps

`FilePath::listDir` with its filters, and `DeleteDumps::delete_one`.  What is printed is not
modelled.
-/

namespace Kdump
namespace Files

open Lib Kdump.Path Kdump.Mount

/-! ## Queries -/

/-- Whether a system call succeeds, with a result of this kind. -/
def succeeds {α : Type} (p : α → Bool) (call : SysCall α) : FileProg Bool := fun s =>
  match call s with
  | .ok a s' => .ok (p a) s'
  | .error _ s' => .ok false s'

/-- `FilePath::exists`. -/
def pathExists (env : Env) (path : Str) : FileProg Bool :=
  if cStr path = [] then
    pure false
  else
    succeeds (fun _ => true) (resolve env [] (splitPath (cStr path)))

/-- `fstatat` with `AT_SYMLINK_NOFOLLOW`, for the name of an entry of the open directory. -/
def fstatatNofollow (env : Env) (dirfd : List FileName) (name : Str) : SysCall FileType := fun s =>
  let s' : State := { s with calls := s.calls + 1 }
  match env.refuse s.calls with
  | some errno => .error errno s'
  | none =>
      match s.tree.enter dirfd name with
      | .error errno => .error errno s'
      | .ok next =>
          match s.tree.get? next with
          | none => .error ENOENT s'
          | some node => .ok node.type s'

/-- `fstatat` that follows links, for a path that is relative to the open directory. -/
def fstatat (env : Env) (dirfd : List FileName) (path : Str) : SysCall Unit := do
  let _ ← resolve env dirfd (splitPath (cStr path))

/-! ## Filters -/

def FilterDots.test (d : Dirent) : Bool :=
  !isDots d.d_name

def FilterDotsAndNondirs.test (env : Env) (dirfd : List FileName) (d : Dirent) : FileProg Bool :=
  if FilterDots.test d = false then
    pure false
  else if d.d_type = .DT_DIR then
    pure true
  else if d.d_type ≠ .DT_UNKNOWN then
    pure false
  else
    succeeds (fun type => type = .dir) (fstatatNofollow env dirfd d.d_name)

def FilterKdumpDirs.test (env : Env) (dirfd : List FileName) (d : Dirent) : FileProg Bool := do
  let isDir ← FilterDotsAndNondirs.test env dirfd d
  if isDir then
    succeeds (fun _ => true) (fstatat env dirfd (appendPath d.d_name (str "vmcore")))
  else
    pure false

/-! ## Listings -/

/-- What orders strings: their bytes, as unsigned numbers. -/
def bytesOf (s : Str) : List Nat :=
  s.map UInt8.toNat

/-- `sort(v.begin(), v.end())`. -/
def sortNames (v : List Str) : List Str :=
  v.insertionSort fun a b => bytesOf a ≤ bytesOf b

/-- The loop of `listDir` over the entries that `readdir` returns. -/
def filterEntries (test : Dirent → FileProg Bool) : List Dirent → FileProg (List Str)
  | [] => pure []
  | d :: rest => do
      let keep ← test d
      let v ← filterEntries test rest
      pure (if keep then d.d_name :: v else v)

/-- `FilePath::listDir`, with the number of file descriptors that are left. -/
def listDir (env : Env) (filter : List FileName → Dirent → FileProg Bool) :
    (fds : Nat) → (path : Str) → FileProg (List Str)
  | 0, path => throw (.KSystemError (str "Cannot open directory " ++ path ++ str ".") EMFILE)
  | _ + 1, path => do
      let dirp ← orThrow (str "Cannot open directory " ++ path ++ str ".") (opendir env path)
      let v ← filterEntries (filter dirp.fd) dirp.entries
      match dirp.error with
      | some errno =>
          throw (.KSystemError (str "Cannot read directory " ++ path ++ str ".") errno)
      | none => pure (sortNames v)

/-! ## The program -/

/-- The value of `deleteItems`, if there is something to delete. -/
def deleteItems (oldDumps : Int32) (size : Nat) : Option Int32 :=
  if oldDumps = -1 then
    some (Int32.ofNat size)
  else if oldDumps > Int32.ofNat size then
    none
  else
    some (Int32.ofNat size - oldDumps)

/-- `std::copy_n`: nothing is copied if the count is not positive. -/
def copyN (contents : List Str) (n : Int32) : Except Thrown (List Str) :=
  if n.toInt.toNat ≤ contents.length then
    .ok (contents.take n.toInt.toNat)
  else
    .error .undefined

/-- The loop of `delete_one` over `toDelete`. -/
def deleteAll (env : Env) (fds : Nat) (m_dryRun : Bool) (dir : Str) : List Str → FileProg Unit
  | [] => pure ()
  | item :: toDelete => do
      if m_dryRun then
        pure ()
      else
        rmdir env fds (appendPath dir item) true
      deleteAll env fds m_dryRun dir toDelete

/-- `DeleteDumps::delete_one`. -/
def delete_one (env : Env) (fds : Nat) (m_dryRun : Bool) (url : RootDirURL) (oldDumps : Int32) :
    FileProg Unit :=
  if url.m_protocol ≠ .PROT_FILE then
    pure ()
  else do
    let dir := url.getRealPath
    let found ← pathExists env dir
    if found then
      let contents ← listDir env (FilterKdumpDirs.test env) fds dir
      match deleteItems oldDumps contents.length with
      | none => pure ()
      | some n =>
          match copyN contents n with
          | .error e => throw e
          | .ok toDelete => deleteAll env fds m_dryRun dir toDelete
    else
      pure ()

end Files
end Kdump

import Kdump.Lib.Wp
import Kdump.Path.FilePath
import Kdump.Url.URLParser

/-!
# MountTransfer — `NFSTransfer` and `CIFSTransfer`

Both transfers mount the targets, translate every URL into one for a local file, and leave the
rest to a `FileTransfer`.

* `RootDirURL` — a URL with its real path;
* `Answers` — what the system does during one call of `translate`;
* `State` — the mount point that the object remembers, and the mounts there are;
* `NFSTransfer`, `CIFSTransfer` — the constructors and the destructors.

What is printed when the target is not reachable is left out.
-/

namespace Kdump
namespace Mount

open Lib Kdump.Path Kdump.Url

/-! ## URLs with a root directory -/

/-- `RootDirURL`. -/
structure RootDirURL extends URLParser where
  m_realpath : Str
  deriving DecidableEq

namespace RootDirURL

/-- `RootDirURL::RootDirURL`. -/
def new (sys : Sys) (url rootdir : Str) : Except Thrown RootDirURL :=
  match URLParser.new url with
  | .error e => .error e
  | .ok p =>
      if p.m_protocol = .PROT_FILE then
        match getCanonicalPath sys p.m_path rootdir with
        | .error e => .error e
        | .ok realpath => .ok { p with m_realpath := realpath }
      else
        .ok { p with m_realpath := [] }

def getRealPath (u : RootDirURL) : Str :=
  if u.m_realpath = [] then u.m_path else u.m_realpath

end RootDirURL

/-! ## Names of files and directories -/

/-- A path of slashes only.  Exactly two of them are kept by `dirname`. -/
def rootName (slashes : Str) : Str :=
  if slashes.length = 2 then [slash, slash] else [slash]

/-- `FilePath::dirName`, with the `dirname` of POSIX. -/
def dirName (path : Str) : Str :=
  let s := cStr path
  let t := rtrimSlash s
  if t = [] then
    if s = [] then [period] else rootName s
  else
    let d := t.rdropWhile (· != slash)
    if d = [] then [period]
    else if rtrimSlash d = [] then rootName d
    else rtrimSlash d

/-- `FilePath::baseName`, with the `basename` of POSIX. -/
def baseName (path : Str) : Str :=
  let s := cStr path
  let t := rtrimSlash s
  if t = [] then
    if s = [] then [period] else [slash]
  else
    t.rtakeWhile (· != slash)

/-! ## The system -/

def EEXIST : Errno := 17

/-- How a program was left by `ProcessFilter::execute`: its exit status and its messages. -/
abbrev Exit := Except Thrown (Int × Str)

/-- What the system does while one URL is translated. -/
structure Answers where
  /-- `Routable::check` -/
  check : Str → Except Thrown Bool
  /-- `mkdir(2)` -/
  mkdir : Str → Except Errno Unit
  /-- the programs `mount` and `umount` -/
  execute : (name : Str) → (args : List Str) → Exit
  /-- what `getCanonicalPath` finds -/
  sys : Sys

/-- The object, as far as the mounts are concerned. -/
structure State where
  m_mountpoint : Str
  /-- where something has been mounted and not unmounted again, the last one first -/
  mounts : List Str
  deriving DecidableEq

abbrev MountProg := EStateM Thrown State

/-- `KString::trim`. -/
def trim (s : Str) : Str :=
  (s.rdropWhile (str " \t\n").contains).dropWhile (str " \t\n").contains

/-! ## Directories -/

/-- The directories that `mkdir(true)` makes: the path up to each slash but the first byte, and the
path itself. -/
def mkdirPaths (directory : Str) : List Str :=
  ((List.range directory.length).filter fun i => 1 ≤ i && directory[i]? == some slash).map
    (directory.take ·) ++ [directory]

/-- What is no error for `mkdir(false)`. -/
def mkdirDone (answer : Except Errno Unit) : Prop :=
  answer = .ok () ∨ answer = .error EEXIST

instance (answer : Except Errno Unit) : Decidable (mkdirDone answer) :=
  match answer with
  | .ok () => .isTrue (Or.inl rfl)
  | .error errno =>
      if h : errno = EEXIST then .isTrue (Or.inr (h ▸ rfl))
      else .isFalse fun hdone => by
        rcases hdone with hok | hexist
        · cases hok
        · cases hexist
          exact h rfl

/-- `FilePath::mkdir(false)`. -/
def mkdirOne (mkdir : Str → Except Errno Unit) (path : Str) : MountProg Unit :=
  match mkdir (cStr path) with
  | .ok () => pure ()
  | .error errno =>
      if errno = EEXIST then pure ()
      else throw (.KSystemError (str "mkdir of " ++ path ++ str " failed.") errno)

/-- The loop of `mkdir(true)`. -/
def mkdirAll (mkdir : Str → Except Errno Unit) : List Str → MountProg Unit
  | [] => pure ()
  | path :: paths => do
      mkdirOne mkdir path
      mkdirAll mkdir paths

/-- `FilePath::mkdir(true)`.  The loop that takes trailing slashes away runs over the front of a
path that has nothing else. -/
def mkdirPath (mkdir : Str → Except Errno Unit) (path : Str) : MountProg Unit :=
  if rtrimSlash path = [] then throw .undefined
  else mkdirAll mkdir (mkdirPaths (rtrimSlash path))

/-! ## Mounting -/

/-- The arguments of `mount`. -/
def mountArgs (device mountpoint fs : Str) (options : List Str) : List Str :=
  options.flatMap (fun option => [str "-o", option]) ++ [str "-t", fs, device, mountpoint]

/-- `FileUtil::mount`. -/
def mount (a : Answers) (device mountpoint fs : Str) (options : List Str) : MountProg Unit := do
  let exit ← ofExcept (a.execute (str "mount") (mountArgs device mountpoint fs options))
  if exit.1 ≠ 0 then
    throw (.KError (str "mount failed: " ++ trim exit.2 ++ str "."))
  else
    modify fun s => { s with mounts := mountpoint :: s.mounts }

/-- `FileUtil::umount`. -/
def umount (a : Answers) (mountpoint : Str) : MountProg Unit := do
  let exit ← ofExcept (a.execute (str "umount") [mountpoint])
  if exit.1 ≠ 0 then
    throw (.KError (str "umount failed: " ++ trim exit.2))
  else
    modify fun s => { s with mounts := s.mounts.erase mountpoint }

/-- `close`, the same in both classes. -/
def close (a : Answers) : MountProg Unit := do
  let s ← get
  if s.m_mountpoint ≠ [] then
    umount a s.m_mountpoint
    modify fun s => { s with m_mountpoint := [] }

def DEFAULT_MOUNTPOINT : Str := str "/mnt"

/-! ## Translation -/

/-- `NFSTransfer::translate`. -/
def NFSTransfer.translate (a : Answers) (parser : URLParser) : MountProg RootDirURL := do
  let options := [str "nolock"]
  let _ ← ofExcept (a.check parser.m_hostname)
  let mountedDir := dirName parser.m_path
  let rest := baseName parser.m_path
  let mountpoint := appendPath (appendPath DEFAULT_MOUNTPOINT parser.m_hostname) mountedDir
  modify fun s => { s with m_mountpoint := mountpoint }
  mkdirPath a.mkdir mountpoint
  mount a (parser.m_hostname ++ str ":" ++ mountedDir) mountpoint (str "nfs") options
  ofExcept (RootDirURL.new a.sys (str "file://" ++ mountpoint ++ str "/" ++ rest) [])

/-- The options of a CIFS mount. -/
def cifsOptions (parser : URLParser) : List Str :=
  (if 0 < parser.m_username.length then
    (str "user=" ++ parser.m_username) ::
      (if 0 < parser.m_password.length then [str "password=" ++ parser.m_password] else [])
  else []) ++
  (if parser.m_port ≠ -1 then [str "port=" ++ Config.number2string parser.m_port] else [])

/-- `s.find(part)`: where `part` occurs first. -/
def findSubstr (part : Str) : Str → Option Nat
  | [] => if part = [] then some 0 else none
  | c :: s => if part <+: c :: s then some 0 else (findSubstr part s).map (· + 1)

/-- `CIFSTransfer::translate`. -/
def CIFSTransfer.translate (a : Answers) (parser : URLParser) : MountProg RootDirURL := do
  let _ ← ofExcept (a.check parser.m_hostname)
  let share := parser.m_path.dropWhile (· == slash)
  if slash ∉ share then
    throw (.KError (str "Path (" ++ parser.m_path ++ str ") must contain a \"/\"."))
  else
    let share := share.takeWhile (· != slash)
    mount a (str "//" ++ parser.m_hostname ++ str "/" ++ share) DEFAULT_MOUNTPOINT (str "cifs")
      (cifsOptions parser)
    modify fun s => { s with m_mountpoint := DEFAULT_MOUNTPOINT }
    match findSubstr share parser.m_path with
    | none => do
        close a
        throw (.KError (str "Internal error in CIFSTransfer::CIFSTransfer."))
    | some shareBegin =>
        let rest := parser.m_path.drop (shareBegin + share.length)
        ofExcept (RootDirURL.new a.sys (str "file://" ++ appendPath DEFAULT_MOUNTPOINT rest) [])

/-! ## The transfer for the translated URLs -/

/-- What the system does while the `FileTransfer` is made: `mkdir(2)` and the `st_blksize` of
`stat(2)`. -/
structure FileAnswers where
  mkdir : Str → Except Errno Unit
  blksize : Str → Option Nat

/-- What `FileTransfer::FileTransfer` sets up. -/
structure FileObject where
  m_urlVector : List RootDirURL
  m_bufferSize : Nat
  deriving DecidableEq

/-- The directories of the URLs. -/
def makeDirectories (f : FileAnswers) : List RootDirURL → MountProg Unit
  | [] => pure ()
  | url :: urlv => do
      mkdirPath f.mkdir url.getRealPath
      makeDirectories f urlv

/-- The block size of the buffer: the largest one of the directories. -/
def bufferSize (f : FileAnswers) (urlv : List RootDirURL) : Nat :=
  let size := urlv.foldl (fun size url => max size ((f.blksize url.getRealPath).getD 0)) 0
  if size = 0 then BUFSIZ else size

/-- `FileTransfer::FileTransfer`. -/
def makeFileTransfer (f : FileAnswers) (urlv : List RootDirURL) : MountProg FileObject :=
  if urlv.any (·.m_protocol != .PROT_FILE) then
    throw (.KError (str "Only file URLs are allowed for split."))
  else do
    makeDirectories f urlv
    pure ⟨urlv, bufferSize f urlv⟩

/-! ## Construction and destruction -/

/-- A URL that is to be translated, with what the system does meanwhile. -/
abbrev Attempt := URLParser × Answers

/-- The loop of the constructors. -/
def translateAll (translate : Answers → URLParser → MountProg RootDirURL) :
    List Attempt → MountProg (List RootDirURL)
  | [] => pure []
  | attempt :: attempts => do
      let url ← translate attempt.2 attempt.1
      let urls ← translateAll translate attempts
      pure (url :: urls)

/-- `NFSTransfer::NFSTransfer` and `CIFSTransfer::CIFSTransfer`. -/
def construct (translate : Answers → URLParser → MountProg RootDirURL) (attempts : List Attempt)
    (f : FileAnswers) : MountProg FileObject := do
  let file_urlv ← translateAll translate attempts
  makeFileTransfer f file_urlv

/-- The destructors: an exception of `close` is caught. -/
def destroy (a : Answers) : MountProg Unit :=
  tryCatch (close a) fun _ => pure ()

/-- The object before its constructor runs. -/
def State.initial : State :=
  ⟨[], []⟩

/-- What is still mounted in the end.  If the constructor throws there is no object, and the
destructor does not run. -/
def mountsLeft (translate : Answers → URLParser → MountProg RootDirURL) (attempts : List Attempt)
    (f : FileAnswers) (a : Answers) : List Str :=
  match construct translate attempts f .initial with
  | .error _ s => s.mounts
  | .ok _ s => (endState (destroy a s)).mounts

end Mount
end Kdump

import Kdump.Config.Needs
import Kdump.Dump.SaveDump
import Kdump.Lib.Wp
import Kdump.Mount.MountTransfer

/-!
# Notification — the run of `save_dump`, and the mails that it sends

`execute` is a chain of `try` blocks.  What the steps in them do to the object and to the world, and
what they throw, is arbitrary.

* `Steps` — the steps;
* `Run` — the state of a run, with a trace of what matters for the mails;
* `sendNotification` and `execute`.
-/

namespace Kdump
namespace Dump

open Lib Config Kdump.Path Kdump.Mount

/-! ## Mails -/

/-- The members of `Email`. -/
structure Email where
  m_from : Str
  m_hostname : Str
  m_to : Str
  m_cc : List Str
  m_subject : Str
  m_body : Str
  deriving DecidableEq

/-- `Email::setHostname`: only the host, not the domain. -/
def shortHostname (hostname : Str) : Str :=
  hostname.takeWhile (· ≠ period)

/-- What happens in a run, as far as the mails are concerned. -/
inductive Event where
  /-- `saveDump` has returned -/
  | saved
  /-- `email.send()` has returned -/
  | sent (failure : Bool) (email : Email)
  deriving DecidableEq

def Event.isSent : Event → Bool
  | .saved => false
  | .sent _ _ => true

/-! ## Steps -/

variable {W : Type} {fadump : Bool}

/-- A step works on the object and on the world. -/
abbrev StepProg (W α : Type) := EStateM Thrown (SaveDump × W) α

/-- The functions that a run calls. -/
structure Steps (W : Type) where
  sys : Sys
  order : ByteOrder
  segment : Except Thrown (Str × Bool)
  time : Int64
  /-- `StringUtil::formatUnixTime(ISO_DATETIME, …)` -/
  formatUnixTime : UInt64 → Str
  /-- `m_dump.exists()` -/
  dumpExists : StepProg W Bool
  /-- `Routable::check`, and `Routable::prefsrc` behind it -/
  check : (hostname : Str) → (timeout : Int32) → StepProg W (Bool × Str)
  getTransfer : List RootDirURL → StepProg W Unit
  saveDump : List RootDirURL → StepProg W Unit
  checkAndDelete : List RootDirURL → StepProg W Unit
  copyMakedumpfile : StepProg W Unit
  getKernelReleaseCommandline : StepProg W Str
  generateInfo : StepProg W Unit
  copyKernel : StepProg W Unit
  /-- `Util::getHostDomain` -/
  getHostDomain : StepProg W Str
  /-- `Email::send` -/
  send : Email → StepProg W Unit

/-- The state of a run: the object, the world, and what has happened. -/
structure Run (W : Type) where
  obj : SaveDump
  world : W
  trace : List Event

abbrev Exec (W α : Type) := EStateM Thrown (Run W) α

/-- A step does not show in the trace. -/
def call {α : Type} (p : StepProg W α) : Exec W α := fun r =>
  match p (r.obj, r.world) with
  | .ok a s => .ok a ⟨s.1, s.2, r.trace⟩
  | .error e s => .error e ⟨s.1, s.2, r.trace⟩

/-- A program of the object alone. -/
def onObject {α : Type} (p : SaveProg α) : Exec W α := fun r =>
  match p r.obj with
  | .ok a obj => .ok a { r with obj := obj }
  | .error e obj => .error e { r with obj := obj }

def record (event : Event) : Exec W Unit :=
  modify fun r => { r with trace := r.trace ++ [event] }

def modifyObject (f : SaveDump → SaveDump) : Exec W Unit :=
  modify fun r => { r with obj := f r.obj }

/-- `Subcommand::setErrorCode`. -/
def setErrorCode (errorCode : Int32) : Exec W Unit :=
  modifyObject fun s => { s with m_errorCode := errorCode }

/-! ## Notifications -/

/-- The mail of `sendNotification`. -/
def notification (c : Configuration fadump) (m_hostname : Str) (failure : Bool)
    (urlv : List RootDirURL) : Email where
  m_from := str "root@" ++ m_hostname
  m_hostname := shortHostname m_hostname
  m_to := c.stringValue "KDUMP_NOTIFICATION_TO"
  m_cc := Configuration.elements (c.stringValue "KDUMP_NOTIFICATION_CC")
  m_subject := str "kdump: " ++ m_hostname ++ str " crashed"
  m_body := str "\r\n" ++ str "Your machine " ++ m_hostname ++ str " crashed.\n" ++
    if failure then str "Copying dump failed.\n"
    else str "Dump has been copied to\n" ++ urlv.flatMap fun url => url.m_url ++ [newline]

/-- The host name is asked for if it was not given. -/
def fillHostname (t : Steps W) : Exec W Unit := do
  let r ← get
  if r.obj.m_hostname = [] then do
    let hostname ← call t.getHostDomain
    modifyObject fun s => { s with m_hostname := hostname }
  else
    pure ()

/-- The `try` block of `sendNotification`. -/
def mail (c : Configuration fadump) (t : Steps W) (failure : Bool) (urlv : List RootDirURL) :
    Exec W Unit := do
  fillHostname t
  let r ← get
  let email := notification c r.obj.m_hostname failure urlv
  call (t.send email)
  record (.sent failure email)

/-- `SaveDump::sendNotification`. -/
def sendNotification (c : Configuration fadump) (HAVE_LIBESMTP : Bool) (t : Steps W)
    (failure : Bool) (urlv : List RootDirURL) : Exec W Unit := do
  if HAVE_LIBESMTP then do
    let r ← get
    let SmtpServer := c.stringValue "KDUMP_SMTP_SERVER"
    let NotificationTo := c.stringValue "KDUMP_NOTIFICATION_TO"
    if r.obj.m_nomail then
      pure ()
    else if SmtpServer = [] ∧ NotificationTo = [] then
      pure ()
    else
      tryKError
        (if SmtpServer = [] then
          throw (.KError (str "KDUMP_SMTP_SERVER not set."))
        else if NotificationTo = [] then
          throw (.KError (str "No recipients specified in KDUMP_NOTIFICATION_TO."))
        else
          mail c t failure urlv)
        fun _ => pure ()
  else
    pure ()

/-! ## The run -/

/-- The directory that is made at a target. -/
def subdirectory (c : Configuration fadump) (t : Steps W) (subdir : Str) (url : RootDirURL) :
    Exec W Str :=
  if url.m_protocol ≠ .PROT_FILE then do
    let (reachable, prefsrc) ← call (t.check url.m_hostname (c.intValue "KDUMP_NET_TIMEOUT"))
    if !reachable then pure (str "unknown-" ++ subdir) else pure (prefsrc ++ 45 :: subdir)
  else
    pure subdir

/-- The body of the loop over the targets. -/
def target (c : Configuration fadump) (t : Steps W) (subdir elem : Str) : Exec W RootDirURL := do
  let r ← get
  let url ← ofExcept (RootDirURL.new t.sys elem r.obj.m_rootdir)
  let dir ← subdirectory c t subdir url
  let r ← get
  ofExcept (RootDirURL.new t.sys (appendPath elem dir) r.obj.m_rootdir)

/-- `execute` as far as `getTransfer`. -/
def prepare (c : Configuration fadump) (t : Steps W) : Exec W (List RootDirURL) := do
  let dumpExists ← call t.dumpExists
  let r ← get
  if !dumpExists then
    throw (.KError (str "The dump file " ++ r.obj.m_dump ++ str " does not exist."))
  else do
    onObject (readVmcoreinfo t.order t.segment t.time)
    let r ← get
    let subdir := t.formatUnixTime r.obj.m_crashtime
    let urlv ← (Configuration.elements (c.stringValue "KDUMP_SAVEDIR")).mapM (target c t subdir)
    call (t.getTransfer urlv)
    pure urlv

/-- The end of the handlers: the message is printed, or the exception goes on. -/
def orContinue (c : Configuration fadump) (error : Thrown) : Exec W Unit :=
  if c.boolValue "KDUMP_CONTINUE_ON_ERROR" then pure () else throw error

/-- The handler for `saveDump`, before it decides whether to go on. -/
def reportFailure (c : Configuration fadump) (HAVE_LIBESMTP : Bool) (t : Steps W)
    (urlv : List RootDirURL) : Exec W Unit := do
  setErrorCode 1
  sendNotification c HAVE_LIBESMTP t true urlv
  tryKError (call (t.checkAndDelete urlv)) fun _ => pure ()

/-- A step whose failure ends the run only if the configuration says so. -/
def tryStep (c : Configuration fadump) (body : Exec W Unit) : Exec W Unit :=
  tryKError body fun error => do
    setErrorCode 1
    orContinue c error

/-- `execute` behind the notification. -/
def finish (c : Configuration fadump) (t : Steps W) (urlv : List RootDirURL) : Exec W Unit := do
  tryStep c (call (t.checkAndDelete urlv))
  tryStep c (do
    let r ← get
    if !r.obj.m_usedDirectSave && r.obj.m_useMakedumpfile then call t.copyMakedumpfile
    else pure ())
  tryKError (do
    let r ← get
    if r.obj.m_crashrelease = [] then do
      let release ← call t.getKernelReleaseCommandline
      modifyObject fun s => { s with m_crashrelease := release }
    else pure ()) fun _ => pure ()
  tryStep c (call t.generateInfo)
  let r ← get
  if r.obj.m_crashrelease ≠ [] then
    tryStep c (if c.boolValue "KDUMP_COPY_KERNEL" then call t.copyKernel else pure ())
  else
    pure ()

/-- The `try` block of `saveDump`. -/
def save (c : Configuration fadump) (HAVE_LIBESMTP : Bool) (t : Steps W)
    (urlv : List RootDirURL) : Exec W Unit :=
  tryKError
    (do
      call (t.saveDump urlv)
      record .saved)
    fun error => do
      reportFailure c HAVE_LIBESMTP t urlv
      orContinue c error

/-- `SaveDump::execute`. -/
def execute (c : Configuration fadump) (HAVE_LIBESMTP : Bool) (t : Steps W) : Exec W Unit := do
  let urlv ← prepare c t
  save c HAVE_LIBESMTP t urlv
  sendNotification c HAVE_LIBESMTP t false urlv
  finish c t urlv

end Dump
end Kdump

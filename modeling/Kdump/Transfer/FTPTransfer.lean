import Kdump.Path.FilePath
import Kdump.Transfer.DataProvider

/-!
# FTPTransfer — saving through libcurl

`curl_easy_perform` calls the provider back for data.  What it asks for, and how it ends, may depend
on all the data it has got; an exception of the provider goes through it.
-/

namespace Kdump
namespace Transfer

open Lib Kdump.Path

/-- A `CURLcode`; zero is `CURLE_OK`. -/
abbrev CURLcode := Nat

/-- What `curl_easy_perform` does: it is done, or it reads and goes on with what it gets. -/
inductive Engine where
  | done (err : CURLcode)
  | read (size : Nat) (more : ByteVector → Engine)

/-- The object, with its environment. -/
structure FTPTransfer where
  /-- the first target URL -/
  url : Str
  m_curlError : Str
  /-- whether the target is reachable, which only leads to a warning -/
  routable : Except Thrown Bool
  setURL : Str → CURLcode
  setReadData : CURLcode
  engine : Engine

/-- The state of `perform`; `error` is what `setError` has stored in the provider. -/
structure FTPState where
  error : Bool
  calls : List Call

instance : Observed FTPState where
  record call s := { s with calls := s.calls ++ [call] }

abbrev FTPProg := EStateM Thrown FTPState

/-- `curl_easy_perform`, with `curl_readfunction` for the data that the provider has left. -/
def easyPerform : Engine → List (Except Thrown ByteVector) → FTPProg CURLcode
  | .done err, _ => pure err
  | .read size more, [] => do
      let chunk ← callGetData size (.ok [])
      easyPerform (more chunk) []
  | .read size more, answer :: data => do
      let chunk ← callGetData size answer
      easyPerform (more chunk) data

/-- How the engine ends on this data. -/
def Engine.result : Engine → List (Except Thrown ByteVector) → Except Thrown CURLcode
  | .done err, _ => .ok err
  | .read _ more, [] => (more []).result []
  | .read _ _, .error e :: _ => .error e
  | .read _ more, .ok chunk :: data => (more chunk).result data

namespace FTPTransfer

variable (self : FTPTransfer)

/-- A call of `curl_easy_setopt` or `curl_easy_perform` that must not fail. -/
def orThrow (err : CURLcode) : FTPProg Unit :=
  if err ≠ 0 then
    throw (.KError (str "CURL error: " ++ self.m_curlError))
  else
    pure ()

def «open» (target_file : Str) : FTPProg Unit := do
  let _ ← ofExcept self.routable
  self.orThrow (self.setURL (appendPath self.url target_file))
  self.orThrow self.setReadData

/-- What stands inside the `try`. -/
def performBody (provider : DataProvider) : FTPProg Unit := do
  provider.callPrepare
  let err ← easyPerform self.engine provider.data
  self.orThrow err
  provider.callFinish

/-- The handler finishes the provider, whatever has thrown. -/
def performHandler (provider : DataProvider) (e : Thrown) : FTPProg Unit := do
  modify fun s => { s with error := true }
  provider.callFinish
  throw e

/-- `FTPTransfer::perform`; the result is what it stores in `*directSave`. -/
def perform (provider : DataProvider) (target_files : List Str) : FTPProg Bool := do
  self.open (target_files.headD [])
  tryCatch (self.performBody provider) (performHandler provider)
  pure false

end FTPTransfer

end Transfer
end Kdump

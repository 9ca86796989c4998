import Kdump.Config.Configuration
import Kdump.Lib.Scan
import Kdump.Path.FilePath
import Kdump.Url.PercentEncoding

/-!
# URLParser — the target URLs

`URLParser::URLParser` cuts a URL into scheme, authority and path, looks for the port, the user
and the password in the authority, undoes percent encoding in each part, and checks the result.

* `extractScheme`, `extractAuthority` — the two scans from the left;
* `parseAuthority` — port, host, user and password;
* `URLParser.ofParts` — decoding, defaults and checks;
* `URLParser.new` — the constructor.

Queries and fragments are not handled by the source.  Character classes are those of the C locale.
-/

namespace Kdump
namespace Url

open Config Lib

abbrev colon : UInt8 := 58
abbrev atSign : UInt8 := 64
abbrev question : UInt8 := 63
abbrev hash : UInt8 := 35

/-! ## Protocols -/

/-- `URLParser::Protocol`. -/
inductive Protocol where
  | PROT_FILE
  | PROT_FTP
  | PROT_SFTP
  | PROT_SSH
  | PROT_NFS
  | PROT_CIFS
  deriving DecidableEq, Repr

/-- The names that `string2protocol` compares with, in its order. -/
def protocolNames : List (Str × Protocol) :=
  [ (str "file", .PROT_FILE),
    (str "ftp", .PROT_FTP),
    (str "scp", .PROT_SFTP),
    (str "sftp", .PROT_SFTP),
    (str "scp", .PROT_SFTP),
    (str "ssh", .PROT_SSH),
    (str "nfs", .PROT_NFS),
    (str "cifs", .PROT_CIFS),
    (str "smb", .PROT_CIFS) ]

/-- `URLParser::string2protocol`.  `strcasecmp` sees a C string. -/
def string2protocol (protocol : Str) : Except Thrown Protocol :=
  if protocol = [] then
    .error (.KError (str "Empty protocols are not allowed."))
  else
    match protocolNames.lookup ((cStr protocol).map ConfigOption.tolower) with
    | some p => .ok p
    | none => .error (.KError (str "Protocol " ++ protocol ++ str " is invalid."))

/-! ## Scheme, authority and path -/

def isalpha (c : UInt8) : Bool :=
  (65 ≤ c && c ≤ 90) || (97 ≤ c && c ≤ 122)

/-- What ends an authority. -/
def endsAuthority (c : UInt8) : Bool :=
  c == slash || c == question || c == hash

/-- What ends the scan for the scheme. -/
def endsScheme (c : UInt8) : Bool :=
  c == colon || endsAuthority c

/-- `URLParser::extractScheme`: the scheme, and the text from the new position of `it` on.  Without
a scheme the position does not change. -/
def extractScheme (url : Str) : Str × Str :=
  if (url.take 1).any isalpha then
    let head := url.take 1 ++ (url.drop 1).takeWhile (!endsScheme ·)
    let rest := (url.drop 1).dropWhile (!endsScheme ·)
    if rest.head? = some colon then (head, rest.drop 1) else ([], url)
  else
    ([], url)

/-- `URLParser::extractAuthority`. -/
def extractAuthority (text : Str) : Str × Str :=
  if text.take 2 = [slash, slash] then
    ((text.drop 2).takeWhile (!endsAuthority ·), (text.drop 2).dropWhile (!endsAuthority ·))
  else
    ([], text)

/-! ## Parts of the authority -/

/-- The parts of an authority, before decoding. -/
structure Authority where
  hostname : Str
  username : Str
  password : Str
  port : Int32
  deriving DecidableEq

/-- The look for a port, backwards from the end: the text in front of it, and the number. -/
def extractPort (authority : Str) : Str × Int32 :=
  let digits := authority.rtakeWhile isDigit
  let front := authority.rdropWhile isDigit
  if front.getLast? = some colon then
    (front.dropLast, if digits = [] then -1 else extractInt digits 0)
  else
    (authority, -1)

/-- The look for user information: the last `@`, then the first colon in front of it. -/
def extractUserInfo (authority : Str) (port : Int32) : Authority :=
  if atSign ∈ authority then
    let userinfo := (authority.rdropWhile (· != atSign)).dropLast
    { hostname := authority.rtakeWhile (· != atSign)
      username := userinfo.takeWhile (· != colon)
      password := (userinfo.dropWhile (· != colon)).drop 1
      port := port }
  else
    ⟨authority, [], [], port⟩

def parseAuthority (authority : Str) : Authority :=
  extractUserInfo (extractPort authority).1 (extractPort authority).2

/-! ## The constructor -/

def FTP_DEFAULT_USER : Str := str "anonymous"
def SFTP_DEFAULT_USER : Str := str "root"

/-- The user of a URL that does not name one. -/
def defaultUser : Protocol → Str
  | .PROT_FTP => FTP_DEFAULT_USER
  | .PROT_SFTP => SFTP_DEFAULT_USER
  | .PROT_SSH => SFTP_DEFAULT_USER
  | _ => []

/-- The protocol; without a scheme it is guessed from the host. -/
def guessProtocol (scheme hostname : Str) : Except Thrown Protocol :=
  if scheme = [] then
    if hostname = [] ∨ hostname = str "localhost" then .ok .PROT_FILE else .ok .PROT_NFS
  else
    string2protocol scheme

/-- The members of the object. -/
structure URLParser where
  m_url : Str
  m_protocol : Protocol
  m_hostname : Str
  m_port : Int32
  m_username : Str
  m_password : Str
  m_path : Str
  deriving DecidableEq

namespace URLParser

/-- What the constructor does once the port, the host and the user have been found. -/
def ofParts (url scheme : Str) (a : Authority) (path : Str) : Except Thrown URLParser :=
  match guessProtocol scheme (decodeURL a.hostname) with
  | .error e => .error e
  | .ok protocol =>
      let hostname := decodeURL a.hostname
      let hostname := if protocol = .PROT_FILE ∧ hostname = str "localhost" then [] else hostname
      let username := decodeURL a.username
      let username := if username = [] then defaultUser protocol else username
      if protocol = .PROT_FILE ∧ hostname ≠ [] then
        .error (.KError (str "File protocol cannot specify a remote host"))
      else
        .ok { m_url := url
              m_protocol := protocol
              m_hostname := hostname
              m_port := a.port
              m_username := username
              m_password := decodeURL a.password
              m_path := decodeURL path }

/-- `URLParser::URLParser`. -/
def new (url : Str) : Except Thrown URLParser :=
  let scheme := extractScheme url
  let authority := extractAuthority scheme.2
  if authority.2.head? ≠ some slash then
    .error (.KError (str "URLParser: Only absolute paths are supported."))
  else
    ofParts url scheme.1 (parseAuthority authority.1) authority.2

end URLParser

/-! ## What the scans find -/

/-- A scheme as the scan accepts it. -/
def IsScheme (scheme : Str) : Prop :=
  ∃ c cs, scheme = c :: cs ∧ isalpha c = true ∧ ∀ d ∈ cs, endsScheme d = false

theorem extractScheme_append {scheme : Str} (h : IsScheme scheme) (rest : Str) :
    extractScheme (scheme ++ colon :: rest) = (scheme, rest) := by
  rcases h with ⟨c, cs, rfl, halpha, hcs⟩
  have hall : ∀ d ∈ cs, (!endsScheme d) = true := fun d hd => by simp [hcs d hd]
  have hstop : Stops (!endsScheme ·) (colon :: rest) := by simp [endsScheme]
  simp only [extractScheme, List.cons_append, List.take_succ_cons, List.take_zero, List.any_cons,
    List.any_nil, halpha, Bool.or_false, if_true, List.drop_succ_cons, List.drop_zero,
    takeWhile_scan hall hstop, dropWhile_scan hall hstop, List.head?_cons]
  rfl

/-- A URL that starts with a slash has no scheme. -/
theorem extractScheme_slash (rest : Str) : extractScheme (slash :: rest) = ([], slash :: rest) := by
  have hslash : isalpha slash = false := by decide
  simp [extractScheme, hslash]

theorem extractScheme_cases (url : Str) :
    extractScheme url = ([], url) ∨
      ∃ scheme rest, IsScheme scheme ∧ url = scheme ++ colon :: rest := by
  cases url with
  | nil => exact Or.inl rfl
  | cons c cs =>
      cases halpha : isalpha c with
      | false => exact Or.inl (by simp [extractScheme, halpha])
      | true =>
          cases hrest : cs.dropWhile (!endsScheme ·) with
          | nil => exact Or.inl (by simp [extractScheme, halpha, hrest])
          | cons d rest =>
              by_cases hd : d = colon
              · subst hd
                refine Or.inr ⟨c :: cs.takeWhile (!endsScheme ·), rest, ⟨c, _, rfl, halpha, ?_⟩, ?_⟩
                · intro e he
                  simpa using List.mem_takeWhile_imp he
                · rw [List.cons_append, ← hrest, List.takeWhile_append_dropWhile]
              · exact Or.inl (by simp [extractScheme, halpha, hrest, hd])

/-- An authority as the scan accepts it. -/
def IsAuthority (authority : Str) : Prop :=
  ∀ c ∈ authority, endsAuthority c = false

theorem extractAuthority_append {authority : Str} (h : IsAuthority authority) {path : Str}
    (hpath : path.head? = some slash) :
    extractAuthority (slash :: slash :: (authority ++ path)) = (authority, path) := by
  rcases List.head?_eq_some_iff.1 hpath with ⟨tail, rfl⟩
  have hall : ∀ c ∈ authority, (!endsAuthority c) = true := fun c hc => by simp [h c hc]
  have hstop : Stops (!endsAuthority ·) (slash :: tail) := by simp [endsAuthority]
  simp only [extractAuthority, List.take_succ_cons, List.take_zero, if_true, List.drop_succ_cons,
    List.drop_zero, takeWhile_scan hall hstop, dropWhile_scan hall hstop]

/-- Without two slashes in front there is no authority. -/
theorem extractAuthority_none {text : Str} (h : text.take 2 ≠ [slash, slash]) :
    extractAuthority text = ([], text) := by
  rw [extractAuthority, if_neg h]

theorem extractAuthority_cases (text : Str) :
    (text.take 2 ≠ [slash, slash] ∧ extractAuthority text = ([], text)) ∨
      ∃ authority path, IsAuthority authority ∧
        text = slash :: slash :: (authority ++ path) ∧
        extractAuthority text = (authority, path) := by
  by_cases h : text.take 2 = [slash, slash]
  · refine Or.inr ⟨(text.drop 2).takeWhile (!endsAuthority ·),
      (text.drop 2).dropWhile (!endsAuthority ·), ?_, ?_, ?_⟩
    · intro c hc
      simpa using List.mem_takeWhile_imp hc
    · have hsplit := List.take_append_drop 2 text
      rw [h] at hsplit
      rw [List.takeWhile_append_dropWhile]
      exact hsplit.symm
    · rw [extractAuthority, if_pos h]
  · exact Or.inl ⟨h, extractAuthority_none h⟩

/-! ## What is found in an authority -/

theorem extractPort_append {front digits : Str} (hdigits : ∀ c ∈ digits, isDigit c = true) :
    extractPort (front ++ colon :: digits) =
      (front, if digits = [] then -1 else extractInt digits 0) := by
  have hstop : StopsBack isDigit (front ++ [colon]) := by
    rw [stopsBack_concat]
    decide
  have hsplit : front ++ colon :: digits = (front ++ [colon]) ++ digits := by simp
  rw [hsplit, extractPort]
  simp only [rtakeWhile_scan hdigits hstop, rdropWhile_scan hdigits hstop, List.getLast?_concat,
    if_true, List.dropLast_concat]

/-- A colon is a port's only if nothing but digits follows. -/
theorem extractPort_none {authority : Str}
    (h : ∀ front digits, authority = front ++ colon :: digits →
      ∃ c ∈ digits, isDigit c = false) : extractPort authority = (authority, -1) := by
  have hlast : (authority.rdropWhile isDigit).getLast? ≠ some colon := by
    intro hlast
    rcases List.getLast?_eq_some_iff.1 hlast with ⟨front, hfront⟩
    have hsplit : authority = front ++ colon :: authority.rtakeWhile isDigit := by
      conv_lhs => rw [← List.rdropWhile_append_rtakeWhile (p := isDigit) (l := authority)]
      rw [hfront]
      simp
    rcases h front _ hsplit with ⟨c, hc, hno⟩
    rw [List.mem_rtakeWhile_imp hc] at hno
    cases hno
  rw [extractPort]
  simp only [if_neg hlast]

/-- The host lies behind the last `@`, the password behind the first colon. -/
theorem extractUserInfo_append {userinfo hostname : Str} (hhost : atSign ∉ hostname)
    (port : Int32) :
    extractUserInfo (userinfo ++ atSign :: hostname) port =
      { hostname := hostname
        username := userinfo.takeWhile (· != colon)
        password := (userinfo.dropWhile (· != colon)).drop 1
        port := port } := by
  have hall : ∀ c ∈ hostname, (c != atSign) = true := by
    intro c hc
    have hne : c ≠ atSign := fun heq => hhost (heq ▸ hc)
    simpa using hne
  have hstop : StopsBack (· != atSign) (userinfo ++ [atSign]) := by simp
  have hsplit : userinfo ++ atSign :: hostname = (userinfo ++ [atSign]) ++ hostname := by simp
  have hmem : atSign ∈ (userinfo ++ [atSign]) ++ hostname := by simp
  rw [hsplit, extractUserInfo, if_pos hmem, rtakeWhile_scan hall hstop, rdropWhile_scan hall hstop,
    List.dropLast_concat]

theorem extractUserInfo_none {hostname : Str} (hhost : atSign ∉ hostname) (port : Int32) :
    extractUserInfo hostname port = ⟨hostname, [], [], port⟩ := by
  rw [extractUserInfo, if_neg hhost]

/-! ## Accepted URLs -/

namespace URLParser

/-- What a URL is accepted with. -/
theorem new_ok {url : Str} {p : URLParser} (h : new url = .ok p) :
    (extractAuthority (extractScheme url).2).2.head? = some slash ∧
      ofParts url (extractScheme url).1
        (parseAuthority (extractAuthority (extractScheme url).2).1)
        (extractAuthority (extractScheme url).2).2 = .ok p := by
  unfold new at h
  dsimp only at h
  split at h
  · cases h
  · rename_i hpath
    exact ⟨not_not.1 hpath, h⟩

/-- Only the members for the URL itself and the path depend on these two texts. -/
theorem ofParts_congr {url scheme path : Str} {a : Authority} {p : URLParser}
    (h : ofParts url scheme a path = .ok p) (url' path' : Str) :
    p.m_path = decodeURL path ∧
      ofParts url' scheme a path' =
        .ok { p with m_url := url', m_path := decodeURL path' } := by
  unfold ofParts at h ⊢
  split at h
  · cases h
  · rename_i protocol _
    dsimp only at h ⊢
    generalize (if protocol = .PROT_FILE ∧ decodeURL a.hostname = str "localhost" then []
      else decodeURL a.hostname) = hostname at h ⊢
    split at h
    · cases h
    · rename_i hremote
      rw [if_neg hremote]
      cases h
      exact ⟨rfl, rfl⟩

/-- The path of an accepted URL is absolute. -/
theorem new_m_path {url : Str} {p : URLParser} (h : new url = .ok p) :
    p.m_path.head? = some slash := by
  rcases new_ok h with ⟨hpath, hparts⟩
  rcases List.head?_eq_some_iff.1 hpath with ⟨tail, htail⟩
  rw [(ofParts_congr hparts url []).1, htail, decodeURL_cons (by decide)]
  rfl

/-- A text for a local file without a host is decoded as a whole. -/
theorem new_file {path : Str} (hpath : path.head? = some slash) :
    new (str "file://" ++ path) = .ok
      { m_url := str "file://" ++ path
        m_protocol := .PROT_FILE
        m_hostname := []
        m_port := -1
        m_username := []
        m_password := []
        m_path := decodeURL path } := by
  have hletters : ([105, 108, 101] : Str).all (!endsScheme ·) = true := by decide
  have hfile : IsScheme (str "file") :=
    ⟨102, [105, 108, 101], by decide, by decide, by simpa using hletters⟩
  have hsplit : str "file://" ++ path = str "file" ++ colon :: slash :: slash :: ([] ++ path) := by
    have hlit : str "file://" = str "file" ++ [colon, slash, slash] := by decide
    simp [hlit]
  have hauthority : extractAuthority (slash :: slash :: ([] ++ path)) = ([], path) :=
    extractAuthority_append (by simp [IsAuthority]) hpath
  have hparts : parseAuthority [] = ⟨[], [], [], -1⟩ := rfl
  rw [new, hsplit, extractScheme_append hfile]
  dsimp only
  rw [hauthority, if_neg (not_not.2 hpath), hparts]
  rfl

end URLParser

end Url
end Kdump

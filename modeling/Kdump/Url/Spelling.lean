import Kdump.Config.RoundTrip
import Kdump.Url.URLParser

/-!
# Spelling — from the parts of a URL to its text and back

A `Location` says what a URL is to name: a protocol, a host, maybe a user with a password, maybe a
port, and an absolute path.  A `Spelling` gives the text of each part, with percent encoding.  The
parser reads every spelling of a location back as that location.
-/

namespace Kdump
namespace Url

open Config Lib

/-! ## Locations and their spellings -/

/-- `[A-Za-z0-9._-]`. -/
def unreserved (c : UInt8) : Bool :=
  isalpha c || isDigit c || c == 46 || c == 95 || c == 45

/-- In a path a slash stands for itself as well. -/
def pathByte (c : UInt8) : Bool :=
  unreserved c || c == slash

/-- What a URL names. -/
structure Location where
  scheme : Str
  protocol : Protocol
  known : (scheme.map ConfigOption.tolower, protocol) ∈ protocolNames
  host : Str
  host_iff : host = [] ↔ protocol = .PROT_FILE
  user : Option Str
  user_ne : user ≠ some []
  password : Option Str
  password_user : password ≠ none → user ≠ none
  port : Option UInt16
  path : Str
  absolute : path.head? = some slash

/-- The texts that stand for the parts of a location. -/
structure Location.Spelling (l : Location) where
  host : Str
  host_spells : PercentEncoded unreserved l.host host
  user : Option Str
  user_spells : Option.Rel (PercentEncoded unreserved) l.user user
  password : Option Str
  password_spells : Option.Rel (PercentEncoded unreserved) l.password password
  path : Str
  path_spells : PercentEncoded pathByte l.path path
  path_slash : path.head? = some slash

/-- `[user[:password]@]`. -/
def userinfoText : (user password : Option Str) → Str
  | none, _ => []
  | some user, none => user ++ [atSign]
  | some user, some password => (user ++ colon :: password) ++ [atSign]

/-- `[:port]`. -/
def portText : Option UInt16 → Str
  | none => []
  | some port => colon :: decimal port.toNat

/-- `getPort()` for a location. -/
def portNumber : Option UInt16 → Int32
  | none => -1
  | some port => Int32.ofInt port.toNat

namespace Location.Spelling

variable {l : Location}

def authority (s : l.Spelling) : Str :=
  userinfoText s.user s.password ++ s.host ++ portText l.port

/-- `scheme://[user[:password]@]host[:port]path`. -/
def text (s : l.Spelling) : Str :=
  l.scheme ++ str "://" ++ s.authority ++ s.path

end Location.Spelling

/-- Every location has a spelling: the one that encodes as little as possible. -/
def Location.spell (l : Location) : l.Spelling where
  host := percentEncode unreserved l.host
  host_spells := percentEncoded_percentEncode _ _
  user := l.user.map (percentEncode unreserved)
  user_spells := by
    cases l.user with
    | none => exact .none
    | some u => exact .some (percentEncoded_percentEncode _ u)
  password := l.password.map (percentEncode unreserved)
  password_spells := by
    cases l.password with
    | none => exact .none
    | some p => exact .some (percentEncoded_percentEncode _ p)
  path := percentEncode pathByte l.path
  path_spells := percentEncoded_percentEncode _ _
  path_slash := by
    rcases List.head?_eq_some_iff.1 l.absolute with ⟨tail, htail⟩
    rw [htail]
    rfl

/-! ## Schemes -/

theorem isalpha_of_tolower {c : UInt8} (h : 97 ≤ ConfigOption.tolower c)
    (h' : ConfigOption.tolower c ≤ 122) : isalpha c = true := by
  unfold ConfigOption.tolower at h h'
  unfold isalpha
  split at h
  · rename_i hupper
    simp [hupper]
  · rename_i hupper
    rw [if_neg hupper] at h'
    simp [h, h']

/-- Names are made of small letters. -/
theorem protocolNames_letters :
    (protocolNames.all fun p => !p.1.isEmpty && p.1.all fun c => 97 ≤ c && c ≤ 122) = true := by
  decide

theorem protocolNames_lookup :
    (protocolNames.all fun p => protocolNames.lookup p.1 == some p.2) = true := by
  decide

namespace Location

variable (l : Location)

theorem scheme_letters : ∀ c ∈ l.scheme, isalpha c = true := by
  intro c hc
  have hname := List.all_eq_true.1 protocolNames_letters _ l.known
  have hall := (Bool.and_eq_true _ _ ▸ hname).2
  have hletter := List.all_eq_true.1 hall _ (List.mem_map_of_mem hc)
  rw [Bool.and_eq_true, decide_eq_true_eq, decide_eq_true_eq] at hletter
  exact isalpha_of_tolower hletter.1 hletter.2

theorem scheme_ne : l.scheme ≠ [] := by
  intro hnil
  have hname := List.all_eq_true.1 protocolNames_letters _ l.known
  simp [hnil] at hname

theorem notEndsScheme_of_isalpha {c : UInt8} (h : isalpha c = true) : endsScheme c = false := by
  have hends : ∀ d : UInt8,
      d = colon ∨ d = slash ∨ d = question ∨ d = hash → isalpha d = false := by
    rintro d (rfl | rfl | rfl | rfl) <;> decide
  by_contra hne
  rw [Bool.not_eq_false] at hne
  simp only [endsScheme, endsAuthority, Bool.or_eq_true, beq_iff_eq, or_assoc] at hne
  rw [hends c hne] at h
  cases h

theorem isScheme : IsScheme l.scheme := by
  cases hs : l.scheme with
  | nil => exact absurd hs l.scheme_ne
  | cons c cs =>
      have hall : ∀ d ∈ c :: cs, isalpha d = true := hs ▸ l.scheme_letters
      exact ⟨c, cs, rfl, hall c (by simp), fun d hd =>
        notEndsScheme_of_isalpha (hall d (List.mem_cons_of_mem _ hd))⟩

theorem string2protocol_scheme : string2protocol l.scheme = .ok l.protocol := by
  have hnul : (0 : UInt8) ∉ l.scheme := by
    intro h
    have halpha := l.scheme_letters 0 h
    revert halpha
    decide
  have hlookup := List.all_eq_true.1 protocolNames_lookup _ l.known
  rw [beq_iff_eq] at hlookup
  rw [string2protocol, if_neg l.scheme_ne, cStr_eq_self hnul, hlookup]

end Location

/-! ## Bytes of a spelling -/

/-- A byte with a meaning to the parser does not occur in an encoded part. -/
theorem notMem_of_spells {d : UInt8}
    (hd : unreserved d = false ∧ d ≠ percent ∧ isxdigit d = false) {s text : Str}
    (h : PercentEncoded unreserved s text) : d ∉ text := by
  intro hmem
  rcases h.of_mem hmem with hkeep | hpercent | hdigit
  · rw [hd.1] at hkeep
    cases hkeep
  · exact hd.2.1 hpercent
  · rw [hd.2.2] at hdigit
    cases hdigit

theorem isAuthority_of_spells {s text : Str} (h : PercentEncoded unreserved s text) :
    IsAuthority text := by
  intro c hc
  have hends : ∀ d : UInt8, d = slash ∨ d = question ∨ d = hash →
      unreserved d = false ∧ d ≠ percent ∧ isxdigit d = false := by
    rintro d (rfl | rfl | rfl) <;> decide
  by_contra hne
  rw [Bool.not_eq_false] at hne
  simp only [endsAuthority, Bool.or_eq_true, beq_iff_eq, or_assoc] at hne
  exact notMem_of_spells (hends c hne) h hc

theorem notEndsAuthority_of_isDigit {c : UInt8} (h : isDigit c = true) :
    endsAuthority c = false := by
  have hends : ∀ d : UInt8, d = slash ∨ d = question ∨ d = hash → isDigit d = false := by
    rintro d (rfl | rfl | rfl) <;> decide
  by_contra hne
  rw [Bool.not_eq_false] at hne
  simp only [endsAuthority, Bool.or_eq_true, beq_iff_eq, or_assoc] at hne
  rw [hends c hne] at h
  cases h

theorem isAuthority_append {a b : Str} (ha : IsAuthority a) (hb : IsAuthority b) :
    IsAuthority (a ++ b) :=
  List.forall_mem_append.2 ⟨ha, hb⟩

theorem isAuthority_portText (port : Option UInt16) : IsAuthority (portText port) := by
  intro c hc
  cases port with
  | none => cases hc
  | some port =>
      rcases List.mem_cons.1 hc with rfl | hc
      · decide
      · exact notEndsAuthority_of_isDigit (isDigit_of_mem_decimal hc)

/-- A part is given in the text exactly if the location has it. -/
theorem text_eq_none {part text : Option Str}
    (h : Option.Rel (PercentEncoded unreserved) part text) : text = none ↔ part = none := by
  cases h <;> simp

theorem exists_of_mem_text {part text : Option Str}
    (h : Option.Rel (PercentEncoded unreserved) part text) {t : Str} (ht : t ∈ text) :
    ∃ s, PercentEncoded unreserved s t := by
  cases h with
  | none => cases ht
  | some h =>
      cases ht
      exact ⟨_, h⟩

/-- A part that is missing decodes to the empty string. -/
theorem decodeURL_getD {part text : Option Str}
    (h : Option.Rel (PercentEncoded unreserved) part text) :
    decodeURL (text.getD []) = part.getD [] := by
  cases h with
  | none => rfl
  | some h => exact h.decodeURL (by decide)

theorem isAuthority_userinfoText {u p u' p' : Option Str}
    (hu : Option.Rel (PercentEncoded unreserved) u u')
    (hp : Option.Rel (PercentEncoded unreserved) p p') : IsAuthority (userinfoText u' p') := by
  have hat : IsAuthority [atSign] := by
    intro c hc
    rw [List.mem_singleton.1 hc]
    decide
  have hcolon : IsAuthority [colon] := by
    intro c hc
    rw [List.mem_singleton.1 hc]
    decide
  cases hu with
  | none =>
      intro c hc
      cases hc
  | some hu =>
      cases hp with
      | none => exact isAuthority_append (isAuthority_of_spells hu) hat
      | some hp =>
          have hinfo := isAuthority_append (isAuthority_of_spells hu)
            (isAuthority_append hcolon (isAuthority_of_spells hp))
          exact isAuthority_append hinfo hat

/-! ## The authority -/

theorem extractInt_port (port : UInt16) :
    extractInt (decimal port.toNat) 0 = Int32.ofInt port.toNat := by
  have hlt := port.toNat_lt
  have hto : (Int32.ofInt port.toNat).toInt = port.toNat := by
    rw [Int32.toInt_ofInt, Int.bmod_def, Int32.size]
    omega
  have hroundTrip := extractInt_number2string (Int32.ofInt port.toNat) 0
  rw [number2string, hto, if_neg (by omega)] at hroundTrip
  simpa using hroundTrip

/-- Without a port no colon is followed by digits only: a host has no colon, and behind a user
there is an `@`. -/
theorem extractPort_noPort {userinfo host : Str} (hcolon : colon ∉ host)
    (hinfo : userinfo = [] ∨ ∃ w, userinfo = w ++ [atSign]) :
    extractPort (userinfo ++ host) = (userinfo ++ host, -1) := by
  apply extractPort_none
  intro front digits hsplit
  rcases hinfo with rfl | ⟨w, rfl⟩
  · rw [List.nil_append] at hsplit
    exact absurd (hsplit ▸ List.mem_append_right _ List.mem_cons_self) hcolon
  · rw [List.append_assoc, List.singleton_append] at hsplit
    rcases List.append_eq_append_iff.1 hsplit with ⟨l, _, hl⟩ | ⟨l, _, hl⟩
    · have hmem : colon ∈ atSign :: host := hl ▸ by simp
      rcases List.mem_cons.1 hmem with h | h
      · exact absurd h (by decide)
      · exact absurd h hcolon
    · have hmem : atSign ∈ colon :: digits := hl ▸ by simp
      rcases List.mem_cons.1 hmem with h | h
      · exact absurd h (by decide)
      · exact ⟨atSign, h, by decide⟩

theorem extractUserInfo_userinfoText {user password : Option Str} {host : Str}
    (huser : ∀ u ∈ user, colon ∉ u) (hpassword : password ≠ none → user ≠ none)
    (hat : atSign ∉ host) (port : Int32) :
    extractUserInfo (userinfoText user password ++ host) port =
      ⟨host, user.getD [], password.getD [], port⟩ := by
  cases user with
  | none =>
      have hnone : password = none := by
        by_contra hne
        exact hpassword hne rfl
      subst hnone
      exact extractUserInfo_none hat port
  | some user =>
      have hall : ∀ c ∈ user, (c != colon) = true := by
        intro c hc
        have hne : c ≠ colon := fun h => huser user rfl (h ▸ hc)
        simpa using hne
      cases password with
      | none =>
          rw [userinfoText, List.append_assoc, List.singleton_append, extractUserInfo_append hat,
            List.takeWhile_eq_self_iff.2 hall, List.dropWhile_eq_nil_iff.2 hall]
          rfl
      | some password =>
          have hstop : Stops (· != colon) (colon :: password) := by simp
          rw [userinfoText, List.append_assoc, List.singleton_append, extractUserInfo_append hat,
            takeWhile_scan hall hstop, dropWhile_scan hall hstop]
          rfl

/-! ## Reading a spelling -/

namespace Location.Spelling

variable {l : Location} (s : l.Spelling)

theorem isAuthority : IsAuthority s.authority := by
  apply isAuthority_append
  · exact isAuthority_append (isAuthority_userinfoText s.user_spells s.password_spells)
      (isAuthority_of_spells s.host_spells)
  · exact isAuthority_portText l.port

theorem parseAuthority_authority :
    parseAuthority s.authority =
      ⟨s.host, s.user.getD [], s.password.getD [], portNumber l.port⟩ := by
  have hcolon : colon ∉ s.host := notMem_of_spells (by decide) s.host_spells
  have hat : atSign ∉ s.host := notMem_of_spells (by decide) s.host_spells
  have huser : ∀ u ∈ s.user, colon ∉ u := by
    intro u hu
    rcases exists_of_mem_text s.user_spells hu with ⟨_, h⟩
    exact notMem_of_spells (by decide) h
  have hpassword : s.password ≠ none → s.user ≠ none := by
    rw [ne_eq, ne_eq, text_eq_none s.password_spells, text_eq_none s.user_spells]
    exact l.password_user
  have hport : extractPort s.authority =
      (userinfoText s.user s.password ++ s.host, portNumber l.port) := by
    unfold authority
    cases l.port with
    | none =>
        rw [portText, List.append_nil]
        apply extractPort_noPort hcolon
        cases s.user with
        | none => exact Or.inl rfl
        | some u =>
            -- without a port the last colon, if there is one, is in front of the at sign
            cases s.password with
            | none => exact Or.inr ⟨u, rfl⟩
            | some p => exact Or.inr ⟨u ++ colon :: p, rfl⟩
    | some port =>
        have hne : decimal port.toNat ≠ [] := by simp [decimal, Nat.toDigits_ne_nil]
        rw [portText, extractPort_append fun _ hc => isDigit_of_mem_decimal hc, if_neg hne,
          extractInt_port]
        rfl
  rw [parseAuthority, hport]
  exact extractUserInfo_userinfoText huser hpassword hat _

end Location.Spelling

/-- Every spelling of a location is accepted, and is read back as that location.  Without a user
in the URL, the protocol's default user is taken. -/
theorem URLParser.new_spelling (l : Location) (s : l.Spelling) :
    URLParser.new s.text = .ok
      { m_url := s.text
        m_protocol := l.protocol
        m_hostname := l.host
        m_port := portNumber l.port
        m_username := l.user.getD (defaultUser l.protocol)
        m_password := l.password.getD []
        m_path := l.path } := by
  have htext : s.text = l.scheme ++ colon :: slash :: slash :: (s.authority ++ s.path) := by
    have hsep : str "://" = [colon, slash, slash] := by decide
    simp [Location.Spelling.text, hsep]
  have hscheme := extractScheme_append l.isScheme (slash :: slash :: (s.authority ++ s.path))
  have hauthority := extractAuthority_append s.isAuthority s.path_slash
  have hhost : decodeURL s.host = l.host := s.host_spells.decodeURL (by decide)
  have huser := decodeURL_getD s.user_spells
  have hpassword := decodeURL_getD s.password_spells
  have hpath : decodeURL s.path = l.path := s.path_spells.decodeURL (by decide)
  have hprotocol : guessProtocol l.scheme l.host = .ok l.protocol := by
    rw [guessProtocol, if_neg l.scheme_ne, l.string2protocol_scheme]
  -- only `file` has its host looked at, and there it is empty
  have hlocal : ¬(l.protocol = .PROT_FILE ∧ l.host = str "localhost") := by
    intro h
    rw [l.host_iff.2 h.1] at h
    exact absurd h.2 (by decide)
  have hremote : ¬(l.protocol = .PROT_FILE ∧ l.host ≠ []) := fun h => h.2 (l.host_iff.2 h.1)
  have husername : (if l.user.getD [] = [] then defaultUser l.protocol else l.user.getD []) =
      l.user.getD (defaultUser l.protocol) := by
    cases hu : l.user with
    | none => rfl
    | some u =>
        have hne : u ≠ [] := fun h => l.user_ne (by rw [hu, h])
        rw [Option.getD_some, if_neg hne, Option.getD_some]
  rw [URLParser.new, htext, hscheme]
  dsimp only
  rw [hauthority, if_neg (by simpa using s.path_slash), s.parseAuthority_authority,
    URLParser.ofParts]
  dsimp only
  rw [hhost, hprotocol]
  dsimp only
  rw [if_neg hlocal, if_neg hremote, huser, husername, hpassword, hpath]

end Url
end Kdump

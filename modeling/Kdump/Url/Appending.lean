import Kdump.Path.Slashes
import Kdump.Url.URLParser

/-!
# Appending — `appendPath` on the text of a URL

`SaveDump::execute` and `FTPTransfer::open` append directories and file names to the text of a
URL that has been read already.  `appendPath` knows nothing of URLs: it strips slashes from the
end of the text, and these may be the whole path, or even the two slashes in front of an empty
authority.  The scheme and the authority are found again all the same.
-/

namespace Kdump
namespace Url

open Lib Kdump.Path

/-! ## The three parts of the text -/

theorem appendPath_append {front : Str} (h : StopsBack (· == slash) front) (path s : Str) :
    appendPath (front ++ path) s = front ++ appendPath path s := by
  unfold appendPath rtrimSlash
  rw [rdropWhile_append_stops h, List.append_assoc]

/-- What is appended does not start with a slash of its own. -/
theorem take_slash_append (s : Str) :
    (slash :: s.dropWhile (· == slash)).take 2 ≠ [slash, slash] := by
  have hstop := stops_dropWhile (· == slash) s
  cases hs : s.dropWhile (· == slash) with
  | nil => simp
  | cons c s' =>
      rw [hs, stops_cons] at hstop
      have hc : c ≠ slash := by simpa using hstop
      simp [hc]

/-- The authority stays where it is, and the path is appended to. -/
theorem extractAuthority_appendPath {text : Str}
    (hpath : (extractAuthority text).2.head? = some slash) (s : Str) :
    extractAuthority (appendPath text s) =
      ((extractAuthority text).1, appendPath (extractAuthority text).2 s) := by
  rcases extractAuthority_cases text with ⟨htext, hnone⟩ | ⟨authority, path, hauth, rfl, hsome⟩
  · -- no authority, and there is none afterwards
    rw [hnone] at hpath ⊢
    rcases List.head?_eq_some_iff.1 hpath with ⟨tail, rfl⟩
    apply extractAuthority_none
    cases tail with
    | nil => exact take_slash_append s
    | cons c tail =>
        have hc : c ≠ slash := by
          rintro rfl
          exact htext rfl
        have hstop : StopsBack (· == slash) ([slash] ++ [c]) :=
          stopsBack_concat.2 (beq_false_of_ne hc)
        have happ := appendPath_append hstop tail s
        rw [List.singleton_append, List.cons_append, List.cons_append, List.nil_append] at happ
        rw [happ]
        simp [hc]
  · rw [hsome] at hpath ⊢
    cases hlast : authority with
    | nil =>
        -- an empty authority goes with the path if that is nothing but slashes
        subst hlast
        have hslashes : (slash :: slash :: ([] ++ path)) = [slash, slash] ++ path := rfl
        rw [hslashes]
        unfold appendPath rtrimSlash
        rw [rdropWhile_append]
        split
        · rename_i hall
          rw [hall]
          exact extractAuthority_none (take_slash_append s)
        · have happ := appendPath_head hpath s
          unfold appendPath rtrimSlash at happ
          rw [List.append_assoc]
          exact extractAuthority_append hauth happ
    | cons c authority' =>
        have hne : authority ≠ [] := by simp [hlast]
        have hstop : StopsBack (· == slash) ([slash, slash] ++ authority) := by
          rw [stopsBack_append hne]
          intro x hx
          have hends := hauth x (List.mem_of_getLast? hx)
          simp only [endsAuthority, Bool.or_eq_false_iff] at hends
          exact hends.1.1
        rw [← hlast]
        calc
          extractAuthority (appendPath (slash :: slash :: (authority ++ path)) s)
              = extractAuthority (appendPath ([slash, slash] ++ authority ++ path) s) := by simp
          _ = extractAuthority (slash :: slash :: (authority ++ appendPath path s)) := by
              rw [appendPath_append hstop]
              simp
          _ = (authority, appendPath path s) :=
              extractAuthority_append hauth (appendPath_head hpath s)

/-- The text behind the scheme of a URL with an absolute path starts with a slash. -/
theorem head_of_extractAuthority {text : Str}
    (hpath : (extractAuthority text).2.head? = some slash) : text.head? = some slash := by
  rcases extractAuthority_cases text with ⟨_, hnone⟩ | ⟨_, _, _, rfl, _⟩
  · rw [hnone] at hpath
    exact hpath
  · rfl

theorem extractScheme_appendPath {url : Str} (hrest : (extractScheme url).2.head? = some slash)
    (s : Str) :
    extractScheme (appendPath url s) =
      ((extractScheme url).1, appendPath (extractScheme url).2 s) := by
  rcases extractScheme_cases url with hnone | ⟨scheme, rest, hscheme, rfl⟩
  · rw [hnone] at hrest ⊢
    rcases List.head?_eq_some_iff.1 (appendPath_head hrest s) with ⟨tail, htail⟩
    rw [htail]
    exact extractScheme_slash tail
  · have hstop : StopsBack (· == slash) (scheme ++ [colon]) :=
      stopsBack_concat.2 (by decide)
    have hsplit : scheme ++ colon :: rest = scheme ++ [colon] ++ rest := by simp
    rw [extractScheme_append hscheme, hsplit, appendPath_append hstop, List.append_assoc]
    exact extractScheme_append hscheme _

/-! ## The path, decoded -/

theorem decodeURL_append_run {run : Str} (hrun : ∀ c ∈ run, c = slash) (p : Str) :
    decodeURL (p ++ run) = decodeURL p ++ run := by
  have hplain : ∀ {r : Str}, (∀ c ∈ r, c = slash) → decodeURL r = r := by
    intro r hr
    refine decodeURL_plain fun hmem => ?_
    exact absurd (hr percent hmem) (by decide)
  cases run with
  | nil => simp
  | cons c run =>
      have hc : c = slash := hrun c (by simp)
      have htail : ∀ d ∈ run, d = slash := fun d hd => hrun d (List.mem_cons_of_mem _ hd)
      subst hc
      rw [decodeURL_append_cons (by decide) (by decide), hplain htail]

/-- Decoding commutes with appending what has no `%` in it, even behind half an escape. -/
theorem decodeURL_appendPath {s : Str} (hs : percent ∉ s) (path : Str) :
    SamePath (decodeURL (appendPath path s)) (appendPath (decodeURL path) s) := by
  have hs' : percent ∉ s.dropWhile (· == slash) :=
    fun h => hs ((List.dropWhile_sublist _).subset h)
  rcases rtrimSlash_append_run path with ⟨run, hrun, hp⟩
  unfold SamePath
  calc
    squeeze (decodeURL (appendPath path s))
        = squeeze (decodeURL (rtrimSlash path) ++ slash :: s.dropWhile (· == slash)) := by
          rw [appendPath, decodeURL_append_cons (by decide) (by decide), decodeURL_plain hs']
    _ = squeeze (decodeURL (rtrimSlash path) ++ run ++ slash :: s.dropWhile (· == slash)) :=
          (squeeze_append_slashes hrun _ _).symm
    _ = squeeze (decodeURL path ++ slash :: s.dropWhile (· == slash)) := by
          rw [← decodeURL_append_run hrun, ← hp]
    _ = squeeze (decodeURL path ++ slash :: s) :=
          squeeze_append_congr (by rfl) (squeeze_slash_dropWhile s) _
    _ = squeeze (appendPath (decodeURL path) s) := (appendPath_samePath _ _).symm

/-! ## The whole URL -/

namespace URLParser

/-- Appending to the text of an accepted URL gives a URL that differs in the path only, and its
path is the old one with the same text appended. -/
theorem new_appendPath {url s : Str} {p : URLParser} (hurl : new url = .ok p)
    (hs : percent ∉ s) :
    ∃ p', new (appendPath url s) = .ok p' ∧
      p'.m_protocol = p.m_protocol ∧ p'.m_hostname = p.m_hostname ∧
      p'.m_username = p.m_username ∧ p'.m_password = p.m_password ∧ p'.m_port = p.m_port ∧
      SamePath p'.m_path (appendPath p.m_path s) := by
  rcases new_ok hurl with ⟨hpath, hparts⟩
  have hscheme := extractScheme_appendPath (head_of_extractAuthority hpath) s
  have hauthority := extractAuthority_appendPath hpath s
  rcases ofParts_congr hparts (appendPath url s)
    (appendPath (extractAuthority (extractScheme url).2).2 s) with ⟨hold, hnew⟩
  refine ⟨{ p with
    m_url := appendPath url s
    m_path := decodeURL (appendPath (extractAuthority (extractScheme url).2).2 s) },
    ?_, rfl, rfl, rfl, rfl, rfl, ?_⟩
  · rw [new, hscheme]
    dsimp only
    rw [hauthority]
    dsimp only
    rw [if_neg (not_not.2 (appendPath_head hpath s))]
    exact hnew
  · rw [hold]
    exact decodeURL_appendPath hs _

/-- An empty authority in front of the root directory. -/
theorem new_appendPath_root :
    (∃ p', new (appendPath (str "file:///") (str "2021-01-01-12:00")) = .ok p' ∧
      SamePath p'.m_path (str "/2021-01-01-12:00")) := by
  have hroot : new (str "file:///") =
      .ok ⟨str "file:///", .PROT_FILE, [], -1, [], [], [slash]⟩ := by rfl
  have hname : percent ∉ str "2021-01-01-12:00" := by decide
  rcases new_appendPath hroot hname with ⟨p', hp', _, _, _, _, _, hpath⟩
  exact ⟨p', hp', hpath⟩

end URLParser

end Url
end Kdump

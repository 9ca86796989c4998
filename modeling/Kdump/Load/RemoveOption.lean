import Kdump.Config.Configuration
import Kdump.Lib.Loop
import Kdump.Lib.Regex
import Kdump.Lib.Scan

/-!
# RemoveOption — `remove_from_commandline` of the load script

An `awk` program goes through the line from parameter to parameter.  Each of its passes takes the
white space and then a match of `("[^"]*"?|[^"[:space:]])+`, by the leftmost-longest rule.

* `removeStep`, `remove_from_commandline` — the program;
* `mem_word_iff` — the words of the regular expression;
* `takeParameter_blank`, `takeParameter_plain`, `takeParameter_quoted` — what a pass takes;
* `record_induction` — a line is blank, or begins with a plain word or with one that has a quote.
-/

namespace Kdump
namespace Load

open Lib Lib.Regex Config

/-! ## The program -/

/-- `[[:space:]]*` -/
def blanks : Regex UInt8 :=
  star (one isSpace)

/-- `"[^"]*"?` -/
def quoted : Regex UInt8 :=
  seq (one fun c => c == dquote)
    (seq (star (one fun c => c != dquote)) (opt (one fun c => c == dquote)))

/-- `[^"[:space:]]` -/
def isPlain (c : UInt8) : Bool :=
  c != dquote && !isSpace c

/-- `("[^"]*"?|[^"[:space:]])+` -/
def word : Regex UInt8 :=
  plus (alt quoted (one isPlain))

/-- The two outer groups in the array of `match`.  The array is empty if there is no match. -/
def twoGroups : Option (List Str) → Str × Str
  | some [first, second] => (first, second)
  | _ => ([], [])

/-- `w[1]`, `p[1]` and `p[3]`: the white space, the parameter, and what is left of the record. -/
def takeParameter (record : Str) : Str × Str × Str :=
  let w := twoGroups (matchAt [blanks, anything] record)
  let p := twoGroups (search [word, anything] w.2)
  (w.1, p.1, p.2)

/-- `gsub(/"/,"",raw)` -/
def unquote (s : Str) : Str :=
  s.filter (· ≠ dquote)

/-- `raw ~ /^(option)(=|$)/`, where `option` is an alternation of the literal `names`. -/
def isOption (names : List Str) (raw : Str) : Bool :=
  (longest (fun front rest =>
    (alternation names).accepts front && (rest.isEmpty || rest.head? == some eqSign)) raw).isSome

/-- `$0`, and what has been printed for the line so far. -/
structure Record where
  record : Str
  printed : Str
  deriving DecidableEq, Repr

/-- The body of `while(length())`. -/
def removeStep (names : List Str) (s : Record) : Lib.Step Record Str :=
  if s.record.isEmpty then .done (s.printed ++ [newline])
  else
    let (blank, parameter, rest) := takeParameter s.record
    if isOption names (unquote parameter) then .next ⟨rest, s.printed⟩
    else .next ⟨rest, s.printed ++ (blank ++ parameter)⟩

/-! ## The words of the regular expression -/

theorem mem_quoted_iff {w : Str} : w ∈ quoted.lang ↔
    ∃ body, dquote ∉ body ∧ (w = dquote :: (body ++ [dquote]) ∨ w = dquote :: body) := by
  have hbody : ∀ body : Str, body ∈ (star (one fun c => c != dquote)).lang ↔ dquote ∉ body := by
    intro body
    rw [mem_star_one_iff]
    constructor
    · intro h hmem
      exact absurd (h dquote hmem) (by decide)
    · intro h c hc
      exact bne_iff_ne.2 fun heq => h (heq ▸ hc)
  have hquote : ∀ q : Str, q ∈ (one fun c : UInt8 => c == dquote).lang ↔ q = [dquote] := by
    intro q
    rw [mem_one_iff]
    constructor
    · rintro ⟨c, hc, rfl⟩
      rw [beq_iff_eq.1 hc]
    · rintro rfl
      exact ⟨dquote, beq_self_eq_true _, rfl⟩
  rw [quoted, mem_seq_iff]
  constructor
  · rintro ⟨q, hq, b, hb, rfl⟩
    obtain ⟨body, hmem, close, hclose, rfl⟩ := mem_seq_iff.1 hb
    refine ⟨body, (hbody body).1 hmem, ?_⟩
    rw [(hquote q).1 hq]
    rcases mem_opt_iff.1 hclose with hclose | rfl
    · rw [(hquote close).1 hclose]
      exact Or.inl rfl
    · exact Or.inr (by rw [List.append_nil, List.singleton_append])
  · rintro ⟨body, hmem, rfl | rfl⟩
    · refine ⟨[dquote], (hquote _).2 rfl, body ++ [dquote], ?_, rfl⟩
      exact mem_seq_iff.2 ⟨body, (hbody body).2 hmem, [dquote],
        mem_opt_iff.2 (Or.inl ((hquote _).2 rfl)), rfl⟩
    · refine ⟨[dquote], (hquote _).2 rfl, body, ?_, rfl⟩
      exact mem_seq_iff.2 ⟨body, (hbody body).2 hmem, [], mem_opt_iff.2 (Or.inr rfl),
        List.append_nil body⟩

/-- No white space in front of the first quote. -/
def BlankQuoted (w : Str) : Prop :=
  ∀ c ∈ w.takeWhile (· != dquote), isSpace c = false

theorem blankQuoted_quote (w : Str) : BlankQuoted (dquote :: w) := by
  intro c hc
  rw [List.takeWhile_cons_of_neg (by decide)] at hc
  cases hc

theorem blankQuoted_cons {c : UInt8} (hc : isPlain c = true) {w : Str} :
    BlankQuoted (c :: w) ↔ BlankQuoted w := by
  rw [isPlain, Bool.and_eq_true, Bool.not_eq_true'] at hc
  unfold BlankQuoted
  rw [List.takeWhile_cons_of_pos (p := (· != dquote)) hc.1, List.forall_mem_cons,
    and_iff_right hc.2]

/-- As the closing quote may be missing, every quote may open a piece that goes on to the next one
or to the end of the text. -/
theorem mem_star_iff {w : Str} :
    w ∈ (star (alt quoted (one isPlain))).lang ↔ BlankQuoted w := by
  constructor
  · revert w
    apply star_induction
    · intro c hc
      cases hc
    · intro a ha b _ ih
      rcases mem_alt_iff.1 ha with ha | ha
      · obtain ⟨body, _, rfl | rfl⟩ := mem_quoted_iff.1 ha
        · exact blankQuoted_quote _
        · exact blankQuoted_quote _
      · obtain ⟨c, hc, rfl⟩ := mem_one_iff.1 ha
        exact (blankQuoted_cons hc).2 ih
  · intro h
    -- a piece is taken off the front, and what is left satisfies the condition again
    induction hn : w.length using Nat.strong_induction_on generalizing w with
    | _ n ih =>
        cases w with
        | nil => exact nil_mem_star
        | cons c w =>
            by_cases hc : c = dquote
            · -- the piece goes on to the next quote
              subst hc
              have hsplit := List.takeWhile_append_dropWhile (p := (· != dquote)) (l := w)
              have hbody : dquote ∉ w.takeWhile (· != dquote) := by
                intro hmem
                exact absurd (List.mem_takeWhile_imp hmem) (by decide)
              have hlt : (w.dropWhile (· != dquote)).length < n := by
                rw [← hn, List.length_cons]
                exact Nat.lt_succ_of_le ((List.dropWhile_sublist _).length_le)
              have hrest : BlankQuoted (w.dropWhile (· != dquote)) := by
                intro c hc
                rw [takeWhile_stops (stops_dropWhile _ w)] at hc
                cases hc
              have hpiece := mem_quoted_iff.2 ⟨_, hbody, Or.inr rfl⟩
              have happend := append_mem_star (mem_alt_iff.2 (Or.inl hpiece))
                (ih _ hlt hrest rfl)
              rwa [List.cons_append, hsplit] at happend
            · have hspace : isSpace c = false := by
                refine h c ?_
                rw [List.takeWhile_cons_of_pos (p := (· != dquote)) (bne_iff_ne.2 hc)]
                exact List.mem_cons_self
              have hplain : isPlain c = true := by
                rw [isPlain, hspace, bne_iff_ne.2 hc]
                rfl
              have hlt : w.length < n := by
                rw [← hn, List.length_cons]
                exact Nat.lt_succ_self _
              have hpiece : [c] ∈ (one isPlain).lang := mem_one_iff.2 ⟨c, hplain, rfl⟩
              exact append_mem_star (mem_alt_iff.2 (Or.inr hpiece))
                (ih _ hlt ((blankQuoted_cons hplain).1 h) rfl)

theorem mem_word_iff {w : Str} : w ∈ word.lang ↔ w ≠ [] ∧ BlankQuoted w := by
  have hnil : [] ∉ (alt quoted (one isPlain)).lang := by
    intro h
    rcases mem_alt_iff.1 h with h | h
    · obtain ⟨body, _, h | h⟩ := mem_quoted_iff.1 h
      · cases h
      · cases h
    · obtain ⟨c, _, h⟩ := mem_one_iff.1 h
      cases h
  rw [word, mem_plus_iff_of_notMem hnil, mem_star_iff]

/-! ## What a pass takes -/

/-- White space only. -/
abbrev Blank (b : Str) : Prop :=
  ∀ c ∈ b, isSpace c = true

/-- Neither quotes nor white space. -/
abbrev Plain (u : Str) : Prop :=
  ∀ c ∈ u, isPlain c = true

/-- White space follows, or nothing. -/
abbrev WordEnds (rest : Str) : Prop :=
  Stops (fun c => !isSpace c) rest

theorem isSpace_of_isPlain {c : UInt8} (h : isPlain c = true) : isSpace c = false := by
  rw [isPlain, Bool.and_eq_true, Bool.not_eq_true'] at h
  exact h.2

theorem ne_dquote_of_isPlain {c : UInt8} (h : isPlain c = true) : c ≠ dquote := by
  rw [isPlain, Bool.and_eq_true] at h
  exact bne_iff_ne.1 h.1

theorem blankQuoted_append {u : Str} (hu : Plain u) (w : Str) :
    BlankQuoted (u ++ w) ↔ BlankQuoted w := by
  induction u with
  | nil => rfl
  | cons c u ih =>
      rw [List.cons_append, blankQuoted_cons (hu c List.mem_cons_self)]
      exact ih fun d hd => hu d (List.mem_cons_of_mem _ hd)

/-- The three kinds of lines. -/
inductive Shape : Str → Prop where
  | blank {b : Str} (hb : Blank b) : Shape b
  | plain {b u rest : Str} (hb : Blank b) (hne : u ≠ []) (hu : Plain u) (hrest : WordEnds rest) :
      Shape (b ++ (u ++ rest))
  | quoted {b u rest : Str} (hb : Blank b) (hu : Plain u) : Shape (b ++ (u ++ dquote :: rest))

theorem shape (record : Str) : Shape record := by
  have hblank : Blank (record.takeWhile isSpace) := fun c hc => List.mem_takeWhile_imp hc
  have hplain : Plain ((record.dropWhile isSpace).takeWhile isPlain) :=
    fun c hc => List.mem_takeWhile_imp hc
  have hstop : Stops isSpace (record.dropWhile isSpace) := stops_dropWhile _ _
  have hend : Stops isPlain ((record.dropWhile isSpace).dropWhile isPlain) := stops_dropWhile _ _
  have hword := List.takeWhile_append_dropWhile (p := isPlain) (l := record.dropWhile isSpace)
  rw [← List.takeWhile_append_dropWhile (p := isSpace) (l := record), ← hword]
  -- the line is white space, plain text and what ends the plain text
  generalize record.takeWhile isSpace = b at hblank
  generalize (record.dropWhile isSpace).takeWhile isPlain = u at hplain hword
  generalize (record.dropWhile isSpace).dropWhile isPlain = rest at hend hword
  rw [← hword] at hstop
  cases rest with
  | nil =>
      by_cases hne : u = []
      · subst hne
        rw [List.append_nil, List.append_nil]
        exact Shape.blank hblank
      · exact Shape.plain hblank hne hplain stops_nil
  | cons c rest =>
      by_cases hc : c = dquote
      · subst hc
        exact Shape.quoted hblank hplain
      · have hspace : isSpace c = true := by
          by_contra hspace
          have hc' := stops_cons.1 hend
          rw [isPlain, bne_iff_ne.2 hc, Bool.eq_false_of_not_eq_true hspace] at hc'
          cases hc'
        refine Shape.plain hblank ?_ hplain (stops_cons.2 (by rw [hspace]; rfl))
        rintro rfl
        have hfalse := stops_cons.1 hstop
        rw [hspace] at hfalse
        cases hfalse

section

variable {b u rest : Str}

theorem plain_ne_nil (hne : u ≠ []) : b ++ (u ++ rest) ≠ [] := by
  intro hnil
  exact hne (List.append_eq_nil_iff.1 (List.append_eq_nil_iff.1 hnil).2).1

theorem quoted_ne_nil : b ++ (u ++ dquote :: rest) ≠ [] := by
  intro hnil
  cases (List.append_eq_nil_iff.1 (List.append_eq_nil_iff.1 hnil).2).2

/-- A longer front has the character that follows. -/
theorem cut_cases {front rest' : Str} (h : front ++ rest' = u ++ rest) :
    front.length ≤ u.length ∨ ∃ c front' rest'', front = u ++ c :: front' ∧ rest = c :: rest'' := by
  rcases List.append_eq_append_iff.1 h with ⟨a, rfl, _⟩ | ⟨a, rfl, hrest⟩
  · rw [List.length_append]
    exact Or.inl (Nat.le_add_right _ _)
  · cases a with
    | nil =>
        rw [List.append_nil]
        exact Or.inl le_rfl
    | cons c a => exact Or.inr ⟨c, a, a ++ rest', rfl, hrest⟩

theorem matchAt_blanks (hb : Blank b) (hrest : Stops isSpace rest) :
    matchAt [blanks, anything] (b ++ rest) = some [b, rest] := by
  refine matchAt_rest ⟨rfl, accepts_iff.2 (mem_star_one_iff.2 hb), ?_⟩
  intro front rest' hcut hfront
  rcases cut_cases hcut with hle | ⟨c, front', rest'', rfl, rfl⟩
  · exact hle
  · have hspace := mem_star_one_iff.1 (accepts_iff.1 hfront) c
      (List.mem_append_right _ List.mem_cons_self)
    rw [stops_cons.1 hrest] at hspace
    cases hspace

theorem search_word_nil : search [word, anything] [] = none := by
  refine search_nil ?_
  rw [concat, mem_seq_iff]
  rintro ⟨a, ha, c, _, hnil⟩
  exact (mem_word_iff.1 ha).1 (List.append_eq_nil_iff.1 hnil).1

/-- A word without quotes ends at the white space. -/
theorem search_word_plain (hne : u ≠ []) (hu : Plain u) (hrest : WordEnds rest) :
    search [word, anything] (u ++ rest) = some [u, rest] := by
  have hblank : BlankQuoted u := by
    rw [← List.append_nil u, blankQuoted_append hu]
    intro c hc
    cases hc
  refine search_rest ⟨rfl, accepts_iff.2 (mem_word_iff.2 ⟨hne, hblank⟩), ?_⟩
  intro front rest' hcut hfront
  rcases cut_cases hcut with hle | ⟨c, front', rest'', rfl, rfl⟩
  · exact hle
  · have hspace : isSpace c = true := by simpa using stops_cons.1 hrest
    -- a longer word would have this white space in front of its first quote
    have hfollow := (blankQuoted_append hu _).1 (mem_word_iff.1 (accepts_iff.1 hfront)).2
    have hc : c ≠ dquote := by
      rintro rfl
      exact absurd hspace (by decide)
    have hfalse := hfollow c (by
      rw [List.takeWhile_cons_of_pos (p := (· != dquote)) (bne_iff_ne.2 hc)]
      exact List.mem_cons_self)
    rw [hspace] at hfalse
    cases hfalse

/-- From the first word with a quote on, everything is one word. -/
theorem search_word_quoted (hu : Plain u) :
    search [word, anything] (u ++ dquote :: rest) = some [u ++ dquote :: rest, []] := by
  refine search_rest (longest_some (longest_all (accepts_iff.2 (mem_word_iff.2 ⟨?_, ?_⟩))))
  · intro hnil
    cases (List.append_eq_nil_iff.1 hnil).2
  · exact (blankQuoted_append hu _).2 (blankQuoted_quote rest)

theorem takeParameter_blank (hb : Blank b) : takeParameter b = (b, [], []) := by
  have hmatch := matchAt_blanks hb stops_nil
  rw [List.append_nil] at hmatch
  simp only [takeParameter, hmatch, twoGroups, search_word_nil]

theorem stops_of_plain (hne : u ≠ []) (hu : Plain u) (rest : Str) : Stops isSpace (u ++ rest) := by
  cases u with
  | nil => exact absurd rfl hne
  | cons c u => exact stops_cons.2 (isSpace_of_isPlain (hu c List.mem_cons_self))

theorem stops_of_quoted (hu : Plain u) (rest : Str) : Stops isSpace (u ++ dquote :: rest) := by
  cases u with
  | nil => exact stops_cons.2 (by decide)
  | cons c u => exact stops_of_plain (List.cons_ne_nil _ _) hu _

theorem takeParameter_plain (hb : Blank b) (hne : u ≠ []) (hu : Plain u) (hrest : WordEnds rest) :
    takeParameter (b ++ (u ++ rest)) = (b, u, rest) := by
  simp only [takeParameter, matchAt_blanks hb (stops_of_plain hne hu rest), twoGroups,
    search_word_plain hne hu hrest]

theorem takeParameter_quoted (hb : Blank b) (hu : Plain u) :
    takeParameter (b ++ (u ++ dquote :: rest)) = (b, u ++ dquote :: rest, []) := by
  simp only [takeParameter, matchAt_blanks hb (stops_of_quoted hu rest), twoGroups,
    search_word_quoted hu]

end

/-! ## The loop -/

/-- Every pass takes something from the record. -/
theorem takeParameter_lt {record : Str} (h : record ≠ []) :
    (takeParameter record).2.2.length < record.length := by
  cases shape record with
  | blank hb =>
      rw [takeParameter_blank hb]
      exact List.length_pos_iff.2 h
  | plain hb hne hu hrest =>
      have hpos := List.length_pos_iff.2 hne
      rw [takeParameter_plain hb hne hu hrest]
      simp only [List.length_append]
      omega
  | quoted hb hu =>
      rw [takeParameter_quoted hb hu]
      exact List.length_pos_iff.2 h

theorem removeStep_lt {names : List Str} {s s' : Record} (h : removeStep names s = .next s') :
    s'.record.length < s.record.length := by
  unfold removeStep at h
  split at h
  · cases h
  · rename_i hne
    have hlt := takeParameter_lt fun hnil => hne (List.isEmpty_iff.2 hnil)
    dsimp only at h
    split at h
    · cases h
      exact hlt
    · cases h
      exact hlt

/-- The loop over one line. -/
def removeLoop (names : List Str) : Loop Record Str where
  step := removeStep names
  measure s := s.record.length
  decreases := removeStep_lt

/-- The lines of the input.  The last one need not be ended. -/
def records (input : Str) : List Str :=
  let lines := input.splitOn newline
  if lines.getLast? = some [] then lines.dropLast else lines

/-- `remove_from_commandline`, from its standard input to its standard output. -/
def remove_from_commandline (names : List Str) (input : Str) : Str :=
  (records input).flatMap fun record => (removeLoop names).eval ⟨record, []⟩

end Load
end Kdump

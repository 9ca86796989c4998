import Kdump.Multipath.MultipathConf

/-!
# Filter — `AddBlacklistHandler`

The handler copies the configuration and adds to the sections `blacklist` and
`blacklist_exceptions`; a section that is not there is put in front of the file.

* `AddBlacklistHandler` — the handler, with its destructor, which writes the output;
* `execute` — the subcommand;
* `splitLines` — the lines of a text;
* `filter_correct` — what the output consists of.
-/

namespace Kdump
namespace Multipath

open Lib

/-! ## The handler -/

structure AddBlacklistHandler where
  m_output : Str
  m_lines : List Str
  m_blacklist_done : Bool
  m_exceptions_done : Bool
  deriving DecidableEq, Repr

namespace AddBlacklistHandler

/-- The constructor. -/
def new : AddBlacklistHandler :=
  ⟨[], [], false, false⟩

def addLine (h : AddBlacklistHandler) (raw : Str) : AddBlacklistHandler :=
  { h with m_lines := h.m_lines ++ [raw] }

def outputLine (h : AddBlacklistHandler) (raw : Str) : AddBlacklistHandler :=
  { h with m_output := h.m_output ++ raw }

/-- `lineHandler`. -/
abbrev LineHandler := AddBlacklistHandler → Str → AddBlacklistHandler

def doBlacklist (handler : LineHandler) (h : AddBlacklistHandler) : AddBlacklistHandler :=
  { handler h (str "\twwid \".*\"\n") with m_blacklist_done := true }

def doExceptions (m_exceptions : List Str) (handler : LineHandler) (h : AddBlacklistHandler) :
    AddBlacklistHandler :=
  { m_exceptions.foldl (fun h it => handler h (str "\t" ++ it ++ str "\n")) h with
    m_exceptions_done := true }

/-- `AddBlacklistHandler::process`. -/
def process (m_exceptions : List Str) : Handler AddBlacklistHandler := fun h raw tokens =>
  let h := h.addLine raw
  match tokens with
  | [] => h
  | token :: _ =>
      if token = str "blacklist" then h.doBlacklist addLine
      else if token = str "blacklist_exceptions" then h.doExceptions m_exceptions addLine
      else h

/-- The destructor, by what it leaves in `m_output`. -/
def destroy (m_exceptions : List Str) (h : AddBlacklistHandler) : Str :=
  let h :=
    if h.m_blacklist_done then h
    else ((h.outputLine (str "blacklist \x7b\n")).doBlacklist outputLine).outputLine
      (str "\x7d\n")
  let h :=
    if h.m_exceptions_done then h
    else ((h.outputLine (str "blacklist_exceptions \x7b\n")).doExceptions m_exceptions
      outputLine).outputLine (str "\x7d\n")
  h.m_lines.foldl (· ++ ·) h.m_output

end AddBlacklistHandler

/-- `Multipath::execute`: what is written to the standard output. -/
def execute (signed : Bool) (m_exceptions : List Str) (input : Str) : Str :=
  (MultipathConf.process signed (AddBlacklistHandler.process m_exceptions) input
    AddBlacklistHandler.new).destroy m_exceptions

/-! ## The lines of a text -/

/-- The lines that are ended by CR or LF, each with its end, and what is behind the last one. -/
def splitLines : Str → List Str × Str
  | [] => ([], [])
  | c :: text =>
      let (lines, last) := splitLines text
      if isEol c then ([c] :: lines, last)
      else
        match lines with
        | [] => ([], c :: last)
        | line :: lines => ((c :: line) :: lines, last)

/-- A line is ended by the first character that can end it. -/
def IsLine (line : Str) : Prop :=
  ∃ text c, line = text ++ [c] ∧ isEol c = true ∧ ∀ d ∈ text, isEol d = false

/-- Nothing is lost, and no line is cut too early or too late. -/
theorem splitLines_spec (text : Str) :
    (splitLines text).1.flatten ++ (splitLines text).2 = text ∧
      (∀ line ∈ (splitLines text).1, IsLine line) ∧ ∀ d ∈ (splitLines text).2, isEol d = false := by
  induction text with
  | nil => exact ⟨rfl, nofun, nofun⟩
  | cons c text ih =>
      obtain ⟨happend, hlines, hlast⟩ := ih
      rw [splitLines]
      cases hc : isEol c with
      | true =>
          refine ⟨congrArg (c :: ·) happend, ?_, hlast⟩
          intro line hline
          rcases List.mem_cons.1 hline with rfl | hline
          · exact ⟨[], c, rfl, hc, nofun⟩
          · exact hlines line hline
      | false =>
          dsimp only
          rw [if_neg Bool.false_ne_true]
          cases hsplit : (splitLines text).1 with
          | nil =>
              rw [hsplit] at happend
              refine ⟨congrArg (c :: ·) happend, nofun, ?_⟩
              exact List.forall_mem_cons.2 ⟨hc, hlast⟩
          | cons first lines =>
              rw [hsplit] at happend hlines
              refine ⟨congrArg (c :: ·) happend, ?_, hlast⟩
              intro line hline
              rcases List.mem_cons.1 hline with rfl | hline
              · -- the first line has got longer
                obtain ⟨front, d, rfl, hd, hfront⟩ := hlines first List.mem_cons_self
                exact ⟨c :: front, d, rfl, hd, List.forall_mem_cons.2 ⟨hc, hfront⟩⟩
              · exact hlines line (List.mem_cons_of_mem _ hline)

theorem readline_line {line : Str} (h : IsLine line) (rest : Str) :
    readline (line ++ rest) = (line, rest, true) := by
  obtain ⟨text, c, rfl, hc, htext⟩ := h
  induction text with
  | nil => exact if_pos hc
  | cons d text ih =>
      obtain ⟨hd, htext⟩ := List.forall_mem_cons.1 htext
      rw [List.cons_append, List.cons_append, readline, hd, ih htext]
      rfl

theorem readline_last {last : Str} (h : ∀ d ∈ last, isEol d = false) :
    readline last = (last, [], false) := by
  induction last with
  | nil => rfl
  | cons d last ih =>
      obtain ⟨hd, hlast⟩ := List.forall_mem_cons.1 h
      rw [readline, hd, ih hlast]
      rfl

/-- A handler sees the lines one after another, and what is behind them without tokens. -/
theorem process_lines {σ : Type} (signed : Bool) (handler : Handler σ) {lines : List Str}
    {last : Str} (hlines : ∀ line ∈ lines, IsLine line) (hlast : ∀ d ∈ last, isEol d = false)
    (s : σ) :
    MultipathConf.process signed handler (lines.flatten ++ last) s =
      handler (lines.foldl (fun s line => handler s line (tokensOf signed line)) s) last [] := by
  unfold MultipathConf.process
  induction lines generalizing s with
  | nil =>
      have hdone : (processLoop signed handler).step (last, s) = .done (handler s last []) := by
        simp only [processLoop, readline_last hlast]
        rfl
      exact (processLoop signed handler).eval_done hdone
  | cons line lines ih =>
      obtain ⟨hline, hlines⟩ := List.forall_mem_cons.1 hlines
      have hnext : (processLoop signed handler).step ((line :: lines).flatten ++ last, s) =
          .next (lines.flatten ++ last, handler s line (tokensOf signed line)) := by
        simp only [processLoop, List.flatten_cons, List.append_assoc, readline_line hline]
        rfl
      rw [(processLoop signed handler).eval_next hnext, ih hlines]
      rfl

/-! ## First tokens -/

def firstToken (signed : Bool) (line : Str) : Option Str :=
  (tokensOf signed line).head?

/-- A round puts a token behind the others, or ends with them. -/
theorem tokenStep_tokens (signed : Bool) (s : Tokenizing) :
    tokenStep signed s = .done s.tokens ∨
      ∃ s' token, tokenStep signed s = .next s' ∧ s'.tokens = s.tokens ++ [token] := by
  unfold tokenStep
  cases s.rest.dropWhile (skipped signed) with
  | nil => exact Or.inl rfl
  | cons c behind =>
      dsimp only
      split
      · exact Or.inl rfl
      · split
        · exact Or.inr ⟨_, _, rfl, rfl⟩
        · split
          · exact Or.inr ⟨_, _, rfl, rfl⟩
          · exact Or.inr ⟨_, _, rfl, rfl⟩

/-- The first round of a line that begins with `c`. -/
theorem tokenStep_first {signed : Bool} {line behind : Str} {c : UInt8}
    (h : line.dropWhile (skipped signed) = c :: behind) :
    (inToken signed false c = true → ∃ s', tokenStep signed ⟨line, false, []⟩ = .next s' ∧
      s'.tokens = [(c :: behind).takeWhile (inToken signed false)]) ∧
    (inToken signed false c = false → tokenStep signed ⟨line, false, []⟩ = .done [] ∨
      ∃ s', tokenStep signed ⟨line, false, []⟩ = .next s' ∧ s'.tokens = [[c]]) := by
  have hnone : ∀ {d}, d = 0 ∨ d = hash ∨ d = bang ∨ d = dquote ∨ d = lbrace ∨ d = rbrace →
      inToken signed false d = false := by
    rintro d (rfl | rfl | rfl | rfl | rfl | rfl) <;> simp [inToken]
  unfold tokenStep
  rw [h]
  dsimp only
  by_cases hend : c = 0 ∨ c = hash ∨ c = bang
  · rw [if_pos hend]
    refine ⟨fun hin => ?_, fun _ => Or.inl rfl⟩
    rw [hnone (by tauto)] at hin
    cases hin
  rw [if_neg hend]
  by_cases hquote : c = dquote
  · rw [if_pos hquote]
    refine ⟨fun hin => ?_, fun _ => Or.inr ⟨_, rfl, rfl⟩⟩
    rw [hnone (by tauto)] at hin
    cases hin
  rw [if_neg hquote]
  by_cases hgroup : false = false ∧ (c = lbrace ∨ c = rbrace)
  · rw [if_pos hgroup]
    refine ⟨fun hin => ?_, fun _ => Or.inr ⟨_, rfl, rfl⟩⟩
    rw [hnone (by tauto)] at hin
    cases hin
  · rw [if_neg hgroup]
    refine ⟨fun _ => ⟨_, rfl, rfl⟩, fun hout => ?_⟩
    -- white space has been skipped
    have hblank : skipped signed c = false := by
      have hhead := List.head?_dropWhile_not (skipped signed) line
      rw [h] at hhead
      simpa using hhead
    rw [inToken_of_reached hblank hend hquote hgroup] at hout
    cases hout

/-- The first token stays the first. -/
theorem head?_tokenLoop {signed : Bool} {token : Str} {s : Tokenizing}
    (h : s.tokens.head? = some token) : ((tokenLoop signed).eval s).head? = some token := by
  obtain ⟨t, hreach, hdone⟩ := Loop.exists_last (L := tokenLoop signed) s
  have hinv : t.tokens.head? = some token := by
    refine hreach.invariant (I := fun t => t.tokens.head? = some token) h ?_
    intro t t' ht hnext
    rcases tokenStep_tokens signed t with hdone | ⟨t'', token', hnext', htokens⟩
    · rw [show tokenStep signed t = .next t' from hnext] at hdone
      cases hdone
    · obtain rfl : t' = t'' := Step.next.inj (hnext.symm.trans hnext')
      rw [htokens, List.head?_append, ht, Option.some_or]
  rcases tokenStep_tokens signed t with hlast | ⟨t', _, hnext, _⟩
  · rwa [Step.done.inj (hdone.symm.trans hlast)]
  · rw [show tokenStep signed t = _ from hdone] at hnext
    cases hnext

/-- A keyword is the first token of a line if it comes first behind the white space, and ends where
a token ends. -/
theorem firstToken_eq_some_iff {signed : Bool} {line word : Str} (hne : word ≠ [])
    (hword : ∀ c ∈ word, inToken signed false c = true) :
    firstToken signed line = some word ↔
      ∃ tail, line.dropWhile (skipped signed) = word ++ tail ∧
        Stops (inToken signed false) tail := by
  -- the first character of a keyword is none of those that are tokens of their own
  have hfirst : ∀ {c behind tail}, c :: behind = word ++ tail → inToken signed false c = true := by
    intro c behind tail heq
    obtain ⟨d, rest, rfl⟩ := List.exists_cons_of_ne_nil hne
    rw [(List.cons.inj heq).1]
    exact hword d List.mem_cons_self
  unfold firstToken tokensOf
  cases hrest : line.dropWhile (skipped signed) with
  | nil =>
      have hdone : tokenStep signed ⟨line, false, []⟩ = .done [] := by
        simp only [tokenStep, hrest]
      rw [(tokenLoop signed).eval_done hdone]
      refine iff_of_false nofun ?_
      rintro ⟨tail, heq, _⟩
      exact hne (List.append_eq_nil_iff.1 heq.symm).1
  | cons c behind =>
      have hstep := tokenStep_first hrest
      cases hin : inToken signed false c with
      | false =>
          have hno : ¬∃ tail, c :: behind = word ++ tail ∧ Stops (inToken signed false) tail := by
            rintro ⟨tail, heq, _⟩
            rw [hfirst heq] at hin
            cases hin
          refine iff_of_false ?_ hno
          rcases hstep.2 hin with hdone | ⟨s', hnext, htokens⟩
          · rw [(tokenLoop signed).eval_done hdone]
            exact nofun
          · have hhead : s'.tokens.head? = some [c] := by
              rw [htokens]
              rfl
            rw [(tokenLoop signed).eval_next hnext, head?_tokenLoop hhead]
            intro heq
            rw [← Option.some.inj heq] at hword
            rw [hword c List.mem_cons_self] at hin
            cases hin
      | true =>
          obtain ⟨s', hnext, htokens⟩ := hstep.1 hin
          have hhead : s'.tokens.head? =
              some ((c :: behind).takeWhile (inToken signed false)) := by
            rw [htokens]
            rfl
          rw [(tokenLoop signed).eval_next hnext, head?_tokenLoop hhead, Option.some_inj]
          constructor
          · intro heq
            refine ⟨(c :: behind).dropWhile (inToken signed false), ?_, stops_dropWhile _ _⟩
            rw [← heq, List.takeWhile_append_dropWhile]
          · rintro ⟨tail, heq, htail⟩
            rw [heq, takeWhile_scan hword htail]

/-! ## What is inserted -/

def blacklistEntries : List Str :=
  [str "\twwid \".*\"\n"]

def exceptionEntries (m_exceptions : List Str) : List Str :=
  m_exceptions.map fun it => str "\t" ++ it ++ str "\n"

/-- What is inserted behind a line. -/
def entriesBehind (signed : Bool) (m_exceptions : List Str) (line : Str) : List Str :=
  if firstToken signed line = some (str "blacklist") then blacklistEntries
  else if firstToken signed line = some (str "blacklist_exceptions") then
    exceptionEntries m_exceptions
  else []

/-- A section of its own. -/
def sectionOf (keyword : Str) (entries : List Str) : Str :=
  keyword ++ str " \x7b\n" ++ entries.flatten ++ str "\x7d\n"

/-- No line begins with the keyword. -/
def Absent (signed : Bool) (keyword : Str) (lines : List Str) : Prop :=
  ∀ line ∈ lines, firstToken signed line ≠ some keyword

instance (signed : Bool) (keyword : Str) (lines : List Str) :
    Decidable (Absent signed keyword lines) :=
  inferInstanceAs (Decidable (∀ line ∈ lines, firstToken signed line ≠ some keyword))

/-- A line more. -/
theorem not_absent_cons (signed : Bool) (keyword line : Str) (lines : List Str) :
    (!decide (Absent signed keyword (line :: lines))) =
      (firstToken signed line == some keyword || !decide (Absent signed keyword lines)) := by
  have hcons : Absent signed keyword (line :: lines) ↔
      firstToken signed line ≠ some keyword ∧ Absent signed keyword lines := List.forall_mem_cons
  by_cases hline : firstToken signed line = some keyword
  · simp [hcons, hline]
  · simp [hcons, hline]

theorem keywords_ne : str "blacklist" ≠ str "blacklist_exceptions" := by
  decide

/-- What is inserted in front of the file. -/
def front (signed : Bool) (m_exceptions : List Str) (lines : List Str) : Str :=
  (if Absent signed (str "blacklist") lines then
    sectionOf (str "blacklist") blacklistEntries else []) ++
  (if Absent signed (str "blacklist_exceptions") lines then
    sectionOf (str "blacklist_exceptions") (exceptionEntries m_exceptions) else [])

/-! ## The output -/

namespace AddBlacklistHandler

variable (m_exceptions : List Str)

theorem foldl_addLine (entries : List Str) (h : AddBlacklistHandler) :
    entries.foldl addLine h = { h with m_lines := h.m_lines ++ entries } := by
  induction entries generalizing h with
  | nil => simp
  | cons entry entries ih =>
      rw [List.foldl_cons, ih]
      simp [addLine]

theorem foldl_outputLine (entries : List Str) (h : AddBlacklistHandler) :
    entries.foldl outputLine h = { h with m_output := h.m_output ++ entries.flatten } := by
  induction entries generalizing h with
  | nil => simp
  | cons entry entries ih =>
      rw [List.foldl_cons, ih]
      simp [outputLine]

theorem doExceptions_eq (handler : LineHandler) (h : AddBlacklistHandler) :
    h.doExceptions m_exceptions handler =
      { (exceptionEntries m_exceptions).foldl handler h with m_exceptions_done := true } := by
  rw [doExceptions, exceptionEntries, List.foldl_map]

/-- Only the first token counts. -/
theorem process_head (h : AddBlacklistHandler) (raw : Str) (tokens : List Str) :
    process m_exceptions h raw tokens =
      if tokens.head? = some (str "blacklist") then (h.addLine raw).doBlacklist addLine
      else if tokens.head? = some (str "blacklist_exceptions") then
        (h.addLine raw).doExceptions m_exceptions addLine
      else h.addLine raw := by
  cases tokens with
  | nil => rfl
  | cons token tokens => simp only [process, List.head?_cons, Option.some_inj]

/-- What a line does to the handler. -/
theorem process_tokens (signed : Bool) (h : AddBlacklistHandler) (line : Str) :
    process m_exceptions h line (tokensOf signed line) =
      { m_output := h.m_output
        m_lines := h.m_lines ++ line :: entriesBehind signed m_exceptions line
        m_blacklist_done :=
          h.m_blacklist_done || firstToken signed line == some (str "blacklist")
        m_exceptions_done :=
          h.m_exceptions_done || firstToken signed line == some (str "blacklist_exceptions") } := by
  rw [process_head, ← firstToken, entriesBehind]
  by_cases hblacklist : firstToken signed line = some (str "blacklist")
  · rw [if_pos hblacklist, if_pos hblacklist, hblacklist]
    simp [doBlacklist, addLine, blacklistEntries, keywords_ne]
  · rw [if_neg hblacklist, if_neg hblacklist]
    by_cases hexceptions : firstToken signed line = some (str "blacklist_exceptions")
    · rw [if_pos hexceptions, if_pos hexceptions, hexceptions, doExceptions_eq, foldl_addLine]
      simp [addLine, keywords_ne.symm]
    · rw [if_neg hexceptions, if_neg hexceptions]
      simp [addLine, hblacklist, hexceptions]

/-- What the lines do. -/
theorem foldl_process (signed : Bool) (lines : List Str) (h : AddBlacklistHandler) :
    lines.foldl (fun h line => process m_exceptions h line (tokensOf signed line)) h =
      { m_output := h.m_output
        m_lines := h.m_lines ++
          lines.flatMap fun line => line :: entriesBehind signed m_exceptions line
        m_blacklist_done := h.m_blacklist_done || !decide (Absent signed (str "blacklist") lines)
        m_exceptions_done :=
          h.m_exceptions_done || !decide (Absent signed (str "blacklist_exceptions") lines) } := by
  induction lines generalizing h with
  | nil => simp [Absent]
  | cons line lines ih =>
      rw [List.foldl_cons, ih, process_tokens]
      simp [not_absent_cons, Bool.or_assoc]

/-- What the destructor writes. -/
theorem destroy_eq (h : AddBlacklistHandler) :
    h.destroy m_exceptions =
      h.m_output ++
        (if h.m_blacklist_done then [] else sectionOf (str "blacklist") blacklistEntries) ++
        (if h.m_exceptions_done then []
          else sectionOf (str "blacklist_exceptions") (exceptionEntries m_exceptions)) ++
        h.m_lines.flatten := by
  have hfold : ∀ (lines : List Str) (m_output : Str),
      lines.foldl (· ++ ·) m_output = m_output ++ lines.flatten := by
    intro lines
    induction lines with
    | nil => simp
    | cons line lines ih => simp [ih]
  have hopen : str "blacklist" ++ str " \x7b\n" = str "blacklist \x7b\n" := rfl
  have hopen' : str "blacklist_exceptions" ++ str " \x7b\n" =
      str "blacklist_exceptions \x7b\n" := rfl
  obtain ⟨m_output, m_lines, m_blacklist_done, m_exceptions_done⟩ := h
  unfold destroy sectionOf
  dsimp only
  rw [hfold, hopen, hopen', doExceptions_eq, foldl_outputLine]
  cases m_blacklist_done <;> cases m_exceptions_done <;>
    simp [outputLine, doBlacklist, blacklistEntries]

end AddBlacklistHandler

/-- The configuration is copied byte for byte.  A section is put in front of it, once, if no line
that is ended by CR or LF begins with its keyword; otherwise its entries are put behind each such
line.  Every round of the tokenizer consumes a character. -/
theorem filter_correct (signed : Bool) (m_exceptions : List Str) (input : Str) :
    execute signed m_exceptions input =
      front signed m_exceptions (splitLines input).1 ++
        ((splitLines input).1.flatMap fun line =>
          line ++ (entriesBehind signed m_exceptions line).flatten) ++ (splitLines input).2 ∧
    (splitLines input).1.flatten ++ (splitLines input).2 = input ∧
    (∀ line ∈ (splitLines input).1, IsLine line) ∧ (∀ d ∈ (splitLines input).2, isEol d = false) ∧
    ∀ s s', tokenStep signed s = .next s' → s'.rest.length < s.rest.length := by
  obtain ⟨happend, hlines, hlast⟩ := splitLines_spec input
  refine ⟨?_, happend, hlines, hlast, fun s s' => tokenStep_consumes⟩
  have hflatten : ∀ lines : List Str,
      (lines.flatMap fun line => line :: entriesBehind signed m_exceptions line).flatten =
        lines.flatMap fun line => line ++ (entriesBehind signed m_exceptions line).flatten := by
    intro lines
    induction lines with
    | nil => rfl
    | cons line lines ih => simp [ih]
  unfold execute front
  conv_lhs => rw [← happend]
  rw [process_lines signed _ hlines hlast, AddBlacklistHandler.foldl_process,
    AddBlacklistHandler.destroy_eq]
  simp [AddBlacklistHandler.process, AddBlacklistHandler.addLine, AddBlacklistHandler.new, hflatten]

/-- An entry in a section that is there already, and a section that is not. -/
example : execute true [str "wwid x"] (str "blacklist \x7b\n\x7d") =
    str "blacklist_exceptions \x7b\n\twwid x\n\x7d\nblacklist \x7b\n\twwid \".*\"\n\x7d" := by
  decide

end Multipath
end Kdump

import Kdump.Load.RemoveOption

/-!
# Parameters — the parameters of a command line, and those the load script sees

White space ends a parameter unless it is between quotes; an open quote goes on to the end of the
line.  A parameter is taken with the white space in front of it, and white space at the end of the
line makes a parameter without text.

* `parameters` — the parameters of a line;
* `seen` — what the `awk` program takes for parameters;
* `eval_removeLoop` — the program keeps or drops each of these;
* `seen_kept` — it sees the same ones in its own output.
-/

namespace Kdump
namespace Load

open Lib Lib.Regex Config

/-! ## The parameters of a line -/

/-- What belongs to the current parameter, and the parameters behind it.  The flags tell whether
its word has begun, and whether a quote is open. -/
def cutParameter : Bool → Bool → Str → Str × List Str
  | _, _, [] => ([], [])
  | inWord, inside, c :: text =>
      if inWord && !inside && isSpace c then
        let next := cutParameter false false text
        ([], (c :: next.1) :: next.2)
      else
        let current := cutParameter (inWord || !isSpace c) (inside != (c == dquote)) text
        (c :: current.1, current.2)

/-- The parameters, each with the white space in front of it. -/
def parameters (line : Str) : List Str :=
  if line.isEmpty then []
  else (cutParameter false false line).1 :: (cutParameter false false line).2

/-- `raw` is one of the names, or one of them with a value. -/
def IsNamed (names : List Str) (raw : Str) : Prop :=
  ∃ name ∈ names, raw = name ∨ name ++ [eqSign] <+: raw

instance (names : List Str) (raw : Str) : Decidable (IsNamed names raw) :=
  inferInstanceAs (Decidable (∃ name ∈ names, _))

/-- The parameter is to be removed: its text without the quotes is an option of that name. -/
def Removable (names : List Str) (parameter : Str) : Prop :=
  IsNamed names (unquote (parameter.dropWhile isSpace))

instance (names : List Str) (parameter : Str) : Decidable (Removable names parameter) :=
  inferInstanceAs (Decidable (IsNamed _ _))

/-- The regular expression for the option. -/
theorem isOption_iff {names : List Str} {raw : Str} :
    isOption names raw = true ↔ IsNamed names raw := by
  rw [isOption, longest_isSome_iff]
  constructor
  · rintro ⟨front, rest, rfl, h⟩
    rw [Bool.and_eq_true, accepts_iff, mem_alternation_iff, Bool.or_eq_true] at h
    refine ⟨front, h.1, ?_⟩
    cases rest with
    | nil => exact Or.inl (List.append_nil front)
    | cons c rest =>
        have hc : c = eqSign := by simpa using h.2
        subst hc
        exact Or.inr ⟨rest, by rw [List.append_assoc]; rfl⟩
  · rintro ⟨name, hname, rfl | ⟨rest, rfl⟩⟩
    · refine ⟨raw, [], List.append_nil raw, ?_⟩
      rw [Bool.and_eq_true, accepts_iff, mem_alternation_iff]
      exact ⟨hname, rfl⟩
    · refine ⟨name, eqSign :: rest, by rw [List.append_assoc]; rfl, ?_⟩
      rw [Bool.and_eq_true, accepts_iff, mem_alternation_iff]
      exact ⟨hname, rfl⟩

section

variable {inWord inside : Bool} {b u rest text line : Str}

theorem cutParameter_flatten : (cutParameter inWord inside text).1 ++
    (cutParameter inWord inside text).2.flatten = text := by
  induction text generalizing inWord inside with
  | nil => rfl
  | cons c text ih =>
      rw [cutParameter]
      split
      · exact congrArg (c :: ·) ih
      · exact congrArg (c :: ·) ih

theorem ne_nil_of_mem_cutParameter : ∀ p ∈ (cutParameter inWord inside text).2, p ≠ [] := by
  induction text generalizing inWord inside with
  | nil =>
      intro p hp
      cases hp
  | cons c text ih =>
      rw [cutParameter]
      split
      · intro p hp
        rcases List.mem_cons.1 hp with rfl | hp
        · exact List.cons_ne_nil _ _
        · exact ih p hp
      · exact ih

theorem cutParameter_blank (hb : Blank b) (text : Str) : cutParameter false false (b ++ text) =
    (b ++ (cutParameter false false text).1, (cutParameter false false text).2) := by
  induction b with
  | nil => rfl
  | cons c b ih =>
      have hc := hb c List.mem_cons_self
      have hquote : (c == dquote) = false := by
        refine beq_false_of_ne ?_
        rintro rfl
        exact absurd hc (by decide)
      rw [List.cons_append, cutParameter, hc, hquote, Bool.false_and, Bool.false_and,
        if_neg Bool.false_ne_true, Bool.not_true, Bool.or_false, bne_self_eq_false,
        ih fun d hd => hb d (List.mem_cons_of_mem _ hd)]
      rfl

theorem cutParameter_plain (hne : u ≠ []) (hu : Plain u) : cutParameter inWord false (u ++ text) =
    (u ++ (cutParameter true false text).1, (cutParameter true false text).2) := by
  induction u generalizing inWord with
  | nil => exact absurd rfl hne
  | cons c u ih =>
      have hc := hu c List.mem_cons_self
      have hrest : cutParameter true false (u ++ text) =
          (u ++ (cutParameter true false text).1, (cutParameter true false text).2) := by
        by_cases hnil : u = []
        · subst hnil
          rfl
        · exact ih hnil fun d hd => hu d (List.mem_cons_of_mem _ hd)
      rw [List.cons_append, cutParameter, isSpace_of_isPlain hc,
        beq_false_of_ne (ne_dquote_of_isPlain hc), Bool.and_false, if_neg Bool.false_ne_true,
        Bool.not_false, Bool.or_true, bne_self_eq_false, hrest]
      rfl

/-- White space behind a word begins the next parameter. -/
theorem cutParameter_ends (hrest : WordEnds rest) :
    cutParameter true false rest = ([], parameters rest) := by
  cases rest with
  | nil => rfl
  | cons c rest =>
      have hc : isSpace c = true := by simpa using stops_cons.1 hrest
      have hblank : Blank [c] := fun d hd => List.mem_singleton.1 hd ▸ hc
      have hfirst := cutParameter_blank hblank rest
      rw [List.singleton_append] at hfirst
      rw [parameters, hfirst, cutParameter, hc]
      rfl

theorem parameters_of_ne (h : line ≠ []) : parameters line =
    (cutParameter false false line).1 :: (cutParameter false false line).2 :=
  if_neg fun hnil => h (List.isEmpty_iff.1 hnil)

theorem flatten_parameters (line : Str) : (parameters line).flatten = line := by
  by_cases h : line = []
  · subst h
    rfl
  · rw [parameters_of_ne h, List.flatten_cons, cutParameter_flatten]

theorem parameters_blank (hb : Blank b) (hne : b ≠ []) : parameters b = [b] := by
  have hcut := cutParameter_blank hb []
  rw [List.append_nil] at hcut
  rw [parameters_of_ne hne, hcut]
  exact congrArg (· :: []) (List.append_nil b)

theorem parameters_plain (hb : Blank b) (hne : u ≠ []) (hu : Plain u) (hrest : WordEnds rest) :
    parameters (b ++ (u ++ rest)) = (b ++ u) :: parameters rest := by
  rw [parameters_of_ne (plain_ne_nil hne), cutParameter_blank hb, cutParameter_plain hne hu,
    cutParameter_ends hrest, List.append_nil]

theorem parameters_quoted (hb : Blank b) (hu : Plain u) (rest : Str) :
    ∃ w behind, parameters (b ++ (u ++ dquote :: rest)) = (b ++ (u ++ dquote :: w)) :: behind ∧
      (w ++ behind.flatten = rest) := by
  have hquote : ∀ inWord, cutParameter inWord false (dquote :: rest) =
      (dquote :: (cutParameter true true rest).1, (cutParameter true true rest).2) := by
    intro inWord
    rw [cutParameter, show isSpace dquote = false by decide, Bool.and_false,
      if_neg Bool.false_ne_true, Bool.not_false, Bool.or_true]
    rfl
  -- the quote opens in the middle of the word, or with it
  have hword : cutParameter false false (u ++ dquote :: rest) =
      (u ++ dquote :: (cutParameter true true rest).1, (cutParameter true true rest).2) := by
    by_cases hne : u = []
    · subst hne
      exact hquote false
    · rw [cutParameter_plain hne hu, hquote true]
  refine ⟨(cutParameter true true rest).1, (cutParameter true true rest).2, ?_,
    cutParameter_flatten⟩
  rw [parameters_of_ne quoted_ne_nil, cutParameter_blank hb, hword]

theorem ne_nil_of_mem_parameters : ∀ p ∈ parameters line, p ≠ [] := by
  cases line with
  | nil =>
      intro p hp
      cases hp
  | cons c line =>
      intro p hp
      rw [parameters_of_ne (List.cons_ne_nil _ _)] at hp
      rcases List.mem_cons.1 hp with rfl | hp
      · rw [cutParameter, Bool.false_and, Bool.false_and, if_neg Bool.false_ne_true]
        exact List.cons_ne_nil _ _
      · exact ne_nil_of_mem_cutParameter p hp

end

/-! ## What the program sees -/

/-- A line is taken apart as the program does it. -/
theorem record_induction {P : Str → Prop} (blank : ∀ b, Blank b → P b)
    (plain : ∀ b u rest, Blank b → u ≠ [] → Plain u → WordEnds rest → P rest → P (b ++ (u ++ rest)))
    (quoted : ∀ b u rest, Blank b → Plain u → P (b ++ (u ++ dquote :: rest))) (line : Str) :
    P line := by
  induction hn : line.length using Nat.strong_induction_on generalizing line with
  | _ n ih =>
      cases shape line with
      | blank hb => exact blank _ hb
      | plain hb hne hu hrest =>
          have hpos := List.length_pos_iff.2 hne
          refine plain _ _ _ hb hne hu hrest (ih _ ?_ _ rfl)
          rw [← hn]
          simp only [List.length_append]
          omega
      | quoted hb hu => exact quoted _ _ _ hb hu

/-- No quotes. -/
def isUnquoted (parameter : Str) : Bool :=
  decide (dquote ∉ parameter)

/-- The parameters before the first one with a quote. -/
def plainFront (line : Str) : List Str :=
  (parameters line).takeWhile isUnquoted

/-- The first parameter with a quote, and those behind it. -/
def quotedRest (line : Str) : List Str :=
  (parameters line).dropWhile isUnquoted

/-- The program sees the parameters before the first quote, and what is left as one parameter. -/
def seen (line : Str) : List Str :=
  plainFront line ++ if (quotedRest line).isEmpty then [] else [(quotedRest line).flatten]

section

variable {b u rest line : Str} {names : List Str}

theorem isUnquoted_blank (hb : Blank b) : isUnquoted b = true := by
  rw [isUnquoted, decide_eq_true_eq]
  intro hmem
  exact absurd (hb dquote hmem) (by decide)

theorem isUnquoted_plain (hb : Blank b) (hu : Plain u) : isUnquoted (b ++ u) = true := by
  rw [isUnquoted, decide_eq_true_eq, List.mem_append]
  rintro (hmem | hmem)
  · exact absurd (hb dquote hmem) (by decide)
  · exact ne_dquote_of_isPlain (hu dquote hmem) rfl

theorem isUnquoted_quoted (w : Str) : isUnquoted (b ++ (u ++ dquote :: w)) = false := by
  rw [isUnquoted, decide_eq_false_iff_not, not_not]
  exact List.mem_append_right _ (List.mem_append_right _ List.mem_cons_self)

theorem seen_blank (hb : Blank b) (hne : b ≠ []) : seen b = [b] := by
  rw [seen, plainFront, quotedRest, parameters_blank hb hne,
    List.takeWhile_cons_of_pos (isUnquoted_blank hb),
    List.dropWhile_cons_of_pos (isUnquoted_blank hb)]
  rfl

theorem seen_plain (hb : Blank b) (hne : u ≠ []) (hu : Plain u) (hrest : WordEnds rest) :
    seen (b ++ (u ++ rest)) = (b ++ u) :: seen rest := by
  rw [seen, plainFront, quotedRest, parameters_plain hb hne hu hrest,
    List.takeWhile_cons_of_pos (isUnquoted_plain hb hu),
    List.dropWhile_cons_of_pos (isUnquoted_plain hb hu)]
  rfl

theorem seen_quoted (hb : Blank b) (hu : Plain u) :
    seen (b ++ (u ++ dquote :: rest)) = [b ++ (u ++ dquote :: rest)] := by
  obtain ⟨w, behind, hparams, hbehind⟩ := parameters_quoted hb hu rest
  have hfalse : ¬ isUnquoted (b ++ (u ++ dquote :: w)) = true := by
    rw [isUnquoted_quoted]
    exact Bool.false_ne_true
  have hflatten := flatten_parameters (b ++ (u ++ dquote :: rest))
  rw [hparams] at hflatten
  rw [seen, plainFront, quotedRest, hparams, List.takeWhile_cons_of_neg hfalse,
    List.dropWhile_cons_of_neg hfalse, hflatten]
  rfl

theorem flatten_seen (line : Str) : (seen line).flatten = line := by
  induction line using record_induction with
  | blank b hb =>
      by_cases hne : b = []
      · subst hne
        rfl
      · rw [seen_blank hb hne, List.flatten_singleton]
  | plain b u rest hb hne hu hrest ih =>
      rw [seen_plain hb hne hu hrest, List.flatten_cons, ih, List.append_assoc]
  | quoted b u rest hb hu => rw [seen_quoted hb hu, List.flatten_singleton]

/-! ## What the program keeps -/

/-- The parameters that the program prints. -/
def kept (names : List Str) (params : List Str) : List Str :=
  params.filter fun p => ¬ Removable names p

theorem kept_cons_of_removable {p : Str} {params : List Str} (h : Removable names p) :
    kept names (p :: params) = kept names params :=
  List.filter_cons_of_neg (by simpa using h)

theorem kept_cons {p : Str} {params : List Str} (h : ¬ Removable names p) :
    kept names (p :: params) = p :: kept names params :=
  List.filter_cons_of_pos (by simpa using h)

theorem kept_cons_append (p : Str) (params : List Str) :
    kept names (p :: params) = kept names [p] ++ kept names params :=
  List.filter_append [p] params

/-- A pass over what the program sees next. -/
theorem eval_pass {record blank parameter : Str} {acc : Str} (hne : record ≠ [])
    (htake : takeParameter record = (blank, parameter, rest)) (hblank : Blank blank)
    (hword : Stops isSpace parameter) :
    (removeLoop names).eval ⟨record, acc⟩ =
      (removeLoop names).eval ⟨rest, acc ++ (kept names [blank ++ parameter]).flatten⟩ := by
  have hdrop : (blank ++ parameter).dropWhile isSpace = parameter := dropWhile_scan hblank hword
  have hempty : record.isEmpty = false := by
    cases record with
    | nil => exact absurd rfl hne
    | cons c record => rfl
  apply Loop.eval_next
  change removeStep names ⟨record, acc⟩ = _
  unfold removeStep
  rw [if_neg (by rw [hempty]; exact Bool.false_ne_true), htake]
  by_cases hremove : Removable names (blank ++ parameter)
  · -- nothing is printed for the parameter
    have hopt : isOption names (unquote parameter) = true := by
      rw [isOption_iff, ← hdrop]
      exact hremove
    rw [kept_cons_of_removable hremove]
    simp only [hopt, if_true, kept, List.filter_nil, List.flatten_nil, List.append_nil]
  · have hopt : ¬ isOption names (unquote parameter) = true := by
      rw [isOption_iff, ← hdrop]
      exact hremove
    rw [kept_cons hremove]
    simp only [hopt, if_false, kept, List.filter_nil, List.flatten_singleton, Bool.false_eq_true]

theorem eval_end (acc : Str) : (removeLoop names).eval ⟨[], acc⟩ = acc ++ [newline] :=
  Loop.eval_done _ rfl

/-- The program prints what it sees, without the options of that name. -/
theorem eval_removeLoop (acc : Str) : (removeLoop names).eval ⟨line, acc⟩ =
    acc ++ ((kept names (seen line)).flatten ++ [newline]) := by
  induction line using record_induction generalizing acc with
  | blank b hb =>
      by_cases hne : b = []
      · subst hne
        exact eval_end acc
      · rw [eval_pass hne (takeParameter_blank hb) hb stops_nil, eval_end, List.append_nil,
          seen_blank hb hne, List.append_assoc]
  | plain b u rest hb hne hu hrest ih =>
      have hword := stops_of_plain hne hu []
      rw [List.append_nil] at hword
      rw [eval_pass (plain_ne_nil hne) (takeParameter_plain hb hne hu hrest) hb hword, ih,
        seen_plain hb hne hu hrest, kept_cons_append (b ++ u) (seen rest), List.flatten_append,
        List.append_assoc, List.append_assoc]
  | quoted b u rest hb hu =>
      rw [eval_pass quoted_ne_nil (takeParameter_quoted hb hu) hb (stops_of_quoted hu rest),
        eval_end, seen_quoted hb hu, List.append_assoc]

/-! ## Its own output -/

/-- What is seen behind a word begins with white space. -/
theorem wordEnds_of_mem_seen (hline : WordEnds line) : ∀ p ∈ seen line, p ≠ [] ∧ WordEnds p := by
  induction line using record_induction with
  | blank b hb =>
      by_cases hne : b = []
      · subst hne
        intro p hp
        cases hp
      · rw [seen_blank hb hne]
        intro p hp
        rw [List.mem_singleton.1 hp]
        exact ⟨hne, hline⟩
  | plain b u rest hb hne hu hrest ih =>
      rw [seen_plain hb hne hu hrest]
      intro p hp
      rcases List.mem_cons.1 hp with rfl | hp
      · have hword : b ++ u ≠ [] := fun hnil => hne (List.append_eq_nil_iff.1 hnil).2
        rw [← List.append_assoc] at hline
        exact ⟨hword, (stops_append hword).1 hline⟩
      · exact ih hrest p hp
  | quoted b u rest hb hu =>
      rw [seen_quoted hb hu]
      intro p hp
      rw [List.mem_singleton.1 hp]
      exact ⟨quoted_ne_nil, hline⟩

/-- The program sees what it has kept. -/
theorem seen_kept (line : Str) :
    seen (kept names (seen line)).flatten = kept names (seen line) := by
  induction line using record_induction with
  | blank b hb =>
      by_cases hne : b = []
      · subst hne
        rfl
      · rw [seen_blank hb hne]
        by_cases hremove : Removable names b
        · rw [kept_cons_of_removable hremove]
          rfl
        · rw [kept_cons hremove]
          exact (congrArg seen List.flatten_singleton).trans (seen_blank hb hne)
  | plain b u rest hb hne hu hrest ih =>
      rw [seen_plain hb hne hu hrest]
      by_cases hremove : Removable names (b ++ u)
      · rw [kept_cons_of_removable hremove, ih]
      · rw [kept_cons hremove]
        -- what is kept behind the word still begins with white space
        have hends : WordEnds (kept names (seen rest)).flatten := by
          cases hkept : kept names (seen rest) with
          | nil => exact stops_nil
          | cons p params =>
              have hmem : p ∈ kept names (seen rest) := hkept ▸ List.mem_cons_self
              obtain ⟨hp, hstop⟩ := wordEnds_of_mem_seen hrest p (List.mem_of_mem_filter hmem)
              exact (stops_append hp).2 hstop
        rw [List.flatten_cons, List.append_assoc, seen_plain hb hne hu hends, ih]
  | quoted b u rest hb hu =>
      rw [seen_quoted hb hu]
      by_cases hremove : Removable names (b ++ (u ++ dquote :: rest))
      · rw [kept_cons_of_removable hremove]
        rfl
      · rw [kept_cons hremove]
        exact (congrArg seen List.flatten_singleton).trans (seen_quoted hb hu)

end

end Load
end Kdump

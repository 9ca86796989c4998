import Kdump.Lib.Scan
import Kdump.Bootloader.BootLoader
import Kdump.Config.KernelParameters

/-!
# Words — what the Perl program finds on a command line

* `IsWord`, `words` — the words of a command line, as the kernel parser separates them;
* `pieces_word` — the pattern of the Perl program matches one word;
* `eval_words` — the loop takes a command line word by word;
* `eval_kept` — and keeps the words that are not for fadump.
-/

namespace Kdump
namespace Bootloader

open Lib Config Config.KernelConfigParser Config.KernelConfigParser.Locals

/-! ## Words -/

/-- A piece of a command line with no white space but in quotes. -/
structure IsWord (w : Str) : Prop where
  ne_nil : w ≠ []
  unseparated : Unseparated false w
  balanced : Balanced w

/-- The words of a command line. -/
def words (t : Str) : List Str :=
  (parameters false [] t).filter (· ≠ [])

/-- The name of a parameter: what is in front of the first `=`, without the quotes. -/
def parameterName (w : Str) : Str :=
  (w.filter (· ≠ dquote)).takeWhile (· ≠ eqSign)

/-- `fadump` and the options of the configuration. -/
def isFadumpName (n : Str) : Bool :=
  n = str "fadump" || (str "KDUMP_").isPrefixOf n || (str "KDUMPTOOL_").isPrefixOf n ||
    (str "MAKEDUMPFILE_").isPrefixOf n

/-- The words that are replaced. -/
def isFadumpWord (w : Str) : Bool :=
  isFadumpName (parameterName w)

theorem is_kernel_space_of_isSpace {c : UInt8} (h : isSpace c = true) :
    is_kernel_space c = true := by
  unfold isSpace at h
  unfold is_kernel_space
  rw [h, Bool.true_or]

theorem unseparated_append_iff {a b : Str} : ∀ {q : Bool},
    Unseparated q (a ++ b) ↔ Unseparated q a ∧ Unseparated (quoteAfter q a) b := by
  induction a with
  | nil =>
      intro q
      exact ⟨fun h => ⟨trivial, h⟩, fun h => h.2⟩
  | cons c a ih =>
      intro q
      rw [List.cons_append, Unseparated, Unseparated, quoteAfter_cons, ih, and_assoc]

/-- Text without quotes and separators. -/
theorem unseparated_plain {t : Str} {q : Bool}
    (ht : ∀ c ∈ t, c ≠ dquote ∧ isSeparator q c = false) :
    Unseparated q t ∧ quoteAfter q t = q := by
  refine ⟨?_, quoteAfter_plain (fun c hc => (ht c hc).1) q⟩
  induction t with
  | nil => trivial
  | cons c t ih =>
      rw [List.forall_mem_cons] at ht
      rw [Unseparated, if_neg ht.1.1]
      exact ⟨ht.1.2, ih ht.2⟩

/-- A command line is one word, or it has a first separator. -/
theorem parameters_first {t : Str} : ∀ {q : Bool} {p : Str}, Unseparated q t ∨
    ∃ w c v, t = w ++ c :: v ∧ isSeparator (quoteAfter q w) c = true ∧ Unseparated q w ∧
      parameters q p t = (p ++ w) :: parameters false [] v := by
  induction t with
  | nil => exact .inl trivial
  | cons c t ih =>
      intro q p
      by_cases hsep : isSeparator q c = true
      · refine .inr ⟨[], c, t, rfl, hsep, trivial, ?_⟩
        rw [parameters_separator hsep, List.append_nil, (isSeparator_plain hsep).2]
      · rw [Bool.not_eq_true] at hsep
        rw [parameters_cons hsep]
        rcases @ih (if c = dquote then !q else q) (p ++ [c]) with
          hunsep | ⟨w, c', v, rfl, hsep', hunsep, hparams⟩
        · exact .inl ⟨hsep, hunsep⟩
        · refine .inr ⟨c :: w, c', v, rfl, hsep', ⟨hsep, hunsep⟩, ?_⟩
          rw [hparams, List.append_assoc, List.singleton_append]

/-- The first word of a command line, and the rest. -/
inductive FirstWord : Str → Prop
  | nil : FirstWord []
  | separator (c : UInt8) (v : Str) (hc : is_kernel_space c = true)
      (hwords : words (c :: v) = words v) (hbal : Balanced v) : FirstWord (c :: v)
  | last (w : Str) (hw : IsWord w) (hwords : words w = [w]) : FirstWord w
  | word (w : Str) (c : UInt8) (v : Str) (hw : IsWord w) (hc : is_kernel_space c = true)
      (hwords : words (w ++ c :: v) = w :: words v) (hbal : Balanced v) : FirstWord (w ++ c :: v)

theorem firstWord {t : Str} (ht : Balanced t) : FirstWord t := by
  rcases @parameters_first t false [] with hunsep | ⟨w, c, v, rfl, hsep, hunsep, hparams⟩
  · cases t with
    | nil => exact .nil
    | cons c t =>
        refine .last _ ⟨List.cons_ne_nil _ _, hunsep, ht⟩ ?_
        rw [words, parameters_unseparated hunsep]
        rfl
  · obtain ⟨hc, hw⟩ := isSeparator_plain hsep
    have hv : Balanced v := by
      unfold KernelConfigParser.Balanced at ht
      rwa [quoteAfter_append, quoteAfter_cons, if_neg (kernel_space_plain hc).2.2.1, hw] at ht
    cases w with
    | nil =>
        refine .separator c v hc ?_ hv
        rw [List.nil_append] at hparams
        rw [words, hparams]
        rfl
    | cons d w =>
        refine .word _ c v ⟨List.cons_ne_nil _ _, hunsep, hw⟩ hc ?_ hv
        rw [words, hparams, List.filter_cons_of_pos (by simp)]
        rfl

/-- The words of a command line are words. -/
theorem isWord_of_mem_words {t : Str} (ht : Balanced t) : ∀ w ∈ words t, IsWord w := by
  induction hn : t.length using Nat.strong_induction_on generalizing t with
  | _ n ih =>
      cases firstWord ht with
      | nil => exact List.forall_mem_nil _
      | separator c v hc hwords hbal =>
          rw [hwords]
          exact ih v.length (by simp [← hn]) hbal rfl
      | last w hw hwords =>
          rw [hwords]
          exact List.forall_mem_singleton.2 hw
      | word w c v hw hc hwords hbal =>
          rw [hwords]
          exact List.forall_mem_cons.2 ⟨hw, ih v.length (by simp [← hn]; omega) hbal rfl⟩

/-! ## The pattern -/

/-- What can stand behind a word: the end of the line, or white space. -/
abbrev Behind (rest : Str) : Prop :=
  Stops (fun c => !isSpace c) rest

theorem piece_behind {rest : Str} (h : Behind rest) : piece rest = none := by
  cases rest with
  | nil => rfl
  | cons c rest =>
      have hc : isSpace c = true := by simpa using stops_cons.1 h
      have hquote : c ≠ dquote := by
        rintro rfl
        exact absurd hc (by decide)
      rw [piece, if_neg hquote, if_pos hc]

/-- A round that starts at a quote takes everything to the next quote. -/
theorem piece_quoted {body w rest : Str} (hbody : ∀ d ∈ body, d ≠ dquote) :
    piece (dquote :: (body ++ dquote :: w) ++ rest) =
      some (dquote :: body ++ [dquote], w ++ rest) := by
  have hall : ∀ d ∈ body, decide (d ≠ dquote) = true := fun d hd => decide_eq_true (hbody d hd)
  have hstop : Stops (fun d => decide (d ≠ dquote)) (dquote :: (w ++ rest)) := by
    rw [stops_cons]
    decide
  have hrest : dquote :: (body ++ dquote :: w) ++ rest =
      dquote :: (body ++ dquote :: (w ++ rest)) := by
    rw [List.cons_append, List.append_assoc, List.cons_append]
  rw [hrest, piece, if_pos rfl, dropWhile_scan hall hstop, takeWhile_scan hall hstop]

/-- Another round takes everything to the next quote or white space. -/
theorem piece_plain {c : UInt8} {w rest : Str} (hquote : c ≠ dquote) (hspace : ¬ isSpace c = true)
    (hrest : Behind rest) :
    piece (c :: w ++ rest) =
      some ((c :: w).takeWhile isPlain, (c :: w).dropWhile isPlain ++ rest) := by
  have hcut := List.takeWhile_append_dropWhile (p := isPlain) (l := c :: w)
  have hall : ∀ d ∈ (c :: w).takeWhile isPlain, isPlain d = true :=
    fun d hd => List.mem_takeWhile_imp hd
  have hstop : Stops isPlain ((c :: w).dropWhile isPlain ++ rest) := by
    by_cases hnil : (c :: w).dropWhile isPlain = []
    · rw [hnil, List.nil_append]
      cases rest with
      | nil => exact stops_nil
      | cons d rest =>
          have hd : isSpace d = true := by simpa using stops_cons.1 hrest
          rw [stops_cons, isPlain, hd, Bool.not_true, Bool.and_false]
    · exact (stops_append hnil).2 (stops_dropWhile isPlain (c :: w))
  have hinput : c :: w ++ rest =
      (c :: w).takeWhile isPlain ++ ((c :: w).dropWhile isPlain ++ rest) := by
    rw [← List.append_assoc, hcut]
  have htake := takeWhile_scan hall hstop
  have hdrop := dropWhile_scan hall hstop
  rw [← hinput] at htake hdrop
  rw [List.cons_append] at htake hdrop ⊢
  rw [piece, if_neg hquote, if_neg hspace, htake, hdrop]

/-- The first round takes a piece of a word, with as many quotes as it opens. -/
theorem piece_word {c : UInt8} {w rest : Str} (hunsep : Unseparated false (c :: w))
    (hbal : KernelConfigParser.Balanced (c :: w)) (hrest : Behind rest) :
    ∃ p w', c :: w = p ++ w' ∧ p ≠ [] ∧ quoteAfter false p = false ∧
      piece (c :: w ++ rest) = some (p, w' ++ rest) := by
  by_cases hc : c = dquote
  · subst hc
    have hopen : quoteAfter true w = false := hbal
    have hcut := List.takeWhile_append_dropWhile (p := (· ≠ dquote)) (l := w)
    have hbody : ∀ d ∈ w.takeWhile (· ≠ dquote), d ≠ dquote :=
      fun d hd => by simpa using List.mem_takeWhile_imp (p := fun d => decide (d ≠ dquote)) hd
    -- the quotes of the word are balanced, so that the one that opens here is closed in it
    cases htail : w.dropWhile (· ≠ dquote) with
    | nil =>
        rw [htail, List.append_nil] at hcut
        rw [← hcut, quoteAfter_plain hbody] at hopen
        cases hopen
    | cons q w' =>
        have hq : q = dquote := by
          have hstop := stops_dropWhile (fun d => decide (d ≠ dquote)) w
          rw [htail, stops_cons] at hstop
          simpa using hstop
        subst hq
        rw [htail] at hcut
        refine ⟨dquote :: w.takeWhile (· ≠ dquote) ++ [dquote], w', ?_, List.cons_ne_nil _ _, ?_,
          ?_⟩
        · rw [List.cons_append, List.cons_append, List.append_assoc, List.singleton_append, hcut]
        · rw [List.cons_append, quoteAfter_cons, if_pos rfl, quoteAfter_append,
            quoteAfter_plain hbody]
          rfl
        · conv_lhs => rw [← hcut]
          exact piece_quoted hbody
  · have hspace : ¬ isSpace c = true := by
      intro h
      have hsep := hunsep.1
      rw [isSeparator, is_kernel_space_of_isSpace h] at hsep
      cases hsep
    refine ⟨_, _, List.takeWhile_append_dropWhile.symm, ?_, ?_, piece_plain hc hspace hrest⟩
    · rw [List.takeWhile_cons_of_pos (isPlain_of_not hc hspace)]
      exact List.cons_ne_nil _ _
    · refine quoteAfter_plain (fun d hd => ?_) false
      rintro rfl
      exact absurd (List.mem_takeWhile_imp hd) (by decide)

/-- The pattern matches a word as a whole, and not more. -/
theorem pieces_word {w rest : Str} (hunsep : Unseparated false w)
    (hbal : KernelConfigParser.Balanced w) (hrest : Behind rest) :
    pieces (w ++ rest) = (w, rest) := by
  induction hn : w.length using Nat.strong_induction_on generalizing w with
  | _ n ih =>
      cases w with
      | nil => exact pieces_of_none (piece_behind hrest)
      | cons c w =>
          obtain ⟨p, w', hsplit, hp, hquote, hpiece⟩ := piece_word hunsep hbal hrest
          rw [hsplit] at hunsep hbal hn
          have hlt : w'.length < n := by
            have hpos := List.length_pos_iff.2 hp
            rw [List.length_append] at hn
            omega
          have hunsep' := (unseparated_append_iff.1 hunsep).2
          unfold KernelConfigParser.Balanced at hbal
          rw [hquote] at hunsep'
          rw [quoteAfter_append, hquote] at hbal
          rw [pieces_of_some hpiece, ih _ hlt hunsep' hbal rfl, hsplit]

/-! ## The loop -/

/-- What a pass does with a word. -/
def keep (result w : Str) : Str :=
  if isRemoved (paramName w) then result else withSpace result ++ w

theorem eval_word {w rest : Str} (hw : IsWord w) (hrest : Behind rest) (result : Str) :
    loop.eval ⟨w ++ rest, result⟩ = loop.eval ⟨rest, keep result w⟩ := by
  have hpieces := pieces_word hw.unseparated hw.balanced hrest
  have hinput : (w ++ rest).dropWhile isSpace = w ++ rest := by
    cases w with
    | nil => exact absurd rfl hw.ne_nil
    | cons c w =>
        have hsep := hw.unseparated.1
        have hspace : ¬ isSpace c = true := by
          intro h
          rw [isSeparator, is_kernel_space_of_isSpace h] at hsep
          cases hsep
        exact List.dropWhile_cons_of_neg hspace
  apply loop.eval_next
  change step _ = _
  unfold step
  dsimp only
  rw [if_neg (List.append_ne_nil_of_left_ne_nil hw.ne_nil rest), hinput, hpieces,
    if_neg hw.ne_nil, keep]
  split <;> rfl

theorem eval_congr {s s' : Locals} (h : step s = step s') : loop.eval s = loop.eval s' := by
  cases hstep : step s' with
  | next t => rw [loop.eval_next (h.trans hstep), loop.eval_next hstep]
  | done r => rw [loop.eval_done (h.trans hstep), loop.eval_done hstep]

/-- White space in front of a word does not matter. -/
theorem eval_space {c : UInt8} (hc : isSpace c = true) (rest result : Str) :
    loop.eval ⟨c :: rest, result⟩ = loop.eval ⟨rest, result⟩ := by
  have hinput : (c :: rest).dropWhile isSpace = rest.dropWhile isSpace :=
    List.dropWhile_cons_of_pos hc
  by_cases hrest : rest = []
  · subst hrest
    have hstep : step ⟨[c], result⟩ = .next ⟨[], result⟩ := by
      unfold step
      dsimp only
      rw [if_neg (List.cons_ne_nil _ _), hinput, List.dropWhile_nil,
        pieces_of_none (piece_behind stops_nil), if_pos rfl]
    exact loop.eval_next hstep
  · apply eval_congr
    unfold step
    dsimp only
    rw [if_neg (List.cons_ne_nil _ _), if_neg hrest, hinput]

/-- The bytes of a command line in the boot loader. -/
def LineByte (c : UInt8) : Prop :=
  (c = 9 ∨ 32 ≤ c ∧ c ≤ 126) ∧ c ≠ bslash

theorem LineByte.isSpace {c : UInt8} (hc : LineByte c) (hspace : is_kernel_space c = true) :
    isSpace c = true := by
  simp only [is_kernel_space, Bool.or_eq_true, beq_iff_eq] at hspace
  simp only [Config.isSpace, Bool.or_eq_true, beq_iff_eq]
  rcases hspace with hlow | rfl
  · exact hlow
  · exact absurd hc.1 (by decide)

theorem LineByte.ne_newline {c : UInt8} (hc : LineByte c) : c ≠ newline ∧ c ≠ 0 := by
  constructor
  · rintro rfl
    exact absurd hc.1 (by decide)
  · rintro rfl
    exact absurd hc.1 (by decide)

/-- A command line is taken word by word. -/
theorem eval_words {t rest : Str} (hbytes : ∀ c ∈ t, LineByte c)
    (ht : KernelConfigParser.Balanced t) (hrest : Behind rest) (result : Str) :
    loop.eval ⟨t ++ rest, result⟩ = loop.eval ⟨rest, (words t).foldl keep result⟩ := by
  induction hn : t.length using Nat.strong_induction_on generalizing t result with
  | _ n ih =>
      cases firstWord ht with
      | nil => rfl
      | separator c v hc hwords hbal =>
          rw [List.forall_mem_cons] at hbytes
          have hlt : v.length < n := by simp [← hn]
          rw [hwords, List.cons_append, eval_space (hbytes.1.isSpace hc)]
          exact ih _ hlt hbytes.2 hbal result rfl
      | last w hw hwords =>
          rw [hwords]
          exact eval_word hw hrest result
      | word w c v hw hc hwords hbal =>
          rw [List.forall_mem_append, List.forall_mem_cons] at hbytes
          have hspace := hbytes.2.1.isSpace hc
          have hlt : v.length < n := by
            rw [← hn, List.length_append, List.length_cons]
            omega
          have hbehind : Behind (c :: (v ++ rest)) := by
            rw [Behind, stops_cons, hspace]
            rfl
          rw [hwords, List.foldl_cons, List.append_assoc, List.cons_append, eval_word hw hbehind,
            eval_space hspace]
          exact ih _ hlt hbytes.2.2 hbal _ rfl

theorem eval_nil (result : Str) : loop.eval ⟨[], result⟩ = result :=
  loop.eval_done rfl

/-- Every word with a space behind it. -/
def spaced (ws : List Str) : Str :=
  ws.flatMap (· ++ [space])

theorem spaced_cons (w : Str) (ws : List Str) : spaced (w :: ws) = w ++ space :: spaced ws := by
  rw [spaced, List.flatMap_cons, List.append_assoc]
  rfl

theorem spaced_append (ws ws' : List Str) : spaced (ws ++ ws') = spaced ws ++ spaced ws' :=
  List.flatMap_append

/-- A line of words is taken word by word. -/
theorem eval_spaced {ws : List Str} (hws : ∀ w ∈ ws, IsWord w) (result : Str) :
    loop.eval ⟨spaced ws, result⟩ = ws.foldl keep result := by
  induction ws generalizing result with
  | nil => exact eval_nil result
  | cons w ws ih =>
      rw [List.forall_mem_cons] at hws
      have hbehind : Behind (space :: spaced ws) := stops_cons.2 rfl
      rw [spaced_cons, eval_word hws.1 hbehind, eval_space rfl, ih hws.2]
      rfl

/-! ## What is kept -/

theorem paramName_eq {w : Str} (hw : newline ∉ w) : paramName w = parameterName w := by
  have hall : ∀ c ∈ (w.filter (· ≠ dquote)).dropWhile (· ≠ eqSign),
      decide (c ≠ newline) = true := by
    intro c hc
    have hmem := List.mem_of_mem_filter ((List.dropWhile_sublist _).subset hc)
    exact decide_eq_true fun h => hw (h ▸ hmem)
  rw [paramName, parameterName, List.dropWhile_eq_nil_iff.2 hall, List.append_nil]

theorem isRemoved_paramName {w : Str} (hw : newline ∉ w) :
    isRemoved (paramName w) = isFadumpWord w := by
  have hne : parameterName w ≠ str "fadump\n" := by
    intro h
    have hmem : newline ∈ parameterName w := by
      rw [h]
      decide
    exact hw (List.mem_of_mem_filter ((List.takeWhile_sublist _).subset hmem))
  rw [paramName_eq hw, isRemoved, isFadumpWord, isFadumpName, decide_eq_false hne, Bool.or_false]
  ac_rfl

theorem withSpace_keep {w : Str} (hw : w ≠ []) (hnewline : newline ∉ w) (result : Str) :
    withSpace (keep result w) =
      withSpace result ++ spaced (if isFadumpWord w then [] else [w]) := by
  rw [keep, isRemoved_paramName hnewline]
  split
  · rw [spaced, List.flatMap_nil, List.append_nil]
  · rw [withSpace, if_neg (List.append_ne_nil_of_right_ne_nil _ hw), List.append_assoc, spaced_cons]
    rfl

/-- The words that are not for fadump are kept, in their order. -/
theorem withSpace_foldl_keep {ws : List Str} (hws : ∀ w ∈ ws, w ≠ [] ∧ newline ∉ w)
    (result : Str) :
    withSpace (ws.foldl keep result) =
      withSpace result ++ spaced (ws.filter fun w => !isFadumpWord w) := by
  induction ws generalizing result with
  | nil => exact (List.append_nil _).symm
  | cons w ws ih =>
      rw [List.forall_mem_cons] at hws
      rw [List.foldl_cons, ih hws.2, withSpace_keep hws.1.1 hws.1.2, List.append_assoc,
        ← spaced_append]
      congr 2
      by_cases hw : isFadumpWord w = true
      · rw [if_pos hw, List.filter_cons_of_neg (by simp [hw])]
        rfl
      · rw [if_neg hw, List.filter_cons_of_pos (by simp [hw])]
        rfl

end Bootloader
end Kdump

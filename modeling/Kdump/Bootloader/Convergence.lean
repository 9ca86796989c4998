import Kdump.Bootloader.Words
import Mathlib.Data.Bool.AllAny

/-!
# Convergence — updating the boot loader a second time

* `update_eq` — the new line: the words that are kept, `fadump=on` and the configuration;
* `eval_line` — what `KernelConfigParser` makes of the words that are kept;
* `readCmdLine_line` — the configuration that is read from the new line;
* `update_converges` — the new line is not changed any more.
-/

namespace Kdump
namespace Bootloader

open Lib Config Config.KernelConfigParser Config.KernelConfigParser.Locals

variable {fadump : Bool}

/-! ## The new line -/

/-- The options that are printed, and their parameters. -/
abbrev dumped : DumpConfig :=
  ⟨.FMT_KERNEL, DUMP, true⟩

def assignment (opt : ConfigOption) : Str :=
  opt.name ++ eqSign :: kernelQuoted opt.valueAsString

def assignments (c : Configuration fadump) : List Str :=
  (c.m_options.filter dumped.selects).map assignment

theorem dump_eq (c : Configuration fadump) : dump c = spaced (assignments c) := by
  have hassign : ∀ opt, dumped.assignment opt = assignment opt ++ [space] := by
    intro opt
    unfold DumpConfig.assignment assignment
    rw [List.append_assoc opt.name]
    rfl
  rw [dump, DumpConfig.execute_eq_filter, spaced, assignments, List.flatMap_map]
  exact List.flatMap_congr fun opt _ => hassign opt

/-- A command line of printable bytes, with a name in every word. -/
structure PlainLine (t : Str) : Prop where
  bytes : ∀ c ∈ t, LineByte c
  balanced : KernelConfigParser.Balanced t
  named : ∀ w ∈ words t, ¬ EmptyName w

/-- The words that are not replaced. -/
def kept (old : Str) : List Str :=
  (words old).filter fun w => !isFadumpWord w

/-- What `kdump-bootloader.pl --update` makes of a line. -/
def updated (c : Configuration fadump) (old : Str) : Str :=
  update [str "fadump=on", dump c] old

theorem mem_of_mem_parameters {t : Str} : ∀ {q : Bool} {p w : Str} {b : UInt8},
    w ∈ parameters q p t → b ∈ w → b ∈ p ∨ b ∈ t := by
  induction t with
  | nil =>
      intro q p w b hw hb
      rw [parameters, List.mem_singleton] at hw
      exact .inl (hw ▸ hb)
  | cons d t ih =>
      intro q p w b hw hb
      have hgrow : b ∈ p ++ [d] ∨ b ∈ t → b ∈ p ∨ b ∈ d :: t := by
        rw [List.mem_append, List.mem_singleton, List.mem_cons, or_assoc]
        exact id
      unfold parameters at hw
      split_ifs at hw with hquote hsep
      · exact hgrow (ih hw hb)
      · rcases List.mem_cons.1 hw with rfl | hw
        · exact .inl hb
        · have hmem := ih hw hb
          exact .inr (List.mem_cons_of_mem _ (hmem.resolve_left List.not_mem_nil))
      · exact hgrow (ih hw hb)

/-- A word has bytes of the line. -/
theorem mem_of_mem_words {t w : Str} {b : UInt8} (hw : w ∈ words t) (hb : b ∈ w) : b ∈ t :=
  (mem_of_mem_parameters (List.mem_of_mem_filter hw) hb).resolve_left List.not_mem_nil

namespace PlainLine

variable {old : Str}

theorem word (h : PlainLine old) {w : Str} (hw : w ∈ words old) :
    IsWord w ∧ (∀ b ∈ w, LineByte b) ∧ ¬ EmptyName w :=
  ⟨isWord_of_mem_words h.balanced w hw, fun b hb => h.bytes b (mem_of_mem_words hw hb),
    h.named w hw⟩

theorem update_eq (h : PlainLine old) (args : List Str) :
    update args old = spaced (kept old) ++ [space].intercalate args := by
  have hwords : ∀ w ∈ words old, w ≠ [] ∧ newline ∉ w := by
    intro w hw
    obtain ⟨hword, hbytes, _⟩ := h.word hw
    exact ⟨hword.ne_nil, fun hmem => (hbytes _ hmem).ne_newline.1 rfl⟩
  have heval := eval_words h.bytes h.balanced stops_nil []
  rw [List.append_nil, eval_nil] at heval
  rw [update, heval, withSpace_foldl_keep hwords]
  rfl

theorem updated_eq (h : PlainLine old) (c : Configuration fadump) :
    updated c old = spaced (kept old ++ str "fadump=on" :: assignments c) := by
  rw [updated, h.update_eq, spaced_append, spaced_cons, ← dump_eq]
  congr 1
  simp [List.intercalate]

end PlainLine

/-! ## The words of a configuration -/

/-- Text that a command substitution gives back as it is, but for newlines at the end. -/
def Clean (t : Str) : Prop :=
  ∀ b ∈ t, b ≠ 0 ∧ b ≠ newline

/-- The string options have neither newlines nor NUL bytes in their values. -/
def CleanStrings (c : Configuration fadump) : Prop :=
  ∀ name usage defvalue value,
    ConfigOption.string name usage defvalue value ∈ c.m_options → Clean value

theorem clean_append {a b : Str} : Clean (a ++ b) ↔ Clean a ∧ Clean b :=
  List.forall_mem_append

theorem clean_cons {d : UInt8} {t : Str} : Clean (d :: t) ↔ (d ≠ 0 ∧ d ≠ newline) ∧ Clean t :=
  List.forall_mem_cons

theorem clean_number2string (i : Int32) : Clean (number2string i) := by
  have hdigits : ∀ n, Clean (decimal n) := by
    intro n b hb
    have hdigit := isDigit_of_mem_decimal hb
    constructor
    · rintro rfl
      exact absurd hdigit (by decide)
    · rintro rfl
      exact absurd hdigit (by decide)
  unfold number2string
  split
  · exact clean_cons.2 ⟨by decide, hdigits _⟩
  · exact hdigits _

theorem clean_valueAsString {c : Configuration fadump} (hc : CleanStrings c) {opt : ConfigOption}
    (hopt : opt ∈ c.m_options) : Clean opt.valueAsString := by
  cases opt with
  | string n u d v => exact hc n u d v hopt
  | int n u d v => exact clean_number2string v
  | bool n u d v =>
      have hyes : Clean (str "yes") := by
        exact List.all_iff_forall_prop.1 rfl
      have hno : Clean (str "no") := by
        exact List.all_iff_forall_prop.1 rfl
      cases v with
      | true => exact hyes
      | false => exact hno

theorem clean_flatMap {f : UInt8 → Str} (hf : ∀ b, b ≠ 0 ∧ b ≠ newline → Clean (f b)) {t : Str}
    (ht : Clean t) : Clean (t.flatMap f) := by
  intro b hb
  rcases List.mem_flatMap.1 hb with ⟨d, hd, hbd⟩
  exact hf d (ht d hd) b hbd

theorem clean_kernelEscape {b : UInt8} (hb : b ≠ 0 ∧ b ≠ newline) : Clean (kernelEscape b) := by
  unfold kernelEscape
  split_ifs
  · exact List.all_iff_forall_prop.1 rfl
  · exact List.all_iff_forall_prop.1 rfl
  · exact clean_cons.2 ⟨hb, List.forall_mem_nil _⟩

theorem clean_kernelQuoted {t : Str} (ht : Clean t) : Clean (kernelQuoted t) := by
  have hret : Clean (t.flatMap kernelEscape) := clean_flatMap (fun _ => clean_kernelEscape) ht
  have hquote : Clean [dquote] := by
    exact List.all_iff_forall_prop.1 rfl
  unfold kernelQuoted
  dsimp only
  split
  · exact clean_append.2 ⟨clean_append (a := [dquote]).2 ⟨hquote, hret⟩, hquote⟩
  · exact hret

theorem clean_of_plainName {n : Str} (h : PlainName n) : Clean n := by
  intro b hb
  have h33 := (h.2 b hb).1
  constructor
  · rintro rfl
    exact absurd h33 (by decide)
  · rintro rfl
    exact absurd h33 (by decide)

theorem clean_assignment {c : Configuration fadump} (hc : CleanStrings c) {opt : ConfigOption}
    (hopt : opt ∈ c.m_options) : Clean (assignment opt) :=
  clean_append.2 ⟨clean_of_plainName (c.plainName hopt),
    clean_cons.2 ⟨by decide, clean_kernelQuoted (clean_valueAsString hc hopt)⟩⟩

/-- No quote is left in an escaped value, and white space only if there was some. -/
theorem kernelEscape_plain {b d : UInt8} (hd : d ∈ kernelEscape b) :
    d ≠ dquote ∧ (is_kernel_space d = true → is_kernel_space b = true) := by
  unfold kernelEscape at hd
  split_ifs at hd with hquote hbslash
  · have hall : ∀ d ∈ str "\\042", d ≠ dquote ∧ is_kernel_space d = false :=
      List.all_iff_forall_prop.1 rfl
    exact ⟨(hall d hd).1, fun h => absurd ((hall d hd).2.symm.trans h) Bool.false_ne_true⟩
  · have hall : ∀ d ∈ [bslash, bslash], d ≠ dquote ∧ is_kernel_space d = false :=
      List.all_iff_forall_prop.1 rfl
    exact ⟨(hall d hd).1, fun h => absurd ((hall d hd).2.symm.trans h) Bool.false_ne_true⟩
  · rw [List.mem_singleton] at hd
    exact ⟨hd ▸ hquote, fun h => hd ▸ h⟩

/-- A quoted value has no separator in it, and closes its quotes. -/
theorem unseparated_kernelQuoted (t : Str) :
    Unseparated false (kernelQuoted t) ∧ quoteAfter false (kernelQuoted t) = false := by
  have hmem : ∀ d ∈ t.flatMap kernelEscape,
      d ≠ dquote ∧ (is_kernel_space d = true → t.any is_kernel_space = true) := by
    intro d hd
    rcases List.mem_flatMap.1 hd with ⟨b, hb, hdb⟩
    obtain ⟨hquote, hspace⟩ := kernelEscape_plain hdb
    exact ⟨hquote, fun h => List.any_eq_true.2 ⟨b, hb, hspace h⟩⟩
  unfold kernelQuoted
  dsimp only
  split_ifs with hany
  · -- there is no separator inside quotes
    have hplain : ∀ d ∈ t.flatMap kernelEscape, d ≠ dquote ∧ isSeparator true d = false :=
      fun d hd => ⟨(hmem d hd).1, Bool.and_false _⟩
    obtain ⟨hunsep, hquote⟩ := unseparated_plain hplain
    have hopen : quoteAfter true (t.flatMap kernelEscape ++ [dquote]) = false := by
      rw [quoteAfter_append, hquote]
      rfl
    refine ⟨⟨rfl, unseparated_append_iff.2 ⟨hunsep, ?_⟩⟩, hopen⟩
    exact ⟨rfl, trivial⟩
  · -- and there is no white space at all
    refine unseparated_plain fun d hd => ⟨(hmem d hd).1, ?_⟩
    have hd' : is_kernel_space d = false :=
      Bool.eq_false_iff.2 fun h => hany ((hmem d hd).2 h)
    rw [isSeparator, hd', Bool.false_and]

theorem isWord_assignment {opt : ConfigOption} (hname : PlainName opt.name) :
    IsWord (assignment opt) := by
  have hplain : ∀ d ∈ opt.name, d ≠ dquote ∧ isSeparator false d = false := by
    intro d hd
    obtain ⟨h33, h127, hquote, _⟩ := hname.2 d hd
    rw [isSeparator, is_kernel_space_eq_false h33 h127]
    exact ⟨hquote, rfl⟩
  obtain ⟨hunsep, hquote⟩ := unseparated_plain hplain
  obtain ⟨hunsep', hquote'⟩ := unseparated_kernelQuoted opt.valueAsString
  refine ⟨List.append_ne_nil_of_left_ne_nil hname.1 _, ?_, ?_⟩
  · refine unseparated_append_iff.2 ⟨hunsep, ?_⟩
    rw [hquote]
    exact ⟨rfl, hunsep'⟩
  · unfold assignment KernelConfigParser.Balanced
    rw [quoteAfter_append, hquote]
    exact hquote'

theorem parameterName_assignment {opt : ConfigOption} (hname : PlainName opt.name) :
    parameterName (assignment opt) = opt.name := by
  have hquote : opt.name.filter (· ≠ dquote) = opt.name :=
    List.filter_eq_self.2 fun d hd => decide_eq_true (hname.2 d hd).2.2.1
  have hstop : Stops (fun d => decide (d ≠ eqSign))
      ((eqSign :: kernelQuoted opt.valueAsString).filter (· ≠ dquote)) := by
    rw [List.filter_cons_of_pos (by decide), stops_cons]
    decide
  rw [parameterName, assignment, List.filter_append, hquote]
  exact takeWhile_scan (fun d hd => decide_eq_true (hname.2 d hd).2.2.2.1) hstop

/-- No option is called `fadump`, and every option for the dump is one that is replaced. -/
theorem name_of_mem (c : Configuration fadump) {opt : ConfigOption} (hopt : opt ∈ c.m_options) :
    opt.name ≠ str "fadump" ∧ (opt.usage &&& DUMP ≠ 0 → isFadumpName opt.name = true) := by
  have hall : ∀ o ∈ define_opt true, o.name ≠ str "fadump" ∧
      (o.usage &&& DUMP ≠ 0 → isFadumpName o.name = true) := by
    decide +kernel
  have hmem : opt.reset ∈ define_opt fadump := by
    rw [← c.table]
    exact List.mem_map_of_mem hopt
  have hreset := hall _ ((define_opt_sublist fadump).subset hmem)
  rwa [opt.usage_reset, opt.name_reset] at hreset

theorem usage_of_selects {opt : ConfigOption} (h : dumped.selects opt = true) :
    opt.usage &&& DUMP ≠ 0 := by
  intro hzero
  rw [DumpConfig.selects, if_pos hzero] at h
  cases h

/-- All words of a configuration are replaced by the next update. -/
theorem word_of_mem_assignments {c : Configuration fadump} (hc : CleanStrings c) {w : Str}
    (hw : w ∈ assignments c) : IsWord w ∧ Clean w ∧ isFadumpWord w = true := by
  rcases List.mem_map.1 hw with ⟨opt, hopt, rfl⟩
  obtain ⟨hmem, hsel⟩ := List.mem_filter.1 hopt
  have hname := c.plainName hmem
  refine ⟨isWord_assignment hname, clean_assignment hc hmem, ?_⟩
  rw [isFadumpWord, parameterName_assignment hname]
  exact (name_of_mem c hmem).2 (usage_of_selects hsel)

/-! ## The second update -/

theorem isWord_fadump : IsWord (str "fadump=on") := by
  refine ⟨by decide, (unseparated_plain ?_).1, rfl⟩
  exact List.all_iff_forall_prop.1 rfl

namespace PlainLine

variable {old : Str} {c : Configuration fadump}

/-- The words of the new line. -/
theorem word_updated (h : PlainLine old) (hc : CleanStrings c) {w : Str}
    (hw : w ∈ kept old ++ str "fadump=on" :: assignments c) : IsWord w ∧ Clean w := by
  rcases List.mem_append.1 hw with hw | hw
  · obtain ⟨hword, hbytes, _⟩ := h.word (List.mem_of_mem_filter hw)
    exact ⟨hword, fun b hb => ⟨(hbytes b hb).ne_newline.2, (hbytes b hb).ne_newline.1⟩⟩
  · rcases List.mem_cons.1 hw with rfl | hw
    · refine ⟨isWord_fadump, ?_⟩
      exact List.all_iff_forall_prop.1 rfl
    · obtain ⟨hword, hclean, _⟩ := word_of_mem_assignments hc hw
      exact ⟨hword, hclean⟩

/-- Only the words that were kept are kept again. -/
theorem filter_updated (hc : CleanStrings c) :
    (kept old ++ str "fadump=on" :: assignments c).filter (fun w => !isFadumpWord w) =
      kept old := by
  have hkept : (kept old).filter (fun w => !isFadumpWord w) = kept old :=
    List.filter_eq_self.2 fun w hw => (List.mem_filter.1 hw).2
  have hnew : (str "fadump=on" :: assignments c).filter (fun w => !isFadumpWord w) = [] := by
    have hfadump : isFadumpWord (str "fadump=on") = true := by decide
    refine List.filter_eq_nil_iff.2 (List.forall_mem_cons.2 ⟨?_, fun w hw => ?_⟩)
    · rw [hfadump]
      exact Bool.false_ne_true
    · rw [(word_of_mem_assignments hc hw).2.2]
      exact Bool.false_ne_true
  rw [List.filter_append, hkept, hnew, List.append_nil]

/-- A second update does not change the line. -/
theorem updated_updated (h : PlainLine old) (hc : CleanStrings c) :
    updated c (updated c old) = updated c old := by
  have hwords : ∀ w ∈ kept old ++ str "fadump=on" :: assignments c, w ≠ [] ∧ newline ∉ w := by
    intro w hw
    obtain ⟨hword, hclean⟩ := h.word_updated hc hw
    exact ⟨hword.ne_nil, fun hmem => (hclean _ hmem).2 rfl⟩
  have heval := eval_spaced (fun w hw => (h.word_updated hc hw).1) []
  rw [← h.updated_eq] at heval
  rw [updated, update, heval, withSpace_foldl_keep hwords, filter_updated hc, h.updated_eq,
    spaced_append, spaced_cons, ← dump_eq]
  simp [List.intercalate, withSpace]

end PlainLine

/-! ## Reading the new line -/

theorem parameterName_dquote (w : Str) : parameterName (dquote :: w) = parameterName w := by
  rw [parameterName, List.filter_cons_of_neg (by decide), parameterName]

theorem parameterName_eqSign (w : Str) : parameterName (eqSign :: w) = [] := by
  rw [parameterName, List.filter_cons_of_pos (by decide), List.takeWhile_cons_of_neg (by decide)]

theorem parameterName_cons {d : UInt8} (hquote : d ≠ dquote) (heq : d ≠ eqSign) (w : Str) :
    parameterName (d :: w) = d :: parameterName w := by
  rw [parameterName, List.filter_cons_of_pos (by simpa using hquote),
    List.takeWhile_cons_of_pos (by simpa using heq), parameterName]

theorem parameterName_ne_nil {w : Str} (hname : ¬ EmptyName w) (heq : eqSign ∈ w) :
    parameterName w ≠ [] := by
  induction w with
  | nil => exact absurd heq List.not_mem_nil
  | cons d w ih =>
      by_cases hquote : d = dquote
      · subst hquote
        rw [parameterName_dquote]
        exact ih hname ((List.mem_cons.1 heq).resolve_left (by decide))
      · by_cases hd : d = eqSign
        · subst hd
          exact absurd rfl hname
        · rw [parameterName_cons hquote hd]
          exact List.cons_ne_nil _ _

theorem ne_bslash_of_mem {d : UInt8} {w : Str} (hw : bslash ∉ d :: w) :
    d ≠ bslash ∧ bslash ∉ w :=
  ⟨fun h => hw (h ▸ List.mem_cons_self), fun h => hw (List.mem_cons_of_mem _ h)⟩

/-- White space in a word is in quotes. -/
theorem quoted_of_unseparated {q : Bool} {d : UInt8} (hsep : isSeparator q d = false)
    (hspace : is_kernel_space d = true) : q = true := by
  rw [isSeparator, hspace, Bool.true_and] at hsep
  simpa using hsep

/-- The rest of a word is appended to the value. -/
theorem eval_value (n : Str) (m : StringStringMap) :
    ∀ (w : Str) (q : Bool) (v : Str), bslash ∉ w → Unseparated q w → ∃ v', ∀ rest, rest ≠ [] →
      KernelConfigParser.loop.eval ⟨w ++ rest, n, v, .value, q, m⟩ =
        KernelConfigParser.loop.eval ⟨rest, n, v', .value, quoteAfter q w, m⟩ := by
  intro w
  induction w with
  | nil =>
      intro q v _ _
      exact ⟨v, fun _ _ => rfl⟩
  | cons d w ih =>
      intro q v hw hunsep
      obtain ⟨hbslash, hw'⟩ := ne_bslash_of_mem hw
      rw [quoteAfter_cons]
      by_cases hquote : d = dquote
      · subst hquote
        rcases ih (!q) v hw' hunsep.2 with ⟨v', hv'⟩
        exact ⟨v', fun rest hrest => (eval_dquote _ _ _ _ _ _).trans (hv' rest hrest)⟩
      · have hunsep' := hunsep.2
        rw [if_neg hquote] at hunsep' ⊢
        rcases ih q (v ++ [d]) hw' hunsep' with ⟨v', hv'⟩
        refine ⟨v', fun rest hrest => Eq.trans ?_ (hv' rest hrest)⟩
        exact eval_plain rfl (List.append_ne_nil_of_right_ne_nil w hrest) hquote hbslash nofun
          (quoted_of_unseparated hunsep.1)

/-- The name of a parameter is read, and its value if there is one. -/
theorem eval_parameter (m : StringStringMap) :
    ∀ (w : Str) (q : Bool) (n : Str), bslash ∉ w → Unseparated q w → ∃ v o,
      (o = .name ∧ v = [] ∨ eqSign ∈ w) ∧ ∀ rest, rest ≠ [] →
        KernelConfigParser.loop.eval ⟨w ++ rest, n, [], .name, q, m⟩ =
          KernelConfigParser.loop.eval ⟨rest, n ++ parameterName w, v, o, quoteAfter q w, m⟩ := by
  intro w
  induction w with
  | nil =>
      intro q n _ _
      refine ⟨[], .name, .inl ⟨rfl, rfl⟩, fun rest _ => ?_⟩
      rw [show parameterName [] = [] from rfl, List.append_nil]
      rfl
  | cons d w ih =>
      intro q n hw hunsep
      obtain ⟨hbslash, hw'⟩ := ne_bslash_of_mem hw
      rw [quoteAfter_cons]
      -- a quote changes the state only; any other byte belongs to the name, up to the equals sign
      by_cases hquote : d = dquote
      · subst hquote
        rcases ih (!q) n hw' hunsep.2 with ⟨v, o, ho, hv⟩
        refine ⟨v, o, ho.imp_right (List.mem_cons_of_mem _), fun rest hrest => ?_⟩
        rw [parameterName_dquote]
        exact (eval_dquote _ _ _ _ _ _).trans (hv rest hrest)
      have hunsep' := hunsep.2
      rw [if_neg hquote] at hunsep' ⊢
      by_cases heq : d = eqSign
      · -- behind the name, there is the value
        subst heq
        rcases eval_value n m w q [] hw' hunsep' with ⟨v, hv⟩
        refine ⟨v, .value, .inr List.mem_cons_self, fun rest hrest => ?_⟩
        rw [parameterName_eqSign, List.append_nil]
        exact (eval_eqSign _ _ _ _ _).trans (hv rest hrest)
      · rcases ih q (n ++ [d]) hw' hunsep' with ⟨v, o, ho, hv⟩
        refine ⟨v, o, ho.imp_right (List.mem_cons_of_mem _), fun rest hrest => ?_⟩
        have hplain := eval_plain (s := ⟨d :: w ++ rest, n, [], .name, q, m⟩) rfl
          (List.append_ne_nil_of_right_ne_nil w hrest) hquote hbslash (fun _ => heq)
          (quoted_of_unseparated hunsep.1)
        rw [parameterName_cons hquote heq, hplain]
        have hrest' := hv rest hrest
        rw [List.append_assoc, List.singleton_append] at hrest'
        exact hrest'

/-- Nothing but the variables of these names has changed, and none is lost. -/
structure Extends (names : List Str) (m m1 : StringStringMap) : Prop where
  unchanged : ∀ n : Str, n ∉ names → m1[n]? = m[n]?
  kept : ∀ n : Str, m[n]? ≠ none → m1[n]? ≠ none

namespace Extends

variable {names names' : List Str} {m m1 m2 : StringStringMap}

theorem refl (names : List Str) (m : StringStringMap) : Extends names m m :=
  ⟨fun _ _ => rfl, fun _ h => h⟩

theorem insert (m : StringStringMap) (n v : Str) : Extends [n] m (m.insert n v) := by
  constructor
  · intro n' hn'
    rw [List.mem_singleton] at hn'
    rw [Std.TreeMap.getElem?_insert]
    simp [Ne.symm hn']
  · intro n' hn'
    rw [Std.TreeMap.getElem?_insert]
    split
    · exact Option.some_ne_none v
    · exact hn'

theorem trans (h : Extends names m m1) (h' : Extends names' m1 m2) :
    Extends (names ++ names') m m2 := by
  constructor
  · intro n hn
    rw [List.mem_append, not_or] at hn
    exact (h'.unchanged n hn.2).trans (h.unchanged n hn.1)
  · exact fun n hn => h'.kept n (h.kept n hn)

end Extends

/-- A word stores its own variable, unless there is nothing in it. -/
theorem eval_line_word {w : Str} (hw : IsWord w) (hbslash : bslash ∉ w) (hname : ¬ EmptyName w)
    (m : StringStringMap) : ∃ m1, Extends [parameterName w] m m1 ∧ ∀ rest,
      KernelConfigParser.loop.eval (start (w ++ space :: rest) m) =
        KernelConfigParser.loop.eval (start rest m1) := by
  have hquote : quoteAfter false w = false := hw.balanced
  rcases eval_parameter m w false [] hbslash hw.unseparated with ⟨v, o, ho, hv⟩
  rw [hquote, List.nil_append] at hv
  by_cases hnil : parameterName w = []
  · have heq : eqSign ∉ w := fun h => parameterName_ne_nil hname h hnil
    obtain ⟨rfl, rfl⟩ := ho.resolve_right heq
    refine ⟨m, .refl _ _, fun rest => (hv _ (List.cons_ne_nil _ _)).trans ?_⟩
    rw [hnil]
    apply KernelConfigParser.loop.eval_next
    simp [KernelConfigParser.loop, KernelConfigParser.step, start, is_kernel_space]
  · refine ⟨m.insert (parameterName w) v, .insert m _ v, fun rest => ?_⟩
    exact (hv _ (List.cons_ne_nil _ _)).trans (KernelConfigParser.eval_space hnil _ _ _ _)

theorem eval_line {ws : List Str}
    (hws : ∀ w ∈ ws, IsWord w ∧ bslash ∉ w ∧ ¬ EmptyName w) (m : StringStringMap) :
    ∃ m1, Extends (ws.map parameterName) m m1 ∧ ∀ rest,
      KernelConfigParser.loop.eval (start (spaced ws ++ rest) m) =
        KernelConfigParser.loop.eval (start rest m1) := by
  induction ws generalizing m with
  | nil => exact ⟨m, .refl _ _, fun _ => rfl⟩
  | cons w ws ih =>
      rw [List.forall_mem_cons] at hws
      obtain ⟨hword, hbslash, hname⟩ := hws.1
      rcases eval_line_word hword hbslash hname m with ⟨m1, hext, heval⟩
      rcases ih hws.2 m1 with ⟨m2, hext', heval'⟩
      refine ⟨m2, hext.trans hext', fun rest => ?_⟩
      rw [spaced_cons, List.append_assoc, List.cons_append, heval, heval']

/-- What is printed of an option. -/
def printed (opt : ConfigOption) : Str :=
  if dumped.selects opt then dumped.assignment opt else []

/-- An option that is not for the dump is not printed, whatever is read for it. -/
theorem printed_update {o o' : ConfigOption} (hreset : o.reset = o'.reset) {v : Str}
    (hv : o.usage &&& DUMP ≠ 0 →
      v = if dumped.selects o then o.valueAsString else o'.valueAsString)
    (hsel : dumped.selects o = false → dumped.selects o' = false) :
    printed (o'.update v) = printed o := by
  by_cases husage : o.usage &&& DUMP = 0
  · have husage' : (o'.update v).usage &&& DUMP = 0 := by
      rw [← ConfigOption.usage_reset, ConfigOption.reset_update, ← hreset,
        ConfigOption.usage_reset, husage]
    rw [printed, printed, DumpConfig.selects, if_pos husage', DumpConfig.selects, if_pos husage]
    rfl
  · rw [hv husage]
    split_ifs with hprinted
    · rw [ConfigOption.update_valueAsString hreset]
    · rw [Bool.not_eq_true] at hprinted
      rw [ConfigOption.update_valueAsString rfl, printed, printed, hprinted, hsel hprinted]
      rfl

theorem updateOptions_printed {m : StringStringMap} {opts opts' : List ConfigOption}
    (hall : List.Forall₂ (fun o o' => o.reset = o'.reset) opts opts')
    (hm : ∀ p ∈ List.zip opts opts', ∃ v, m[p.1.name]? = some v ∧
      (p.1.usage &&& DUMP ≠ 0 →
        v = if dumped.selects p.1 then p.1.valueAsString else p.2.valueAsString) ∧
      (dumped.selects p.1 = false → dumped.selects p.2 = false)) :
    ∃ l, Configuration.updateOptions m opts' = .ok l ∧
      l.1.flatMap printed = opts.flatMap printed := by
  induction hall with
  | nil => exact ⟨_, rfl, rfl⟩
  | @cons o o' opts opts' hreset _ ih =>
      rw [List.zip_cons_cons, List.forall_mem_cons] at hm
      rcases hm.1 with ⟨v, hget, hv, hsel⟩
      rcases ih hm.2 with ⟨l, hupdate, hprinted⟩
      have hname : o.name = o'.name := by
        rw [← o.name_reset, hreset, o'.name_reset]
      have hvalue : getValue m o'.name = .ok v := by
        rw [← hname]
        simp only [getValue, hget]
      refine ⟨⟨o'.update v :: l.1, by simp [l.2]⟩, ?_, ?_⟩
      · simp only [Configuration.updateOptions, hvalue, hupdate, bind, Except.bind]
      · rw [List.flatMap_cons, List.flatMap_cons, printed_update hreset hv hsel, hprinted]

theorem eval_newline (m : StringStringMap) :
    KernelConfigParser.loop.eval (start [newline] m) = m := by
  have hnext : KernelConfigParser.loop.step (start [newline] m) = .next (start [] m) := by
    simp [KernelConfigParser.loop, KernelConfigParser.step, start, is_kernel_space]
  exact (KernelConfigParser.loop.eval_next hnext).trans (KernelConfigParser.Locals.eval_nil rfl)

namespace PlainLine

variable {old : Str}

/-- The words in front of the configuration. -/
theorem word_kept (h : PlainLine old) :
    ∀ w ∈ kept old ++ [str "fadump=on"], IsWord w ∧ bslash ∉ w ∧ ¬ EmptyName w := by
  intro w hw
  rcases List.mem_append.1 hw with hw | hw
  · obtain ⟨hword, hbytes, hname⟩ := h.word (List.mem_of_mem_filter hw)
    exact ⟨hword, fun hmem => (hbytes _ hmem).2 rfl, hname⟩
  · rw [List.mem_singleton] at hw
    subst hw
    exact ⟨isWord_fadump, by decide, by decide⟩

/-- They do not set an option for the dump. -/
theorem name_notMem_kept (c : Configuration fadump) {opt : ConfigOption}
    (hopt : opt ∈ c.m_options) (husage : opt.usage &&& DUMP ≠ 0) :
    opt.name ∉ (kept old ++ [str "fadump=on"]).map parameterName := by
  intro hmem
  rcases List.mem_map.1 hmem with ⟨w, hw, hname⟩
  rcases List.mem_append.1 hw with hw | hw
  · have hnot := (List.mem_filter.1 hw).2
    have hfadump := (name_of_mem c hopt).2 husage
    rw [← hname] at hfadump
    rw [isFadumpWord, hfadump] at hnot
    cases hnot
  · rw [List.mem_singleton] at hw
    subst hw
    exact (name_of_mem c hopt).1 hname.symm

/-- The variables of an empty configuration. -/
abbrev defaultVariables (fadump : Bool) : StringStringMap :=
  (define_opt fadump).foldl (fun m opt => addVariable m opt.name opt.valueAsString) ∅

/-- What the parser has for each option behind the new line. -/
theorem variable_updated (c : Configuration fadump) {m1 : StringStringMap}
    (hext : Extends ((kept old ++ [str "fadump=on"]).map parameterName) (defaultVariables fadump)
      m1)
    {p : ConfigOption × ConfigOption} (hp : p ∈ List.zip c.m_options (define_opt fadump)) :
    ∃ v, ((c.m_options.filter dumped.selects).foldl
        (fun m o => m.insert o.name o.valueAsString) m1)[p.1.name]? = some v ∧
      (p.1.usage &&& DUMP ≠ 0 →
        v = if dumped.selects p.1 then p.1.valueAsString else p.2.valueAsString) := by
  have hp1 : p.1 ∈ c.m_options := (List.of_mem_zip hp).1
  have hp2 : p.2 ∈ define_opt fadump := (List.of_mem_zip hp).2
  have hname : p.1.name = p.2.name :=
    @Configuration.name_eq_of_mem_zip fadump c (Configuration.defaults fadump) p hp
  have hdefault : (defaultVariables fadump)[p.1.name]? = some p.2.valueAsString := by
    rw [hname]
    exact getElem?_foldl_insert_of_mem _ ∅ (nodup_names_define_opt fadump) hp2
  rw [c.getElem?_foldl_selected dumped m1 hp1]
  split_ifs with hsel
  · exact ⟨_, rfl, fun _ => rfl⟩
  · have hsome : m1[p.1.name]? ≠ none := by
      apply hext.kept
      rw [hdefault]
      exact Option.some_ne_none _
    rcases Option.ne_none_iff_exists'.1 hsome with ⟨v, hv⟩
    refine ⟨v, hv, fun husage => ?_⟩
    rw [hext.unchanged _ (name_notMem_kept c hp1 husage), hdefault] at hv
    exact (Option.some.inj hv).symm

/-- The new line, as the parser takes it. -/
theorem echo_updated (h : PlainLine old) (c : Configuration fadump) :
    echo (updated c old) = spaced (kept old ++ [str "fadump=on"]) ++
      ((c.m_options.filter dumped.selects).flatMap dumped.assignment ++ [newline]) := by
  have hsplit : kept old ++ str "fadump=on" :: assignments c =
      (kept old ++ [str "fadump=on"]) ++ assignments c := by
    rw [List.append_assoc, List.singleton_append]
  rw [echo, h.updated_eq, hsplit, spaced_append, ← dump_eq, List.append_assoc, dump,
    DumpConfig.execute_eq_filter]

/-- The options that are read from the new line are printed as they have been. -/
theorem readCmdLine_updated (h : PlainLine old) (c : Configuration fadump) (name : Str) :
    ∃ c', (Configuration.defaults fadump).readCmdLine ⟨name, .ok (echo (updated c old))⟩ = .ok c' ∧
      dump c' = dump c := by
  have hplain : ∀ o ∈ c.m_options.filter dumped.selects, PlainName o.name :=
    fun o ho => c.plainName (List.mem_filter.1 ho).1
  rcases eval_line h.word_kept (defaultVariables fadump) with ⟨m1, hext, heval⟩
  have hline : KernelConfigParser.loop.eval
      (start (echo (updated c old)) (defaultVariables fadump)) =
        (c.m_options.filter dumped.selects).foldl (fun m o => m.insert o.name o.valueAsString)
          m1 := by
    rw [h.echo_updated, heval, eval_assignments_append _ _ _ _ _ hplain, eval_newline]
  have hall := c.forall₂_reset (Configuration.defaults fadump)
  have hvars : ∀ p ∈ List.zip c.m_options (Configuration.defaults fadump).m_options, ∃ v,
      (KernelConfigParser.loop.eval (start (echo (updated c old)) (defaultVariables fadump)))[
          p.1.name]? = some v ∧
        (p.1.usage &&& DUMP ≠ 0 →
          v = if dumped.selects p.1 then p.1.valueAsString else p.2.valueAsString) ∧
        (dumped.selects p.1 = false → dumped.selects p.2 = false) := by
    intro p hp
    rcases variable_updated c hext hp with ⟨v, hget, hv⟩
    rw [hline]
    exact ⟨v, hget, hv, Configuration.not_selects_of_not_selects (.inr rfl) hp⟩
  rcases updateOptions_printed hall hvars with ⟨⟨l, hl⟩, hupdate, hprinted⟩
  refine ⟨⟨l, hl.trans (Configuration.defaults fadump).table⟩, ?_, hprinted⟩
  have hbind := congrArg (fun r => r >>= fun l => .ok (⟨l.1, l.2.trans
    (Configuration.defaults fadump).table⟩ : Configuration fadump)) hupdate
  exact hbind

end PlainLine

/-! ## Another run -/

theorem clean_spaced {ws : List Str} (hws : ∀ w ∈ ws, Clean w) : Clean (spaced ws) := by
  intro b hb
  rcases List.mem_flatMap.1 hb with ⟨w, hw, hbw⟩
  rcases List.mem_append.1 hbw with hbw | hbw
  · exact hws w hw b hbw
  · rw [List.mem_singleton] at hbw
    subst hbw
    decide

/-- A command substitution gives a line of words back as it is. -/
theorem substitute_spaced {ws : List Str} (hws : ∀ w ∈ ws, Clean w) :
    substitute (spaced ws) = spaced ws := by
  have hfilter : (spaced ws).filter (· ≠ 0) = spaced ws :=
    List.filter_eq_self.2 fun b hb => decide_eq_true (clean_spaced hws b hb).1
  rw [substitute, hfilter, List.rdropWhile_eq_self_iff]
  intro hne hlast
  have hnewline : (spaced ws).getLast hne = newline := by simpa using hlast
  exact (clean_spaced hws _ (List.getLast_mem hne)).2 hnewline

theorem substitute_dump {c : Configuration fadump} (hc : CleanStrings c) :
    substitute (dump c) = dump c := by
  rw [dump_eq]
  exact substitute_spaced fun w hw => (word_of_mem_assignments hc hw).2.1

theorem intercalate_append (ws : List Str) {args : List Str} (hargs : args ≠ []) :
    [space].intercalate (ws ++ args) = spaced ws ++ [space].intercalate args := by
  induction ws with
  | nil => rfl
  | cons w ws ih =>
      rw [List.cons_append,
        List.intercalate_cons_of_ne_nil (List.append_ne_nil_of_right_ne_nil ws hargs), ih,
        spaced_cons, List.append_assoc, List.append_assoc, List.singleton_append]
      rfl

/-- The function writes what it finds, or the new line. -/
theorem fadump_bootloader_cases {c : Configuration fadump} (hc : CleanStrings c) (uname : Str)
    (remove_from_commandline : Str → Str → Str) (append : Str) :
    fadump_bootloader uname remove_from_commandline c (str "on") append = append ∨
      fadump_bootloader uname remove_from_commandline c (str "on") append = updated c append := by
  unfold fadump_bootloader
  dsimp only
  rw [substitute_dump hc, if_pos rfl]
  split_ifs
  · exact .inr rfl
  · exact .inl rfl
  · exact .inl rfl

/-- The update of the boot loader converges: the words that are not for fadump are kept, the
configuration that is read back prints the same parameters, and the function has nothing left to
change. -/
theorem update_converges {old : Str} (h : PlainLine old) {c : Configuration fadump}
    (hc : CleanStrings c) (name uname : Str) (remove_from_commandline : Str → Str → Str) :
    update [str "fadump=on", dump c] old = [space].intercalate
        ((words old).filter (fun w => !isFadumpWord w) ++ [str "fadump=on", dump c]) ∧
      (∃ c', (Configuration.defaults fadump).readCmdLine
          ⟨name, .ok (echo (update [str "fadump=on", dump c] old))⟩ = .ok c' ∧ dump c' = dump c) ∧
      fadump_bootloader uname remove_from_commandline c (str "on")
          (update [str "fadump=on", dump c] old) = update [str "fadump=on", dump c] old ∧
      fadump_bootloader uname remove_from_commandline c (str "on")
          (fadump_bootloader uname remove_from_commandline c (str "on") old) =
        fadump_bootloader uname remove_from_commandline c (str "on") old := by
  have hagain : fadump_bootloader uname remove_from_commandline c (str "on") (updated c old) =
      updated c old := by
    rcases fadump_bootloader_cases hc uname remove_from_commandline (updated c old) with heq | heq
    · exact heq
    · rw [heq, h.updated_updated hc]
  refine ⟨?_, h.readCmdLine_updated c name, hagain, ?_⟩
  · rw [h.update_eq, intercalate_append _ (List.cons_ne_nil _ _)]
    rfl
  · rcases fadump_bootloader_cases hc uname remove_from_commandline old with heq | heq
    · rw [heq, heq]
    · rw [heq, hagain]

/-- A configuration with white space and quotes in a value. -/
def postscript : Configuration false where
  m_options := (define_opt false).map fun opt =>
    if opt.name = str "KDUMP_POSTSCRIPT" then opt.update (str "echo \"a b\"") else opt
  table := by
    rw [List.map_map, ← (Configuration.defaults false).table]
    refine List.map_congr_left fun opt _ => ?_
    rw [Function.comp_apply]
    split
    · exact opt.reset_update _
    · rfl

theorem plainLine_quotes : PlainLine (str "quiet foo=\"a b\" KDUMP_CPUS=2 fadump") := by
  refine ⟨?_, rfl, by decide⟩
  unfold LineByte
  exact List.all_iff_forall_prop.1 rfl

theorem cleanStrings_postscript : CleanStrings postscript := by
  have hall : ∀ opt ∈ postscript.m_options, ∀ b ∈ opt.valueAsString, b ≠ 0 ∧ b ≠ newline := by
    decide +kernel
  exact fun _ _ _ _ hmem => hall _ hmem

theorem update_converges_quotes :
    ∃ c', (Configuration.defaults false).readCmdLine ⟨[], .ok (echo (update
        [str "fadump=on", dump postscript] (str "quiet foo=\"a b\" KDUMP_CPUS=2 fadump")))⟩ =
          .ok c' ∧ dump c' = dump postscript :=
  (update_converges plainLine_quotes cleanStrings_postscript [] (str "ppc64le")
    fun _ text => text).2.1

end Bootloader
end Kdump

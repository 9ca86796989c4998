import Kdump.Config.ConfigParser
import Kdump.Config.DumpConfig

/-!
# RoundTrip — `dump_config` in kernel format, read back by `readCmdLine`

The text is a sequence of assignments, each closed by a space.  The parser is followed through one
assignment, byte by byte: the name, the `=`, the opening quote if there is one, the escaped value,
the closing quote and the space.  At each point the invariant says which part of the current
assignment is in `name` and `value`.  A run over the whole text then inserts the assignments one
after the other, and the options take up the values that the map has for them.
-/

namespace Kdump
namespace Config

open Lib

namespace KernelConfigParser

/-! ## Single passes -/

theorem eval_dquote (rest n v : Str) (o : Outp) (q : Bool) (m : StringStringMap) :
    loop.eval ⟨dquote :: rest, n, v, o, q, m⟩ = loop.eval ⟨rest, n, v, o, !q, m⟩ := by
  refine loop.eval_next ?_
  simp [loop, step]

theorem eval_eqSign (rest n v : Str) (q : Bool) (m : StringStringMap) :
    loop.eval ⟨eqSign :: rest, n, v, .name, q, m⟩ = loop.eval ⟨rest, n, v, .value, q, m⟩ := by
  refine loop.eval_next ?_
  simp [loop, step]

/-- White space outside quotes closes the assignment. -/
theorem eval_space {n : Str} (hn : n ≠ []) (rest v : Str) (o : Outp) (m : StringStringMap) :
    loop.eval ⟨space :: rest, n, v, o, false, m⟩ = loop.eval (start rest (m.insert n v)) := by
  refine loop.eval_next ?_
  simp [loop, step, start, is_kernel_space, hn]

/-- An ordinary byte is appended to the string that `outp` points to. -/
theorem eval_plain {c : UInt8} {rest : Str} {s : Locals} (hfin : s.fin = c :: rest)
    (hrest : rest ≠ []) (hdquote : c ≠ dquote) (hbslash : c ≠ bslash)
    (heq : s.outp = .name → c ≠ eqSign) (hspace : is_kernel_space c = true → s.inquote = true) :
    loop.eval s = loop.eval ({ s with fin := rest }.append [c]) := by
  refine loop.eval_next ?_
  have h1 : ¬(c = eqSign ∧ s.outp = .name) := fun h => heq h.2 h.1
  have h2 : (is_kernel_space c && !s.inquote) = false := by
    cases hc : is_kernel_space c with
    | false => rfl
    | true => simp [hspace hc]
  simp [loop, step, hfin, hdquote, hbslash, h1, h2, hrest]

/-! ## A name -/

theorem is_kernel_space_eq_false {c : UInt8} (h33 : 33 ≤ c) (h127 : c < 127) :
    is_kernel_space c = false := by
  have h1 : 33 ≤ c.toNat := UInt8.le_iff_toNat_le.1 h33
  have h2 : c.toNat < 127 := UInt8.lt_iff_toNat_lt.1 h127
  simp only [is_kernel_space, Bool.or_eq_false_iff, Bool.and_eq_false_iff, decide_eq_false_iff_not,
    beq_eq_false_iff_ne, UInt8.le_iff_toNat_le, ne_eq, ← UInt8.toNat_inj, UInt8.reduceToNat]
  omega

theorem eval_name {nm rest : Str} (hrest : rest ≠ [])
    (hplain : ∀ c ∈ nm, 33 ≤ c ∧ c < 127 ∧ c ≠ dquote ∧ c ≠ eqSign ∧ c ≠ bslash) :
    ∀ (n v : Str) (m : StringStringMap),
      loop.eval ⟨nm ++ rest, n, v, .name, false, m⟩ =
        loop.eval ⟨rest, n ++ nm, v, .name, false, m⟩ := by
  induction nm with
  | nil =>
      intro n v m
      simp
  | cons c nm ih =>
      intro n v m
      -- none of the bytes of a name means anything to the parser
      rcases hplain c (by simp) with ⟨h33, h127, hdq, heq, hbs⟩
      have hspace : is_kernel_space c = false := is_kernel_space_eq_false h33 h127
      have htail : ∀ d ∈ nm, 33 ≤ d ∧ d < 127 ∧ d ≠ dquote ∧ d ≠ eqSign ∧ d ≠ bslash :=
        fun d hd => hplain d (by simp [hd])
      calc
        loop.eval ⟨(c :: nm) ++ rest, n, v, .name, false, m⟩
            = loop.eval ⟨nm ++ rest, n ++ [c], v, .name, false, m⟩ :=
              eval_plain rfl (show nm ++ rest ≠ [] by simp [hrest]) hdq hbs
                (fun _ => heq) (by simp [hspace])
        _ = loop.eval ⟨rest, n ++ [c] ++ nm, v, .name, false, m⟩ := ih htail _ _ _
        _ = loop.eval ⟨rest, n ++ c :: nm, v, .name, false, m⟩ := by simp

/-! ## An escaped value -/

/-- The escape of one byte is read back as that byte. -/
theorem eval_kernelEscape {c : UInt8} {rest : Str} {q : Bool} (hrest : rest ≠ [])
    (hspace : is_kernel_space c = true → q = true) (n v : Str) (m : StringStringMap) :
    loop.eval ⟨kernelEscape c ++ rest, n, v, .value, q, m⟩ =
      loop.eval ⟨rest, n, v ++ [c], .value, q, m⟩ := by
  unfold kernelEscape
  split_ifs with hdq hbs
  · -- `\042`: the look-ahead takes all three digits
    subst hdq
    refine loop.eval_next ?_
    have hlit : str "\\042" = [bslash, 48, 52, 50] := by decide
    have hoctal : (4 : UInt8) <<< 3 + 2 = 34 := by decide
    simp [loop, step, hlit, hoctal, is_kernel_space, Locals.escape, Locals.octalEscape,
      Locals.isOctal, Locals.append]
  · -- `\\`: the second backslash is taken at once
    subst hbs
    refine loop.eval_next ?_
    simp [loop, step, is_kernel_space, Locals.escape, Locals.append]
  · exact eval_plain rfl hrest hdq hbs (by simp) hspace

theorem eval_escapedValue {rest : Str} (hrest : rest ≠ []) (q : Bool) (n : Str)
    (m : StringStringMap) :
    ∀ (s v : Str), (∀ c ∈ s, is_kernel_space c = true → q = true) →
      loop.eval ⟨s.flatMap kernelEscape ++ rest, n, v, .value, q, m⟩ =
        loop.eval ⟨rest, n, v ++ s, .value, q, m⟩ := by
  intro s
  induction s with
  | nil =>
      intro v _
      simp
  | cons c s ih =>
      intro v hspace
      calc
        loop.eval ⟨(c :: s).flatMap kernelEscape ++ rest, n, v, .value, q, m⟩
            = loop.eval
                ⟨kernelEscape c ++ (s.flatMap kernelEscape ++ rest), n, v, .value, q, m⟩ := by
              simp
        _ = loop.eval ⟨s.flatMap kernelEscape ++ rest, n, v ++ [c], .value, q, m⟩ :=
              eval_kernelEscape (by simp [hrest]) (hspace c (by simp)) n v m
        _ = loop.eval ⟨rest, n, v ++ [c] ++ s, .value, q, m⟩ :=
              ih _ fun d hd => hspace d (by simp [hd])
        _ = loop.eval ⟨rest, n, v ++ c :: s, .value, q, m⟩ := by simp

/-- A quoted value is read back whether it needed the quotes or not. -/
theorem eval_kernelQuoted {rest : Str} (hrest : rest ≠ []) (n s : Str) (m : StringStringMap) :
    loop.eval ⟨kernelQuoted s ++ rest, n, [], .value, false, m⟩ =
      loop.eval ⟨rest, n, s, .value, false, m⟩ := by
  unfold kernelQuoted
  dsimp only
  split_ifs with hquotes
  · calc
      loop.eval ⟨dquote :: s.flatMap kernelEscape ++ [dquote] ++ rest, n, [], .value, false, m⟩
          = loop.eval ⟨s.flatMap kernelEscape ++ dquote :: rest, n, [], .value, true, m⟩ := by
            simpa using eval_dquote (s.flatMap kernelEscape ++ dquote :: rest) n [] .value false m
      _ = loop.eval ⟨dquote :: rest, n, s, .value, true, m⟩ := by
            simpa using eval_escapedValue (List.cons_ne_nil dquote rest) true n m s [] (by simp)
      _ = loop.eval ⟨rest, n, s, .value, false, m⟩ := by
            simpa using eval_dquote rest n s .value true m
  · have hspace : ∀ c ∈ s, is_kernel_space c = true → false = true := by
      intro c hc h
      exact absurd (List.any_eq_true.2 ⟨c, hc, h⟩) hquotes
    simpa using eval_escapedValue hrest false n m s [] hspace

/-! ## Whole assignments -/

theorem eval_assignment {nm : Str} (hplain : PlainName nm) (value rest : Str)
    (m : StringStringMap) :
    loop.eval (start (nm ++ [eqSign] ++ kernelQuoted value ++ [space] ++ rest) m) =
      loop.eval (start rest (m.insert nm value)) := by
  calc
    loop.eval (start (nm ++ [eqSign] ++ kernelQuoted value ++ [space] ++ rest) m)
        = loop.eval
            ⟨nm ++ (eqSign :: (kernelQuoted value ++ (space :: rest))), [], [], .name, false,
              m⟩ := by
          simp [start]
    _ = loop.eval ⟨eqSign :: (kernelQuoted value ++ (space :: rest)), nm, [], .name, false, m⟩ := by
          simpa using eval_name (by simp) hplain.2 [] [] m
    _ = loop.eval ⟨kernelQuoted value ++ (space :: rest), nm, [], .value, false, m⟩ :=
          eval_eqSign _ _ _ _ _
    _ = loop.eval ⟨space :: rest, nm, value, .value, false, m⟩ :=
          eval_kernelQuoted (by simp) _ _ _
    _ = loop.eval (start rest (m.insert nm value)) := eval_space hplain.1 _ _ _ _

/-- The parser inserts the printed assignments one after the other, and goes on behind them. -/
theorem eval_assignments_append (usage : UInt32) (nodefault : Bool) (rest : Str) :
    ∀ (opts : List ConfigOption) (m : StringStringMap), (∀ o ∈ opts, PlainName o.name) →
      loop.eval (start (opts.flatMap (DumpConfig.assignment ⟨.FMT_KERNEL, usage, nodefault⟩) ++
          rest) m) =
        loop.eval (start rest (opts.foldl (fun m o => m.insert o.name o.valueAsString) m)) := by
  intro opts
  induction opts with
  | nil =>
      intro m _
      rfl
  | cons o opts ih =>
      intro m hplain
      rw [List.flatMap_cons, List.foldl_cons, List.append_assoc,
        ← ih _ fun p hp => hplain p (by simp [hp])]
      exact eval_assignment (hplain o (by simp)) _ _ m

theorem eval_assignments (usage : UInt32) (nodefault : Bool) (opts : List ConfigOption)
    (m : StringStringMap) (hplain : ∀ o ∈ opts, PlainName o.name) :
    loop.eval (start (opts.flatMap (DumpConfig.assignment ⟨.FMT_KERNEL, usage, nodefault⟩)) m) =
      opts.foldl (fun m o => m.insert o.name o.valueAsString) m := by
  have happend := eval_assignments_append usage nodefault [] opts m hplain
  rw [List.append_nil] at happend
  exact happend.trans (loop.eval_done (by simp [loop, step, start]))

end KernelConfigParser

/-! ## Options and their text -/

theorem isDigit_of_mem_decimal {n : Nat} {c : UInt8} (hc : c ∈ decimal n) : isDigit c = true := by
  rcases List.mem_map.1 hc with ⟨d, hd, rfl⟩
  have hdigit : 48 ≤ d.toNat ∧ d.toNat ≤ 57 :=
    Char.isDigit_iff_toNat.1 (Nat.isDigit_of_mem_toDigits (by decide) (by decide) hd)
  have hmod : d.toUInt8.toNat = d.toNat % 256 := rfl
  simp only [isDigit, Bool.and_eq_true, decide_eq_true_eq, UInt8.le_iff_toNat_le,
    UInt8.reduceToNat]
  omega

theorem takeWhile_isDigit_decimal (n : Nat) : (decimal n).takeWhile isDigit = decimal n :=
  List.takeWhile_eq_self_iff.2 fun _ hc => isDigit_of_mem_decimal hc

theorem digitsValue_decimal (n : Nat) : digitsValue (decimal n) = n := by
  -- digits as bytes and digits as characters have the same value
  have hfold : ∀ (l : List Char) (acc : Nat), (∀ c ∈ l, c.isDigit = true) →
      (l.map Char.toUInt8).foldl (fun acc c => 10 * acc + (c.toNat - 48)) acc =
        l.foldl (fun acc c => 10 * acc + (c.toNat - '0'.toNat)) acc := by
    intro l
    induction l with
    | nil =>
        intro acc _
        rfl
    | cons c l ih =>
        intro acc hdigit
        have hc : c.toUInt8.toNat = c.toNat := by
          have hle : c.toNat ≤ 57 := (Char.isDigit_iff_toNat.1 (hdigit c (by simp))).2
          have hmod : c.toUInt8.toNat = c.toNat % 256 := rfl
          omega
        simp only [List.map_cons, List.foldl_cons, hc]
        exact ih _ fun d hd => hdigit d (by simp [hd])
  calc
    digitsValue (decimal n)
        = Nat.ofDigitChars 10 (Nat.toDigits 10 n) 0 := by
          rw [Nat.ofDigitChars_eq_foldl]
          exact hfold _ 0 fun c hc => Nat.isDigit_of_mem_toDigits (by decide) (by decide) hc
    _ = n := Nat.ofDigitChars_ten_toDigits

theorem clampInt_toInt (i : Int32) : clampInt i.toInt = i := by
  have hlo := i.le_toInt
  have hhi := i.toInt_lt
  have h1 : ¬ i.toInt < -2147483648 := by omega
  have h2 : ¬ 2147483647 < i.toInt := by omega
  simp [clampInt, h1, h2]

/-- Formatted extraction undoes `number2string`, for every `int`. -/
theorem extractInt_number2string (i old : Int32) : extractInt (number2string i) old = i := by
  unfold number2string
  split_ifs with hneg
  · -- a minus sign, then the digits
    have habs : -((i.toInt.natAbs : Nat) : Int) = i.toInt := by omega
    have hspace : isSpace 45 = false := by decide
    simp only [extractInt, List.dropWhile_cons, hspace, Bool.false_eq_true, if_false, if_true,
      takeWhile_isDigit_decimal, digitsValue_decimal, habs, clampInt_toInt]
  · have habs : ((i.toInt.natAbs : Nat) : Int) = i.toInt := by omega
    cases hdec : decimal i.toInt.natAbs with
    | nil => exact absurd hdec (by simp [decimal, Nat.toDigits_ne_nil])
    | cons c cs =>
        have hc : isDigit c = true := isDigit_of_mem_decimal (n := i.toInt.natAbs) (by simp [hdec])
        obtain ⟨hspace, hminus, hplus⟩ := digit_plain hc
        have hvalue : (digitsValue ((c :: cs).takeWhile isDigit) : Int) = i.toInt := by
          rw [← hdec, takeWhile_isDigit_decimal, digitsValue_decimal, habs]
        simp only [extractInt, List.dropWhile_cons, hspace, Bool.false_eq_true, if_false, hminus,
          hplus, hvalue, clampInt_toInt]

/-- An option that reads the text of another option of the same kind takes up its value. -/
theorem ConfigOption.update_valueAsString {o o' : ConfigOption} (h : o.reset = o'.reset) :
    o'.update o.valueAsString = o := by
  cases o with
  | string n u d v =>
      cases o' <;> simp_all [ConfigOption.reset, ConfigOption.update, ConfigOption.valueAsString]
  | int n u d v =>
      cases o' <;> simp_all [ConfigOption.reset, ConfigOption.update, ConfigOption.valueAsString,
        extractInt_number2string]
  | bool n u d v =>
      -- `yes` and `no` are the only texts, and only `no` is false
      have hyes : ((str "yes").map ConfigOption.tolower) = str "yes" := by decide
      have hno : ((str "no").map ConfigOption.tolower) = str "no" := by decide
      cases o' with
      | bool n' u' d' v' =>
          simp only [ConfigOption.reset, ConfigOption.bool.injEq] at h
          rcases h with ⟨rfl, rfl, rfl, _⟩
          cases v
          · simp [ConfigOption.update, ConfigOption.valueAsString, hno]
          · have htrue : (str "yes" == str "0" || str "yes" == str "false" ||
                str "yes" == str "no") = false := by decide
            simp [ConfigOption.update, ConfigOption.valueAsString, hyes, htrue]
      | _ => simp [ConfigOption.reset] at h

/-! ## The map of variables -/

theorem getElem?_foldl_insert_of_notMem {name : Str} :
    ∀ (opts : List ConfigOption) (m : StringStringMap), name ∉ opts.map ConfigOption.name →
      (opts.foldl (fun m o => m.insert o.name o.valueAsString) m)[name]? = m[name]? := by
  intro opts
  induction opts with
  | nil =>
      intro m _
      rfl
  | cons o opts ih =>
      intro m hname
      simp only [List.map_cons, List.mem_cons, not_or] at hname
      rw [List.foldl_cons, ih _ hname.2, Std.TreeMap.getElem?_insert]
      simp [Ne.symm hname.1]

theorem getElem?_foldl_insert_of_mem {o : ConfigOption} :
    ∀ (opts : List ConfigOption) (m : StringStringMap), (opts.map ConfigOption.name).Nodup →
      o ∈ opts →
      (opts.foldl (fun m o => m.insert o.name o.valueAsString) m)[o.name]? =
        some o.valueAsString := by
  intro opts
  induction opts with
  | nil =>
      intro m _ ho
      cases ho
  | cons p opts ih =>
      intro m hnodup ho
      simp only [List.map_cons, List.nodup_cons] at hnodup
      rw [List.foldl_cons]
      rcases List.mem_cons.1 ho with rfl | ho
      · -- no later option has the same name
        rw [getElem?_foldl_insert_of_notMem _ _ hnodup.1]
        simp
      · exact ih _ hnodup.2 ho

/-- The options of the result, given which text the map has for each. -/
theorem updateOptions_eq (m : StringStringMap) (sel : ConfigOption → Bool) :
    ∀ (opts opts' : List ConfigOption),
      List.Forall₂ (fun o o' => o.reset = o'.reset) opts opts' →
      (∀ p ∈ List.zip opts opts', m[p.1.name]? =
        some (if sel p.1 then p.1.valueAsString else p.2.valueAsString)) →
      ∃ h, Configuration.updateOptions m opts' =
        .ok ⟨List.zipWith (fun o o' => if sel o then o else o') opts opts', h⟩ := by
  intro opts opts' hall
  induction hall with
  | nil => exact fun _ => ⟨rfl, rfl⟩
  | @cons o o' opts opts' hreset _ ih =>
      intro hm
      rcases ih fun p hp => hm p (by simp [hp]) with ⟨hl, ih⟩
      have hname : o.name = o'.name := by
        rw [← o.name_reset, hreset, o'.name_reset]
      have hget : getValue m o'.name =
          .ok (if sel o then o.valueAsString else o'.valueAsString) := by
        have h := hm (o, o') (by simp)
        simp only [hname] at h
        simp [getValue, h]
      -- an option whose default is the same takes the printed value back
      have hupdate : o'.update (if sel o then o.valueAsString else o'.valueAsString) =
          if sel o then o else o' := by
        split_ifs
        · exact ConfigOption.update_valueAsString hreset
        · exact ConfigOption.update_valueAsString rfl
      refine ⟨?_, ?_⟩
      · rw [List.zipWith_cons_cons, List.map_cons, List.map_cons, hl]
        split_ifs
        · rw [hreset]
        · rfl
      · simp [Configuration.updateOptions, hget, ih, hupdate, bind, Except.bind]

/-! ## The round trip -/

namespace Configuration

variable {fadump : Bool}

/-- `c0` with the options that `d` selects in `c` replaced by those of `c`. -/
def overrideWith (c0 c : Configuration fadump) (d : DumpConfig) : List ConfigOption :=
  List.zipWith (fun o o0 => if d.selects o then o else o0) c.m_options c0.m_options

/-- What the map has for each option when those that `d` selects have been inserted. -/
theorem getElem?_foldl_selected (c : Configuration fadump) (d : DumpConfig) (m : StringStringMap)
    {o : ConfigOption} (ho : o ∈ c.m_options) :
    ((c.m_options.filter d.selects).foldl (fun m o => m.insert o.name o.valueAsString) m)[o.name]? =
      if d.selects o then some o.valueAsString else m[o.name]? := by
  have hsub : ((c.m_options.filter d.selects).map ConfigOption.name).Sublist
      (c.m_options.map ConfigOption.name) := List.filter_sublist.map _
  have hnodup := c.names_nodup.sublist hsub
  split_ifs with hsel
  · exact getElem?_foldl_insert_of_mem _ _ hnodup (List.mem_filter.2 ⟨ho, hsel⟩)
  · rw [getElem?_foldl_insert_of_notMem]
    -- another option of that name would be the same option
    intro hmem
    rcases List.mem_map.1 hmem with ⟨o', ho', hname⟩
    have heq : o' = o :=
      List.inj_on_of_nodup_map c.names_nodup (List.mem_filter.1 ho').1 ho hname
    exact hsel (heq ▸ (List.mem_filter.1 ho').2)

/-- The options of two configurations have the same names. -/
theorem name_eq_of_mem_zip {c c0 : Configuration fadump} {p : ConfigOption × ConfigOption}
    (hp : p ∈ List.zip c.m_options c0.m_options) : p.1.name = p.2.name := by
  have hreset : p.1.reset = p.2.reset := (List.forall₂_iff_zip.1 (c.forall₂_reset c0)).2 hp
  rw [← p.1.name_reset, hreset, p.2.name_reset]

/-- What the parser has for each option after reading the text of `c` over `c0`. -/
theorem parsed_getElem? (c c0 : Configuration fadump) (d : DumpConfig)
    (p : ConfigOption × ConfigOption) (hp : p ∈ List.zip c.m_options c0.m_options) :
    ((c.m_options.filter d.selects).foldl (fun m o => m.insert o.name o.valueAsString)
      (c0.m_options.foldl (fun m o => addVariable m o.name o.valueAsString) ∅))[p.1.name]? =
        some (if d.selects p.1 then p.1.valueAsString else p.2.valueAsString) := by
  have hp1 : p.1 ∈ c.m_options := (List.of_mem_zip hp).1
  have hp2 : p.2 ∈ c0.m_options := (List.of_mem_zip hp).2
  rw [c.getElem?_foldl_selected d _ hp1]
  split_ifs with hsel
  · rfl
  · rw [name_eq_of_mem_zip hp]
    exact getElem?_foldl_insert_of_mem _ _ c0.names_nodup hp2

/-- Reading the kernel format of `c` over `c0` overrides exactly the printed options. -/
theorem readCmdLine_execute_eq (c c0 : Configuration fadump) (usage : UInt32) (nodefault : Bool)
    (filename : Str) :
    ∃ h, c0.readCmdLine ⟨filename, .ok (DumpConfig.execute ⟨.FMT_KERNEL, usage, nodefault⟩ c)⟩ =
      .ok ⟨c0.overrideWith c ⟨.FMT_KERNEL, usage, nodefault⟩, h⟩ := by
  have hplain : ∀ o ∈ c.m_options.filter (DumpConfig.selects ⟨.FMT_KERNEL, usage, nodefault⟩),
      PlainName o.name := fun o ho => c.plainName (List.mem_filter.1 ho).1
  rcases updateOptions_eq _ (DumpConfig.selects ⟨.FMT_KERNEL, usage, nodefault⟩)
    c.m_options c0.m_options (c.forall₂_reset c0)
    (parsed_getElem? c c0 ⟨.FMT_KERNEL, usage, nodefault⟩) with ⟨h, hupdate⟩
  refine ⟨h.trans c0.table, ?_⟩
  unfold readCmdLine KernelConfigParser.parse
  rw [DumpConfig.execute_eq_filter]
  simp only [bind, Except.bind]
  rw [KernelConfigParser.eval_assignments _ _ _ _ hplain, hupdate]
  rfl

theorem isDefault_of_mem_define_opt (o : ConfigOption) (ho : o ∈ define_opt fadump) :
    o.isDefault = true := by
  have htable : (define_opt fadump).map ConfigOption.reset = (define_opt fadump).map id := by
    rw [List.map_id]
    exact (defaults fadump).table
  exact (ConfigOption.isDefault_iff o).2 (List.map_inj_left.1 htable o ho).symm

/-- An option that is not printed is replaced by one that would not be printed either. -/
theorem not_selects_of_not_selects {c c0 : Configuration fadump} {d : DumpConfig}
    (h : d.m_nodefault = false ∨ c0 = defaults fadump) {p : ConfigOption × ConfigOption}
    (hp : p ∈ List.zip c.m_options c0.m_options) (hsel : d.selects p.1 = false) :
    d.selects p.2 = false := by
  have hreset : p.1.reset = p.2.reset := (List.forall₂_iff_zip.1 (c.forall₂_reset c0)).2 hp
  have husage : p.1.usage = p.2.usage := by
    rw [← p.1.usage_reset, hreset, p.2.usage_reset]
  rcases h with hnd | rfl
  · simpa [DumpConfig.selects, hnd, husage] using hsel
  · -- a default configuration has nothing to print with `nodefault`
    have hdef : p.2.isDefault = true :=
      isDefault_of_mem_define_opt p.2 (List.of_mem_zip hp).2
    cases hnd : d.m_nodefault with
    | false => simpa [DumpConfig.selects, hnd, husage] using hsel
    | true => simp [DumpConfig.selects, hnd, hdef]

theorem flatMap_zipWith_selects (d : DumpConfig) :
    ∀ (opts opts0 : List ConfigOption), opts.length = opts0.length →
      (∀ p ∈ List.zip opts opts0, d.selects p.1 = false → d.selects p.2 = false) →
      (List.zipWith (fun o o0 => if d.selects o then o else o0) opts opts0).flatMap
          (fun o => if d.selects o then d.assignment o else []) =
        opts.flatMap fun o => if d.selects o then d.assignment o else [] := by
  intro opts
  induction opts with
  | nil =>
      intro opts0 _ _
      rfl
  | cons o opts ih =>
      intro opts0 hlen hsel
      cases opts0 with
      | nil => cases hlen
      | cons o0 opts0 =>
          have htail := ih opts0 (by simpa using hlen) fun p hp => hsel p (by simp [hp])
          have hhead := hsel (o, o0) (by simp)
          cases ho : d.selects o with
          | true => simp [ho, htail]
          | false => simp [ho, hhead ho, htail]

/-- Reading the kernel format of a configuration over any other one sets every printed option to
its value and no other option, and what has been read is dumped to the same text again. -/
theorem readCmdLine_execute (c c0 : Configuration fadump) (usage : UInt32) (nodefault : Bool)
    (filename : Str) :
    ∃ c' : Configuration fadump,
      c0.readCmdLine
          ⟨filename, .ok (DumpConfig.execute ⟨.FMT_KERNEL, usage, nodefault⟩ c)⟩ = .ok c' ∧
        c'.m_options = c0.overrideWith c ⟨.FMT_KERNEL, usage, nodefault⟩ ∧
        (nodefault = false ∨ c0 = defaults fadump →
          DumpConfig.execute ⟨.FMT_KERNEL, usage, nodefault⟩ c' =
            DumpConfig.execute ⟨.FMT_KERNEL, usage, nodefault⟩ c) := by
  rcases readCmdLine_execute_eq c c0 usage nodefault filename with ⟨h, hread⟩
  refine ⟨_, hread, rfl, ?_⟩
  intro hnd
  have hlen : c.m_options.length = c0.m_options.length := (c.forall₂_reset c0).length_eq
  exact flatMap_zipWith_selects _ _ _ hlen fun p hp hsel =>
    not_selects_of_not_selects (d := ⟨.FMT_KERNEL, usage, nodefault⟩) hnd hp hsel

end Configuration

end Config
end Kdump

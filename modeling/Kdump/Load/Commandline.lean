import Kdump.Lib.Glob
import Kdump.Load.Parameters

/-!
# Commandline — `build_kdump_commandline` of the load script

The command line of the crash kernel is made from that of the running kernel, unless one is
configured.  At last `panic=1` is appended if removing the option `panic` changes nothing.

* `Environment`, `build_kdump_commandline` — the function;
* `Removes`, `AppendsPanic` — what the two functions are for;
* `remove_from_commandline_correct_iff` — for which lines they do it.
-/

namespace Kdump
namespace Load

open Lib Config

/-! ## The function -/

/-- `$(...)`: newlines at the end are removed. -/
def substitution (output : Str) : Str :=
  output.rdropWhile (· == newline)

/-- The variables and the commands that the function looks at.  A command is given by its output
without the newlines at the end. -/
structure Environment where
  KDUMP_COMMANDLINE : Str
  KDUMP_COMMANDLINE_APPEND : Str
  KDUMP_CPUS : Option Int32
  proc_cmdline : Str
  cpus_param : Str
  uname_i : Str
  uname_r : Str
  boot_apicid : Str
  set_serial_console : Str

/-- The options of the running kernel that are not taken over. -/
def notInherited : List Str :=
  [str "root", str "resume", str "crashkernel", str "splash", str "mem", str "BOOT_IMAGE",
    str "showopts", str "zfcp.allow_lun_scan", str "hugepages", str "acpi_no_memhotplug",
    str "cgroup_disable", str "unknown_nmi_panic", str "rd.udev.children-max"]

/-- `uname -i` in `case`: `i?86|x86_64` -/
def isX86 (machine : Str) : Bool :=
  Glob.accepts (Glob.parse (str "i?86")) machine || Glob.accepts (Glob.parse (str "x86_64")) machine

/-- The command line if none is configured. -/
def inheritedCommandline (e : Environment) : Str :=
  let commandline := substitution (remove_from_commandline notInherited e.proc_cmdline)
  let cpus := e.KDUMP_CPUS.getD 1
  let nr_cpus := if cpus ≠ 0 then e.cpus_param ++ str "=" ++ number2string cpus else []
  let commandline := commandline ++ str " elevator=deadline sysrq=yes reset_devices" ++
    str " acpi_no_memhotplug cgroup_disable=memory nokaslr"
  let commandline := commandline ++ str " numa=off"
  let commandline := commandline ++ str " irqpoll " ++ nr_cpus
  let commandline := commandline ++ str " root=kdump rootflags=bind rd.udev.children-max=8"
  let commandline :=
    if isX86 e.uname_i then
      let commandline :=
        if e.boot_apicid ≠ [] then commandline ++ str " disable_cpu_apicid=" ++ e.boot_apicid
        else commandline
      substitution (remove_from_commandline
        [str "unknown_nmi_panic", str "notsc", str "console=hvc0"] (commandline ++ [newline]))
    else if Glob.accepts (Glob.parse (str "s390*")) e.uname_i then
      commandline ++ str " zfcp.allow_lun_scan=0"
    else commandline
  -- Xen does not say which kernel it is
  if str "-xen" <:+ e.uname_r then commandline ++ str " kernelversion=" ++ e.uname_r
  else commandline

/-- The command line before the last step. -/
def commandlineWithoutPanic (e : Environment) : Str :=
  let commandline :=
    if e.KDUMP_COMMANDLINE = [] then inheritedCommandline e else e.KDUMP_COMMANDLINE
  let commandline := commandline ++ str " " ++ e.set_serial_console
  commandline ++ str " " ++ e.KDUMP_COMMANDLINE_APPEND

/-- `build_kdump_commandline` -/
def build_kdump_commandline (e : Environment) : Str :=
  let commandline := commandlineWithoutPanic e
  let cmdline_nopanic :=
    substitution (remove_from_commandline [str "panic"] (commandline ++ [newline]))
  if commandline = cmdline_nopanic then commandline ++ str " panic=1" else commandline

/-! ## What they are for -/

/-- The program ends, it keeps the parameters that are not options of these names, and it changes
nothing the second time. -/
structure Removes (names : List Str) (line : Str) : Prop where
  ends : ∃ last, (removeLoop names).Reach ⟨line, []⟩ last ∧ last.record = []
  exact : remove_from_commandline names (line ++ [newline]) =
    (kept names (parameters line)).flatten ++ [newline]
  again : remove_from_commandline names (remove_from_commandline names (line ++ [newline])) =
    remove_from_commandline names (line ++ [newline])

/-- The line has a parameter `panic`. -/
def HasPanic (line : Str) : Prop :=
  ∃ p ∈ parameters line, Removable [str "panic"] p

/-- `panic=1` is appended if there is no such parameter, and only then. -/
def AppendsPanic (e : Environment) : Prop :=
  build_kdump_commandline e = commandlineWithoutPanic e ++ str " panic=1" ↔
    ¬ HasPanic (commandlineWithoutPanic e)

/-- From the first parameter with a quote on, either all parameters are to be removed or none, and
the same goes for the whole of them, taken as one parameter. -/
def AsOne (names : List Str) (line : Str) : Prop :=
  ∀ p ∈ quotedRest line, (Removable names p ↔ Removable names (quotedRest line).flatten)

instance (names : List Str) (line : Str) : Decidable (AsOne names line) :=
  inferInstanceAs (Decidable (∀ p ∈ quotedRest line, _))

/-- If `panic` is among the parameters from the first one with a quote on, then it is also in front
of them, or they begin with it. -/
def PanicInSight (line : Str) : Prop :=
  (∃ p ∈ plainFront line, Removable [str "panic"] p) ∨
    Removable [str "panic"] (quotedRest line).flatten ∨
    ∀ p ∈ quotedRest line, ¬ Removable [str "panic"] p

instance (line : Str) : Decidable (PanicInSight line) :=
  inferInstanceAs (Decidable (_ ∨ _ ∨ _))

/-! ## One line -/

section

variable {names : List Str} {line : Str}

theorem records_line (hline : newline ∉ line) : records (line ++ [newline]) = [line] := by
  have hsplit : (line ++ [newline]).splitOn newline = [line, []] := by
    change List.splitOnP (· == newline) _ = _
    refine List.splitOnP_append_cons_of_forall_mem ?_ newline (by decide) []
    intro c hc
    refine beq_false_of_ne ?_
    rintro rfl
    exact hline hc
  rw [records, hsplit]
  rfl

theorem remove_from_commandline_line (hline : newline ∉ line) :
    remove_from_commandline names (line ++ [newline]) =
      (kept names (seen line)).flatten ++ [newline] := by
  rw [remove_from_commandline, records_line hline, List.flatMap_singleton, eval_removeLoop]
  rfl

/-- What is printed is part of the line. -/
theorem notMem_kept (hline : newline ∉ line) : newline ∉ (kept names (seen line)).flatten := by
  intro hmem
  obtain ⟨p, hp, hin⟩ := List.mem_flatten.1 hmem
  refine hline ?_
  rw [← flatten_seen line]
  exact List.mem_flatten.2 ⟨p, List.mem_of_mem_filter hp, hin⟩

theorem substitution_line (hline : newline ∉ line) : substitution (line ++ [newline]) = line := by
  rw [substitution, List.rdropWhile_concat_pos (· == newline) _ _ (by decide),
    List.rdropWhile_eq_self_iff]
  intro hne heq
  exact hline (beq_iff_eq.1 heq ▸ List.getLast_mem hne)

theorem removes_ends (names : List Str) (line : Str) :
    ∃ last, (removeLoop names).Reach ⟨line, []⟩ last ∧ last.record = [] := by
  obtain ⟨last, hreach, hdone⟩ := Loop.exists_last (L := removeLoop names) ⟨line, []⟩
  refine ⟨last, hreach, ?_⟩
  change removeStep names last = _ at hdone
  unfold removeStep at hdone
  split at hdone
  · rename_i hempty
    exact List.isEmpty_iff.1 hempty
  · dsimp only at hdone
    split at hdone
    · cases hdone
    · cases hdone

theorem removes_again (hline : newline ∉ line) :
    remove_from_commandline names (remove_from_commandline names (line ++ [newline])) =
      remove_from_commandline names (line ++ [newline]) := by
  rw [remove_from_commandline_line hline, remove_from_commandline_line (notMem_kept hline),
    seen_kept, kept, kept, List.filter_filter]
  simp only [Bool.and_self]

end

/-! ## When the output is right -/

section

variable {names : List Str} {line : Str} {params : List Str}

theorem flatten_kept_eq_nil_iff (hne : ∀ p ∈ params, p ≠ []) :
    (kept names params).flatten = [] ↔ ∀ p ∈ params, Removable names p := by
  induction params with
  | nil => exact iff_of_true rfl fun p hp => absurd hp List.not_mem_nil
  | cons p params ih =>
      have ih := ih fun q hq => hne q (List.mem_cons_of_mem _ hq)
      rw [List.forall_mem_cons]
      by_cases hp : Removable names p
      · rw [kept_cons_of_removable hp, and_iff_right hp, ih]
      · rw [kept_cons hp, List.flatten_cons, List.append_eq_nil_iff]
        exact iff_of_false (fun h => hne p List.mem_cons_self h.1) (fun h => hp h.1)

theorem flatten_kept_eq_iff (hne : ∀ p ∈ params, p ≠ []) :
    (kept names params).flatten = params.flatten ↔ ∀ p ∈ params, ¬ Removable names p := by
  induction params with
  | nil => exact iff_of_true rfl fun p hp => absurd hp List.not_mem_nil
  | cons p params ih =>
      have ih := ih fun q hq => hne q (List.mem_cons_of_mem _ hq)
      rw [List.forall_mem_cons]
      by_cases hp : Removable names p
      · -- the output is shorter by the parameter that is missing
        refine iff_of_false ?_ fun h => h.1 hp
        rw [kept_cons_of_removable hp, List.flatten_cons]
        intro heq
        have hle : (kept names params).flatten.length ≤ params.flatten.length :=
          (List.Sublist.flatten List.filter_sublist).length_le
        have hpos := List.length_pos_iff.2 (hne p List.mem_cons_self)
        rw [heq, List.length_append] at hle
        omega
      · rw [kept_cons hp, and_iff_right hp, List.flatten_cons, List.flatten_cons,
          List.append_cancel_left_eq, ih]

theorem kept_append (front behind : List Str) :
    kept names (front ++ behind) = kept names front ++ kept names behind :=
  List.filter_append front behind

theorem plainFront_append (line : Str) : plainFront line ++ quotedRest line = parameters line :=
  List.takeWhile_append_dropWhile

theorem ne_nil_of_mem_quotedRest : ∀ p ∈ quotedRest line, p ≠ [] := by
  intro p hp
  have hmem : p ∈ parameters line := by
    rw [← plainFront_append]
    exact List.mem_append_right _ hp
  exact ne_nil_of_mem_parameters p hmem

theorem seen_of_nil (h : quotedRest line = []) : seen line = plainFront line := by
  rw [seen, h]
  exact List.append_nil _

theorem seen_of_ne (h : quotedRest line ≠ []) :
    seen line = plainFront line ++ [(quotedRest line).flatten] := by
  rw [seen, if_neg fun hempty => h (List.isEmpty_iff.1 hempty)]

/-- The program keeps the right parameters. -/
theorem kept_seen_iff : (kept names (seen line)).flatten = (kept names (parameters line)).flatten ↔
    AsOne names line := by
  unfold AsOne
  rw [← plainFront_append]
  by_cases hnil : quotedRest line = []
  · rw [seen_of_nil hnil, hnil, List.append_nil]
    exact iff_of_true rfl fun p hp => absurd hp List.not_mem_nil
  · rw [seen_of_ne hnil, kept_append, kept_append, List.flatten_append, List.flatten_append,
      List.append_cancel_left_eq]
    -- the program prints all of the rest of the line, or nothing of it
    by_cases hwhole : Removable names (quotedRest line).flatten
    · rw [kept_cons_of_removable hwhole, eq_comm]
      refine (flatten_kept_eq_nil_iff ne_nil_of_mem_quotedRest).trans ?_
      exact forall₂_congr fun p _ => (iff_true_right hwhole).symm
    · have hsingle : (kept names [(quotedRest line).flatten]).flatten =
          (quotedRest line).flatten := by
        rw [kept_cons hwhole, kept, List.filter_nil, List.flatten_singleton]
      rw [hsingle, eq_comm]
      refine (flatten_kept_eq_iff ne_nil_of_mem_quotedRest).trans ?_
      exact forall₂_congr fun p _ => (iff_false_right hwhole).symm

/-- Nothing is removed. -/
theorem kept_seen_eq_self_iff : (kept names (seen line)).flatten = line ↔
    (∀ p ∈ plainFront line, ¬ Removable names p) ∧
      (quotedRest line ≠ [] → ¬ Removable names (quotedRest line).flatten) := by
  have hfront : ∀ p ∈ plainFront line, p ≠ [] := by
    intro p hp
    have hmem : p ∈ parameters line := by
      rw [← plainFront_append]
      exact List.mem_append_left _ hp
    exact ne_nil_of_mem_parameters p hmem
  have hline := flatten_seen line
  by_cases hnil : quotedRest line = []
  · rw [seen_of_nil hnil] at hline ⊢
    rw [← flatten_kept_eq_iff hfront, hline]
    exact (and_iff_left fun hne => absurd hnil hne).symm
  · have hwhole : (quotedRest line).flatten ≠ [] := by
      intro hflat
      obtain ⟨p, hp⟩ := List.exists_mem_of_ne_nil _ hnil
      exact ne_nil_of_mem_quotedRest p hp (List.flatten_eq_nil_iff.1 hflat p hp)
    have hne : ∀ p ∈ plainFront line ++ [(quotedRest line).flatten], p ≠ [] := by
      intro p hp
      rcases List.mem_append.1 hp with hp | hp
      · exact hfront p hp
      · rwa [List.mem_singleton.1 hp]
    rw [seen_of_ne hnil] at hline ⊢
    have hall : (kept names _).flatten = _ ↔ ∀ p ∈ _, ¬ Removable names p :=
      flatten_kept_eq_iff hne
    rw [hline, List.forall_mem_append, List.forall_mem_singleton] at hall
    exact hall.trans (and_congr_right fun _ => (imp_iff_right hnil).symm)

theorem removes_iff (hline : newline ∉ line) : Removes names line ↔ AsOne names line := by
  have hexact : remove_from_commandline names (line ++ [newline]) =
      (kept names (parameters line)).flatten ++ [newline] ↔ AsOne names line := by
    rw [remove_from_commandline_line hline, List.append_cancel_right_eq, kept_seen_iff]
  constructor
  · intro h
    exact hexact.1 h.exact
  · intro h
    exact ⟨removes_ends names line, hexact.2 h, removes_again hline⟩

end

/-! ## A name without white space -/

section

variable {names : List Str} {line : Str}

/-- Text behind white space does not change what a name without white space matches. -/
theorem isNamed_of_append {raw behind : Str}
    (hnames : ∀ name ∈ names, ∀ c ∈ name, isSpace c = false)
    (hbehind : WordEnds behind) (h : IsNamed names (raw ++ behind)) : IsNamed names raw := by
  cases behind with
  | nil => rwa [List.append_nil] at h
  | cons c behind =>
      have hc : isSpace c = true := by simpa using stops_cons.1 hbehind
      obtain ⟨name, hname, rfl | ⟨rest, hrest⟩⟩ := h
      · have hfalse := hnames _ hname c (List.mem_append_right _ List.mem_cons_self)
        rw [hc] at hfalse
        cases hfalse
      · rcases List.append_eq_append_iff.1 hrest with ⟨a, ha, _⟩ | ⟨a, ha, hcut⟩
        · exact ⟨name, hname, Or.inr ⟨a, ha.symm⟩⟩
        · cases a with
          | nil =>
              rw [List.append_nil] at ha
              exact ⟨name, hname, Or.inr ⟨[], by rw [ha, List.append_nil]⟩⟩
          | cons d a =>
              -- the name would have to go on behind the white space
              obtain rfl := (List.cons.inj hcut).1
              have hmem : c ∈ name ++ [eqSign] := by
                rw [ha]
                exact List.mem_append_right _ List.mem_cons_self
              rcases List.mem_append.1 hmem with hmem | hmem
              · have hfalse := hnames _ hname c hmem
                rw [hc] at hfalse
                cases hfalse
              · rw [List.mem_singleton.1 hmem] at hc
                exact absurd hc (by decide)

theorem wordEnds_of_mem_cutParameter {inWord inside : Bool} {text : Str} :
    ∀ p ∈ (cutParameter inWord inside text).2, WordEnds p := by
  induction text generalizing inWord inside with
  | nil =>
      intro p hp
      cases hp
  | cons c text ih =>
      rw [cutParameter]
      split
      · rename_i hends
        intro p hp
        rcases List.mem_cons.1 hp with rfl | hp
        · rw [Bool.and_eq_true] at hends
          exact stops_cons.2 (by rw [hends.2]; rfl)
        · exact ih p hp
      · exact ih

/-- Behind any parameter there is white space, or nothing. -/
theorem wordEnds_behind {front behind : List Str} {p : Str}
    (h : parameters line = front ++ p :: behind) : WordEnds behind.flatten := by
  have hmem : ∀ q ∈ behind, q ∈ (cutParameter false false line).2 := by
    intro q hq
    have hline : line ≠ [] := by
      rintro rfl
      exact List.cons_ne_nil _ _ (List.append_eq_nil_iff.1 h.symm).2
    rw [parameters_of_ne hline] at h
    cases front with
    | nil => exact (List.cons.inj h).2 ▸ hq
    | cons p' front =>
        rw [(List.cons.inj h).2]
        exact List.mem_append_right _ (List.mem_cons_of_mem _ hq)
  cases behind with
  | nil => exact stops_nil
  | cons q behind =>
      have hq := hmem q List.mem_cons_self
      exact (stops_append (ne_nil_of_mem_cutParameter q hq)).2 (wordEnds_of_mem_cutParameter q hq)

theorem unquote_wordEnds {behind : Str} (h : WordEnds behind) : WordEnds (unquote behind) := by
  cases behind with
  | nil => exact stops_nil
  | cons c behind =>
      have hc := stops_cons.1 h
      have hne : c ≠ dquote := by
        rintro rfl
        exact absurd hc (by decide)
      rw [unquote, List.filter_cons_of_pos (by simpa using hne)]
      exact stops_cons.2 hc

/-- If the rest of the line is taken for such an option, then its first parameter is one. -/
theorem exists_removable_of_whole (hnames : ∀ name ∈ names, ∀ c ∈ name, isSpace c = false)
    (hne : quotedRest line ≠ []) (h : Removable names (quotedRest line).flatten) :
    ∃ p ∈ quotedRest line, Removable names p := by
  have hfirst := List.head?_dropWhile_not isUnquoted (parameters line)
  have hsplit := plainFront_append line
  cases hrest : quotedRest line with
  | nil => exact absurd hrest hne
  | cons p behind =>
      rw [hrest] at hsplit h
      have hquote : dquote ∈ p := by
        have hhead : ((parameters line).dropWhile isUnquoted).head? = some p := by
          rw [← quotedRest, hrest]
          rfl
        rw [hhead] at hfirst
        simpa [isUnquoted] using hfirst
      -- a parameter with a quote has a word, so that the name is looked for in this word
      have hword : p.dropWhile isSpace ≠ [] := by
        intro hnil
        exact absurd (List.dropWhile_eq_nil_iff.1 hnil dquote hquote) (by decide)
      have hends := wordEnds_behind hsplit.symm
      refine ⟨p, List.mem_cons_self, ?_⟩
      rw [Removable, List.flatten_cons, List.dropWhile_append,
        if_neg fun hempty => hword (List.isEmpty_iff.1 hempty), unquote, List.filter_append] at h
      exact isNamed_of_append hnames (unquote_wordEnds hends) h

end

/-! ## The command line of the crash kernel -/

section

variable {e : Environment}

theorem appended_iff (hline : newline ∉ commandlineWithoutPanic e) :
    build_kdump_commandline e = commandlineWithoutPanic e ++ str " panic=1" ↔
      (kept [str "panic"] (seen (commandlineWithoutPanic e))).flatten =
        commandlineWithoutPanic e := by
  have hnopanic : substitution (remove_from_commandline [str "panic"]
      (commandlineWithoutPanic e ++ [newline])) =
        (kept [str "panic"] (seen (commandlineWithoutPanic e))).flatten := by
    rw [remove_from_commandline_line hline, substitution_line (notMem_kept hline)]
  unfold build_kdump_commandline
  simp only [hnopanic]
  split
  · rename_i heq
    exact iff_of_true rfl heq.symm
  · rename_i hne
    refine iff_of_false ?_ fun heq => hne heq.symm
    intro heq
    have hlength := congrArg List.length heq
    rw [List.length_append] at hlength
    have hpos : 0 < (str " panic=1").length := by decide
    omega

theorem not_hasPanic_iff (line : Str) : ¬ HasPanic line ↔
    (∀ p ∈ plainFront line, ¬ Removable [str "panic"] p) ∧
      ∀ p ∈ quotedRest line, ¬ Removable [str "panic"] p := by
  rw [HasPanic, ← plainFront_append, ← List.forall_mem_append]
  exact not_exists.trans (forall_congr' fun _ => not_and)

theorem appendsPanic_iff (hline : newline ∉ commandlineWithoutPanic e) :
    AppendsPanic e ↔ PanicInSight (commandlineWithoutPanic e) := by
  have hnames : ∀ name ∈ [str "panic"], ∀ c ∈ name, isSpace c = false := by decide +kernel
  rw [AppendsPanic, appended_iff hline, kept_seen_eq_self_iff, not_hasPanic_iff, PanicInSight]
  generalize commandlineWithoutPanic e = line
  by_cases hfront : ∃ p ∈ plainFront line, Removable [str "panic"] p
  · -- a parameter that the program sees as it is
    have hnot : ¬ ∀ p ∈ plainFront line, ¬ Removable [str "panic"] p := by
      push Not
      exact hfront
    exact iff_of_true (iff_of_false (fun h => hnot h.1) (fun h => hnot h.1)) (Or.inl hfront)
  · have hall : ∀ p ∈ plainFront line, ¬ Removable [str "panic"] p := by
      intro p hp hremove
      exact hfront ⟨p, hp, hremove⟩
    rw [and_iff_right hall, and_iff_right hall, or_iff_right hfront]
    by_cases hnil : quotedRest line = []
    · have hnone : ∀ p ∈ quotedRest line, ¬ Removable [str "panic"] p := by
        rw [hnil]
        exact fun p hp => absurd hp List.not_mem_nil
      exact iff_of_true (iff_of_true (fun hne => absurd hnil hne) hnone) (Or.inr hnone)
    · rw [imp_iff_right hnil]
      by_cases hwhole : Removable [str "panic"] (quotedRest line).flatten
      · obtain ⟨p, hp, hremove⟩ := exists_removable_of_whole hnames hnil hwhole
        refine iff_of_true (iff_of_false (fun h => h hwhole) ?_) (Or.inl hwhole)
        exact fun h => h p hp hremove
      · rw [or_iff_right hwhole]
        exact iff_true_left hwhole

end

end Load
end Kdump

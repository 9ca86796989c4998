import Kdump.Dump.Makedumpfile
import Kdump.Lib.Occurrence

/-!
# Parallel — how many processors `makedumpfile` is to use

`saveDump` looks for the names of flags anywhere in `KDUMPTOOL_FLAGS`, where they may be parts of
other words; and `SPLIT` is a part of `NOSPLIT`.

* `flagWords` — the flags that are given;
* `manual` — what the manual says about them;
* `endState_parallel` — what `saveDump` leaves in `m_split` and `m_threads`;
* `parallel_iff` — when this is what the manual says;
* `flagsAgree_iff` — for the flags of the manual, only `NOSPLIT` makes a difference.
-/

namespace Kdump
namespace Dump

open Lib Config

variable {fadump : Bool}

/-! ## The manual -/

section

variable (c : Configuration fadump)

/-- The flags are a list that is separated by spaces. -/
def flagWords : List Str :=
  (c.stringValue "KDUMPTOOL_FLAGS").splitOn space

def Given (flag : String) : Prop :=
  str flag ∈ flagWords c

instance (flag : String) : Decidable (Given c flag) :=
  inferInstanceAs (Decidable (_ ∈ _))

/-- `NOSPLIT` is an alias for `SINGLE`. -/
def GivenSingle : Prop :=
  Given c "SINGLE" ∨ Given c "NOSPLIT"

instance : Decidable (GivenSingle c) :=
  inferInstanceAs (Decidable (_ ∨ _))

/-- The processors that are there and may be used. -/
def usable (online : UInt64) : Int :=
  min (c.intValue "KDUMP_CPUS").toInt online.toNat

/-- `m_split` and `m_threads` by the manual. -/
def manual (online : UInt64) : Int × Int :=
  if GivenSingle c ∨ isFormat c "elf" = true ∨ usable c online ≤ 1 then
    (0, 0)
  else if Given c "SPLIT" then
    (usable c online, 0)
  else
    (0, usable c online - 1)

/-- `m_split` and `m_threads` of an object. -/
def processes (obj : SaveDump) : Int × Int :=
  (obj.m_split, obj.m_threads)

/-- A part of the text is taken for a flag just when the flag is given. -/
structure FlagsAgree : Prop where
  single : c.kdumptoolContainsFlag "SINGLE" = true ↔ GivenSingle c
  split : ¬ GivenSingle c →
    ((c.kdumptoolContainsFlag "SPLIT" = true ∧ c.kdumptoolContainsFlag "NOSPLIT" = false) ↔
      Given c "SPLIT")

end

/-! ## What `saveDump` does -/

section

variable {c : Configuration fadump} {w : Machine} {s : Saving}

/-- Behind the decision, `m_split` and `m_threads` stay as they are. -/
theorem saveVmcore_parallel {dumplevel : Int32} {n : UInt64}
    (hformat : isFormat c "none" = false) (hcpus : cpus c w = .ok n) :
    processes (endState (saveVmcore c w dumplevel s)).obj = processes (parallel c n s.obj) := by
  have hnone : ¬ isFormat c "none" = true := Bool.eq_false_iff.1 hformat
  refine (@wp_endState _ _ _ (saveVmcore c w dumplevel) s fun s' =>
    processes s'.obj = processes (parallel c n s.obj)).1 ?_
  rw [saveVmcore, if_neg hnone, wp_bind, wp_ofExcept, hcpus]
  dsimp only
  rw [wp_bind, modifyDump, wp_modify, wp_bind, wp_ofExcept]
  cases excludeDomU c w with
  | error e => rfl
  | ok exclude =>
      dsimp only
      rw [wp_bind, wp_get, wp_bind, modifyDump, wp_modify, wp_performDirect]
      rfl

theorem endState_parallel {obj : SaveDump} {n : UInt64} (hdump : HasDump w)
    (hformat : isFormat c "none" = false) (hcpus : cpus c w = .ok n) :
    processes (endState (saveDump c w ⟨obj, []⟩)).obj = processes (parallel c n obj) := by
  obtain ⟨hexists, size, hsize, hfileSize⟩ := hdump
  refine (@wp_endState _ _ _ (saveDump c w) ⟨obj, []⟩ fun s' =>
    processes s'.obj = processes (parallel c n obj)).1 ?_
  rw [saveDump, wp_bind, wp_get, if_neg (by rw [hexists]; exact Bool.false_ne_true), wp_bind,
    wp_ofExcept, hfileSize]
  dsimp only
  rw [if_neg hsize, wp_bind, wp_saveDmesg, wp_endState]
  exact saveVmcore_parallel hformat hcpus

/-- `KDUMP_CPUS` and the number of processors, as the program compares them. -/
theorem cpus_ok {online : UInt64} (h : w.numOnline = .ok online) :
    cpus c w = .ok (min (configuredCpus c) online) := by
  rw [cpus, h]
  split_ifs with hzero
  · rfl
  · rw [not_not.1 hzero]
    congr 1

/-- A negative number becomes a large one. -/
theorem toNat_configuredCpus : ((configuredCpus c).toNat : Int) =
    if 0 ≤ (c.intValue "KDUMP_CPUS").toInt then
      (c.intValue "KDUMP_CPUS").toInt
    else
      (c.intValue "KDUMP_CPUS").toInt + 2 ^ 64 := by
  have hwiden : (c.intValue "KDUMP_CPUS").toInt64.toBitVec.toInt =
      (c.intValue "KDUMP_CPUS").toInt := Int32.toInt_toInt64 _
  have hbits : (configuredCpus c).toNat = (c.intValue "KDUMP_CPUS").toInt64.toBitVec.toNat := rfl
  have hsign := BitVec.toInt_eq_toNat_cond (c.intValue "KDUMP_CPUS").toInt64.toBitVec
  have hlt := (c.intValue "KDUMP_CPUS").toInt64.toBitVec.isLt
  rw [hwiden] at hsign
  rw [hbits]
  split_ifs at hsign ⊢ <;> omega

theorem usable_of_nonneg {online : UInt64} (h : 0 ≤ (c.intValue "KDUMP_CPUS").toInt) :
    usable c online = ((min (configuredCpus c) online).toNat : Int) := by
  have hcpus := @toNat_configuredCpus _ c
  rw [if_pos h] at hcpus
  rw [usable, UInt64.toNat_min, Nat.cast_min, hcpus]

/-- All processors are taken. -/
theorem cpus_of_neg {online : UInt64} (h : (c.intValue "KDUMP_CPUS").toInt < 0) :
    2 ≤ online.toNat → 2 ≤ (min (configuredCpus c) online).toNat := by
  have hcpus := @toNat_configuredCpus _ c
  have hlow : -2 ^ 31 ≤ (c.intValue "KDUMP_CPUS").toInt := Int32.le_toInt _
  rw [if_neg (not_le.2 h)] at hcpus
  rw [UInt64.toNat_min]
  intro honline
  omega

/-- The decision for a new object. -/
theorem parallel_new {n : UInt64} {obj : SaveDump} (hnew : obj.m_split = 0 ∧ obj.m_threads = 0) :
    processes (parallel c n obj) =
      if c.kdumptoolContainsFlag "SINGLE" = true ∨ isFormat c "elf" = true ∨ n.toNat ≤ 1 then
        (0, 0)
      else if c.kdumptoolContainsFlag "SPLIT" = true ∧
          c.kdumptoolContainsFlag "NOSPLIT" = false then
        ((n.toNat : Int), (0 : Int))
      else
        (0, (n.toNat : Int) - 1) := by
  have hmore : n > 1 ↔ 1 < n.toNat := UInt64.lt_iff_toNat_lt
  unfold processes parallel
  cases c.kdumptoolContainsFlag "SINGLE" with
  | true => simp [hnew]
  | false =>
      by_cases hn : n.toNat ≤ 1
      · have hfew : ¬ n > 1 := fun h => absurd (hmore.1 h) (not_lt.2 hn)
        simp [hn, hfew, hnew]
      · have hmany : n > 1 := hmore.2 (not_le.1 hn)
        have hcast : ((n.toNat - 1 : Nat) : Int) = (n.toNat : Int) - 1 := by omega
        cases isFormat c "elf" with
        | true => simp [hmany, hnew]
        | false =>
            cases c.kdumptoolContainsFlag "SPLIT" with
            | false => simp [hn, hmany, hnew, hcast]
            | true =>
                cases c.kdumptoolContainsFlag "NOSPLIT" with
                | false => simp [hn, hmany, hnew]
                | true => simp [hn, hmany, hnew, hcast]

/-! ## When the manual is followed -/

/-- With more than one processor, the three outcomes differ from each other. -/
theorem outcome_eq_iff {single single' split split' : Prop} [Decidable single] [Decidable single']
    [Decidable split] [Decidable split'] {n : Int} (hn : 2 ≤ n) :
    (if single then ((0 : Int), (0 : Int)) else if split then (n, 0) else (0, n - 1)) =
        (if single' then (0, 0) else if split' then (n, 0) else (0, n - 1)) ↔
      (single ↔ single') ∧ (¬ single' → (split ↔ split')) := by
  have hzero : n ≠ 0 := by omega
  have hone : n - 1 ≠ 0 := by omega
  by_cases hsingle : single <;> by_cases hsingle' : single' <;> by_cases hsplit : split <;>
    by_cases hsplit' : split' <;>
    simp [hsingle, hsingle', hsplit, hsplit', hzero, hzero.symm, hone, hone.symm]

theorem flagsAgree_iff_and : FlagsAgree c ↔
    (c.kdumptoolContainsFlag "SINGLE" = true ↔ GivenSingle c) ∧
      (¬ GivenSingle c →
        ((c.kdumptoolContainsFlag "SPLIT" = true ∧ c.kdumptoolContainsFlag "NOSPLIT" = false) ↔
          Given c "SPLIT")) :=
  ⟨fun h => ⟨h.single, h.split⟩, fun h => ⟨h.1, h.2⟩⟩

/-- `m_split` and `m_threads` are as the manual says, whatever the flags, the numbers and the format
are, just when a part of the text is never taken for a flag, and the number is not negative. -/
theorem parallel_iff (c : Configuration fadump) (w : Machine) (online : UInt64)
    (m_dump m_crashrelease m_rootdir m_hostname : Str) (m_nomail : Bool) (hdump : HasDump w)
    (hformat : isFormat c "none" = false) (honline : w.numOnline = .ok online) :
    processes (endState (saveDump c w
        ⟨.new m_dump m_crashrelease m_rootdir m_hostname m_nomail, []⟩)).obj = manual c online ↔
    (isFormat c "elf" = false → 2 ≤ online.toNat →
      ((c.intValue "KDUMP_CPUS").toInt < 0 → c.kdumptoolContainsFlag "SINGLE" = true) ∧
        (2 ≤ (c.intValue "KDUMP_CPUS").toInt → FlagsAgree c)) := by
  rw [endState_parallel hdump hformat (cpus_ok honline), parallel_new ⟨rfl, rfl⟩]
  unfold manual
  cases isFormat c "elf" with
  | true => simp
  | false =>
      have hleft := UInt64.toNat_min (configuredCpus c) online
      have hright : usable c online = min (c.intValue "KDUMP_CPUS").toInt online.toNat := rfl
      simp only [Bool.false_eq_true, false_or, true_implies]
      -- with one processor there is nothing to choose, whatever the flags say
      by_cases hmany : 2 ≤ online.toNat
      · rw [imp_iff_right hmany]
        rcases lt_or_ge (c.intValue "KDUMP_CPUS").toInt 0 with hneg | hnonneg
        · -- the number is a large one for the program
          have hn := cpus_of_neg hneg hmany
          have hfew : usable c online ≤ 1 := by omega
          have hn' : ¬ (min (configuredCpus c) online).toNat ≤ 1 := by omega
          have htwo : ¬ 2 ≤ (c.intValue "KDUMP_CPUS").toInt := by omega
          rw [if_pos (Or.inr hfew)]
          simp only [hn', or_false, hneg, true_implies, htwo, false_implies, and_true]
          have houtcome := @outcome_eq_iff (c.kdumptoolContainsFlag "SINGLE" = true) True
            (c.kdumptoolContainsFlag "SPLIT" = true ∧ c.kdumptoolContainsFlag "NOSPLIT" = false)
            True _ _ _ _ ((min (configuredCpus c) online).toNat : Int) (by omega)
          rw [if_pos trivial] at houtcome
          simpa using houtcome
        · have hsame := @usable_of_nonneg _ c online hnonneg
          -- the numbers agree, and with at least two of them the flags decide
          by_cases htwo : 2 ≤ (c.intValue "KDUMP_CPUS").toInt
          · have hn : ¬ usable c online ≤ 1 := by omega
            have hn' : ¬ (min (configuredCpus c) online).toNat ≤ 1 := by omega
            simp only [hn, hn', or_false, htwo, true_implies, not_lt.2 hnonneg, false_implies,
              true_and]
            rw [flagsAgree_iff_and, ← outcome_eq_iff (by omega : 2 ≤ usable c online), hsame]
          · have hn : usable c online ≤ 1 := by omega
            have hn' : (min (configuredCpus c) online).toNat ≤ 1 := by omega
            simp [hn, hn', htwo, not_lt.2 hnonneg]
      · have hn : usable c online ≤ 1 := by omega
        have hn' : (min (configuredCpus c) online).toNat ≤ 1 := by omega
        simp [hn, hn', hmany]

/-! ## The flags of the manual -/

/-- A flag is looked for in every word. -/
theorem containsFlag_iff {flag : String} (h : space ∉ str flag) :
    c.kdumptoolContainsFlag flag = true ↔ ∃ word ∈ flagWords c, str flag <:+: word := by
  rw [Configuration.kdumptoolContainsFlag, decide_eq_true_iff]
  exact infix_iff_splitOn h

/-- The flags that the manual has.  Between two spaces there is an empty word. -/
def manualFlags : List Str :=
  [[], str "NOSPARSE", str "SPLIT", str "SINGLE", str "NOSPLIT", str "XENALLDOMAINS"]

theorem containsFlag_manual {flag : String} {holding : List Str}
    (h : ∀ word ∈ flagWords c, word ∈ manualFlags) (hspace : space ∉ str flag)
    (hholding : manualFlags.filter (str flag <:+: ·) = holding) :
    c.kdumptoolContainsFlag flag = true ↔ ∃ word ∈ holding, word ∈ flagWords c := by
  rw [containsFlag_iff hspace]
  constructor
  · rintro ⟨word, hword, hinfix⟩
    refine ⟨word, ?_, hword⟩
    rw [← hholding, List.mem_filter]
    exact ⟨h word hword, decide_eq_true hinfix⟩
  · rintro ⟨word, hmem, hword⟩
    rw [← hholding, List.mem_filter] at hmem
    exact ⟨word, hword, of_decide_eq_true hmem.2⟩

/-- As long as there are no other flags, only `NOSPLIT` without `SINGLE` is not understood. -/
theorem flagsAgree_iff (h : ∀ word ∈ flagWords c, word ∈ manualFlags) :
    FlagsAgree c ↔ (Given c "NOSPLIT" → Given c "SINGLE") := by
  have hsingle : c.kdumptoolContainsFlag "SINGLE" = true ↔ Given c "SINGLE" := by
    rw [@containsFlag_manual _ c "SINGLE" [str "SINGLE"] h (by decide) (by decide)]
    simp only [List.mem_singleton, exists_eq_left, Given]
  have hnosplit : c.kdumptoolContainsFlag "NOSPLIT" = true ↔ Given c "NOSPLIT" := by
    rw [@containsFlag_manual _ c "NOSPLIT" [str "NOSPLIT"] h (by decide) (by decide)]
    simp only [List.mem_singleton, exists_eq_left, Given]
  have hsplit : c.kdumptoolContainsFlag "SPLIT" = true ↔ Given c "SPLIT" ∨ Given c "NOSPLIT" := by
    rw [@containsFlag_manual _ c "SPLIT" [str "SPLIT", str "NOSPLIT"] h (by decide) (by decide)]
    simp only [List.mem_cons, List.not_mem_nil, or_false, exists_eq_or_imp, exists_eq_left, Given]
  rw [flagsAgree_iff_and, hsingle, hsplit, ← Bool.not_eq_true, hnosplit]
  unfold GivenSingle
  constructor
  · exact fun hagree hgiven => hagree.1.2 (Or.inr hgiven)
  · intro hgiven
    refine ⟨⟨Or.inl, fun hor => hor.elim id hgiven⟩, fun hnone => ?_⟩
    constructor
    · exact fun hparts => hparts.1.resolve_right hparts.2
    · exact fun hsplit => ⟨Or.inl hsplit, fun hnosplit => hnone (Or.inr hnosplit)⟩

end

/-! ## Two settings -/

/-- Four processors, and a value of `KDUMPTOOL_FLAGS`. -/
def fourCpus (flags : String) : Configuration false :=
  (Configuration.defaults false).withValues fun name =>
    if name = str "KDUMP_CPUS" then some (str "4")
    else if name = str "KDUMPTOOL_FLAGS" then some (str flags)
    else none

def fourMachine : Machine where
  dumpExists := true
  fileSize := .ok 4096
  numOnline := .ok 4
  isXenCoreDump := .ok false
  perform _ := (false, .ok ())

theorem fourMachine_hasDump : HasDump fourMachine :=
  ⟨rfl, 4096, by decide, rfl⟩

theorem parallel_split :
    processes (endState (saveDump (fourCpus "SPLIT") fourMachine
      ⟨.new (str "/proc/vmcore") [] [] [] false, []⟩)).obj = manual (fourCpus "SPLIT") 4 := by
  refine (parallel_iff (fourCpus "SPLIT") fourMachine 4 _ _ _ _ _ fourMachine_hasDump
    (by decide) rfl).2 fun _ _ => ⟨fun hneg => ?_, fun _ => ⟨?_, fun _ => ?_⟩⟩
  · exact absurd hneg (by decide)
  · decide
  · decide

/-- `NOSPLIT` is given, but three threads are used. -/
theorem nosplit_parallel :
    ¬ processes (endState (saveDump (fourCpus "NOSPLIT") fourMachine
      ⟨.new (str "/proc/vmcore") [] [] [] false, []⟩)).obj = manual (fourCpus "NOSPLIT") 4 := by
  have hthreads : processes (endState (saveDump (fourCpus "NOSPLIT") fourMachine
      ⟨.new (str "/proc/vmcore") [] [] [] false, []⟩)).obj = (0, 3) := by decide +kernel
  have hmanual : manual (fourCpus "NOSPLIT") 4 = (0, 0) := by decide +kernel
  rw [hthreads, hmanual]
  decide +kernel

end Dump
end Kdump

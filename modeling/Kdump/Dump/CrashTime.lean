import Kdump.Dump.Notes

/-!
# CrashTime — where the name of the dump directory comes from

`getLLongValue` returns an `int`, and `execute` goes on without a crash time when `fillVmcoreinfo`
has failed.

* `narrowed_eq_iff` — what the `int` does to a number;
* `crashtime_iff` — when `m_crashtime` is the time that it should be.
-/

namespace Kdump
namespace Dump

open Lib Config

/-! ## The time that is expected -/

/-- The dump has a VMCOREINFO, and it can be read. -/
def Readable (order : ByteOrder) (segment : Except Thrown (Str × Bool)) : Prop :=
  ∃ vm, readFromELF order segment ⟨∅, false⟩ = .ok () vm

/-- The text of `CRASHTIME` in the VMCOREINFO of a dump, if it is there. -/
def crashtimeText (order : ByteOrder) (segment : Except Thrown (Str × Bool)) : Option Str :=
  match readFromELF order segment ⟨∅, false⟩ with
  | .ok () vm => vm.m_map[CRASHTIME.text]?
  | .error _ _ => none

/-- A decimal number in `[0, 2^63)`. -/
structure IsDecimal (t : Str) : Prop where
  ne_nil : t ≠ []
  digits : ∀ c ∈ t, isDigit c = true
  lt : digitsValue t < 2 ^ 63

/-- The crash time of the dump, or else the current time. -/
def expectedTime (order : ByteOrder) (segment : Except Thrown (Str × Bool)) (time : Int64) : Nat :=
  match crashtimeText order segment with
  | some t => digitsValue t
  | none => time.toUInt64.toNat

/-! ## The time that is used -/

/-- An `int` in between keeps the numbers that it can represent. -/
theorem narrowed_eq_iff {v : Nat} (hv : v < 2 ^ 63) :
    (Int64.ofInt v).toInt32.toInt64.toUInt64.toNat = v ↔ v < 2 ^ 31 := by
  have hint : (Int64.ofInt v).toInt32.toInt64.toInt = (Int32.ofInt v).toInt := by
    rw [Int32.toInt_toInt64, Int64.toInt32_ofInt]
  constructor
  · intro h
    have hbmod : (Int64.ofInt v).toInt32.toInt64.toInt =
        ((Int64.ofInt v).toInt32.toInt64.toUInt64.toNat : Int).bmod (2 ^ 64) :=
      BitVec.toInt_eq_toNat_bmod _
    have hle := (Int32.ofInt v).toInt_lt
    rw [h, hint, Int.bmod_eq_of_le (by omega) (by omega)] at hbmod
    rw [hbmod] at hle
    exact_mod_cast hle
  · intro h
    have hval : (Int64.ofInt v).toInt32.toInt64.toInt = v := by
      rw [hint]
      exact Int32.toInt_ofInt_of_le (by omega) (by omega)
    have hnonneg : 0 ≤ (Int64.ofInt v).toInt32.toInt64 := by
      rw [Int64.le_iff_toInt_le, hval]
      exact Int.natCast_nonneg v
    rw [Int64.toNat_toUInt64_of_le hnonneg]
    change (Int64.ofInt v).toInt32.toInt64.toInt.toNat = v
    rw [hval, Int.toNat_natCast]

theorem asLongLong_decimal {t : Str} (ht : IsDecimal t) :
    KString.asLongLong t = .ok (Int64.ofInt (digitsValue t)) := by
  rw [KString.asLongLong, KString.extract_digits ht.ne_nil ht.digits]
  exact congrArg Except.ok (KString.clampLongLong_natCast ht.lt)

/-- The release does not matter for the time, and nothing is thrown. -/
theorem fillCrashrelease_ok (vm : Vmcoreinfo) (s : SaveDump) :
    ∃ s', fillCrashrelease vm s = .ok () s' ∧ s'.m_crashtime = s.m_crashtime := by
  unfold fillCrashrelease tryKError
  dsimp only
  split_ifs with hrelease
  · unfold getStringValue
    cases vm.m_map[OSRELEASE.text]? with
    | none => exact ⟨_, rfl, rfl⟩
    | some value => exact ⟨_, rfl, rfl⟩
  · exact ⟨_, rfl, rfl⟩

theorem fillCrashtime_none {vm : Vmcoreinfo} (h : vm.m_map[CRASHTIME.text]? = none) (time : Int64)
    (s : SaveDump) : fillCrashtime vm time s = .ok () { s with m_crashtime := time.toUInt64 } := by
  simp only [fillCrashtime, tryKError, getLLongValue, getStringValue, h, isKError, if_true]

theorem fillCrashtime_some {vm : Vmcoreinfo} {t : Str} (h : vm.m_map[CRASHTIME.text]? = some t)
    (ht : IsDecimal t) (time : Int64) (s : SaveDump) :
    fillCrashtime vm time s = .ok () { s with
      m_crashtime := (Int64.ofInt (digitsValue t)).toInt32.toInt64.toUInt64 } := by
  simp only [fillCrashtime, tryKError, getLLongValue, getStringValue, h, asLongLong_decimal ht,
    Except.map]

/-- After the time, the release. -/
theorem readVmcoreinfo_ok {order : ByteOrder} {segment : Except Thrown (Str × Bool)} {time : Int64}
    {vm : Vmcoreinfo} {s s1 : SaveDump} (hread : readFromELF order segment ⟨∅, false⟩ = .ok () vm)
    (htime : fillCrashtime vm time s = .ok () s1) :
    ∃ s', readVmcoreinfo order segment time s = .ok () s' ∧ s'.m_crashtime = s1.m_crashtime := by
  rcases fillCrashrelease_ok vm s1 with ⟨s', hrelease, hkept⟩
  refine ⟨s', ?_, hkept⟩
  simp only [readVmcoreinfo, tryKError, fillVmcoreinfo, hread, bind, EStateM.bind, htime, hrelease]

/-- The crash time is right exactly if the VMCOREINFO could be read and the time fits into an
`int`; without a VMCOREINFO, the time is zero. -/
theorem crashtime_iff {order : ByteOrder} {segment : Except Thrown (Str × Bool)} {time : Int64}
    (hdecimal : ∀ t, crashtimeText order segment = some t → IsDecimal t)
    {m_dump m_crashrelease m_rootdir m_hostname : Str} {m_nomail : Bool} {s' : SaveDump}
    (h : readVmcoreinfo order segment time
      (SaveDump.new m_dump m_crashrelease m_rootdir m_hostname m_nomail) = .ok () s') :
    s'.m_crashtime.toNat = expectedTime order segment time ↔
      (Readable order segment ∧
          ∀ t, crashtimeText order segment = some t → digitsValue t < 2 ^ 31) ∨
        (¬ Readable order segment ∧ time = 0) := by
  unfold expectedTime
  cases hread : readFromELF order segment ⟨∅, false⟩ with
  | ok _ vm =>
      have hreadable : Readable order segment := ⟨vm, hread⟩
      have htext : crashtimeText order segment = vm.m_map[CRASHTIME.text]? := by
        rw [crashtimeText, hread]
      rw [htext] at hdecimal ⊢
      simp only [hreadable, true_and, not_true_eq_false, false_and, or_false]
      cases hget : vm.m_map[CRASHTIME.text]? with
      | none =>
          rcases readVmcoreinfo_ok hread (fillCrashtime_none hget time _) with ⟨s'', hrun, hkept⟩
          rw [hrun] at h
          cases h
          rw [hkept]
          exact iff_of_true rfl nofun
      | some t =>
          have ht := hdecimal t hget
          -- the number goes through an `int`, which keeps it if it is small enough
          rcases readVmcoreinfo_ok hread (fillCrashtime_some hget ht time _) with ⟨s'', hrun, hkept⟩
          rw [hrun] at h
          cases h
          rw [hkept]
          simp only [narrowed_eq_iff ht.lt, Option.some.injEq, forall_eq']
  | error e vm =>
      have hreadable : ¬ Readable order segment := by
        rintro ⟨vm', hok⟩
        rw [hread] at hok
        cases hok
      have htext : crashtimeText order segment = none := by
        rw [crashtimeText, hread]
      -- the exception is caught before anything is assigned
      have hzero : s'.m_crashtime = 0 := by
        simp only [readVmcoreinfo, tryKError, fillVmcoreinfo, hread] at h
        split at h
        · cases h
          rfl
        · cases h
      rw [htext, hzero]
      simp only [hreadable, false_and, not_false_eq_true, true_and, false_or]
      constructor
      · intro hzero'
        have huint : (0 : UInt64) = time.toUInt64 := UInt64.toNat_inj.1 hzero'
        exact (congrArg UInt64.toInt64 huint).symm
      · rintro rfl
        rfl

/-- A dump with twenty bytes of VMCOREINFO. -/
def timeNote (desc : Str) (hdesc : desc.length = 20) : Note :=
  { releaseNote with
    desc := desc
    descPad := []
    descsz_lt := by
      rw [hdesc]
      decide
    descPad_length := by
      rw [hdesc]
      decide }

/-- A dump of November 2023, and one of January 2100. -/
def dump2023 : Except Thrown (Str × Bool) :=
  .ok (segment .little [timeNote (str "CRASHTIME=1700000000") rfl], true)

def dump2100 : Except Thrown (Str × Bool) :=
  .ok (segment .little [timeNote (str "CRASHTIME=4102444800") rfl], true)

/-- What `fillVmcoreinfo` makes of the crash time, as a number. -/
def crashtimeAfter (segment : Except Thrown (Str × Bool)) (time : Int64) : Option Nat :=
  match readVmcoreinfo .little segment time (SaveDump.new [] [] [] [] true) with
  | .ok () s' => some s'.m_crashtime.toNat
  | .error _ _ => none

theorem crashtime_iff_2023 : crashtimeAfter dump2023 0 = some 1700000000 := by
  have htext : crashtimeText .little dump2023 = some (str "1700000000") := by decide
  have hdecimal : ∀ t, crashtimeText .little dump2023 = some t → IsDecimal t := by
    rw [htext]
    rintro t ⟨⟩
    exact ⟨by decide, List.all_eq_true.1 rfl, by decide⟩
  have hreadable : Readable .little dump2023 := by
    cases hread : readFromELF .little dump2023 ⟨∅, false⟩ with
    | ok _ vm => exact ⟨vm, hread⟩
    | error e vm =>
        rw [crashtimeText, hread] at htext
        cases htext
  cases hrun : readVmcoreinfo .little dump2023 0 (SaveDump.new [] [] [] [] true) with
  | ok _ s' =>
      have htime := (crashtime_iff hdecimal hrun).2 (.inl ⟨hreadable, by
        rw [htext]
        rintro t ⟨⟩
        decide⟩)
      have hvalue : expectedTime .little dump2023 0 = 1700000000 := by
        rw [expectedTime, htext]
        decide
      rw [crashtimeAfter, hrun, ← hvalue, ← htime]
  | error e s' =>
      have hok : crashtimeAfter dump2023 0 ≠ none := by decide
      rw [crashtimeAfter, hrun] at hok
      exact absurd rfl hok

/-- From January 2038 on the `int` is not the crash time any more, and without a VMCOREINFO the dump
is of January 1970. -/
theorem crashtime_lost :
    expectedTime .little dump2100 1700000000 = 4102444800 ∧
      crashtimeAfter dump2100 1700000000 = some 18446744073517029120 ∧
      expectedTime .little (.error (.KError [])) 1700000000 = 1700000000 ∧
      crashtimeAfter (.error (.KError [])) 1700000000 = some 0 := by
  decide

end Dump
end Kdump

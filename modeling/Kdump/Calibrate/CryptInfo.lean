import Kdump.Mount.FilesystemTypeMap

/-!
# CryptInfo — how much memory opening a LUKS device takes

`cryptsetup luksDump` prints keys and values; the largest value of a `Memory` key counts.  The text
is gone through as in `FilesystemTypeMap::devices`, with a colon for the space.

* `asULong` — `asLongLong` as it is used here;
* `memoryBody`, `scanMemory`, `CryptInfo.new` — the constructor;
* `memoryValues` — the values of the lines with the key;
* `IsMemory` — the largest value, and zero if there is none;
* `scanners_correct` — what the two loops over the output of a process do.
-/

namespace Kdump
namespace Calibrate

open Lib Config Mount

abbrev colon : UInt8 := 58

/-! ## The constructor -/

/-- `KString::asLongLong` as an `unsigned long` of 64 bits.  The variable that the number is
extracted to has no initial value; `ret` is what it happens to hold. -/
def asULong (ret : Int64) (s : Str) : UInt64 :=
  match KString.asLongLong s with
  | .error _ => ret.toUInt64
  | .ok i => i.toUInt64

/-- The body of the loop.  `ret` is the content of the variable in `asLongLong`, for each of the
positions. -/
def memoryBody (ret : Nat → Int64) (out : Str) (pos : Nat) (stop : Position)
    (m_memory : UInt64) : Except Thrown UInt64 :=
  let sep := find (fun c => c == colon) out pos
  if sep < stop then
    match substr out pos (sep - pos) with
    | none => .error .outOfRange
    | some key =>
        if KString.trim KString.blanks key = str "Memory" then
          match substr out (sep + 1) (stop - sep - 1) with
          | none => .error .outOfRange
          | some val =>
              let memory := asULong (ret pos) (KString.trim KString.blanks val)
              .ok (if m_memory < memory then memory else m_memory)
        else
          .ok m_memory
  else
    .ok m_memory

/-- The loop over the output of `cryptsetup`. -/
def scanMemory (ret : Nat → Int64) (out : Str) : Except Thrown UInt64 :=
  (lineScan isLineBreak out (memoryBody ret out)).eval (((0 : Nat) : Position), 0)

/-- `CryptInfo::CryptInfo`: the value of `m_memory`. -/
def CryptInfo.new (ret : Nat → Int64) (execute : Execute) (device : Str) :
    Except Thrown UInt64 :=
  match execute (str "cryptsetup") [str "luksDump", device] with
  | .error e => .error e
  | .ok (status, out, error) =>
      if status ≠ 0 then
        .error (.KError (str "cryptsetup failed: " ++ KString.trim KString.blanks error))
      else
        scanMemory ret out

/-! ## The values of a text -/

/-- The trimmed value, if the trimmed key is `Memory`. -/
def memoryValue (line : Str) : Option Str :=
  match field colon line with
  | none => none
  | some (key, val) =>
      if KString.trim KString.blanks key = str "Memory" then
        some (KString.trim KString.blanks val)
      else none

/-- The values of the lines whose key is `Memory`. -/
def memoryValues (out : Str) : List Str :=
  (lines isLineBreak out).filterMap memoryValue

/-- Digits, and nothing else. -/
def IsDecimal (s : Str) : Prop :=
  s ≠ [] ∧ ∀ c ∈ s, isDigit c = true

instance (s : Str) : Decidable (IsDecimal s) :=
  inferInstanceAs (Decidable (_ ∧ _))

/-- What `long long` makes of a decimal number. -/
def saturated (s : Str) : Nat :=
  min (digitsValue s) (2 ^ 63 - 1)

theorem asULong_decimal {s : Str} (h : IsDecimal s) (ret : Int64) :
    (asULong ret s).toNat = saturated s := by
  have hclamp : KString.clampLongLong (digitsValue s : Int) = Int64.ofInt (saturated s : Nat) := by
    unfold saturated
    rcases Nat.lt_or_ge (digitsValue s) (2 ^ 63) with hlt | hge
    · rw [KString.clampLongLong_natCast hlt, Nat.min_eq_left (by omega)]
    · have hlow : ¬ (digitsValue s : Int) < -9223372036854775808 := by omega
      have hhigh : 9223372036854775807 < (digitsValue s : Int) := by omega
      rw [KString.clampLongLong, if_neg hlow, if_pos hhigh, Nat.min_eq_right (by omega)]
      rfl
  have hsmall : saturated s < 2 ^ 63 :=
    lt_of_le_of_lt (Nat.min_le_right _ _) (by decide)
  rw [asULong, KString.asLongLong, KString.extract_digits h.1 h.2]
  dsimp only
  rw [hclamp]
  generalize saturated s = v at hsmall
  rw [Int64.ofInt_eq_ofNat, Int64.toUInt64_ofNat',
    UInt64.toNat_ofNat_of_lt' (hsmall.trans (by decide))]

/-! ## The loop -/

/-- What a value does to `m_memory`. -/
def keepLarger (m_memory memory : UInt64) : UInt64 :=
  if m_memory < memory then memory else m_memory

/-- What a line with a decimal value, or without a value, does to `m_memory`. -/
def keepLine (m_memory : UInt64) (line : Str) : UInt64 :=
  match memoryValue line with
  | none => m_memory
  | some val => keepLarger m_memory (asULong 0 val)

/-- A pass of the loop looks at its own line only. -/
theorem memoryBody_eq (ret : Nat → Int64) (out : Str) {pos : Nat} (hpos : pos < out.length)
    (m_memory : UInt64) :
    memoryBody ret out pos (find isLineBreak out pos) m_memory =
      .ok (match memoryValue (lineAt isLineBreak out pos) with
        | none => m_memory
        | some val => keepLarger m_memory (asULong (ret pos) val)) := by
  obtain ⟨breaks, rest, hcut⟩ := exists_cut isLineBreak out pos
  generalize lineAt isLineBreak out pos = line at hcut
  unfold memoryBody memoryValue
  dsimp only
  by_cases hcolon : colon ∈ line
  · obtain ⟨key, val, hfield, hline, hkey⟩ := field_of_mem hcolon
    obtain ⟨hlt, hfirst, hsecond⟩ := hcut.find_of_mem hpos.le hline hkey
    rw [if_pos hlt, hfirst, hsecond, hfield]
    dsimp only
    by_cases hmemory : KString.trim KString.blanks key = str "Memory"
    · rw [if_pos hmemory, if_pos hmemory]
      rfl
    · rw [if_neg hmemory, if_neg hmemory]
  · rw [if_neg (hcut.find_of_notMem hcolon), field_of_notMem hcolon]

/-- On decimal values it does not matter what the variable holds. -/
theorem scanMemory_eq (ret : Nat → Int64) {out : Str}
    (h : ∀ val ∈ memoryValues out, IsDecimal val) :
    scanMemory ret out =
      .ok ((memoryValues out).foldl (fun m val => keepLarger m (asULong 0 val)) 0) := by
  -- a pass does to the total what its line says
  have hbody : ∀ pos (m_memory : UInt64), pos < out.length →
      (lineAt isLineBreak out pos = [] ∨ lineAt isLineBreak out pos ∈ lines isLineBreak out) →
        memoryBody ret out pos (find isLineBreak out pos) m_memory =
          .ok (keepLine m_memory (lineAt isLineBreak out pos)) := by
    intro pos m_memory hpos hline
    rw [memoryBody_eq ret out hpos, keepLine]
    cases hvalue : memoryValue (lineAt isLineBreak out pos) with
    | none => rfl
    | some val =>
        have hdecimal : IsDecimal val := by
          rcases hline with hnil | hmem
          · rw [hnil] at hvalue
            cases hvalue
          · exact h val (List.mem_filterMap.2 ⟨_, hmem, hvalue⟩)
        have hsame : asULong (ret pos) val = asULong 0 val := UInt64.toNat_inj.1
          ((asULong_decimal hdecimal _).trans (asULong_decimal hdecimal _).symm)
        dsimp only
        rw [hsame]
  rw [scanMemory, eval_lineScan (fun _ => rfl) hbody, memoryValues]
  refine congrArg Except.ok ?_
  generalize (0 : UInt64) = m_memory
  induction lines isLineBreak out generalizing m_memory with
  | nil => rfl
  | cons line rest ih =>
      rw [List.foldl_cons, ih, List.filterMap_cons, keepLine]
      cases memoryValue line with
      | none => rfl
      | some val => rfl

/-! ## The largest value -/

/-- The largest of the values, read as numbers; zero if there is none. -/
structure IsMemory (number : Str → Nat) (out : Str) (m_memory : UInt64) : Prop where
  upper : ∀ val ∈ memoryValues out, number val ≤ m_memory.toNat
  attained : (memoryValues out = [] ∧ m_memory = 0) ∨
    ∃ val ∈ memoryValues out, m_memory.toNat = number val

theorem keepLarger_toNat (m memory : UInt64) :
    (keepLarger m memory).toNat = max m.toNat memory.toNat := by
  unfold keepLarger
  by_cases hlt : m < memory
  · rw [if_pos hlt, Nat.max_eq_right (UInt64.lt_iff_toNat_lt.1 hlt).le]
  · rw [if_neg hlt, Nat.max_eq_left (Nat.not_lt.1 fun h => hlt (UInt64.lt_iff_toNat_lt.2 h))]

/-- What has been kept behind some values: the largest of them, or what there was before. -/
theorem foldl_keepLarger {vals : List Str} (h : ∀ val ∈ vals, IsDecimal val) (m : UInt64) :
    m.toNat ≤ (vals.foldl (fun m val => keepLarger m (asULong 0 val)) m).toNat ∧
      (∀ val ∈ vals,
        saturated val ≤ (vals.foldl (fun m val => keepLarger m (asULong 0 val)) m).toNat) ∧
      (vals.foldl (fun m val => keepLarger m (asULong 0 val)) m = m ∨
        ∃ val ∈ vals,
          (vals.foldl (fun m val => keepLarger m (asULong 0 val)) m).toNat = saturated val) := by
  induction vals generalizing m with
  | nil => exact ⟨Nat.le_refl _, by simp, Or.inl rfl⟩
  | cons val vals ih =>
      have hval : (asULong 0 val).toNat = saturated val := asULong_decimal (h val (by simp)) 0
      have hkeep := keepLarger_toNat m (asULong 0 val)
      rw [hval] at hkeep
      obtain ⟨hle, hupper, hattained⟩ :=
        ih (fun v hv => h v (List.mem_cons_of_mem _ hv)) (keepLarger m (asULong 0 val))
      rw [List.foldl_cons]
      refine ⟨le_trans (hkeep ▸ Nat.le_max_left _ _) hle, ?_, ?_⟩
      · intro v hv
        rcases List.mem_cons.1 hv with rfl | hv
        · exact le_trans (hkeep ▸ Nat.le_max_right _ _) hle
        · exact hupper v hv
      · rcases hattained with heq | ⟨v, hv, hlast⟩
        · -- no value behind this one is larger
          rw [heq]
          by_cases hlt : m < asULong 0 val
          · refine Or.inr ⟨val, List.mem_cons_self, ?_⟩
            rw [keepLarger, if_pos hlt, hval]
          · exact Or.inl (if_neg hlt)
        · exact Or.inr ⟨v, List.mem_cons_of_mem _ hv, hlast⟩

theorem scanMemory_isMemory (ret : Nat → Int64) {out : Str}
    (h : ∀ val ∈ memoryValues out, IsDecimal val) :
    ∃ m_memory, scanMemory ret out = .ok m_memory ∧ IsMemory saturated out m_memory := by
  obtain ⟨_, hupper, hattained⟩ := foldl_keepLarger h 0
  refine ⟨_, scanMemory_eq ret h, hupper, ?_⟩
  rcases hattained with hzero | hlast
  · rw [hzero]
    cases hvals : memoryValues out with
    | nil => exact Or.inl ⟨rfl, rfl⟩
    | cons val vals =>
        have hle := hupper val (by rw [hvals]; exact List.mem_cons_self)
        rw [hzero] at hle
        exact Or.inr ⟨val, List.mem_cons_self, (Nat.le_zero.1 hle).symm⟩
  · exact Or.inr hlast

theorem CryptInfo.new_of_success (ret : Nat → Int64) {execute : Execute} {device out error : Str}
    (h : execute (str "cryptsetup") [str "luksDump", device] = .ok (0, out, error)) :
    CryptInfo.new ret execute device = scanMemory ret out := by
  rw [CryptInfo.new, h]
  rfl

/-! ## Both loops -/

/-- The text that `lsblk` has printed for some devices. -/
def Printed (execute : Execute) (map : FilesystemTypeMap) (out : Str) : Prop :=
  map.m_sources ≠ [] ∧ ∃ error,
    execute (str "lsblk") (FilesystemTypeMap.opts ++ map.m_sources) = .ok (0, out, error)

/-- The text that `cryptsetup` has printed for a device. -/
def Dumped (execute : Execute) (device out : Str) : Prop :=
  ∃ error, execute (str "cryptsetup") [str "luksDump", device] = .ok (0, out, error)

theorem devices_of_printed {execute : Execute} {map : FilesystemTypeMap} {out : Str}
    (h : Printed execute map out) : map.devices execute = scanTypes out map.m_devices := by
  obtain ⟨hsources, error, hout⟩ := h
  rw [FilesystemTypeMap.devices, if_neg hsources, hout]
  rfl

/-- Both loops come to an end and visit each run of characters that are no line ends, in the order
of the text and nothing twice.  If all values are decimal numbers, `m_memory` is the largest one, a
value that is out of the range of `long long` counting as the largest number in that range; and the
map has for each path the type on its last line. -/
theorem scanners_correct :
    (∀ (ret : Nat → Int64) (out : Str), VisitsRuns isLineBreak out
      (visits isLineBreak out (memoryBody ret out) (((0 : Nat) : Position), 0))) ∧
    (∀ (out : Str) (m_devices : StringStringMap), VisitsRuns isLineBreak out
      (visits isLineBreak out (typeBody out) (((0 : Nat) : Position), m_devices))) ∧
    (∀ (ret : Nat → Int64) (execute : Execute) (device out : Str), Dumped execute device out →
      (∀ val ∈ memoryValues out, IsDecimal val) →
        ∃ m_memory, CryptInfo.new ret execute device = .ok m_memory ∧
          IsMemory saturated out m_memory) ∧
    ∀ (execute : Execute) (map : FilesystemTypeMap) (out : Str), Printed execute map out →
      ∃ after, map.devices execute = .ok after ∧ LastTypes out map.m_devices after := by
  refine ⟨?_, ?_, ?_, ?_⟩
  · intro ret out
    exact visits_runs (fun pos m_memory hpos => ⟨_, memoryBody_eq ret out hpos m_memory⟩) 0
  · intro out m_devices
    exact visits_runs (fun pos m_devices hpos => ⟨_, typeBody_eq out hpos m_devices⟩) m_devices
  · rintro ret execute device out ⟨error, hout⟩ hdecimal
    rw [CryptInfo.new_of_success ret hout]
    exact scanMemory_isMemory ret hdecimal
  · intro execute map out hprinted
    rw [devices_of_printed hprinted]
    exact scanTypes_last out map.m_devices

/-- A process that prints a text. -/
def printing (out : Str) : Execute := fun _ _ => .ok (0, out, [])

theorem scanners_correct_luks : ∃ m_memory,
    CryptInfo.new (fun _ => 0) (printing (str "Tokens:\r\n\tMemory:     1048576\n"))
        (str "/dev/a") = .ok m_memory ∧
      IsMemory saturated (str "Tokens:\r\n\tMemory:     1048576\n") m_memory :=
  scanners_correct.2.2.1 _ _ _ _ ⟨_, rfl⟩ (by decide +kernel)

/-- A decimal number may be too large. -/
theorem not_isMemory_overflow : ¬ ∀ (ret : Nat → Int64) (execute : Execute) (device out : Str),
    Dumped execute device out → (∀ val ∈ memoryValues out, IsDecimal val) →
      ∃ m_memory, CryptInfo.new ret execute device = .ok m_memory ∧
        IsMemory digitsValue out m_memory := by
  intro h
  obtain ⟨m_memory, hnew, hmemory⟩ := h (fun _ => 0)
    (printing (str "Memory: 9223372036854775808\n")) (str "/dev/a") _ ⟨_, rfl⟩ (by decide +kernel)
  have hresult : scanMemory (fun _ => 0) (str "Memory: 9223372036854775808\n") =
      .ok 9223372036854775807 := by decide
  rw [CryptInfo.new_of_success _ rfl, hresult] at hnew
  cases hnew
  exact absurd (hmemory.upper (str "9223372036854775808") (by decide)) (by decide)

end Calibrate
end Kdump

import Std.Data.TreeMap.Lemmas
import Kdump.Global

/-!
# Configuration — the configuration options

The option classes of `configuration.h`, the table `define_opt.h` and the configuration object
built from it.  A `Configuration` is a list of options together with a proof that its options
are those of the table, in the order of the table.
-/

namespace Kdump
namespace Config

/-! ## Numbers as text -/

def isDigit (c : UInt8) : Bool :=
  48 ≤ c && c ≤ 57

/-- White space of the C locale, which formatted extraction skips. -/
def isSpace (c : UInt8) : Bool :=
  (9 ≤ c && c ≤ 13) || c == 32

/-- A digit is neither white space nor a sign. -/
theorem digit_plain {c : UInt8} (hc : isDigit c = true) : isSpace c = false ∧ c ≠ 45 ∧ c ≠ 43 := by
  have hrange : 48 ≤ c.toNat ∧ c.toNat ≤ 57 := by
    simpa [isDigit, UInt8.le_iff_toNat_le] using hc
  refine ⟨?_, ?_, ?_⟩
  · simp only [isSpace, Bool.or_eq_false_iff, Bool.and_eq_false_iff, decide_eq_false_iff_not,
      beq_eq_false_iff_ne, UInt8.le_iff_toNat_le, ne_eq, ← UInt8.toNat_inj, UInt8.reduceToNat]
    omega
  · rintro rfl
    exact absurd hrange (by decide)
  · rintro rfl
    exact absurd hrange (by decide)

/-- `StringUtil::number2string` for an `int`. -/
def number2string (i : Int32) : Str :=
  if i.toInt < 0 then 45 :: decimal i.toInt.natAbs else decimal i.toInt.natAbs

/-- The value of a run of decimal digits. -/
def digitsValue (s : Str) : Nat :=
  s.foldl (fun acc c => 10 * acc + (c.toNat - 48)) 0

/-- Out of range values become the nearest `int`. -/
def clampInt (i : Int) : Int32 :=
  if i < -2147483648 then -2147483648
  else if 2147483647 < i then 2147483647
  else Int32.ofInt i

/-- `ss >> m_value` for an `int`: leading white space is skipped; if nothing is left, the variable
keeps its value, and if what follows is not a number, it becomes zero. -/
def extractInt (s : Str) (old : Int32) : Int32 :=
  match s.dropWhile isSpace with
  | [] => old
  | c :: cs =>
      if c = 45 then clampInt (-(digitsValue (cs.takeWhile isDigit)))
      else if c = 43 then clampInt (digitsValue (cs.takeWhile isDigit))
      else clampInt (digitsValue ((c :: cs).takeWhile isDigit))

/-! ## Options -/

/-- `ConfigOption::UsageFlags`, shifted into place. -/
def MKINITRD : UInt32 := (1 : UInt32) <<< 0
def KEXEC : UInt32 := (1 : UInt32) <<< 1
def DUMP : UInt32 := (1 : UInt32) <<< 2

/-- `StringConfigOption`, `IntConfigOption` and `BoolConfigOption`. -/
inductive ConfigOption where
  | string (m_name : Str) (m_usage : UInt32) (m_defvalue m_value : Str)
  | int (m_name : Str) (m_usage : UInt32) (m_defvalue m_value : Int32)
  | bool (m_name : Str) (m_usage : UInt32) (m_defvalue m_value : Bool)
  deriving DecidableEq

namespace ConfigOption

def name : ConfigOption → Str
  | .string n _ _ _ => n
  | .int n _ _ _ => n
  | .bool n _ _ _ => n

def usage : ConfigOption → UInt32
  | .string _ u _ _ => u
  | .int _ u _ _ => u
  | .bool _ u _ _ => u

def valueAsString : ConfigOption → Str
  | .string _ _ _ v => v
  | .int _ _ _ v => number2string v
  | .bool _ _ _ v => if v then str "yes" else str "no"

/-- `tolower` of the C locale. -/
def tolower (c : UInt8) : UInt8 :=
  if 65 ≤ c && c ≤ 90 then c + 32 else c

def update (opt : ConfigOption) (value : Str) : ConfigOption :=
  match opt with
  | .string n u d _ => .string n u d value
  | .int n u d v => .int n u d (extractInt value v)
  | .bool n u d _ =>
      let val := value.map tolower
      .bool n u d (!(val == str "0" || val == str "false" || val == str "no"))

def isDefault : ConfigOption → Bool
  | .string _ _ d v => v == d
  | .int _ _ d v => v == d
  | .bool _ _ d v => v == d

/-- The option as its constructor leaves it: everything but the current value. -/
def reset : ConfigOption → ConfigOption
  | .string n u d _ => .string n u d d
  | .int n u d _ => .int n u d d
  | .bool n u d _ => .bool n u d d

@[simp] theorem reset_update (opt : ConfigOption) (value : Str) :
    (opt.update value).reset = opt.reset := by
  cases opt <;> rfl

@[simp] theorem reset_reset (opt : ConfigOption) : opt.reset.reset = opt.reset := by
  cases opt <;> rfl

@[simp] theorem name_reset (opt : ConfigOption) : opt.reset.name = opt.name := by
  cases opt <;> rfl

@[simp] theorem usage_reset (opt : ConfigOption) : opt.reset.usage = opt.usage := by
  cases opt <;> rfl

theorem isDefault_iff (opt : ConfigOption) : opt.isDefault = true ↔ opt = opt.reset := by
  cases opt <;> simp [isDefault, reset]

end ConfigOption

/-! ## The table of options -/

private def optString (name : String) (defval : String) (usage : UInt32) : ConfigOption :=
  .string (str name) usage (str defval) (str defval)

private def optInt (name : String) (defval : Int32) (usage : UInt32) : ConfigOption :=
  .int (str name) usage defval defval

private def optBool (name : String) (defval : Bool) (usage : UInt32) : ConfigOption :=
  .bool (str name) usage defval defval

/-- `define_opt.h`.  The default `""` of `KDUMP_COPY_KERNEL` is a non-null pointer, hence `true`. -/
def define_opt (HAVE_FADUMP : Bool) : List ConfigOption :=
  [ optString "KDUMP_KERNELVER" "" KEXEC,
    optInt "KDUMP_CPUS" 1 (KEXEC ||| DUMP),
    optString "KDUMP_COMMANDLINE" "" KEXEC,
    optString "KDUMP_COMMANDLINE_APPEND" "" KEXEC ] ++
  (if HAVE_FADUMP then
    [ optBool "KDUMP_FADUMP" false MKINITRD,
      optBool "KDUMP_FADUMP_SHELL" false (MKINITRD ||| DUMP) ]
  else []) ++
  [ optString "KEXEC_OPTIONS" "" KEXEC,
    optString "MAKEDUMPFILE_OPTIONS" "" DUMP,
    optBool "KDUMP_IMMEDIATE_REBOOT" true DUMP,
    optString "KDUMP_TRANSFER" "" DUMP,
    optString "KDUMP_SAVEDIR" "/var/log/dump" (MKINITRD ||| DUMP),
    optInt "KDUMP_KEEP_OLD_DUMPS" 0 DUMP,
    optInt "KDUMP_FREE_DISK_SIZE" 64 DUMP,
    optInt "KDUMP_VERBOSE" 0 (KEXEC ||| DUMP),
    optInt "KDUMP_DUMPLEVEL" 31 DUMP,
    optString "KDUMP_DUMPFORMAT" "compressed" DUMP,
    optBool "KDUMP_CONTINUE_ON_ERROR" true DUMP,
    optString "KDUMP_REQUIRED_PROGRAMS" "" MKINITRD,
    optString "KDUMP_PRESCRIPT" "" DUMP,
    optString "KDUMP_POSTSCRIPT" "" DUMP,
    optBool "KDUMP_COPY_KERNEL" true DUMP,
    optString "KDUMPTOOL_FLAGS" "" DUMP,
    optString "KDUMP_NETCONFIG" "auto" MKINITRD,
    optInt "KDUMP_NET_TIMEOUT" 30 DUMP,
    optString "KDUMP_SMTP_SERVER" "" DUMP,
    optString "KDUMP_SMTP_USER" "" DUMP,
    optString "KDUMP_SMTP_PASSWORD" "" DUMP,
    optString "KDUMP_NOTIFICATION_TO" "" DUMP,
    optString "KDUMP_NOTIFICATION_CC" "" DUMP,
    optString "KDUMP_HOST_KEY" "" DUMP,
    optString "KDUMP_SSH_IDENTITY" "" MKINITRD ]

/-- The option names of the table contain nothing that a parser of assignments gives a meaning. -/
def PlainName (n : Str) : Prop :=
  n ≠ [] ∧ ∀ c ∈ n, 33 ≤ c ∧ c < 127 ∧ c ≠ dquote ∧ c ≠ eqSign ∧ c ≠ bslash

instance (n : Str) : Decidable (PlainName n) :=
  @instDecidableAnd _ _ inferInstance (List.decidableBAll _ n)

/-- With `HAVE_FADUMP` the table only gets longer. -/
theorem define_opt_sublist (fadump : Bool) : (define_opt fadump).Sublist (define_opt true) := by
  cases fadump with
  | true => exact List.Sublist.refl _
  | false =>
      refine List.Sublist.append (List.Sublist.append (List.Sublist.refl _) ?_)
        (List.Sublist.refl _)
      exact List.nil_sublist _

theorem plainName_of_mem_define_opt (fadump : Bool) :
    ∀ o ∈ define_opt fadump, PlainName o.name := by
  have hall : ∀ o ∈ define_opt true, PlainName o.name := by decide +kernel
  exact fun o ho => hall o ((define_opt_sublist fadump).subset ho)

theorem nodup_names_define_opt (fadump : Bool) :
    ((define_opt fadump).map ConfigOption.name).Nodup := by
  have hall : ((define_opt true).map ConfigOption.name).Nodup := by decide +kernel
  exact hall.sublist ((define_opt_sublist fadump).map _)

/-! ## The configuration object -/

/-- `StringStringMap`, as a sorted map. -/
abbrev StringStringMap := Std.TreeMap Str Str

/-- The configuration object: the options of the table, each with some value. -/
structure Configuration (HAVE_FADUMP : Bool) where
  m_options : List ConfigOption
  table : m_options.map ConfigOption.reset = define_opt HAVE_FADUMP

namespace Configuration

variable {fadump : Bool}

/-- The configuration as `Configuration::Configuration` builds it. -/
def defaults (fadump : Bool) : Configuration fadump where
  m_options := define_opt fadump
  table := by cases fadump <;> rfl

theorem names_eq (c : Configuration fadump) :
    c.m_options.map ConfigOption.name = (define_opt fadump).map ConfigOption.name := by
  rw [← c.table, List.map_map]
  simp [Function.comp_def]

theorem names_nodup (c : Configuration fadump) :
    (c.m_options.map ConfigOption.name).Nodup := by
  rw [c.names_eq]
  exact nodup_names_define_opt fadump

theorem plainName (c : Configuration fadump) {o : ConfigOption} (ho : o ∈ c.m_options) :
    PlainName o.name := by
  have hmem : o.reset ∈ define_opt fadump := by
    rw [← c.table]
    exact List.mem_map_of_mem ho
  simpa using plainName_of_mem_define_opt fadump o.reset hmem

/-- The options of two configurations correspond one to one. -/
theorem forall₂_reset (c c' : Configuration fadump) :
    List.Forall₂ (fun o o' => o.reset = o'.reset) c.m_options c'.m_options := by
  have h : c.m_options.map ConfigOption.reset = c'.m_options.map ConfigOption.reset :=
    c.table.trans c'.table.symm
  rw [← List.forall₂_eq_eq_eq, List.forall₂_map_left_iff, List.forall₂_map_right_iff] at h
  exact h

end Configuration

end Config
end Kdump

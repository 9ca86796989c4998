import Mathlib.Data.List.DropRight
import Kdump.Config.ConfigParser
import Kdump.Config.DumpConfig

/-!
# BootLoader — the parameters of fadump in the boot loader

`kdump-bootloader.pl --update` takes old parameters out of the append string of the boot loader and
puts new ones at its end.  `fadump_bootloader` in `load.sh` calls it when the string is no longer
what the configuration asks for.  The library of the boot loader stores the string and returns it
unchanged; what the awk program prints is a parameter.
-/

namespace Kdump
namespace Bootloader

open Lib Config

/-! ## The Perl program -/

/-- `[^"[:space:]]`. -/
def isPlain (c : UInt8) : Bool :=
  c ≠ dquote && !isSpace c

/-- One round of the outer repetition in `("[^"]*"?|[^"[:space:]]+)+`: what it matches, and what is
left. -/
def piece : Str → Option (Str × Str)
  | [] => none
  | c :: input =>
      if c = dquote then
        match input.dropWhile (· ≠ dquote) with
        | [] => some (c :: input, [])
        | q :: rest => some (c :: input.takeWhile (· ≠ dquote) ++ [q], rest)
      else if isSpace c then
        none
      else
        some ((c :: input).takeWhile isPlain, (c :: input).dropWhile isPlain)

theorem isPlain_of_not {c : UInt8} (hquote : c ≠ dquote) (hspace : ¬ isSpace c = true) :
    isPlain c = true := by
  simp [isPlain, hquote, hspace]

theorem piece_lt {input p rest : Str} (h : piece input = some (p, rest)) :
    rest.length < input.length := by
  cases input with
  | nil => cases h
  | cons c input =>
      rw [piece] at h
      split_ifs at h with hquote hspace
      · have hle : (input.dropWhile (· ≠ dquote)).length ≤ input.length :=
          (List.dropWhile_sublist _).length_le
        split at h
        · cases h
          exact Nat.succ_pos _
        · rename_i q rest' hrest
          cases h
          rw [hrest] at hle
          exact Nat.lt_succ_of_lt hle
      · cases h
        rw [List.dropWhile_cons_of_pos (isPlain_of_not hquote hspace)]
        exact Nat.lt_succ_of_le (List.dropWhile_sublist _).length_le

/-- All rounds; the match is empty if there is none. -/
def pieces (input : Str) : Str × Str :=
  match _hpiece : piece input with
  | none => ([], input)
  | some (p, rest) => (p ++ (pieces rest).1, (pieces rest).2)
termination_by input.length
decreasing_by all_goals exact piece_lt _hpiece

/-- `$param`: without quotes, and without what is from the first `=` to the end of the line. -/
def paramName (rawparam : Str) : Str :=
  let param := rawparam.filter (· ≠ dquote)
  param.takeWhile (· ≠ eqSign) ++ (param.dropWhile (· ≠ eqSign)).dropWhile (· ≠ newline)

/-- `$param =~ /^KDUMP(TOOL)?_|^MAKEDUMPFILE_|^fadump$/`.  The `$` stands also before a newline at
the end. -/
def isRemoved (param : Str) : Bool :=
  (str "KDUMP_").isPrefixOf param || (str "KDUMPTOOL_").isPrefixOf param ||
    (str "MAKEDUMPFILE_").isPrefixOf param || param = str "fadump" || param = str "fadump\n"

/-- `$result .= " " if length($result)`. -/
def withSpace (result : Str) : Str :=
  if result = [] then [] else result ++ [space]

structure Locals where
  input : Str
  result : Str

/-- One pass of `while (length($input))`. -/
def step (s : Locals) : Step Locals Str :=
  if s.input = [] then
    .done s.result
  else
    let input := s.input.dropWhile isSpace
    let rawparam := (pieces input).1
    if rawparam = [] then
      .next ⟨input, s.result⟩
    else if isRemoved (paramName rawparam) then
      .next ⟨(pieces input).2, s.result⟩
    else
      .next ⟨(pieces input).2, withSpace s.result ++ rawparam⟩

theorem pieces_of_none {input : Str} (h : piece input = none) : pieces input = ([], input) := by
  rw [pieces]
  split
  · rfl
  · rename_i p rest hsome
    rw [hsome] at h
    cases h

theorem pieces_of_some {input p rest : Str} (h : piece input = some (p, rest)) :
    pieces input = (p ++ (pieces rest).1, (pieces rest).2) := by
  rw [pieces]
  split
  · rename_i hnone
    rw [hnone] at h
    cases h
  · rename_i p' rest' hsome
    rw [hsome] at h
    cases h
    rfl

theorem piece_append {input p rest : Str} (h : piece input = some (p, rest)) :
    p ++ rest = input := by
  cases input with
  | nil => cases h
  | cons c input =>
      rw [piece] at h
      split_ifs at h with hquote hspace
      · have hcut := List.takeWhile_append_dropWhile (p := (· ≠ dquote)) (l := input)
        split at h
        · cases h
          exact List.append_nil _
        · rename_i q rest' hrest
          cases h
          rw [hrest] at hcut
          rw [List.cons_append, List.cons_append, List.append_assoc, List.singleton_append, hcut]
      · cases h
        exact List.takeWhile_append_dropWhile

theorem pieces_append (input : Str) : (pieces input).1 ++ (pieces input).2 = input := by
  induction hn : input.length using Nat.strong_induction_on generalizing input with
  | _ n ih =>
      cases hpiece : piece input with
      | none => rw [pieces_of_none hpiece, List.nil_append]
      | some found =>
          have hlt : found.2.length < input.length := piece_lt hpiece
          rw [pieces_of_some hpiece, List.append_assoc, ih _ (hn ▸ hlt) _ rfl]
          exact piece_append hpiece

/-- Something is matched, unless there is white space. -/
theorem pieces_ne_nil {c : UInt8} {input : Str} (hc : isSpace c = false) :
    (pieces (c :: input)).1 ≠ [] := by
  have hpiece : ∃ p rest, piece (c :: input) = some (c :: p, rest) := by
    rw [piece]
    by_cases hquote : c = dquote
    · rw [if_pos hquote]
      split
      · exact ⟨_, _, rfl⟩
      · exact ⟨_, _, rfl⟩
    · have hspace : ¬ isSpace c = true := by rw [hc]; exact Bool.false_ne_true
      rw [if_neg hquote, if_neg hspace,
        List.takeWhile_cons_of_pos (isPlain_of_not hquote hspace)]
      exact ⟨_, _, rfl⟩
  obtain ⟨p, rest, hpiece⟩ := hpiece
  rw [pieces_of_some hpiece]
  exact List.cons_ne_nil _ _

theorem step_input_lt {s s' : Locals} (h : step s = .next s') :
    s'.input.length < s.input.length := by
  have hle : (s.input.dropWhile isSpace).length ≤ s.input.length :=
    (List.dropWhile_sublist _).length_le
  have hcut := congrArg List.length (pieces_append (s.input.dropWhile isSpace))
  rw [List.length_append] at hcut
  unfold step at h
  dsimp only at h
  split_ifs at h with hnil hnone hremoved
  · -- nothing is matched: there was only white space
    cases h
    cases hinput : s.input.dropWhile isSpace with
    | nil => exact List.length_pos_iff.2 hnil
    | cons c input =>
        have hc : isSpace c = false := by
          have hstop := List.head?_dropWhile_not isSpace s.input
          rw [hinput] at hstop
          simpa using hstop
        rw [hinput] at hnone
        exact absurd hnone (pieces_ne_nil hc)
  · cases h
    have hpos := List.length_pos_iff.2 hnone
    dsimp only
    omega
  · cases h
    have hpos := List.length_pos_iff.2 hnone
    dsimp only
    omega

def loop : Loop Locals Str where
  step := step
  measure s := s.input.length
  decreases := step_input_lt

/-- `kdump-bootloader.pl --update`: the new append string. -/
def update (args : List Str) (append : Str) : Str :=
  withSpace (loop.eval ⟨append, []⟩) ++ [space].intercalate args

/-! ## The shell function -/

/-- `$(…)`: NUL bytes and the newlines at the end of the output are lost. -/
def substitute (output : Str) : Str :=
  (output.filter (· ≠ 0)).rdropWhile (· = newline)

/-- `echo "$text"`, for a text that is no option of `echo`. -/
def echo (text : Str) : Str :=
  text ++ [newline]

variable {fadump : Bool}

/-- `dump_config --usage dump --format kernel --nodefault`. -/
def dump (c : Configuration fadump) : Str :=
  DumpConfig.execute ⟨.FMT_KERNEL, DUMP, true⟩ c

/-- The same for a kernel command line, over an empty configuration file. -/
def dumpCmdLine (fadump : Bool) (cmdline : Str) : Str :=
  match (Configuration.defaults fadump).readCmdLine ⟨str "/dev/fd/63", .ok cmdline⟩ with
  | .error _ => []
  | .ok c => dump c

/-- `fadump_bootloader`: the new append string.  `uname` is what `uname -m` prints, and
`remove_from_commandline` what the awk program prints for an option and its input. -/
def fadump_bootloader (uname : Str) (remove_from_commandline : Str → Str → Str)
    (c : Configuration fadump) (newstate : Str) (append : Str) : Str :=
  if (str "ppc").isPrefixOf uname then
    let boot_opts := substitute append
    let nofadump_opts := substitute (remove_from_commandline (str "fadump") (echo boot_opts))
    let old_opts := substitute (dumpCmdLine fadump (echo boot_opts))
    if newstate = str "on" then
      let curr_opts := substitute (dump c)
      if old_opts ≠ curr_opts ∨ boot_opts = nofadump_opts then
        update [str "fadump=on", curr_opts] append
      else
        append
    else if boot_opts ≠ nofadump_opts then
      update [] append
    else
      append
  else
    append

end Bootloader
end Kdump

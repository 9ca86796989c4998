import Kdump.Global

/-!
# QuotedString — quoting of configuration values

`ShellQuotedString::quoted` and `KernelQuotedString::quoted`, with the character classes they
test.  The kernel form leaves a value bare unless it has white space in it; quotes and
backslashes are escaped in either case.
-/

namespace Kdump
namespace Config

/-! ## Shell quoting -/

def is_shell_safe (c : UInt8) : Bool :=
  (48 ≤ c && c ≤ 57) || (65 ≤ c && c ≤ 90) || (97 ≤ c && c ≤ 122) ||
    (c == 95 || c == 47 || c == 64 || c == 46 || c == 44 || c == 58)

/-- One pass of the loop in `ShellQuotedString::quoted`: `'` is followed by `\''`. -/
def shellEscape (c : UInt8) : Str :=
  if c = squote then [squote, bslash, squote, squote] else [c]

/-- `ShellQuotedString::quoted`. -/
def shellQuoted (s : Str) : Str :=
  let ret := s.flatMap shellEscape
  if s.any fun c => !is_shell_safe c then
    let ret := squote :: ret
    -- a quote at the end closes the string already
    if ret.getLast? = some squote then ret.dropLast else ret ++ [squote]
  else
    ret

/-! ## Kernel quoting -/

/-- White space as `lib/ctype.c` of the Linux kernel has it. -/
def is_kernel_space (c : UInt8) : Bool :=
  (9 ≤ c && c ≤ 13) || c == 32 || c == 160

/-- One pass of the loop in `KernelQuotedString::quoted`. -/
def kernelEscape (c : UInt8) : Str :=
  if c = dquote then str "\\042"
  else if c = bslash then [bslash, bslash]
  else [c]

/-- `KernelQuotedString::quoted`. -/
def kernelQuoted (s : Str) : Str :=
  let ret := s.flatMap kernelEscape
  if s.any is_kernel_space then dquote :: ret ++ [dquote] else ret

end Config
end Kdump

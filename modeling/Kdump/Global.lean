import Mathlib.Data.List.TakeWhile
import Mathlib.Data.UInt
import Mathlib.Tactic

/-!
# Global — strings, byte vectors and exceptions

The C++ program works on bytes.  `Str` stands for `std::string`, `ByteVector` for
`std::vector<unsigned char>`; both are plain lists of bytes, and `str` gives the bytes of a
string literal of the source.
-/

namespace Kdump

/-! ## Strings -/

/-- A `std::string`: any bytes, NUL included. -/
abbrev Str := List UInt8

abbrev ByteVector := List UInt8

/-- The bytes of an ASCII literal. -/
def str (s : String) : Str :=
  s.toList.map Char.toUInt8

/-- What a C function sees of a string passed through `c_str()`. -/
def cStr (s : Str) : Str :=
  s.takeWhile (· ≠ 0)

theorem cStr_eq_self {s : Str} (h : (0 : UInt8) ∉ s) : cStr s = s := by
  refine List.takeWhile_eq_self_iff.2 ?_
  intro c hc
  have hne : c ≠ 0 := fun h0 => h (h0 ▸ hc)
  simpa using hne

@[simp] abbrev period : UInt8 := 46
@[simp] abbrev slash : UInt8 := 47
@[simp] abbrev dquote : UInt8 := 34
@[simp] abbrev squote : UInt8 := 39
@[simp] abbrev bslash : UInt8 := 92
@[simp] abbrev eqSign : UInt8 := 61
@[simp] abbrev space : UInt8 := 32
@[simp] abbrev newline : UInt8 := 10

/-- The decimal digits of a number, as `operator<<` writes them. -/
def decimal (n : Nat) : Str :=
  (Nat.toDigits 10 n).map Char.toUInt8

/-! ## Exceptions -/

/-- A value of `errno`. -/
abbrev Errno := Nat

def ENOENT : Errno := 2
def ENOTDIR : Errno := 20
def ENOSPC : Errno := 28
def ELOOP : Errno := 40

/-- What a function of the program can throw. -/
inductive Thrown where
  | KError (message : Str)
  | KSystemError (message : Str) (code : Errno)
  | KSFTPError (message : Str) (code : UInt64)
  /-- `std::out_of_range`, from `vector::at`. -/
  | outOfRange
  /-- `std::length_error`, from `string::resize(npos)`. -/
  | lengthError
  /-- Not an exception: an access outside of a string or vector, from which on the behaviour of
  the program is no longer defined. -/
  | undefined
  deriving DecidableEq, Repr

/-- The size of a standard I/O buffer (glibc). -/
def BUFSIZ : Nat := 8192

end Kdump

import Kdump.Lib.Loop
import Kdump.Lib.Occurrence
import Kdump.Global

/-!
# KernelTool — looking for the configuration in a kernel image

The image is read in chunks that overlap by the length of a marker, and each chunk is searched for
one marker.  `gzread` fills the buffer until the end of the file.

* `findBytes` — the search through the buffer;
* `step` — one pass: a chunk is read and searched;
* `scanELF` and `scanBzImage` — the two loops, which differ in what stands for a missing offset.
-/

namespace Kdump
namespace Kernel

open Lib

/-! ## The loops -/

def MAGIC_LEN : Nat := 8

def magic_start : Str := str "IKCFG_ST"

def magic_end : Str := str "IKCFG_ED"

/-- `Util::findBytes`. -/
def findBytes (haystack needle : Str) : Int :=
  match firstMatch needle haystack (haystack.length - needle.length) with
  | some i => i
  | none => -1

/-- The local variables, and what has not been read of the image. -/
structure Locals where
  image : Str
  buffer : Str
  fileoffset : Int
  begin_offset : Int
  end_offset : Int

/-- The buffer behind `gzread(fp, buffer+MAGIC_LEN, BUFSIZ-MAGIC_LEN)`. -/
def filled (buffer chars : Str) : Str :=
  buffer.take MAGIC_LEN ++ (chars ++ buffer.drop (MAGIC_LEN + chars.length))

/-- `memmove(buffer, buffer+BUFSIZ-MAGIC_LEN, MAGIC_LEN)`. -/
def moved (BUFSIZ : Nat) (buffer : Str) : Str :=
  (buffer.drop (BUFSIZ - MAGIC_LEN)).take MAGIC_LEN ++ buffer.drop MAGIC_LEN

/-- A search for a marker: the offset stays as it is if nothing is found. -/
def search (buffer magic : Str) (fileoffset offset : Int) : Int :=
  let pos := findBytes buffer magic
  if pos > 0 then fileoffset + pos - MAGIC_LEN else offset

/-- One pass of the loop.  `missing` is the test for an offset that has not been found. -/
def step (missing : Int → Bool) (BUFSIZ : Nat) (s : Locals) : Step Locals (Int × Int) :=
  let chars := s.image.take (BUFSIZ - MAGIC_LEN)
  if chars = [] then
    .done (s.begin_offset, s.end_offset)
  else
    let buffer := filled s.buffer chars
    let image := s.image.drop chars.length
    let fileoffset := s.fileoffset + chars.length
    if missing s.begin_offset then
      .next ⟨image, moved BUFSIZ buffer, fileoffset,
        search buffer magic_start s.fileoffset s.begin_offset, s.end_offset⟩
    else if missing s.end_offset then
      .next ⟨image, moved BUFSIZ buffer, fileoffset, s.begin_offset,
        search buffer magic_end s.fileoffset s.end_offset⟩
    else
      .done (s.begin_offset, s.end_offset)

theorem step_image_lt {missing : Int → Bool} {BUFSIZ : Nat} {s s' : Locals}
    (h : step missing BUFSIZ s = .next s') : s'.image.length < s.image.length := by
  have hdrop : ∀ chars : Str, chars ≠ [] → s.image.take (BUFSIZ - MAGIC_LEN) = chars →
      (s.image.drop chars.length).length < s.image.length := by
    intro chars hne htake
    have hpos := List.length_pos_iff.2 hne
    have hle := congrArg List.length htake
    rw [List.length_take] at hle
    rw [List.length_drop]
    omega
  unfold step at h
  dsimp only at h
  split_ifs at h with hnil hbegin hend
  · cases h
    exact hdrop _ hnil rfl
  · cases h
    exact hdrop _ hnil rfl

def loop (missing : Int → Bool) (BUFSIZ : Nat) : Loop Locals (Int × Int) where
  step := step missing BUFSIZ
  measure s := s.image.length
  decreases := step_image_lt

/-- The loop with the `memset` and the initial values in front of it. -/
def scan (missing : Int → Bool) (initial : Int) (BUFSIZ : Nat) (image : Str) : Int × Int :=
  (loop missing BUFSIZ).eval ⟨image, List.replicate BUFSIZ 0, 0, initial, initial⟩

/-- The scanning loop of `extractKernelConfigELF`. -/
def scanELF : (BUFSIZ : Nat) → (image : Str) → Int × Int :=
  scan (fun offset => decide (offset < 0)) (-1)

/-- The scanning loop of `extractKernelConfigbzImage`. -/
def scanBzImage : (BUFSIZ : Nat) → (image : Str) → Int × Int :=
  scan (fun offset => decide (offset = 0)) 0

end Kernel
end Kdump

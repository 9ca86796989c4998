import Kdump.Lib.LineScan
import Kdump.StringUtil

/-!
# FilesystemTypeMap — the types of block devices as `lsblk` prints them

`lsblk` prints a type and a path on each line.  `FilesystemTypeMap::devices` goes through the text
with searches for the end of the line and for the first space.

* `isLineBreak` — what the scanning loops take for the end of a line;
* `Execute` — an external process that has been run to its end;
* `typeBody`, `devices` — the function;
* `entries` — the types and paths that stand in a text;
* `scanTypes_eq` — the loop assigns them one after another;
* `LastTypes` — each path has the type that stands last.
-/

namespace Kdump
namespace Mount

open Lib Config

/-! ## Texts of external processes -/

/-- One of the characters of `"\r\n"`. -/
def isLineBreak (c : UInt8) : Bool :=
  c = 13 || c = newline

/-- What `ProcessFilter::execute` makes of a command and its arguments: the exit status, and what
has come on the standard output and on the standard error output. -/
abbrev Execute := Str → List Str → Except Thrown (Int × Str × Str)

/-! ## The function -/

/-- The body of the loop: a line with a space is taken into the map. -/
def typeBody (out : Str) (pos : Nat) (stop : Position) (m_devices : StringStringMap) :
    Except Thrown StringStringMap :=
  let sep := find (fun c => c == space) out pos
  if sep < stop then
    match substr out pos (sep - pos) with
    | none => .error .outOfRange
    | some type =>
        match substr out (sep + 1) (stop - sep - 1) with
        | none => .error .outOfRange
        | some path => .ok (m_devices.insert path type)
  else
    .ok m_devices

/-- The loop over the output of `lsblk`. -/
def scanTypes (out : Str) (m_devices : StringStringMap) : Except Thrown StringStringMap :=
  (lineScan isLineBreak out (typeBody out)).eval (((0 : Nat) : Position), m_devices)

/-- The devices that are asked for, and the types that are known. -/
structure FilesystemTypeMap where
  m_sources : List Str
  m_devices : StringStringMap

namespace FilesystemTypeMap

def opts : List Str :=
  [str "--raw", str "--noheadings", str "--inverse", str "--output", str "FSTYPE,PATH"]

/-- `FilesystemTypeMap::devices`. -/
def devices (execute : Execute) (map : FilesystemTypeMap) : Except Thrown StringStringMap :=
  if map.m_sources = [] then
    .ok map.m_devices
  else
    match execute (str "lsblk") (opts ++ map.m_sources) with
    | .error e => .error e
    | .ok (ret, out, error) =>
        if ret ≠ 0 then
          .error (.KError (str "lsblk failed: " ++ KString.trim KString.blanks error))
        else
          scanTypes out map.m_devices

end FilesystemTypeMap

/-! ## The entries of a text -/

/-- A type and a path for each line that has a space. -/
def entries (out : Str) : List (Str × Str) :=
  (lines isLineBreak out).filterMap (field space)

/-- What a line does to the map. -/
def assignLine (m_devices : StringStringMap) (line : Str) : StringStringMap :=
  match field space line with
  | none => m_devices
  | some (type, path) => m_devices.insert path type

/-- A pass of the loop looks at its own line only. -/
theorem typeBody_eq (out : Str) {pos : Nat} (hpos : pos < out.length)
    (m_devices : StringStringMap) :
    typeBody out pos (find isLineBreak out pos) m_devices =
      .ok (assignLine m_devices (lineAt isLineBreak out pos)) := by
  obtain ⟨breaks, rest, hcut⟩ := exists_cut isLineBreak out pos
  generalize lineAt isLineBreak out pos = line at hcut
  unfold typeBody assignLine
  dsimp only
  by_cases hspace : space ∈ line
  · obtain ⟨type, path, hfield, hline, htype⟩ := field_of_mem hspace
    obtain ⟨hlt, hfirst, hsecond⟩ := hcut.find_of_mem hpos.le hline htype
    rw [if_pos hlt, hfirst, hsecond, hfield]
  · rw [if_neg (hcut.find_of_notMem hspace), field_of_notMem hspace]

theorem scanTypes_eq (out : Str) (m_devices : StringStringMap) :
    scanTypes out m_devices =
      .ok ((entries out).foldl (fun m_devices e => m_devices.insert e.2 e.1) m_devices) := by
  have hbody := fun pos m_devices (hpos : pos < out.length)
      (_ : lineAt isLineBreak out pos = [] ∨ lineAt isLineBreak out pos ∈ lines isLineBreak out) =>
    typeBody_eq out hpos m_devices
  rw [scanTypes, eval_lineScan (fun _ => rfl) hbody, entries]
  refine congrArg Except.ok ?_
  induction lines isLineBreak out generalizing m_devices with
  | nil => rfl
  | cons line rest ih =>
      rw [List.foldl_cons, ih, List.filterMap_cons, assignLine]
      cases field space line with
      | none => rfl
      | some entry => rfl

/-! ## The last entry of a path -/

/-- A path that the text names has the type of its last line there, and any other path the type that
it had before. -/
structure LastTypes (out : Str) (before after : StringStringMap) : Prop where
  named : ∀ front type path behind, entries out = front ++ (type, path) :: behind →
    (∀ e ∈ behind, e.2 ≠ path) → after[path]? = some type
  other : ∀ path, (∀ e ∈ entries out, e.2 ≠ path) → after[path]? = before[path]?

theorem getElem?_insertAll_of_forall {path : Str} {es : List (Str × Str)}
    (h : ∀ e ∈ es, e.2 ≠ path) (m : StringStringMap) :
    (es.foldl (fun m e => m.insert e.2 e.1) m)[path]? = m[path]? := by
  induction es generalizing m with
  | nil => rfl
  | cons e es ih =>
      have hne : e.2 ≠ path := h e List.mem_cons_self
      rw [List.foldl_cons, ih (fun e he => h e (List.mem_cons_of_mem _ he)),
        Std.TreeMap.getElem?_insert]
      simp [hne]

theorem getElem?_insertAll_of_last {type path : Str} {front behind : List (Str × Str)}
    (h : ∀ e ∈ behind, e.2 ≠ path) (m : StringStringMap) :
    ((front ++ (type, path) :: behind).foldl (fun m e => m.insert e.2 e.1) m)[path]? =
      some type := by
  rw [List.foldl_append, List.foldl_cons, getElem?_insertAll_of_forall h,
    Std.TreeMap.getElem?_insert_self]

theorem scanTypes_last (out : Str) (m_devices : StringStringMap) :
    ∃ after, scanTypes out m_devices = .ok after ∧ LastTypes out m_devices after := by
  refine ⟨_, scanTypes_eq out m_devices, ?_, ?_⟩
  · intro front type path behind hentries hbehind
    rw [hentries]
    exact getElem?_insertAll_of_last hbehind m_devices
  · intro path hnone
    exact getElem?_insertAll_of_forall hnone m_devices

/-- Mixed line ends, a line without a space, and a device that is named twice. -/
example : entries (str "ext4 /dev/a\r\n\n/dev/b\nxfs /dev/c\rcrypto_LUKS /dev/a") =
    [(str "ext4", str "/dev/a"), (str "xfs", str "/dev/c"),
      (str "crypto_LUKS", str "/dev/a")] := by
  decide

end Mount
end Kdump

import Kdump.Calibrate.Calibrate
import Kdump.Lib.CharStream
import Kdump.Path.FilePath

/-!
# Iomem — the ranges of System RAM in `/proc/iomem`

The constructor of `MemMap` reads the file with formatted extraction, single characters and whole
lines in turn.

* `MemMap.new` — the loop as it stands in the source;
* `Line` — a line of the file, and `content`, the file;
* `pass_line` and `pass_last` — what a line adds;
* `new_content` — the ranges of System RAM, and nothing else.
-/

namespace Kdump
namespace Calibrate
namespace MemMap

open Lib

/-! ## The constructor -/

/-- `MemRange::Addr`, an `unsigned long long`. -/
abbrev Addr := BitVec 64

/-- The ranges found so far: their start and their end. -/
abbrev Ranges := List (Addr × Addr)

abbrev Reader := EStateM Thrown CharStream

@[simp] abbrev minus : UInt8 := 45
@[simp] abbrev colon : UInt8 := 58

/-- `while ((c = f.get()) == ' ');` with the last `c` as the result. -/
def spaces : Repeat Thrown CharStream Unit (Option UInt8) where
  pass _ := (fun c => if c = some space then .next () else .done c) <$> CharStream.getChar
  left := CharStream.left
  progress _ s := by
    rw [wp_map]
    refine wp_mono (CharStream.wp_getChar s) (fun c s' hlt v hnext => ?_) (fun _ _ h => h)
    split_ifs at hnext with hc
    exact hlt (hc ▸ rfl)

/-- The rest of the line.  A name without characters leaves `name` empty. -/
def resourceName (m_ranges : Ranges) (range : Addr × Addr) : Reader Ranges := do
  let _ ← spaces.run ()
  CharStream.unget
  let name ← CharStream.getLine newline
  pure (if name.getD [] = str "System RAM" then m_ranges ++ [range] else m_ranges)

/-- Behind the range. -/
def resourceColon (m_ranges : Ranges) (range : Addr × Addr) : Reader Ranges := do
  let c ← spaces.run ()
  if c ≠ some colon then throw (.KError (str "Invalid resource name delimiter"))
  else resourceName m_ranges range

/-- Behind the minus sign. -/
def resourceEnd (m_ranges : Ranges) (start : Addr) : Reader Ranges :=
  CharStream.unsigned 16 64 >>= fun
    | none => throw (.KError (str "Invalid resource end"))
    | some last => resourceColon m_ranges (start, last)

/-- A line that is not indented. -/
def resource (m_ranges : Ranges) : Reader Ranges :=
  CharStream.unsigned 16 64 >>= fun
    | none => throw (.KError (str "Invalid resource start"))
    | some start => do
        let c ← CharStream.getChar
        if c ≠ some minus then throw (.KError (str "Invalid range delimiter"))
        else resourceEnd m_ranges start

/-- The body of the loop. -/
def line (m_ranges : Ranges) : Reader Ranges := do
  let c ← CharStream.peek
  let f ← get
  if c ≠ some space ∧ f.eofbit = false then resource m_ranges
  else (fun _ => m_ranges) <$> CharStream.ignoreUntil newline

/-- One pass, with the condition of the loop. -/
def pass (m_ranges : Ranges) : Reader (Step Ranges Ranges) := do
  let f ← get
  if f.fail = true then pure (.done m_ranges)
  else .next <$> line m_ranges

/-! ### Progress -/

theorem keeps_spaces {n : Nat} : Keeps (spaces.run ()) (fun s => s.left ≤ n) :=
  spaces.keeps_run (fun _ => CharStream.keeps_getChar.map) ()

theorem wp_resourceName (m_ranges : Ranges) (range : Addr × Addr) (s : CharStream) :
    wp (resourceName m_ranges range) (fun _ s' => s'.left ≤ s.left + 1) (fun _ _ => True) s := by
  unfold resourceName
  rw [wp_bind]
  refine wp_mono (keeps_spaces s (Nat.le_refl _)) (fun c s1 h1 => ?_) (fun _ _ _ => trivial)
  rw [wp_bind]
  refine wp_mono (CharStream.wp_unget h1) (fun _ s2 h2 => ?_) (fun _ _ _ => trivial)
  rw [wp_bind]
  exact wp_mono (CharStream.keeps_getLine newline s2 h2) (fun _ _ h => h) (fun _ _ _ => trivial)

theorem wp_resourceColon (m_ranges : Ranges) (range : Addr × Addr) (s : CharStream) :
    wp (resourceColon m_ranges range) (fun _ s' => s'.left ≤ s.left + 1) (fun _ _ => True) s := by
  unfold resourceColon
  rw [wp_bind]
  refine wp_mono (keeps_spaces s (Nat.le_refl _)) (fun c s1 h1 => ?_) (fun _ _ _ => trivial)
  split_ifs
  · trivial
  · refine wp_mono (wp_resourceName m_ranges range s1) (fun _ s2 h2 => ?_) (fun _ _ h => h)
    exact h2.trans (Nat.succ_le_succ h1)

/-- A number is longer than what is put back. -/
theorem wp_resourceEnd (m_ranges : Ranges) (start : Addr) (s : CharStream) :
    wp (resourceEnd m_ranges start) (fun _ s' => s'.left ≤ s.left) (fun _ _ => True) s := by
  unfold resourceEnd
  rw [wp_bind]
  refine wp_mono (CharStream.wp_unsigned 16 64 s) (fun last s1 h1 => ?_) (fun _ _ h => h)
  cases last with
  | none => trivial
  | some last =>
      refine wp_mono (wp_resourceColon m_ranges (start, last) s1) (fun _ s2 h2 => ?_)
        (fun _ _ h => h)
      exact h2.trans (h1 rfl)

theorem wp_resource (m_ranges : Ranges) (s : CharStream) :
    wp (resource m_ranges) (fun _ s' => s'.left < s.left) (fun _ _ => True) s := by
  unfold resource
  rw [wp_bind]
  refine wp_mono (CharStream.wp_unsigned 16 64 s) (fun start s1 h1 => ?_) (fun _ _ h => h)
  cases start with
  | none => trivial
  | some start =>
      refine wp_bind.2 (wp_mono (CharStream.keeps_getChar s1 (Nat.le_refl _)) (fun c s2 h2 => ?_)
        (fun _ _ _ => trivial))
      split_ifs
      · trivial
      · refine wp_mono (wp_resourceEnd m_ranges start s2) (fun _ s3 h3 => ?_) (fun _ _ h => h)
        exact (h3.trans h2).trans_lt (h1 rfl)

/-- The body of the loop reads something, or it fails. -/
theorem wp_line (m_ranges : Ranges) {s : CharStream} (hfail : s.fail = false) :
    wp (line m_ranges) (fun _ s' => s'.left < s.left) (fun _ _ => True) s := by
  have hpos : 0 < s.left := by
    rw [CharStream.left_eq hfail]
    exact Nat.succ_pos _
  unfold line
  rw [wp_bind]
  refine wp_mono (CharStream.wp_peek s) (fun c s1 h1 => ?_) (fun _ _ h => h)
  rw [wp_bind, wp_get]
  split_ifs
  · exact wp_mono (wp_resource m_ranges s1) (fun _ s2 h2 => h2.trans_le h1.1) (fun _ _ h => h)
  · rw [wp_map]
    refine wp_mono (CharStream.wp_ignoreUntil newline h1.2) (fun _ s2 h2 => ?_) (fun _ _ h => h)
    rcases h2 with hlt | hzero
    · exact hlt.trans_le h1.1
    · rw [hzero]
      exact hpos

/-- `while (f)`. -/
def lines : Repeat Thrown CharStream Ranges Ranges where
  pass := pass
  left := CharStream.left
  progress m_ranges s := by
    unfold pass
    rw [wp_bind, wp_get]
    split_ifs with hfail
    · intro v h
      cases h
    · rw [wp_map]
      exact wp_mono (wp_line m_ranges (Bool.eq_false_iff.2 hfail)) (fun _ _ h _ _ => h)
        (fun _ _ h => h)

/-- `MemMap::MemMap`.  There is no file for `f` if it cannot be opened. -/
def new (procdir : Str) (f : Option Str) : Except Thrown Ranges :=
  match f with
  | none => .error (.KError (Path.appendPath procdir (str "iomem") ++ str ": Open failed"))
  | some text => CharStream.outcome (lines.run [] (CharStream.between [] text))

/-! ## The file -/

/-- A hexadecimal number of at most 64 bits, with any number of leading zeros. -/
structure Hex where
  text : Str
  digits : ∀ c ∈ text, CharStream.isDigit 16 c = true
  nonempty : text ≠ []
  fits : CharStream.digitsValue 16 text < 2 ^ 64

def Hex.value (h : Hex) : Addr :=
  BitVec.ofNat 64 (CharStream.digitsValue 16 h.text)

/-- A line of the file. -/
structure Line where
  indent : Nat
  first : Hex
  last : Hex
  name : Str
  name_stop : name.head? ≠ some space
  one_line : newline ∉ name

namespace Line

/-- What is behind the start of the range. -/
def tail (l : Line) : Str :=
  minus :: (l.last.text ++ space :: colon :: space :: l.name)

def text (l : Line) : Str :=
  List.replicate l.indent space ++ (l.first.text ++ l.tail)

def range (l : Line) : Addr × Addr :=
  (l.first.value, l.last.value)

/-- A range of System RAM at the top level. -/
def isSystemRam (l : Line) : Bool :=
  l.indent = 0 ∧ l.name = str "System RAM"

/-- What a line adds. -/
def ranges (l : Line) : Ranges :=
  if l.isSystemRam then [l.range] else []

end Line

/-- Lines with newlines between them, and perhaps another one behind the last line. -/
def content (terminated : Bool) (lines : List Line) : Str :=
  [newline].intercalate (lines.map Line.text) ++ if terminated && lines ≠ [] then [newline] else []

/-! ### A name -/

section

variable {passed rest : Str} {m_ranges : Ranges} {range : Addr × Addr} {c : UInt8}

theorem spaces_space : spaces.run () (CharStream.between passed (space :: rest)) =
    spaces.run () (CharStream.between (space :: passed) rest) :=
  spaces.run_next (map_ok CharStream.getChar_cons)

theorem spaces_stop (hc : c ≠ space) : spaces.run () (CharStream.between passed (c :: rest)) =
    .ok (some c) (CharStream.between (c :: passed) rest) := by
  have hpass := map_ok (g := fun c => if c = some space then Step.next () else Step.done c)
    (@CharStream.getChar_cons Thrown c passed rest)
  rw [if_neg fun h => hc (Option.some.inj h)] at hpass
  exact spaces.run_done hpass

theorem spaces_end : spaces.run () (CharStream.between passed []) =
    .ok none (CharStream.ended passed) :=
  spaces.run_done rfl

/-- The range is taken if it has the right name. -/
def named (m_ranges : Ranges) (range : Addr × Addr) (name : Str) : Ranges :=
  if name = str "System RAM" then m_ranges ++ [range] else m_ranges

/-- The blank in front of the name is not part of it. -/
theorem spaces_name (hc : c ≠ space) :
    spaces.run () (CharStream.between passed (space :: c :: rest)) =
      .ok (some c) (CharStream.between (c :: space :: passed) rest) := by
  rw [spaces_space]
  exact spaces_stop hc

/-- Everything behind the colon, from the first character of the name on. -/
theorem resourceName_cons {name : Option Str} {s' : CharStream} (hc : c ≠ space)
    (hline : CharStream.getLine newline (CharStream.between (space :: passed) (c :: rest)) =
      .ok (ε := Thrown) name s') :
    resourceName m_ranges range (CharStream.between passed (space :: c :: rest)) =
      .ok (named m_ranges range (name.getD [])) s' := by
  unfold resourceName
  rw [bind_ok (spaces_name hc), bind_ok CharStream.unget_cons, bind_ok hline]
  rfl

variable {name : Str}

theorem resourceName_line (hname : name.head? ≠ some space) (hline : newline ∉ name) :
    ∃ passed', resourceName m_ranges range
        (CharStream.between passed (space :: (name ++ newline :: rest))) =
      .ok (named m_ranges range name) (CharStream.between passed' rest) := by
  have hread := @CharStream.getLine_line Thrown newline (space :: passed) rest name hline
  cases name with
  | nil => exact ⟨_, resourceName_cons (by decide) hread⟩
  | cons c name =>
      have hc : c ≠ space := fun h => hname (congrArg some h)
      exact ⟨_, resourceName_cons hc hread⟩

/-- The last line may end without a newline, and then even without a name. -/
theorem resourceName_last (hname : name.head? ≠ some space) (hline : newline ∉ name) :
    ∃ s', resourceName m_ranges range (CharStream.between passed (space :: name)) =
        .ok (named m_ranges range name) s' ∧
      (s'.fail = true ∨ ∃ passed', s' = CharStream.looked passed' []) := by
  cases name with
  | nil =>
      -- the end is met twice: the stream has failed when the name is to be read
      have hspaces : spaces.run () (CharStream.between passed [space]) =
          .ok none (CharStream.ended (space :: passed)) := by
        rw [spaces_space]
        exact spaces_end
      refine ⟨⟨space :: passed, [], false, true, false⟩, ?_, Or.inl rfl⟩
      unfold resourceName
      rw [bind_ok hspaces]
      rfl
  | cons c name =>
      have hc : c ≠ space := fun h => hname (congrArg some h)
      have hread := @CharStream.getLine_last Thrown newline (space :: passed) (c :: name) hline
        (List.cons_ne_nil c name)
      exact ⟨_, resourceName_cons hc hread, Or.inr ⟨_, rfl⟩⟩

/-! ### A line -/

/-- A number in front of what cannot belong to it. -/
theorem unsigned_hex (h : Hex) (hc : CharStream.numeralPart 16 c = false) :
    CharStream.unsigned 16 64 (CharStream.between passed (h.text ++ c :: rest)) =
      .ok (ε := Thrown) (some h.value)
        (CharStream.between (h.text.reverse ++ passed) (c :: rest)) :=
  CharStream.unsigned_digits h.digits h.nonempty (stops_cons.2 hc) h.fits

/-- Behind the minus sign, up to the name. -/
theorem resourceEnd_line (l : Line) (behind : Str) :
    resourceEnd m_ranges l.first.value (CharStream.between passed
        (l.last.text ++ space :: colon :: space :: (l.name ++ behind))) =
      resourceName m_ranges l.range (CharStream.between
        (colon :: space :: (l.last.text.reverse ++ passed)) (space :: (l.name ++ behind))) := by
  have hread := @unsigned_hex passed (colon :: space :: (l.name ++ behind)) space l.last rfl
  have hcolon : spaces.run () (CharStream.between (l.last.text.reverse ++ passed)
      (space :: colon :: space :: (l.name ++ behind))) =
      .ok (some colon) (CharStream.between (colon :: space :: (l.last.text.reverse ++ passed))
        (space :: (l.name ++ behind))) := spaces_name (by decide)
  rw [resourceEnd, bind_ok hread]
  dsimp only
  rw [resourceColon, bind_ok hcolon, if_neg (not_not.2 rfl)]
  rfl

/-- A line that is not indented, up to its name. -/
theorem resource_line (l : Line) (behind : Str) :
    ∃ passed', resource m_ranges
        (CharStream.between passed (l.first.text ++ (l.tail ++ behind))) =
      resourceName m_ranges l.range (CharStream.between passed' (space :: (l.name ++ behind))) := by
  have htail : l.tail ++ behind =
      minus :: (l.last.text ++ space :: colon :: space :: (l.name ++ behind)) := by
    simp only [Line.tail, List.cons_append, List.append_assoc]
  have hread := @unsigned_hex passed (l.last.text ++ space :: colon :: space :: (l.name ++ behind))
    minus l.first rfl
  have hminus := @CharStream.getChar_cons Thrown minus (l.first.text.reverse ++ passed)
    (l.last.text ++ space :: colon :: space :: (l.name ++ behind))
  refine ⟨_, Eq.trans ?_ (@resourceEnd_line (minus :: (l.first.text.reverse ++ passed)) m_ranges l
    behind)⟩
  rw [htail, resource, bind_ok hread]
  dsimp only
  rw [bind_ok hminus, if_neg (not_not.2 rfl)]

/-- An indented line is passed over. -/
theorem line_space : line m_ranges (CharStream.between passed (space :: rest)) =
    ((fun _ => m_ranges) <$> CharStream.ignoreUntil newline : Reader Ranges)
      (CharStream.between passed (space :: rest)) := by
  have hget : (get : Reader CharStream) (CharStream.between passed (space :: rest)) = .ok _ _ := rfl
  unfold line
  rw [bind_ok CharStream.peek_cons, bind_ok hget, if_neg fun h => h.1 rfl]

theorem line_other (hc : c ≠ space) :
    line m_ranges (CharStream.between passed (c :: rest)) =
      resource m_ranges (CharStream.between passed (c :: rest)) := by
  have hget : (get : Reader CharStream) (CharStream.between passed (c :: rest)) = .ok _ _ := rfl
  unfold line
  rw [bind_ok CharStream.peek_cons, bind_ok hget,
    if_pos ⟨fun h => hc (Option.some.inj h), rfl⟩]

end

namespace Line

variable {passed rest : Str} {m_ranges : Ranges}

theorem hex_plain (h : Hex) : ∀ c ∈ h.text, c ≠ space ∧ c ≠ newline := by
  intro c hc
  have hspace := (CharStream.plain_of_isDigit (h.digits c hc)).1
  constructor
  · rintro rfl
    cases hspace
  · rintro rfl
    cases hspace

theorem newline_not_mem_text (l : Line) : newline ∉ l.text := by
  intro hmem
  simp only [text, tail, List.mem_append, List.mem_cons, List.mem_replicate] at hmem
  rcases hmem with ⟨_, h⟩ | h | h | h | h | h | h | h
  · cases h
  · exact (hex_plain l.first _ h).2 rfl
  · cases h
  · exact (hex_plain l.last _ h).2 rfl
  · cases h
  · cases h
  · cases h
  · exact l.one_line h

theorem text_of_indent {l : Line} (h : l.indent = 0) : l.text = l.first.text ++ l.tail := by
  rw [text, h]
  rfl

theorem named_eq {l : Line} (h : l.indent = 0) :
    named m_ranges l.range l.name = m_ranges ++ l.ranges := by
  unfold named ranges isSystemRam
  by_cases hname : l.name = str "System RAM"
  · rw [if_pos hname, if_pos (decide_eq_true ⟨h, hname⟩)]
  · rw [if_neg hname, if_neg fun hram => hname (of_decide_eq_true hram).2, List.append_nil]

theorem text_of_nested {l : Line} (h : l.indent ≠ 0) : ∃ cs, l.text = space :: cs := by
  obtain ⟨n, hn⟩ := Nat.exists_eq_succ_of_ne_zero h
  rw [text, hn, List.replicate_succ, List.cons_append]
  exact ⟨_, rfl⟩

theorem ranges_nested {l : Line} (h : l.indent ≠ 0) : l.ranges = [] :=
  if_neg fun hram => h (of_decide_eq_true hram).1

/-- What a line adds, in front of another one or of the end of the file. -/
theorem line_line (l : Line) :
    ∃ passed', line m_ranges (CharStream.between passed (l.text ++ newline :: rest)) =
      .ok (m_ranges ++ l.ranges) (CharStream.between passed' rest) := by
  by_cases hindent : l.indent = 0
  · obtain ⟨c, cs, hfirst⟩ := List.exists_cons_of_ne_nil l.first.nonempty
    have hc : c ≠ space := (hex_plain l.first c (hfirst ▸ List.mem_cons_self)).1
    obtain ⟨p1, hresource⟩ := @resource_line passed m_ranges l (newline :: rest)
    obtain ⟨p2, hname⟩ := @resourceName_line p1 rest m_ranges l.range l.name l.name_stop l.one_line
    refine ⟨p2, ?_⟩
    rw [text_of_indent hindent, List.append_assoc, ← named_eq hindent, ← hname, ← hresource, hfirst,
      List.cons_append]
    exact line_other hc
  · obtain ⟨cs, hcs⟩ := text_of_nested hindent
    have hignore := @CharStream.ignoreUntil_line Thrown newline passed rest l.text
      l.newline_not_mem_text
    rw [ranges_nested hindent, List.append_nil]
    rw [hcs, List.cons_append] at hignore ⊢
    exact ⟨_, line_space.trans (map_ok hignore)⟩

/-- The last line, when it does not end with a newline. -/
theorem line_last (l : Line) :
    ∃ s', line m_ranges (CharStream.between passed l.text) = .ok (m_ranges ++ l.ranges) s' ∧
      (s'.fail = true ∨ ∃ passed', s' = CharStream.looked passed' []) := by
  by_cases hindent : l.indent = 0
  · obtain ⟨c, cs, hfirst⟩ := List.exists_cons_of_ne_nil l.first.nonempty
    have hc : c ≠ space := (hex_plain l.first c (hfirst ▸ List.mem_cons_self)).1
    obtain ⟨p1, hresource⟩ := @resource_line passed m_ranges l []
    rw [List.append_nil, List.append_nil] at hresource
    obtain ⟨s', hname, hend⟩ := @resourceName_last p1 m_ranges l.range l.name l.name_stop l.one_line
    refine ⟨s', ?_, hend⟩
    rw [text_of_indent hindent, ← named_eq hindent, ← hname, ← hresource, hfirst, List.cons_append]
    exact line_other hc
  · obtain ⟨cs, hcs⟩ := text_of_nested hindent
    have hignore := @CharStream.ignoreUntil_last Thrown newline passed l.text
      l.newline_not_mem_text
    rw [ranges_nested hindent, List.append_nil]
    rw [hcs] at hignore ⊢
    exact ⟨_, line_space.trans (map_ok hignore), Or.inr ⟨_, rfl⟩⟩

end Line

/-! ### The loop -/

section

variable {m_ranges : Ranges} {passed rest : Str} {s s' : CharStream}

theorem pass_failed (h : s.fail = true) : pass m_ranges s = .ok (.done m_ranges) s := by
  have hget : (get : Reader CharStream) s = .ok s s := rfl
  unfold pass
  rw [bind_ok hget, if_pos h]
  rfl

theorem pass_line {m_ranges' : Ranges} (hfail : s.fail = false)
    (h : line m_ranges s = .ok m_ranges' s') : pass m_ranges s = .ok (.next m_ranges') s' := by
  have hget : (get : Reader CharStream) s = .ok s s := rfl
  unfold pass
  rw [bind_ok hget, if_neg (Bool.eq_false_iff.1 hfail)]
  exact map_ok h

/-- When the end has been seen, one more pass makes the stream fail. -/
theorem run_looked : lines.run m_ranges (CharStream.looked passed []) =
    .ok m_ranges (CharStream.ended passed) := by
  have hline : line m_ranges (CharStream.looked passed []) =
      .ok m_ranges (CharStream.ended passed) := rfl
  exact (lines.run_next (pass_line rfl hline)).trans (lines.run_done (pass_failed rfl))

/-- So does it at the end that has not been seen yet. -/
theorem run_end : lines.run m_ranges (CharStream.between passed []) =
    .ok m_ranges (CharStream.ended passed) := by
  have hline : line m_ranges (CharStream.between passed []) =
      .ok m_ranges (CharStream.ended passed) := rfl
  exact (lines.run_next (pass_line rfl hline)).trans (lines.run_done (pass_failed rfl))

theorem content_cons_cons (terminated : Bool) (l l' : Line) (ls : List Line) :
    content terminated (l :: l' :: ls) = l.text ++ newline :: content terminated (l' :: ls) := by
  simp [content]

/-- Line after line. -/
theorem run_content (terminated : Bool) (ls : List Line) : ∀ (passed : Str) (m_ranges : Ranges),
    ∃ s', lines.run m_ranges (CharStream.between passed (content terminated ls)) =
      .ok (m_ranges ++ ls.flatMap Line.ranges) s' := by
  induction ls with
  | nil =>
      intro passed m_ranges
      rw [List.flatMap_nil, List.append_nil]
      exact ⟨_, by simpa [content] using run_end⟩
  | cons l ls ih =>
      intro passed m_ranges
      rw [List.flatMap_cons, ← List.append_assoc]
      cases ls with
      | cons l' ls =>
          obtain ⟨p1, hline⟩ := @Line.line_line passed (content terminated (l' :: ls)) m_ranges l
          rw [content_cons_cons, lines.run_next (pass_line rfl hline)]
          exact ih p1 _
      | nil =>
          rw [List.flatMap_nil, List.append_nil]
          cases terminated with
          | true =>
              have hcontent : content true [l] = l.text ++ [newline] := by simp [content]
              obtain ⟨p1, hline⟩ := @Line.line_line passed [] m_ranges l
              rw [hcontent, lines.run_next (pass_line rfl hline)]
              exact ⟨_, run_end⟩
          | false =>
              have hcontent : content false [l] = l.text := by simp [content]
              obtain ⟨s', hline, hend⟩ := @Line.line_last passed m_ranges l
              rw [hcontent, lines.run_next (pass_line rfl hline)]
              -- the last line either set the fail bit or was read up to the end
              rcases hend with hfail | ⟨p1, rfl⟩
              · exact ⟨_, lines.run_done (pass_failed hfail)⟩
              · exact ⟨_, run_looked⟩

end

/-- Whatever the lines are, the constructor does not throw, and `m_ranges` has the ranges of System
RAM at the top level, in order. -/
theorem new_content (procdir : Str) (terminated : Bool) (ls : List Line) :
    new procdir (some (content terminated ls)) =
      .ok ((ls.filter Line.isSystemRam).map Line.range) := by
  have hranges : ls.flatMap Line.ranges = (ls.filter Line.isSystemRam).map Line.range := by
    induction ls with
    | nil => rfl
    | cons l ls ih =>
        rw [List.flatMap_cons, ih, Line.ranges]
        split_ifs with hram
        · rw [List.filter_cons_of_pos hram]
          rfl
        · rw [List.filter_cons_of_neg hram]
          rfl
  obtain ⟨s', hrun⟩ := run_content terminated ls [] []
  rw [List.nil_append, hranges] at hrun
  exact congrArg CharStream.outcome hrun

example : new (str "/proc") (some (str "1000-9fbff : System RAM\n  2000-2fff : Kernel code")) =
    .ok [(0x1000, 0x9fbff)] := by decide

end MemMap
end Calibrate
end Kdump

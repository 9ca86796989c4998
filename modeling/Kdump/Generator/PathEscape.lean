import Kdump.Global
import Kdump.Lib.Cells
import Kdump.Lib.InPlace
import Kdump.Lib.Loop

/-!
# PathEscape — `path_escape` of the device timeout generator

The function makes the name of a unit from a path, in a buffer of four bytes for each byte of the
path and one more.  The path without duplicate slashes goes to the last quarter of the buffer; from
there it is escaped to the beginning.

* `hex_escape`, `escapeByte` — how a byte is written;
* `dedup` — the path without duplicate slashes;
* `Escaping` — the buffer in the second half of the function, with a log of the accesses to it;
* `path_escape` — the function; without a result if it leaves the buffer;
* `ReadFirst` — what is overwritten has been read;
* `InStep` — what holds in the second half;
* `path_escape_buffer_iff` — for which paths the function works within its buffer.
-/

namespace Kdump
namespace Generator

open Lib

abbrev colon : UInt8 := 58
abbrev underscore : UInt8 := 95
abbrev dash : UInt8 := 45

/-! ## Bytes -/

/-- `(unsigned)c`, where `char` is signed or not. -/
def toUnsigned (signed : Bool) (c : UInt8) : UInt32 :=
  if signed = true ∧ 128 ≤ c then c.toUInt32 ||| 0xffffff00 else c.toUInt32

def hex_digit (d : UInt32) : UInt8 :=
  if d < 10 then (d + 48).toUInt8 else (d - 10 + 97).toUInt8

/-- The bytes that `hex_escape` writes. -/
def hex_escape (signed : Bool) (c : UInt8) : Str :=
  [bslash, 120, hex_digit (toUnsigned signed c >>> 4), hex_digit (toUnsigned signed c &&& 0x0f)]

/-- `isalnum`, in the C locale. -/
def isalnum (c : UInt8) : Bool :=
  (48 ≤ c && c ≤ 57) || (65 ≤ c && c ≤ 90) || (97 ≤ c && c ≤ 122)

def safe_unit_char (c : UInt8) : Bool :=
  isalnum c || c = colon || c = underscore || c = period

/-- What the escaping loop writes for a byte. -/
def escapeByte (signed : Bool) (c : UInt8) : Str :=
  if c = slash then [dash]
  else if safe_unit_char c = false then hex_escape signed c
  else [c]

theorem length_escapeByte (signed : Bool) (c : UInt8) : (escapeByte signed c).length ≤ 4 := by
  unfold escapeByte
  split
  · exact Nat.succ_le_succ (Nat.zero_le _)
  · split
    · exact Nat.le_refl _
    · exact Nat.succ_le_succ (Nat.zero_le _)

/-! ## The buffer -/

/-- `*dst++ = c`, for one byte after the other. -/
def stores (s : InPlace (Option UInt8)) (as : Str) : Option (InPlace (Option UInt8)) :=
  if s.dst + as.length ≤ s.buf.length then some (s.writeAll (as.map some)) else none

/-- An access of the second half to the buffer. -/
inductive Access where
  | read (i : Nat)
  | write (i : Nat)
  deriving DecidableEq, Repr

/-- The buffer in the second half. -/
structure Escaping where
  mem : InPlace (Option UInt8)
  log : List Access
  deriving DecidableEq, Repr

namespace Escaping

/-- `*src`.  A cell that nothing has been written to must not be read either. -/
def fetch (s : Escaping) : Option (UInt8 × Escaping) :=
  match s.mem.peek 0 with
  | some (some c) => some (c, { s with log := s.log ++ [.read s.mem.src] })
  | _ => none

/-- `*dst++ = c`, for one byte after the other. -/
def store (s : Escaping) (as : Str) : Option Escaping :=
  (stores s.mem as).map fun mem =>
    { mem := mem
      log := s.log ++ (List.range' s.mem.dst as.length).map .write }

/-- `++src` -/
def advance (s : Escaping) : Escaping :=
  { s with mem := s.mem.skip 1 }

end Escaping

/-! ## The function -/

/-- A slash is dropped if there is none but a slash behind it.  The path is given by the bytes in
front of its terminator. -/
def dedupKeeps (c : UInt8) (src : Str) : Bool :=
  c ≠ slash || (src.headD 0 ≠ 0 && src.headD 0 ≠ slash)

/-- The first loop. -/
def dedupLoop : Str → InPlace (Option UInt8) → Option (InPlace (Option UInt8))
  | [], s => some s
  | c :: src, s =>
      if dedupKeeps c src = true then (stores s [c]).bind (dedupLoop src)
      else dedupLoop src s

/-- What stands in front of the second loop. -/
def escapeStart (signed : Bool) (s : Escaping) : Option Escaping := do
  let (c, s) ← s.fetch
  let s := if c = slash then s.advance else s
  let (c, s) ← s.fetch
  if c = period then
    let s ← s.store (hex_escape signed c)
    return s.advance
  else
    return s

/-- One pass of the second loop; the last one writes the terminator. -/
def escapeStep (signed : Bool) (s : Escaping) : Step Escaping (Option Escaping) :=
  match s.fetch with
  | none => .done none
  | some (c, s) =>
      if c = 0 then .done (s.store [0])
      else
        match s.store (escapeByte signed c) with
        | none => .done none
        | some s => .next s.advance

theorem escapeStep_src {signed : Bool} {s s' : Escaping} (h : escapeStep signed s = .next s') :
    s.mem.src < s.mem.buf.length ∧ s'.mem.src = s.mem.src + 1 ∧
      s'.mem.buf.length = s.mem.buf.length := by
  unfold escapeStep Escaping.fetch at h
  cases hpeek : s.mem.peek 0 with
  | none =>
      rw [hpeek] at h
      cases h
  | some cell =>
      obtain ⟨hlt, _⟩ := List.getElem?_eq_some_iff.1 hpeek
      rw [hpeek] at h
      cases cell with
      | none => cases h
      | some c =>
          dsimp only at h
          split at h
          · cases h
          · unfold Escaping.store stores at h
            split at h
            · cases h
            · rename_i hstore
              cases h
              split at hstore
              · cases hstore
                exact ⟨hlt, congrArg (· + 1) (InPlace.src_writeAll _ _),
                  InPlace.length_writeAll _ _⟩
              · cases hstore

def escapeLoop (signed : Bool) : Loop Escaping (Option Escaping) where
  step := escapeStep signed
  measure s := s.mem.buf.length - s.mem.src
  decreases := by
    intro s s' h
    obtain ⟨hlt, hsrc, hlength⟩ := escapeStep_src h
    omega

/-- `path_escape`, with the buffer that is returned.  There is no result if something is read or
written outside of the buffer. -/
def path_escape (signed : Bool) (path : Str) : Option Escaping := do
  let pathlen := path.length
  let ret : Cells UInt8 := .malloc (pathlen * 4 + 1)
  let dedup := pathlen * 3
  -- remove duplicate slashes
  let copy ← dedupLoop path ⟨ret, dedup, dedup⟩
  let copy ← stores copy [0]
  let s : Escaping := ⟨⟨copy.buf, dedup, 0⟩, []⟩
  -- root directory special case
  let (c, s) ← s.fetch
  if c = 0 then s.store [dash, 0]
  else
    let s ← escapeStart signed s
    (escapeLoop signed).eval s

/-! ## The copy -/

/-- The path without duplicate slashes, and without a slash at its end. -/
def dedup : Str → Str
  | [] => []
  | c :: src => if dedupKeeps c src = true then c :: dedup src else dedup src

theorem length_dedup (path : Str) : (dedup path).length ≤ path.length := by
  induction path with
  | nil => exact Nat.le_refl _
  | cons c src ih =>
      rw [dedup, List.length_cons]
      split
      · exact Nat.succ_le_succ ih
      · exact ih.trans (Nat.le_succ _)

theorem stores_eq {s : InPlace (Option UInt8)} {as : Str} (h : s.dst + as.length ≤ s.buf.length) :
    stores s as = some (s.writeAll (as.map some)) :=
  if_pos h

theorem dedupLoop_eq (path : Str) {s : InPlace (Option UInt8)}
    (h : s.dst + (dedup path).length ≤ s.buf.length) :
    dedupLoop path s = some (s.writeAll ((dedup path).map some)) := by
  induction path generalizing s with
  | nil => rfl
  | cons c src ih =>
      rw [dedup] at h ⊢
      rw [dedupLoop]
      by_cases hkeeps : dedupKeeps c src = true
      · rw [if_pos hkeeps] at h ⊢
        rw [if_pos hkeeps]
        rw [List.length_cons] at h
        have hone : s.dst + [c].length ≤ s.buf.length := by
          rw [List.length_singleton]
          omega
        have hrest : (s.writeAll [some c]).dst + (dedup src).length ≤
            (s.writeAll [some c]).buf.length := by
          rw [InPlace.dst_writeAll, InPlace.length_writeAll, List.length_singleton]
          omega
        rw [stores_eq hone]
        exact ih hrest
      · rw [if_neg hkeeps] at h ⊢
        rw [if_neg hkeeps]
        exact ih h

/-! ## What has been read -/

/-- From `base` on, a cell is read before it is written. -/
def ReadFirst (base : Nat) (log : List Access) : Prop :=
  ∀ before i after, log = before ++ .write i :: after → base ≤ i → .read i ∈ before

theorem readFirst_nil (base : Nat) : ReadFirst base [] := by
  intro before i after h
  cases before <;> cases h

theorem ReadFirst.concat_read {base : Nat} {log : List Access} (h : ReadFirst base log) (j : Nat) :
    ReadFirst base (log ++ [.read j]) := by
  intro before i after heq hi
  rcases List.append_eq_append_iff.1 heq with ⟨mid, hbefore, hafter⟩ | ⟨mid, hlog, hafter⟩
  · -- the write would stand in the entry that has been added
    cases mid with
    | nil => cases hafter
    | cons a mid =>
        cases mid <;> cases hafter
  · cases mid with
    | nil => cases hafter
    | cons a mid =>
        cases hafter
        exact h before i mid hlog hi

theorem ReadFirst.append_writes {base : Nat} {log : List Access} (h : ReadFirst base log)
    {js : List Nat} (hread : ∀ j ∈ js, base ≤ j → .read j ∈ log) :
    ReadFirst base (log ++ js.map .write) := by
  intro before i after heq hi
  rcases List.append_eq_append_iff.1 heq with ⟨mid, hbefore, hafter⟩ | ⟨mid, hlog, hafter⟩
  · have hmem : Access.write i ∈ js.map .write := by
      rw [hafter]
      exact List.mem_append_right _ List.mem_cons_self
    obtain ⟨j, hj, heq⟩ := List.mem_map.1 hmem
    cases heq
    rw [hbefore]
    exact List.mem_append_left _ (hread _ hj hi)
  · cases mid with
    | nil =>
        have hmem : Access.write i ∈ js.map .write := by
          rw [← List.nil_append (js.map Access.write), ← hafter]
          exact List.mem_cons_self
        obtain ⟨j, hj, heq⟩ := List.mem_map.1 hmem
        cases heq
        rw [hlog, List.append_nil] at hread
        exact hread _ hj hi
    | cons a mid =>
        cases hafter
        exact h before i mid hlog hi

/-! ## The second half -/

/-- `out` has been written and `text` is still to be read.  There is room for three bytes more for
each byte of `text`, and what has been passed in the copy has been read. -/
structure InStep (base : Nat) (out text : Str) (s : Escaping) : Prop where
  cells : ∃ tail, s.mem.At (out.map some) ((text ++ [0]).map some ++ tail)
  room : s.mem.dst + 3 * text.length ≤ s.mem.src
  passed : ∀ i, base ≤ i → i < s.mem.src → .read i ∈ s.log
  readFirst : ReadFirst base s.log

variable {signed : Bool} {base : Nat} {out text : Str} {s : Escaping}

/-- The next byte is read, or the terminator. -/
theorem InStep.fetch (h : InStep base out text s) :
    ∃ s', s.fetch = some (text.headD 0, s') ∧ InStep base out text s' ∧
      .read s'.mem.src ∈ s'.log ∧ s'.mem = s.mem := by
  obtain ⟨tail, hat⟩ := h.cells
  have hpeek : s.mem.peek 0 = some (some (text.headD 0)) := by
    rw [hat.peek_eq]
    cases text <;> rfl
  have hfetch : s.fetch =
      some (text.headD 0, { s with log := s.log ++ [.read s.mem.src] }) := by
    rw [Escaping.fetch, hpeek]
  refine ⟨_, hfetch, ⟨⟨tail, hat⟩, h.room, ?_, h.readFirst.concat_read _⟩, ?_, rfl⟩
  · intro i hi hlt
    exact List.mem_append_left _ (h.passed i hi hlt)
  · exact List.mem_append_right _ List.mem_cons_self

/-- What the writing of some bytes adds to the log. -/
theorem InStep.readFirst_store (h : InStep base out text s) (hread : .read s.mem.src ∈ s.log)
    {k : Nat} (hk : s.mem.dst + k ≤ s.mem.src + 1) :
    ReadFirst base (s.log ++ (List.range' s.mem.dst k).map .write) := by
  refine h.readFirst.append_writes ?_
  intro j hj hbase
  obtain ⟨_, hlt⟩ := List.mem_range'_1.1 hj
  rcases Nat.lt_or_ge j s.mem.src with hj | hj
  · exact h.passed j hbase hj
  · obtain rfl : j = s.mem.src := by omega
    exact hread

/-- A byte has been read; it is passed, and something is written for it. -/
theorem InStep.advance {c : UInt8} (h : InStep base out (c :: text) s)
    (hread : .read s.mem.src ∈ s.log) {as : Str} (has : as.length ≤ 4) :
    ∃ s', s.store as = some s' ∧ InStep base (out ++ as) text s'.advance := by
  obtain ⟨tail, hat⟩ := h.cells
  have hlength := hat.length_eq
  have hroom := h.room
  rw [List.length_cons] at hroom
  simp only [List.cons_append, List.map_cons, List.length_cons] at hlength
  have hstore : s.mem.dst + as.length ≤ s.mem.buf.length := by omega
  have hstore : s.store as = some
      { mem := s.mem.writeAll (as.map some)
        log := s.log ++ (List.range' s.mem.dst as.length).map .write } := by
    rw [Escaping.store, stores_eq hstore]
    rfl
  -- four bytes for one read: the room shrinks by three, and the writer stays behind the reader
  have hat' := @InPlace.At.rewrite _ _ _ _ hat (as.map some) 1 (by simp)
    (by rw [List.length_map]; omega)
  refine ⟨_, hstore, ⟨tail, ?_⟩, ?_, ?_, h.readFirst_store hread (by omega)⟩
  · rw [List.map_append]
    exact hat'
  · change (s.mem.writeAll (as.map some)).dst + 3 * text.length ≤
      (s.mem.writeAll (as.map some)).src + 1
    rw [InPlace.dst_writeAll, InPlace.src_writeAll, List.length_map]
    omega
  · intro i hi hlt
    refine List.mem_append_left _ ?_
    change i < (s.mem.writeAll (as.map some)).src + 1 at hlt
    rw [InPlace.src_writeAll] at hlt
    rcases Nat.lt_or_ge i s.mem.src with hi' | hi'
    · exact h.passed i hi hi'
    · obtain rfl : i = s.mem.src := by omega
      exact hread

/-- Nothing is written for a slash at the beginning. -/
theorem InStep.skip {c : UInt8} (h : InStep base out (c :: text) s)
    (hread : .read s.mem.src ∈ s.log) : InStep base out text s.advance := by
  have hnone : ([] : Str).length ≤ 4 := Nat.zero_le _
  obtain ⟨s', hstore, h'⟩ := h.advance hread hnone
  have hself : s' = s := by
    unfold Escaping.store stores at hstore
    split at hstore
    · simpa using hstore.symm
    · cases hstore
  rw [List.append_nil, hself] at h'
  exact h'

/-- The buffer begins with `name` and its terminator. -/
def Finished (base : Nat) (name : Str) (s : Escaping) : Prop :=
  (∃ tail, s.mem.buf = (name ++ [0]).map some ++ tail) ∧ ReadFirst base s.log

/-- The terminator has been read, and it is written. -/
theorem InStep.finish (h : InStep base out text s) (hread : .read s.mem.src ∈ s.log) :
    ∃ s', s.store [0] = some s' ∧ Finished base out s' := by
  obtain ⟨tail, hat⟩ := h.cells
  have hlength := hat.length_eq
  have hroom := h.room
  simp only [List.length_append, List.length_map, List.length_singleton] at hlength
  have hle : s.mem.dst + [(0 : UInt8)].length ≤ s.mem.buf.length := by
    rw [List.length_singleton]
    omega
  have hstore : s.store [0] = some
      { mem := s.mem.writeAll [some 0]
        log := s.log ++ (List.range' s.mem.dst 1).map .write } := by
    rw [Escaping.store, stores_eq hle]
    rfl
  refine ⟨_, hstore, ⟨s.mem.buf.drop (s.mem.dst + 1), ?_⟩, h.readFirst_store hread (by omega)⟩
  have htake := InPlace.take_writeAll s.mem [some (0 : UInt8)] hle
  have hdrop := InPlace.drop_writeAll s.mem [some (0 : UInt8)] (Nat.le_refl (s.mem.dst + 1))
  rw [hat.written, List.length_singleton] at htake
  rw [List.map_append, ← hdrop, List.map_singleton, ← htake]
  exact (List.take_append_drop _ _).symm

/-- The second loop. -/
theorem InStep.eval (h : InStep base out text s) (signed : Bool) :
    ∃ s', (escapeLoop signed).eval s = some s' ∧
      Finished base (out ++ (cStr text).flatMap (escapeByte signed)) s' := by
  induction text generalizing out s with
  | nil =>
      obtain ⟨s₁, hfetch, h₁, hread, _⟩ := h.fetch
      obtain ⟨s', hstore, hfinished⟩ := h₁.finish hread
      have hstep : escapeStep signed s = .done (some s') := by
        rw [escapeStep, hfetch, ← hstore]
        rfl
      refine ⟨s', (escapeLoop signed).eval_done hstep, ?_⟩
      rw [cStr, List.takeWhile_nil, List.flatMap_nil, List.append_nil]
      exact hfinished
  | cons c text ih =>
      obtain ⟨s₁, hfetch, h₁, hread, _⟩ := h.fetch
      by_cases hc : c = 0
      · subst hc
        obtain ⟨s', hstore, hfinished⟩ := h₁.finish hread
        have hstep : escapeStep signed s = .done (some s') := by
          rw [escapeStep, hfetch, ← hstore]
          rfl
        refine ⟨s', (escapeLoop signed).eval_done hstep, ?_⟩
        -- a zero byte ends the loop as the end of the text does
        rw [cStr, List.takeWhile_cons_of_neg (by simp), List.flatMap_nil, List.append_nil]
        exact hfinished
      · obtain ⟨s₂, hstore, h₂⟩ := h₁.advance hread (length_escapeByte signed c)
        have hstep : escapeStep signed s = .next s₂.advance := by
          rw [escapeStep, hfetch]
          dsimp only [List.headD_cons]
          rw [if_neg hc, hstore]
        obtain ⟨s', heval, hfinished⟩ := ih h₂
        refine ⟨s', ((escapeLoop signed).eval_next hstep).trans heval, ?_⟩
        rw [cStr, List.takeWhile_cons_of_pos (by simpa using hc), List.flatMap_cons,
          ← List.append_assoc]
        exact hfinished

/-! ## The name -/

def withoutSlash : Str → Str
  | [] => []
  | c :: text => if c = slash then text else c :: text

/-- A text escaped; a period is escaped only at its beginning. -/
def escapeText (signed : Bool) : Str → Str
  | [] => []
  | c :: text =>
      (if c = period then hex_escape signed c else escapeByte signed c) ++
        text.flatMap (escapeByte signed)

/-- The name that `path_escape` makes. -/
def pathName (signed : Bool) (path : Str) : Str :=
  if (dedup path).headD 0 = 0 then [dash]
  else escapeText signed (cStr (withoutSlash (dedup path)))

/-- What stands in front of the second loop, and the loop. -/
theorem InStep.run (h : InStep base [] text s) :
    ∃ s', (escapeStart signed s).bind (escapeLoop signed).eval = some s' ∧
      Finished base (escapeText signed (cStr (withoutSlash text))) s' := by
  obtain ⟨s₁, hfetch, h₁, hread, _⟩ := h.fetch
  -- the slash
  obtain ⟨s₂, hs₂, h₂⟩ : ∃ s₂, (if text.headD 0 = slash then s₁.advance else s₁) = s₂ ∧
      InStep base [] (withoutSlash text) s₂ := by
    cases text with
    | nil => exact ⟨s₁, rfl, h₁⟩
    | cons c text =>
        rw [List.headD_cons, withoutSlash]
        split
        · exact ⟨_, rfl, h₁.skip hread⟩
        · exact ⟨_, rfl, h₁⟩
  generalize withoutSlash text = text' at h₂ ⊢
  obtain ⟨s₃, hfetch', h₃, hread', _⟩ := h₂.fetch
  by_cases hperiod : text'.headD 0 = period
  · -- the period
    cases text' with
    | nil => cases hperiod
    | cons c text' =>
        obtain rfl : c = period := hperiod
        have hfour : (hex_escape signed period).length ≤ 4 := Nat.le_refl 4
        obtain ⟨s₄, hstore, h₄⟩ := h₃.advance hread' hfour
        have hstart : escapeStart signed s = some s₄.advance := by
          simp only [escapeStart, hfetch, Option.bind_eq_bind, Option.bind_some, hs₂, hfetch']
          rw [List.headD_cons, if_pos rfl, hstore]
          rfl
        obtain ⟨s', heval, hfinished⟩ := h₄.eval signed
        refine ⟨s', by rw [hstart]; exact heval, ?_⟩
        rw [cStr, List.takeWhile_cons_of_pos (by decide), escapeText, if_pos rfl]
        exact hfinished
  · have hstart : escapeStart signed s = some s₃ := by
      simp only [escapeStart, hfetch, Option.bind_eq_bind, Option.bind_some, hs₂, hfetch']
      rw [if_neg hperiod]
      rfl
    obtain ⟨s', heval, hfinished⟩ := h₃.eval signed
    refine ⟨s', by rw [hstart]; exact heval, ?_⟩
    have hname : escapeText signed (cStr text') = (cStr text').flatMap (escapeByte signed) := by
      cases text' with
      | nil => rfl
      | cons c text' =>
          by_cases hc : c = 0
          · subst hc
            rfl
          · rw [List.headD_cons] at hperiod
            rw [cStr, List.takeWhile_cons_of_pos (by simpa using hc), escapeText, if_neg hperiod,
              List.flatMap_cons]
    rw [hname]
    exact hfinished

/-- The copy is where the second half expects it. -/
theorem inStep_start (path : Str) :
    ∃ copy,
      (dedupLoop path ⟨Cells.malloc (path.length * 4 + 1), path.length * 3, path.length * 3⟩).bind
        (stores · [0]) = some copy ∧
      copy.buf.length = path.length * 4 + 1 ∧
      InStep (path.length * 3) [] (dedup path) ⟨⟨copy.buf, path.length * 3, 0⟩, []⟩ := by
  have hle := length_dedup path
  set start : InPlace (Option UInt8) :=
    ⟨Cells.malloc (path.length * 4 + 1), path.length * 3, path.length * 3⟩
  have hlength : start.buf.length = path.length * 4 + 1 := List.length_replicate
  have hroom : start.dst + (dedup path).length ≤ start.buf.length := by
    rw [hlength]
    change path.length * 3 + (dedup path).length ≤ path.length * 4 + 1
    omega
  have hroom' : start.dst + ((dedup path ++ [0]).map some).length ≤ start.buf.length := by
    rw [hlength, List.length_map, List.length_append]
    change path.length * 3 + ((dedup path).length + 1) ≤ path.length * 4 + 1
    omega
  have hroom'' : (start.writeAll ((dedup path).map some)).dst + [(0 : UInt8)].length ≤
      (start.writeAll ((dedup path).map some)).buf.length := by
    rw [InPlace.dst_writeAll, InPlace.length_writeAll, List.length_map, hlength,
      List.length_singleton]
    change path.length * 3 + (dedup path).length + 1 ≤ path.length * 4 + 1
    omega
  -- the path and its NUL byte are written behind three times the length of the path
  refine ⟨start.writeAll ((dedup path ++ [0]).map some), ?_, ?_, ⟨?_, ?_, ?_, readFirst_nil _⟩⟩
  · rw [dedupLoop_eq path hroom, Option.bind_some, stores_eq hroom'', List.map_append,
      InPlace.writeAll_append]
  · rw [InPlace.length_writeAll, hlength]
  · refine ⟨start.buf.drop (start.dst + ((dedup path ++ [0]).map some).length), ?_, ?_, ?_, ?_⟩
    · rfl
    · exact InPlace.drop_dst_writeAll start _ hroom'
    · exact Nat.zero_le _
    · change path.length * 3 ≤ (start.writeAll ((dedup path ++ [0]).map some)).buf.length
      rw [InPlace.length_writeAll, hlength]
      omega
  · change 0 + 3 * (dedup path).length ≤ path.length * 3
    omega
  · intro i hi hlt
    exact absurd hlt (Nat.not_lt.2 hi)

/-- The function on a path that is not empty. -/
theorem path_escape_eq (signed : Bool) {path : Str} (hne : path ≠ []) :
    ∃ s, path_escape signed path = some s ∧
      Finished (path.length * 3) (pathName signed path) s := by
  have hpos := List.length_pos_iff.2 hne
  obtain ⟨copy, hcopy, hlength, hstart⟩ := inStep_start path
  obtain ⟨s₁, hfetch, h₁, _, hmem⟩ := hstart.fetch
  unfold path_escape pathName
  simp only [Option.bind_eq_bind]
  rw [← Option.bind_assoc, hcopy, Option.bind_some, hfetch, Option.bind_some]
  dsimp only
  by_cases hroot : (dedup path).headD 0 = 0
  · rw [if_pos hroot, if_pos hroot]
    have hdst : s₁.mem.dst = 0 := by rw [hmem]
    have htwo : s₁.mem.dst + [dash, 0].length ≤ s₁.mem.buf.length := by
      rw [hmem]
      change 0 + 2 ≤ copy.buf.length
      omega
    have htake := InPlace.take_writeAll s₁.mem ([dash, 0].map some) htwo
    rw [hdst, List.take_zero, List.nil_append] at htake
    have hstore : s₁.store [dash, 0] = some
        { mem := s₁.mem.writeAll ([dash, 0].map some)
          log := s₁.log ++ (List.range' s₁.mem.dst 2).map .write } := by
      rw [Escaping.store, stores_eq htwo]
      rfl
    refine ⟨_, hstore, ⟨(s₁.mem.writeAll ([dash, 0].map some)).buf.drop 2, ?_⟩, ?_⟩
    · exact (List.take_append_drop 2 _).symm.trans (congrArg (· ++ _) htake)
    · -- the two bytes do not reach the copy
      refine h₁.readFirst.append_writes ?_
      intro j hj hbase
      have hlt := (List.mem_range'_1.1 hj).2
      omega
  · rw [if_neg hroot, if_neg hroot]
    exact h₁.run

/-! ## Within the buffer -/

/-- Nothing is read or written outside of the buffer, and the second half overwrites no byte of the
copy before it has read it. -/
def WithinBuffer (path : Str) (result : Option Escaping) : Prop :=
  ∃ s, result = some s ∧ ReadFirst (path.length * 3) s.log

/-- The name of the root directory has no room in the buffer for the empty path. -/
theorem path_escape_nil (signed : Bool) : path_escape signed [] = none :=
  rfl

/-- The function works within its buffer for every path but the empty one. -/
theorem path_escape_within_iff (signed : Bool) (path : Str) :
    WithinBuffer path (path_escape signed path) ↔ path ≠ [] := by
  constructor
  · rintro ⟨s, hs, _⟩ rfl
    rw [path_escape_nil] at hs
    cases hs
  · intro hne
    obtain ⟨s, hs, hfinished⟩ := path_escape_eq signed hne
    exact ⟨s, hs, hfinished.2⟩

theorem not_withinBuffer_nil :
    ¬ ∀ (signed : Bool) (path : Str), WithinBuffer path (path_escape signed path) := by
  intro h
  obtain ⟨s, hs, _⟩ := h true []
  cases hs

end Generator
end Kdump

import Kdump.Config.RoundTrip
import Kdump.Lib.CharStream
import Kdump.Path.FilePath
import Mathlib.Data.Finset.Sort

/-!
# SystemCPU — counting the processors in a list

`SystemCPU::count` reads a list such as `0-3,8` with formatted extraction.

* `count` — the loop as it stands in the source;
* `cpulist` — the text that the kernel writes for a set of processors;
* `run_elements` — what the loop makes of the ranges of a list, one after another;
* `count_cpulist` — the number of processors comes out.
-/

namespace Kdump
namespace Calibrate

open Lib Config

@[simp] abbrev dash : UInt8 := 45
@[simp] abbrev comma : UInt8 := 44

namespace SystemCPU

/-! ## The loop -/

variable {w : Nat}

/-- The variables that outlive a pass; an `unsigned long` has `w` bits. -/
structure Vars (w : Nat) where
  delim : UInt8
  ret : BitVec w

abbrev Reader := EStateM Thrown CharStream

def wrongNumberFormat (path : Str) : Thrown :=
  .KError (path ++ str ": wrong number format")

/-- Behind a dash. -/
def upTo (path : Str) (n1 : BitVec w) (v : Vars w) : Reader (Vars w) :=
  CharStream.unsigned 10 w >>= fun
    | none => throw (wrongNumberFormat path)
    | some n2 => (fun next => ⟨next.getD v.delim, v.ret + (n2 - n1)⟩) <$> CharStream.char

/-- Behind the first number. -/
def range (path : Str) (n1 : BitVec w) (v : Vars w) : Reader (Vars w) := do
  let next ← CharStream.char
  let fin ← get
  if fin.fail = false ∧ next.getD v.delim = dash then upTo path n1 ⟨next.getD v.delim, v.ret⟩
  else pure ⟨next.getD v.delim, v.ret⟩

def body (path : Str) (n1 : BitVec w) (v : Vars w) : Reader (Vars w) := do
  let v ← range path n1 v
  let fin ← get
  if fin.eofbit = false ∧ v.delim ≠ comma then
    throw (.KError (path ++ str ": wrong delimiter: " ++ [v.delim]))
  else pure ⟨v.delim, v.ret + 1⟩

/-- One pass, with the condition of the loop. -/
def pass (path : Str) (v : Vars w) : Reader (Step (Vars w) (Vars w)) :=
  CharStream.unsigned 10 w >>= fun
    | none => pure (.done v)
    | some n1 => .next <$> body path n1 v

theorem keeps_upTo {n : Nat} (path : Str) (n1 : BitVec w) (v : Vars w) :
    Keeps (upTo path n1 v) (fun s => s.left ≤ n) := by
  refine (CharStream.keeps_unsigned 10 w).bind fun n2 => ?_
  cases n2 with
  | none => exact Keeps.throw _
  | some n2 => exact CharStream.keeps_char.map

theorem keeps_body {n : Nat} (path : Str) (n1 : BitVec w) (v : Vars w) :
    Keeps (body path n1 v) (fun s => s.left ≤ n) := by
  refine Keeps.bind ?_ fun v' => Keeps.get.bind fun fin' => ?_
  · refine CharStream.keeps_char.bind fun next => Keeps.get.bind fun fin => ?_
    split_ifs
    · exact keeps_upTo path n1 _
    · exact Keeps.pure _
  · split_ifs
    · exact Keeps.throw _
    · exact Keeps.pure _

/-- A pass that goes on has read a number. -/
theorem wp_pass (path : Str) (v : Vars w) (s : CharStream) :
    wp (pass path v) (fun r s' => ∀ v', r = .next v' → s'.left < s.left) (fun _ _ => True) s := by
  unfold pass
  rw [wp_bind]
  refine wp_mono (CharStream.wp_unsigned 10 w s) (fun n1 s1 hlt => ?_) (fun _ _ h => h)
  cases n1 with
  | none =>
      intro v' h
      cases h
  | some n1 =>
      have hbody : Keeps (Step.next (ρ := Vars w) <$> body path n1 v) (fun s => s.left ≤ s1.left) :=
        (keeps_body path n1 v).map
      exact wp_mono (hbody s1 (Nat.le_refl _))
        (fun _ s' hle _ _ => Nat.lt_of_le_of_lt hle (hlt rfl)) (fun _ _ _ => trivial)

def elements (path : Str) : Repeat Thrown CharStream (Vars w) (Vars w) where
  pass := pass path
  left := CharStream.left
  progress := wp_pass path

/-- Behind the loop. -/
def counted (path : Str) (v : Vars w) : Reader (BitVec w) := do
  let v ← (elements path).run v
  let fin ← get
  if fin.eofbit = false then throw (wrongNumberFormat path)
  else pure v.ret

/-- `m_cpudir`. -/
def cpudir (sysdir : Str) : Str :=
  Path.appendPath sysdir (str "devices/system/cpu")

/-- `SystemCPU::count`, for a file that is read without errors once it is open.  Nobody says what
the variable `delim` holds in the beginning. -/
def count (w : Nat) (m_cpudir name : Str) (file : Except Errno Str) (delim : UInt8) :
    Except Thrown (BitVec w) :=
  let path := Path.appendPath m_cpudir name
  match file with
  | .error errno => .error (.KSystemError (str "Cannot open " ++ path) errno)
  | .ok text => CharStream.outcome (counted path ⟨delim, 0⟩ (CharStream.between [] text))

/-! ## The format -/

/-- The maximal ranges of an ascending list of numbers. -/
def ranges : List Nat → List (Nat × Nat)
  | [] => []
  | n :: ns =>
      match ranges ns with
      | [] => [(n, n)]
      | (first, last) :: rs =>
          if first = n + 1 then (n, last) :: rs else (n, n) :: (first, last) :: rs

/-- `a` or `a-b`. -/
def rangeText (r : Nat × Nat) : Str :=
  if r.1 = r.2 then decimal r.1 else decimal r.1 ++ dash :: decimal r.2

/-- The text of a list of ranges. -/
def listText (rs : List (Nat × Nat)) (terminated : Bool) : Str :=
  [comma].intercalate (rs.map rangeText) ++ if terminated then [newline] else []

theorem listText_singleton (r : Nat × Nat) (terminated : Bool) :
    listText [r] terminated = rangeText r ++ if terminated then [newline] else [] := by
  rw [listText, List.map_singleton, List.intercalate_singleton]

theorem listText_cons_cons (r r' : Nat × Nat) (rs : List (Nat × Nat)) (terminated : Bool) :
    listText (r :: r' :: rs) terminated =
      rangeText r ++ comma :: listText (r' :: rs) terminated := by
  simp only [listText, List.map_cons, List.intercalate_cons_cons, List.append_assoc,
    List.cons_append, List.nil_append]

/-- What the kernel writes for a set of processors. -/
def cpulist (cpus : Finset Nat) (terminated : Bool) : Str :=
  listText (ranges cpus.sort) terminated

example : listText (ranges [0, 1, 2, 3, 8, 10, 11]) true = str "0-3,8,10-11\n" := by decide

/-- One more number in front of the list. -/
theorem ranges_cons (n : Nat) (ns : List Nat) :
    (∃ last rs, ranges ns = (n + 1, last) :: rs ∧ ranges (n :: ns) = (n, last) :: rs) ∨
      (∀ r ∈ (ranges ns).head?, r.1 ≠ n + 1) ∧ ranges (n :: ns) = (n, n) :: ranges ns := by
  cases hns : ranges ns with
  | nil =>
      right
      rw [ranges, hns]
      exact ⟨fun _ h => (Option.not_mem_none _ h).elim, rfl⟩
  | cons r rs =>
      rcases r with ⟨first, last⟩
      rw [ranges, hns]
      dsimp only
      by_cases hfirst : first = n + 1
      · left
        rw [if_pos hfirst, hfirst]
        exact ⟨last, rs, rfl, rfl⟩
      · right
        rw [if_neg hfirst]
        refine ⟨?_, rfl⟩
        rintro _ ⟨⟩
        exact hfirst

theorem le_of_mem_ranges {l : List Nat} : ∀ r ∈ ranges l, r.1 ≤ r.2 := by
  induction l with
  | nil => exact fun _ h => absurd h List.not_mem_nil
  | cons n ns ih =>
      rcases ranges_cons n ns with ⟨last, rs, hns, hcons⟩ | ⟨_, hcons⟩
      · rw [hns, List.forall_mem_cons] at ih
        rw [hcons, List.forall_mem_cons]
        exact ⟨(Nat.le_succ n).trans ih.1, ih.2⟩
      · rw [hcons, List.forall_mem_cons]
        exact ⟨Nat.le_refl n, ih⟩

/-- The ranges cover the list, and nothing else. -/
theorem mem_iff_mem_ranges {l : List Nat} {c : Nat} :
    c ∈ l ↔ ∃ r ∈ ranges l, r.1 ≤ c ∧ c ≤ r.2 := by
  induction l with
  | nil => simp [ranges]
  | cons n ns ih =>
      rcases ranges_cons n ns with ⟨last, rs, hns, hcons⟩ | ⟨_, hcons⟩
      · have hle : n + 1 ≤ last := le_of_mem_ranges (n + 1, last) (hns ▸ List.mem_cons_self)
        rw [hcons, List.mem_cons, ih, hns, List.exists_mem_cons_iff, List.exists_mem_cons_iff]
        dsimp only
        rw [← or_assoc]
        refine or_congr_left ?_
        omega
      · rw [hcons, List.mem_cons, ih, List.exists_mem_cons_iff]
        refine or_congr_left ?_
        dsimp only
        omega

/-- There is a gap between one range and the next: they are as long as they can be. -/
theorem gaps_ranges {l : List Nat} (h : l.Pairwise (· < ·)) :
    (ranges l).Pairwise fun r r' => r.2 + 1 < r'.1 := by
  induction l with
  | nil => exact List.Pairwise.nil
  | cons n ns ih =>
      rw [List.pairwise_cons] at h
      have hgaps := ih h.2
      rcases ranges_cons n ns with ⟨last, rs, hns, hcons⟩ | ⟨hhead, hcons⟩
      · rw [hns, List.pairwise_cons] at hgaps
        rw [hcons, List.pairwise_cons]
        exact hgaps
      · rw [hcons, List.pairwise_cons]
        refine ⟨?_, hgaps⟩
        intro r hr
        have hfirst : r.1 ∈ ns := mem_iff_mem_ranges.2 ⟨r, hr, Nat.le_refl _, le_of_mem_ranges r hr⟩
        have hlt : n < r.1 := h.1 _ hfirst
        cases hns : ranges ns with
        | nil =>
            rw [hns] at hr
            cases hr
        | cons r' rs =>
            rw [hns] at hr hhead hgaps
            rw [List.pairwise_cons] at hgaps
            have hne : r'.1 ≠ n + 1 := hhead r' rfl
            rcases List.mem_cons.1 hr with rfl | hmem
            · dsimp only
              omega
            · -- a later range begins behind the first one
              have hgap := hgaps.1 r hmem
              have hle := le_of_mem_ranges r' (hns ▸ List.mem_cons_self)
              have hlt' : n < r'.1 := h.1 _ (mem_iff_mem_ranges.2
                ⟨r', hns ▸ List.mem_cons_self, Nat.le_refl _, hle⟩)
              dsimp only
              omega

/-- The ranges of a set cover it, and there are gaps between them. -/
theorem ranges_sort (cpus : Finset Nat) :
    (∀ c, c ∈ cpus ↔ ∃ r ∈ ranges cpus.sort, r.1 ≤ c ∧ c ≤ r.2) ∧
      (ranges cpus.sort).Pairwise fun r r' => r.2 + 1 < r'.1 := by
  refine ⟨fun c => ?_, gaps_ranges (Finset.sortedLT_sort cpus).pairwise⟩
  rw [← mem_iff_mem_ranges]
  exact (Finset.mem_sort _).symm

/-- How many numbers there are in a list of ranges. -/
def total (rs : List (Nat × Nat)) : Nat :=
  (rs.map fun r => r.2 - r.1 + 1).sum

theorem add_total_nil (ret : BitVec w) : ret + BitVec.ofNat w (total []) = ret :=
  BitVec.add_zero ret

theorem total_ranges (l : List Nat) : total (ranges l) = l.length := by
  induction l with
  | nil => rfl
  | cons n ns ih =>
      rw [List.length_cons, ← ih]
      rcases ranges_cons n ns with ⟨last, rs, hns, hcons⟩ | ⟨_, hcons⟩
      · have hle : n + 1 ≤ last := le_of_mem_ranges (n + 1, last) (hns ▸ List.mem_cons_self)
        rw [hcons, hns, total, total, List.map_cons, List.map_cons, List.sum_cons, List.sum_cons]
        dsimp only
        omega
      · rw [hcons, total, List.map_cons, List.sum_cons, ← total]
        dsimp only
        omega

/-! ## Numbers -/

theorem digit?_of_isDigit {c : UInt8} (h : isDigit c = true) :
    CharStream.digit? c = some (c.toNat - 48) := by
  have hrange : 48 ≤ c ∧ c ≤ 57 := by simpa [isDigit] using h
  exact if_pos hrange

theorem isDigit_decimal {n : Nat} : ∀ c ∈ decimal n, CharStream.isDigit 10 c = true := by
  intro c hc
  have hdigit := isDigit_of_mem_decimal hc
  have hrange : c ≤ 57 := by
    simp only [isDigit, Bool.and_eq_true, decide_eq_true_eq] at hdigit
    exact hdigit.2
  have hlt : c.toNat - 48 < 10 := by
    have hle : c.toNat ≤ 57 := UInt8.le_iff_toNat_le.1 hrange
    omega
  rw [CharStream.isDigit, digit?_of_isDigit hdigit]
  exact decide_eq_true hlt

theorem value_decimal (n : Nat) : CharStream.digitsValue 10 (decimal n) = n := by
  have hfold : ∀ (l : Str) (acc : Nat), (∀ c ∈ l, isDigit c = true) →
      l.foldl (fun value c => 10 * value + (CharStream.digit? c).getD 0) acc =
        l.foldl (fun value c => 10 * value + (c.toNat - 48)) acc := by
    intro l
    induction l with
    | nil => exact fun _ _ => rfl
    | cons c l ih =>
        intro acc hl
        rw [List.forall_mem_cons] at hl
        rw [List.foldl_cons, List.foldl_cons, digit?_of_isDigit hl.1, Option.getD_some]
        exact ih _ hl.2
  calc CharStream.digitsValue 10 (decimal n)
    _ = digitsValue (decimal n) := hfold _ 0 fun _ hc => isDigit_of_mem_decimal hc
    _ = n := digitsValue_decimal n

theorem decimal_ne_nil (n : Nat) : decimal n ≠ [] := by
  simp [decimal, Nat.toDigits_ne_nil]

/-- A number in the text is read, up to what cannot belong to it. -/
theorem unsigned_decimal {n : Nat} (hn : n < 2 ^ w) {rest : Str}
    (hstop : Stops (CharStream.numeralPart 10) rest) (passed : Str) :
    ∃ passed', CharStream.unsigned 10 w (CharStream.between passed (decimal n ++ rest)) =
      .ok (ε := Thrown) (some (BitVec.ofNat w n)) (CharStream.looked passed' rest) := by
  have hvalue : CharStream.digitsValue 10 (decimal n) < 2 ^ w := (value_decimal n).trans_lt hn
  have hread := @CharStream.unsigned_digits Thrown passed rest 10 w (decimal n) isDigit_decimal
    (decimal_ne_nil n) hstop hvalue
  rw [value_decimal] at hread
  exact ⟨_, hread⟩

/-! ## What the loop makes of a range -/

/-- Behind a range there is a comma, or there are blanks up to the end. -/
def Closes (rest : Str) : Prop :=
  rest.head? = some comma ∨ ∀ c ∈ rest, CharStream.isSpace c = true

/-- The stream behind the delimiter. -/
def behind (passed rest : Str) : CharStream :=
  if rest.head? = some comma then CharStream.between passed rest.tail else CharStream.ended passed

theorem Closes.stops {rest : Str} (h : Closes rest) : Stops (CharStream.numeralPart 10) rest := by
  intro c hc
  rcases h with hcomma | hblank
  · have hc' : c = comma := Option.some.inj (hc.symm.trans hcomma)
    subst hc'
    rfl
  · have hspace : CharStream.isSpace c = true := hblank c (List.mem_of_head? hc)
    cases hpart : CharStream.numeralPart 10 c with
    | false => rfl
    | true =>
        unfold CharStream.numeralPart at hpart
        simp only [Bool.or_eq_true, beq_iff_eq] at hpart
        rcases hpart with (hdigit | rfl) | rfl
        · rw [(CharStream.plain_of_isDigit hdigit).1] at hspace
          cases hspace
        · cases hspace
        · cases hspace

/-- The delimiter, or nothing. -/
theorem char_closes {rest : Str} (h : Closes rest) (passed : Str) :
    ∃ next passed', CharStream.char (CharStream.looked passed rest) =
        .ok (ε := Thrown) next (behind passed' rest) ∧
      (rest.head? = some comma ∧ next = some comma ∨
        rest.head? ≠ some comma ∧ next = none) := by
  by_cases hcomma : rest.head? = some comma
  · obtain ⟨tail, rfl⟩ := List.head?_eq_some_iff.1 hcomma
    refine ⟨some comma, comma :: passed, ?_, Or.inl ⟨rfl, rfl⟩⟩
    rw [behind, if_pos hcomma]
    exact CharStream.char_cons rfl
  · refine ⟨none, rest.reverse ++ passed, ?_, Or.inr ⟨hcomma, rfl⟩⟩
    rw [behind, if_neg hcomma]
    exact CharStream.formatted_looked (h.resolve_left hcomma)

section

variable {path passed rest : Str} {v : Vars w} {n1 : BitVec w} {r : Nat × Nat}

theorem get_run (s : CharStream) : (get : Reader CharStream) s = .ok s s :=
  rfl

theorem upTo_decimal {n2 : Nat} (hn2 : n2 < 2 ^ w) (hrest : Closes rest) :
    ∃ delim passed', upTo path n1 v (CharStream.between passed (decimal n2 ++ rest)) =
        .ok ⟨delim, v.ret + (BitVec.ofNat w n2 - n1)⟩ (behind passed' rest) ∧
      (rest.head? = some comma → delim = comma) := by
  obtain ⟨p1, hunsigned⟩ := unsigned_decimal hn2 hrest.stops passed
  obtain ⟨next, p2, hchar, hnext⟩ := char_closes hrest p1
  refine ⟨next.getD v.delim, p2, ?_, ?_⟩
  · rw [upTo, bind_ok hunsigned]
    exact map_ok hchar
  · intro hcomma
    rcases hnext with ⟨_, hnext⟩ | ⟨hne, _⟩
    · rw [hnext]
      rfl
    · exact absurd hcomma hne

/-- A single number. -/
theorem range_single (hrest : Closes rest) :
    ∃ delim passed', range path n1 v (CharStream.looked passed rest) =
        .ok ⟨delim, v.ret⟩ (behind passed' rest) ∧ (rest.head? = some comma → delim = comma) := by
  obtain ⟨next, p1, hchar, hnext⟩ := char_closes hrest passed
  refine ⟨next.getD v.delim, p1, ?_, ?_⟩
  · have hdash : ¬ ((behind p1 rest).fail = false ∧ next.getD v.delim = dash) := by
      rintro ⟨hfail, hdelim⟩
      rcases hnext with ⟨_, hnext⟩ | ⟨hne, _⟩
      · rw [hnext] at hdelim
        cases hdelim
      · rw [behind, if_neg hne] at hfail
        cases hfail
    rw [range, bind_ok hchar, bind_ok (get_run _), if_neg hdash]
    rfl
  · intro hcomma
    rcases hnext with ⟨_, hnext⟩ | ⟨hne, _⟩
    · rw [hnext]
      rfl
    · exact absurd hcomma hne

/-- A dash, and the number up to which the range goes. -/
theorem range_upTo {n2 : Nat} (hn2 : n2 < 2 ^ w) (hrest : Closes rest) :
    ∃ delim passed', range path n1 v (CharStream.looked passed (dash :: (decimal n2 ++ rest))) =
        .ok ⟨delim, v.ret + (BitVec.ofNat w n2 - n1)⟩ (behind passed' rest) ∧
      (rest.head? = some comma → delim = comma) := by
  have hchar : CharStream.char (CharStream.looked passed (dash :: (decimal n2 ++ rest))) =
      .ok (ε := Thrown) (some dash) (CharStream.between (dash :: passed) (decimal n2 ++ rest)) :=
    CharStream.char_cons rfl
  obtain ⟨delim, p1, hupTo, hdelim⟩ := @upTo_decimal w path (dash :: passed) rest
    ⟨dash, v.ret⟩ n1 n2 hn2 hrest
  refine ⟨delim, p1, ?_, hdelim⟩
  have hdash : (CharStream.between (dash :: passed) (decimal n2 ++ rest)).fail = false ∧
      (some dash).getD v.delim = dash := ⟨rfl, rfl⟩
  rw [range, bind_ok hchar, bind_ok (get_run _), if_pos hdash]
  exact hupTo

/-- Behind a range, the number of its elements has been added. -/
theorem body_run {s : CharStream} {delim : UInt8} {passed' : Str} {ret : BitVec w}
    (h : range path n1 v s = .ok ⟨delim, ret⟩ (behind passed' rest))
    (hdelim : rest.head? = some comma → delim = comma) :
    body path n1 v s = .ok ⟨delim, ret + 1⟩ (behind passed' rest) := by
  have hcheck : ¬ ((behind passed' rest).eofbit = false ∧ delim ≠ comma) := by
    rintro ⟨heof, hne⟩
    by_cases hcomma : rest.head? = some comma
    · exact hne (hdelim hcomma)
    · rw [behind, if_neg hcomma] at heof
      cases heof
  rw [body, bind_ok h, bind_ok (get_run _), if_neg hcheck]
  rfl

theorem pass_rangeText (hle : r.1 ≤ r.2) (hfits : r.2 < 2 ^ w) (hrest : Closes rest) :
    ∃ delim passed', pass path v (CharStream.between passed (rangeText r ++ rest)) =
      .ok (.next ⟨delim, v.ret + BitVec.ofNat w (r.2 - r.1 + 1)⟩) (behind passed' rest) := by
  have hfits1 : r.1 < 2 ^ w := hle.trans_lt hfits
  unfold rangeText
  split_ifs with heq
  · obtain ⟨p1, hunsigned⟩ := unsigned_decimal hfits1 hrest.stops passed
    obtain ⟨delim, p2, hrange, hdelim⟩ := @range_single w path p1 rest v (BitVec.ofNat w r.1) hrest
    refine ⟨delim, p2, ?_⟩
    rw [pass, bind_ok hunsigned, ← heq, Nat.sub_self, Nat.zero_add]
    exact map_ok (body_run hrange hdelim)
  · have hstop : Stops (CharStream.numeralPart 10) (dash :: (decimal r.2 ++ rest)) :=
      stops_cons.2 rfl
    obtain ⟨p1, hunsigned⟩ := unsigned_decimal hfits1 hstop passed
    obtain ⟨delim, p2, hrange, hdelim⟩ := @range_upTo w path p1 rest v (BitVec.ofNat w r.1) r.2
      hfits hrest
    refine ⟨delim, p2, ?_⟩
    rw [List.append_assoc, List.cons_append, pass, bind_ok hunsigned]
    refine (map_ok (body_run hrange hdelim)).trans ?_
    rw [BitVec.ofNat_sub_ofNat_of_le _ _ hfits1 hle, BitVec.add_assoc, BitVec.ofNat_add]
    rfl

/-! ## The list -/

/-- No number is left. -/
theorem pass_end {text : Str} (hblank : ∀ c ∈ text, CharStream.isSpace c = true) :
    pass path v (CharStream.between passed text) =
      .ok (.done v) (CharStream.ended (text.reverse ++ passed)) := by
  rw [pass, bind_ok (CharStream.unsigned_blanks hblank)]
  rfl

theorem pass_ended :
    pass path v (CharStream.ended passed) = .ok (.done v) (CharStream.ended passed) := by
  rw [pass, bind_ok CharStream.unsigned_ended]
  rfl

theorem closes_end (terminated : Bool) :
    (if terminated then [newline] else []).head? ≠ some comma ∧
      ∀ c ∈ (if terminated then [newline] else [] : Str), CharStream.isSpace c = true := by
  cases terminated with
  | false => exact ⟨nofun, fun _ h => absurd h List.not_mem_nil⟩
  | true =>
      refine ⟨by decide, fun c hc => ?_⟩
      rw [if_pos rfl, List.mem_singleton] at hc
      rw [hc]
      rfl

/-- The loop adds up what is in the ranges, and comes to the end of the file. -/
theorem run_listText (terminated : Bool) {rs : List (Nat × Nat)}
    (hrs : ∀ r ∈ rs, r.1 ≤ r.2 ∧ r.2 < 2 ^ w) : ∀ (passed : Str) (v : Vars w),
      ∃ delim passed', (elements path).run v (CharStream.between passed (listText rs terminated)) =
        .ok ⟨delim, v.ret + BitVec.ofNat w (total rs)⟩ (CharStream.ended passed') := by
  have hend := closes_end terminated
  induction rs with
  | nil =>
      intro passed v
      have hleave := (elements path).run_done (@pass_end w path passed v _ hend.2)
      rw [add_total_nil]
      exact ⟨v.delim, _, hleave⟩
  | cons r rs ih =>
      intro passed v
      rw [List.forall_mem_cons] at hrs
      obtain ⟨hle, hfits⟩ := hrs.1
      have htotal : total (r :: rs) = r.2 - r.1 + 1 + total rs := List.sum_cons
      rw [htotal, BitVec.ofNat_add, ← BitVec.add_assoc]
      cases rs with
      | nil =>
          -- this is the last range
          obtain ⟨delim, p1, hpass⟩ := @pass_rangeText w path passed _ v r hle hfits
            (Or.inr hend.2)
          rw [behind, if_neg hend.1] at hpass
          rw [listText_singleton, add_total_nil, (elements path).run_next hpass]
          exact ⟨delim, p1, (elements path).run_done pass_ended⟩
      | cons r' rs =>
          obtain ⟨delim, p1, hpass⟩ := @pass_rangeText w path passed
            (comma :: listText (r' :: rs) terminated) v r hle hfits (Or.inl rfl)
          rw [behind, if_pos List.head?_cons, List.tail_cons] at hpass
          obtain ⟨delim', p2, hrun⟩ := ih hrs.2 p1
            ⟨delim, v.ret + BitVec.ofNat w (r.2 - r.1 + 1)⟩
          refine ⟨delim', p2, ?_⟩
          rw [listText_cons_cons, (elements path).run_next hpass]
          exact hrun

end

/-- The list of a set of processors is counted right, with or without a newline behind it. -/
theorem count_cpulist (w : Nat) (m_cpudir name : Str) (delim : UInt8) (cpus : Finset Nat)
    (terminated : Bool) (hfits : ∀ cpu ∈ cpus, cpu < 2 ^ w) (hcard : cpus.card < 2 ^ w) :
    ∃ n : BitVec w, count w m_cpudir name (.ok (cpulist cpus terminated)) delim = .ok n ∧
      n.toNat = cpus.card := by
  have hranges : ∀ r ∈ ranges cpus.sort, r.1 ≤ r.2 ∧ r.2 < 2 ^ w := by
    intro r hr
    have hle := le_of_mem_ranges r hr
    exact ⟨hle, hfits r.2 (((ranges_sort cpus).1 r.2).2 ⟨r, hr, hle, Nat.le_refl _⟩)⟩
  obtain ⟨delim', p1, hrun⟩ := @run_listText w (Path.appendPath m_cpudir name) terminated
    (ranges cpus.sort) hranges [] ⟨delim, 0⟩
  rw [total_ranges, Finset.length_sort] at hrun
  refine ⟨BitVec.ofNat w cpus.card, ?_, ?_⟩
  · have hcounted : counted (Path.appendPath m_cpudir name) ⟨delim, 0⟩
        (CharStream.between [] (cpulist cpus terminated)) =
        .ok ((0 : BitVec w) + BitVec.ofNat w cpus.card) (CharStream.ended p1) := by
      rw [counted, cpulist, bind_ok hrun, bind_ok (get_run _)]
      rfl
    have houtcome := congrArg CharStream.outcome hcounted
    have hzero : (0 : BitVec w) + BitVec.ofNat w cpus.card = BitVec.ofNat w cpus.card :=
      BitVec.zero_add _
    rwa [hzero] at houtcome
  · exact Nat.mod_eq_of_lt hcard

theorem count_cpulist_four : ∃ n : BitVec 64,
    count 64 (str "/sys/devices/system/cpu") (str "online") (.ok (cpulist {0, 1, 2, 7} true)) 0 =
      .ok n ∧ n.toNat = Finset.card {0, 1, 2, 7} :=
  count_cpulist 64 _ _ 0 {0, 1, 2, 7} true (by decide) (by decide)

end SystemCPU

end Calibrate
end Kdump

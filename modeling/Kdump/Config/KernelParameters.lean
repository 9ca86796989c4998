import Kdump.Config.KernelPasses
import Kdump.Config.RoundTrip

/-!
# KernelParameters — the parameters of a kernel command line

`parse` keeps its local variables from one parameter to the next.  This file says when a parameter
has an influence on how others are read, and when the end of the file has.

* `parameters` — the text between the white space outside quotes;
* `Stuck` — a name that is empty and complete: no pass gets away from it;
* `eval_closed` — reading on behind a separator;
* `eval_short` — what the end of the file does to the last parameter.
-/

namespace Kdump
namespace Config

open Lib

namespace KernelConfigParser

/-! ## Texts -/

/-- The text between separators, where `p` is what there is of the first parameter. -/
def parameters (inquote : Bool) (p : Str) : Str → List Str
  | [] => [p]
  | c :: t =>
      if c = dquote then parameters (!inquote) (p ++ [c]) t
      else if isSeparator inquote c then p :: parameters inquote [] t
      else parameters inquote (p ++ [c]) t

def lastParameter (t : Str) : Str :=
  (parameters false [] t).getLast?.getD []

def Balanced (t : Str) : Prop :=
  quoteAfter false t = false

/-- What comes first in a parameter, apart from quotes. -/
def firstByte (p : Str) : Option UInt8 :=
  p.find? (· ≠ dquote)

/-- A parameter with an empty name. -/
def EmptyName (p : Str) : Prop :=
  firstByte p = some eqSign

instance (p : Str) : Decidable (EmptyName p) :=
  inferInstanceAs (Decidable (_ = _))

/-- A parameter whose name has bytes. -/
def HasName (p : Str) : Prop :=
  ∃ c, firstByte p = some c ∧ c ≠ eqSign

/-- Whether an empty name is completed in a text, where `fresh` says that nothing has been read of
the first parameter. -/
def EmptyAhead : Bool → Bool → Str → Prop
  | _, _, [] => False
  | inquote, fresh, c :: t =>
      if c = dquote then EmptyAhead (!inquote) fresh t
      else if isSeparator inquote c then EmptyAhead inquote true t
      else (fresh = true ∧ c = eqSign) ∨ EmptyAhead inquote false t

theorem firstByte_append (p : Str) (c : UInt8) :
    firstByte (p ++ [c]) = (firstByte p).or (if c = dquote then none else some c) := by
  rw [firstByte, List.find?_append, firstByte]
  congr 1
  by_cases hc : c = dquote
  · rw [if_pos hc, hc]
    rfl
  · rw [if_neg hc, List.find?_cons_of_pos (by simpa using hc)]

/-- The scan finds the parameters with an empty name. -/
theorem emptyAhead_iff {t : Str} : ∀ {q : Bool} {p : Str},
    (∃ p' ∈ parameters q p t, EmptyName p') ↔
      EmptyName p ∨ EmptyAhead q (firstByte p).isNone t := by
  induction t with
  | nil =>
      intro q p
      simp only [parameters, List.mem_singleton, exists_eq_left, EmptyAhead, or_false]
  | cons c t ih =>
      intro q p
      unfold parameters EmptyAhead
      by_cases hdquote : c = dquote
      · -- a quote is not a first byte
        have hfirst : firstByte (p ++ [c]) = firstByte p := by
          rw [firstByte_append, if_pos hdquote, Option.or_none]
        rw [if_pos hdquote, if_pos hdquote, ih, EmptyName, hfirst, EmptyName]
      rw [if_neg hdquote, if_neg hdquote]
      by_cases hsep : isSeparator q c = true
      · -- the parameter ends, and an empty one begins
        have hnil : ¬ EmptyName [] := nofun
        rw [if_pos hsep, if_pos hsep]
        simp only [List.mem_cons, exists_eq_or_imp, ih, hnil, false_or]
        rfl
      · -- this is the first byte, unless there has been one
        rw [if_neg hsep, if_neg hsep, ih, EmptyName, firstByte_append, if_neg hdquote]
        unfold EmptyName
        cases firstByte p with
        | none => simp only [Option.none_or, Option.some.injEq, Option.isNone_some,
            Option.isNone_none, reduceCtorEq, false_or, true_and]
        | some c' => simp only [Option.some_or, Option.some.injEq, Option.isNone_some,
            Bool.false_eq_true, false_and, false_or]

namespace Locals

variable {s : Locals}

/-! ## Empty names -/

/-- An empty name to which nothing will be appended. -/
def Stuck (s : Locals) : Prop :=
  s.name = [] ∧ s.outp = .value

/-- Nothing of a parameter has been read, apart from quotes. -/
def Fresh (s : Locals) : Prop :=
  s.name = [] ∧ s.outp = .name

theorem append_of_name (houtp : s.outp = .name) (cs : Str) :
    s.append cs = { s with name := s.name ++ cs } := by
  simp only [append, houtp]

theorem append_of_value (houtp : s.outp = .value) (cs : Str) :
    s.append cs = { s with value := s.value ++ cs } := by
  simp only [append, houtp]

/-- Nothing is appended to an empty name that is complete. -/
theorem append_stuck (hs : Stuck s) (cs : Str) :
    Stuck (s.append cs) ∧ (s.append cs).m_variables = s.m_variables := by
  rw [append_of_value hs.2]
  exact ⟨hs, rfl⟩

theorem Appends.stuck {s' : Locals} (h : Appends s s') (hs : Stuck s) :
    Stuck s' ∧ s'.m_variables = s.m_variables := by
  rcases h with ⟨taken, left, cs, _, _, rfl, _⟩
  exact append_stuck (s := { s with fin := left }) hs cs

/-- No pass gets away from an empty name that is complete, not even at the end of the file. -/
theorem step_stuck {s' : Locals} (hs : Stuck s) (h : step s = .next s') :
    Stuck s' ∧ s'.m_variables = s.m_variables := by
  cases hfin : s.fin with
  | nil =>
      simp only [step, hfin] at h
      cases h
  | cons x rest =>
      simp only [step, hfin, hs.1, List.isEmpty_nil, if_true] at h
      split_ifs at h with hdquote hassign hend hbslash
      · cases h
        exact ⟨⟨rfl, hs.2⟩, rfl⟩
      · exact absurd (hassign.2.symm.trans hs.2) (by decide)
      · cases h
        exact ⟨⟨rfl, hs.2⟩, rfl⟩
      · cases h
        exact (escape_appends { s with fin := rest, name := [] }).stuck ⟨rfl, hs.2⟩
      · cases h
        exact append_stuck (s := { s with fin := rest, name := [] }) ⟨rfl, hs.2⟩ [x]

/-- From there on, the variables stay as they are. -/
theorem eval_stuck (hs : Stuck s) : loop.eval s = s.m_variables := by
  rcases Loop.exists_last (L := loop) s with ⟨t, hreach, hdone⟩
  have ht : Stuck t ∧ t.m_variables = s.m_variables := by
    apply hreach.invariant (I := fun t => Stuck t ∧ t.m_variables = s.m_variables) ⟨hs, rfl⟩
    intro t t' hI hnext
    rcases step_stuck hI.1 hnext with ⟨hstuck, hvars⟩
    exact ⟨hstuck, hvars.trans hI.2⟩
  rw [← ht.2]
  cases hfin : t.fin with
  | nil =>
      simp only [loop, step, hfin] at hdone
      exact (Step.done.inj hdone).symm
  | cons x rest =>
      simp only [loop, step, hfin] at hdone
      split_ifs at hdone

theorem emptyAhead_content {q : Bool} {taken : Str} (left : Str)
    (h : ∀ y ∈ taken, y ≠ dquote ∧ isSeparator q y = false) :
    EmptyAhead q false (taken ++ left) ↔ EmptyAhead q false left := by
  induction taken with
  | nil => rfl
  | cons y taken ih =>
      rw [List.forall_mem_cons] at h
      rw [List.cons_append, EmptyAhead, if_neg h.1.1, h.1.2]
      simp only [Bool.false_eq_true, if_false, false_and, false_or, ih h.2]

/-- The name is empty and complete, or it will be. -/
def StuckAhead (s : Locals) : Prop :=
  Stuck s ∨ EmptyAhead s.inquote s.name.isEmpty s.fin

theorem stuckAhead_fresh (h : Fresh s) : StuckAhead s ↔ EmptyAhead s.inquote true s.fin := by
  have hstuck : ¬ Stuck s := fun hs => absurd (h.2.symm.trans hs.2) (by decide)
  simp only [StuckAhead, hstuck, h.1, List.isEmpty_nil, false_or]

theorem stuckAhead_named (h : s.name ≠ []) : StuckAhead s ↔ EmptyAhead s.inquote false s.fin := by
  have hstuck : ¬ Stuck s := fun hs => h hs.1
  simp only [StuckAhead, hstuck, List.isEmpty_eq_false_iff.2 h, false_or]

theorem stuck_pass (hfin : s.fin ≠ []) (h : Stuck s) : Stuck s.pass := by
  cases hs : s.fin with
  | nil => exact absurd hs hfin
  | cons x rest =>
      cases s.byte_cases x with
      | quote =>
          rw [pass_quote hs]
          exact h
      | assign houtp => exact absurd (houtp.symm.trans h.2) (by decide)
      | separator hsep =>
          rw [pass_separator hs hsep, if_pos h.1]
          exact h
      | content hx =>
          exact ((pass_content hs hx).stuck (s := { s with fin := rest }) h).1

theorem outp_cases (s : Locals) : s.outp = .name ∨ s.outp = .value := by
  cases s.outp with
  | name => exact .inl rfl
  | value => exact .inr rfl

theorem append_named (hs : ¬ Stuck s) {cs : Str} (hcs : cs ≠ []) : (s.append cs).name ≠ [] := by
  rcases s.outp_cases with houtp | houtp
  · rw [append_of_name houtp]
    exact List.append_ne_nil_of_right_ne_nil _ hcs
  · rw [append_of_value houtp]
    exact fun hname => hs ⟨hname, houtp⟩

/-- Behind content, the name is not empty unless it has been complete before. -/
theorem Appends.named {s' : Locals} (h : Appends s s') (hs : ¬ Stuck s) : s'.name ≠ [] := by
  rcases h with ⟨taken, left, cs, _, hcs, rfl, _⟩
  exact append_named (s := { s with fin := left }) hs hcs

theorem Appends.emptyAhead {s' : Locals} (h : Appends s s') :
    EmptyAhead s'.inquote false s'.fin ↔ EmptyAhead s.inquote false s.fin := by
  rcases h with ⟨taken, left, cs, hfin, _, rfl, hcontent⟩
  rw [append_fin, append_inquote, hfin,
    emptyAhead_content left fun y hy => ⟨(hcontent y hy).1, (hcontent y hy).2.2⟩]

theorem pass_stuckAhead (hfin : s.fin ≠ []) : StuckAhead s.pass ↔ StuckAhead s := by
  by_cases hstuck : Stuck s
  · exact iff_of_true (.inl (stuck_pass hfin hstuck)) (.inl hstuck)
  -- without a name, it is the name that is read
  have houtp : s.name = [] → s.outp = .name := by
    intro hname
    rcases s.outp_cases with houtp | houtp
    · exact houtp
    · exact absurd ⟨hname, houtp⟩ hstuck
  cases hs : s.fin with
  | nil => exact absurd hs hfin
  | cons x rest =>
      cases s.byte_cases x with
      | quote =>
          rw [pass_quote hs]
          unfold StuckAhead
          rw [hs, EmptyAhead, if_pos rfl]
          rfl
      | assign houtp =>
          have hne : eqSign ≠ dquote := by decide
          have hsep : ¬ isSeparator s.inquote eqSign = true := Bool.not_eq_true _ ▸ rfl
          rw [pass_assign hs houtp]
          by_cases hname : s.name = []
          · -- the name is complete
            rw [stuckAhead_fresh ⟨hname, houtp⟩, hs, EmptyAhead, if_neg hne, if_neg hsep]
            exact iff_of_true (.inl ⟨hname, rfl⟩) (.inl ⟨rfl, rfl⟩)
          · have hpass := stuckAhead_named (s := { s with fin := rest, outp := .value }) hname
            rw [hpass, stuckAhead_named hname, hs, EmptyAhead, if_neg hne, if_neg hsep]
            simp only [Bool.false_eq_true, false_and, false_or]
      | separator hsep =>
          have hdquote := (kernel_space_plain (isSeparator_plain hsep).1).2.2.1
          have hahead : ∀ fresh,
              EmptyAhead s.inquote fresh s.fin ↔ EmptyAhead s.inquote true rest := by
            intro fresh
            rw [hs, EmptyAhead, if_neg hdquote, if_pos hsep]
          rw [pass_separator hs hsep]
          by_cases hname : s.name = []
          · have hpass := stuckAhead_fresh (s := { s with fin := rest }) ⟨hname, houtp hname⟩
            rw [if_pos hname, hpass, stuckAhead_fresh ⟨hname, houtp hname⟩, hahead]
          · rw [if_neg hname, stuckAhead_fresh ⟨rfl, rfl⟩, stuckAhead_named hname, hahead]
      | content hx =>
          have happends := pass_content hs hx
          -- what is appended belongs to this parameter, which has a name now
          rw [stuckAhead_named (happends.named hstuck), happends.emptyAhead]
          by_cases hname : s.name = []
          · have hx' : x ≠ eqSign := fun h => hx.2.1 ⟨h, houtp hname⟩
            rw [stuckAhead_fresh ⟨hname, houtp hname⟩, hs, EmptyAhead, if_neg hx.1, hx.2.2]
            simp only [Bool.false_eq_true, if_false, hx', and_false, false_or]
          · rw [stuckAhead_named hname, hs, EmptyAhead, if_neg hx.1, hx.2.2]
            simp only [Bool.false_eq_true, if_false, false_and, false_or]

theorem reads_stuckAhead (s : Locals) : StuckAhead s.reads ↔ StuckAhead s := by
  have hreads := reads_invariant (s := s) (I := fun t => StuckAhead t ↔ StuckAhead s) Iff.rfl
    fun t hfin ht => (pass_stuckAhead hfin).trans ht
  exact hreads.1

/-- There is no value before the name is complete. -/
def ValueAfterName (s : Locals) : Prop :=
  s.outp = .name → s.value = []

theorem append_valueAfterName (h : ValueAfterName s) (cs : Str) : ValueAfterName (s.append cs) := by
  rcases s.outp_cases with houtp | houtp
  · rw [append_of_name houtp]
    exact h
  · rw [append_of_value houtp]
    exact fun hname => absurd (houtp.symm.trans hname) (by decide)

theorem pass_valueAfterName (hfin : s.fin ≠ []) (h : ValueAfterName s) :
    ValueAfterName s.pass := by
  cases hs : s.fin with
  | nil => exact absurd hs hfin
  | cons x rest =>
      cases s.byte_cases x with
      | quote =>
          rw [pass_quote hs]
          exact h
      | assign houtp =>
          rw [pass_assign hs houtp]
          exact nofun
      | separator hsep =>
          rw [pass_separator hs hsep]
          split
          · exact h
          · exact fun _ => rfl
      | content hx =>
          rcases pass_content hs hx with ⟨taken, left, cs, _, _, hpass, _⟩
          rw [hpass]
          exact append_valueAfterName (s := { s with fin := left }) h cs

theorem reads_valueAfterName (h : ValueAfterName s) : ValueAfterName s.reads :=
  (reads_invariant h fun _ => pass_valueAfterName).1

/-! ## Texts that end in a separator -/

theorem reads_fin (s : Locals) : s.reads.fin = [] :=
  (reads_invariant (s := s) (I := fun _ => True) trivial fun _ _ h => h).2

/-- The pass that takes a separator behind a text. -/
theorem pass_last {c : UInt8} (hsep : isSeparator s.reads.inquote c = true) (w : Str) :
    (s.reads.followedBy (c :: w)).pass =
      if s.reads.name = [] then { s.reads with fin := w }
      else ⟨w, [], [], .name, s.reads.inquote,
        s.reads.m_variables.insert s.reads.name s.reads.value⟩ := by
  have hlast : (s.reads.followedBy (c :: w)).fin = c :: w := by
    rw [followedBy_fin, reads_fin, List.nil_append]
  exact pass_separator hlast hsep

theorem reads_closed {c : UInt8} (hsep : isSeparator s.reads.inquote c = true) :
    (s.followedBy [c]).reads = (s.reads.followedBy [c]).pass := by
  have hne : (s.reads.followedBy [c]).fin ≠ [] :=
    List.append_ne_nil_of_right_ne_nil _ (List.cons_ne_nil _ _)
  have hfin : (s.reads.followedBy [c]).pass.fin = [] := by
    rw [pass_last hsep]
    split <;> rfl
  rw [reads_followedBy (isSeparator_plain hsep).1, reads_pass hne, reads_nil hfin]

/-- Behind a separator, reading goes on with what the text has left. -/
theorem eval_closed {c : UInt8} (hsep : isSeparator s.reads.inquote c = true) (w : Str) :
    loop.eval (s.followedBy (c :: w)) = loop.eval ((s.followedBy [c]).reads.followedBy w) := by
  have hlast : (s.reads.followedBy (c :: w)).fin = c :: w := by
    rw [followedBy_fin, reads_fin, List.nil_append]
  have hpass : (s.reads.followedBy (c :: w)).pass =
      (s.reads.followedBy [c]).pass.followedBy w := by
    rw [pass_last hsep, pass_last hsep]
    split <;> rfl
  have hcontent : Content (s.reads.followedBy (c :: w)) c → w ≠ [] :=
    fun h => absurd (h.2.2.symm.trans hsep) Bool.false_ne_true
  rw [eval_followedBy (isSeparator_plain hsep).1, eval_pass hlast hcontent, hpass,
    reads_closed hsep]

/-- A separator leaves no name. -/
theorem reads_closed_name {c : UInt8} (hsep : isSeparator s.reads.inquote c = true) :
    (s.followedBy [c]).reads.name = [] ∧ (s.followedBy [c]).reads.inquote = false := by
  rw [reads_closed hsep, pass_last hsep]
  split
  · rename_i hname
    exact ⟨hname, (isSeparator_plain hsep).2⟩
  · exact ⟨rfl, (isSeparator_plain hsep).2⟩

/-- Behind a separator the parser is as at the start, unless it is stuck. -/
theorem reads_closed_eq {c : UInt8} (hsep : isSeparator s.reads.inquote c = true)
    (hvalue : ValueAfterName s) (hstuck : ¬ Stuck (s.followedBy [c]).reads) (w : Str) :
    (s.followedBy [c]).reads.followedBy w = start w (s.followedBy [c]).reads.m_variables := by
  rcases reads_closed_name hsep with ⟨hname, hinquote⟩
  have houtp : (s.followedBy [c]).reads.outp = .name := by
    rcases outp_cases (s.followedBy [c]).reads with houtp | houtp
    · exact houtp
    · exact absurd ⟨hname, houtp⟩ hstuck
  have hval := reads_valueAfterName (s := s.followedBy [c]) hvalue houtp
  have hfin := reads_fin (s.followedBy [c])
  generalize (s.followedBy [c]).reads = r at hname hinquote houtp hval hfin
  cases r
  simp only at hname hinquote houtp hval hfin
  subst hname hinquote houtp hval hfin
  rfl

/-! ## The last parameter -/

/-- There is no separator in the text. -/
def Unseparated : Bool → Str → Prop
  | _, [] => True
  | inquote, c :: t =>
      isSeparator inquote c = false ∧ Unseparated (if c = dquote then !inquote else inquote) t

theorem unseparated_append {q : Bool} {taken left : Str} (h : Unseparated q (taken ++ left)) :
    Unseparated (quoteAfter q taken) left := by
  induction taken generalizing q with
  | nil => exact h
  | cons c taken ih => exact ih h.2

/-- The bytes that have been gathered of a parameter. -/
def size (s : Locals) : Nat :=
  s.name.length + s.value.length

theorem append_size (cs : Str) : (s.append cs).size = s.size + cs.length := by
  rcases s.outp_cases with houtp | houtp
  · simp only [append_of_name houtp, size, List.length_append]
    omega
  · simp only [append_of_value houtp, size, List.length_append]
    omega

theorem append_m_variables (cs : Str) : (s.append cs).m_variables = s.m_variables := by
  unfold append
  split <;> rfl

theorem Appends.size_lt {s' : Locals} (h : Appends s s') : s.size < s'.size := by
  rcases h with ⟨taken, left, cs, _, hcs, rfl, _⟩
  rw [append_size]
  exact Nat.lt_add_of_pos_right (List.length_pos_iff.2 hcs)

theorem Appends.m_variables {s' : Locals} (h : Appends s s') : s'.m_variables = s.m_variables := by
  rcases h with ⟨taken, left, cs, _, _, rfl, _⟩
  exact append_m_variables cs

theorem Appends.unseparated {s' : Locals} (h : Appends s s') (hs : Unseparated s.inquote s.fin) :
    Unseparated s'.inquote s'.fin := by
  rcases h with ⟨taken, left, cs, hfin, _, rfl, hcontent⟩
  rw [hfin] at hs
  have hleft := unseparated_append hs
  rw [quoteAfter_plain fun y hy => (hcontent y hy).1] at hleft
  rwa [append_fin, append_inquote]

theorem pass_unseparated (hfin : s.fin ≠ []) (h : Unseparated s.inquote s.fin) :
    Unseparated s.pass.inquote s.pass.fin ∧ s.pass.m_variables = s.m_variables := by
  cases hs : s.fin with
  | nil => exact absurd hs hfin
  | cons x rest =>
      rw [hs, Unseparated] at h
      cases s.byte_cases x with
      | quote =>
          rw [pass_quote hs]
          exact ⟨h.2, rfl⟩
      | assign houtp =>
          rw [pass_assign hs houtp]
          exact ⟨h.2, rfl⟩
      | separator hsep => exact absurd (h.1.symm.trans hsep) Bool.false_ne_true
      | content hx =>
          rw [if_neg hx.1] at h
          have happends := pass_content hs hx
          exact ⟨happends.unseparated h.2, happends.m_variables⟩

/-- While one parameter with a name is read, the variables stay as they are. -/
structure Naming (m : StringStringMap) (s : Locals) : Prop where
  unseparated : Unseparated s.inquote s.fin
  unchanged : s.m_variables = m
  named : s.name ≠ [] ∨ Fresh s ∧ HasName s.fin

namespace Naming

variable {m : StringStringMap}

theorem not_stuck (h : Naming m s) : ¬ Stuck s := by
  intro hs
  rcases h.named with hname | ⟨hfresh, _⟩
  · exact hname hs.1
  · exact absurd (hfresh.2.symm.trans hs.2) (by decide)

theorem pass (hfin : s.fin ≠ []) (h : Naming m s) : Naming m s.pass := by
  rcases pass_unseparated hfin h.unseparated with ⟨hunsep, hvars⟩
  refine ⟨hunsep, hvars.trans h.unchanged, ?_⟩
  have hnamed := h.named
  cases hs : s.fin with
  | nil => exact absurd hs hfin
  | cons x rest =>
      rw [hs] at hnamed
      cases s.byte_cases x with
      | quote =>
          rw [pass_quote hs]
          exact hnamed
      | assign houtp =>
          rw [pass_assign hs houtp]
          refine .inl (hnamed.resolve_right ?_)
          rintro ⟨_, c, hc, hne⟩
          exact hne (Option.some.inj hc).symm
      | separator hsep =>
          have hunsep := h.unseparated
          rw [hs, Unseparated] at hunsep
          exact absurd (hunsep.1.symm.trans hsep) Bool.false_ne_true
      | content hx =>
          have happends := pass_content hs hx
          exact .inl (happends.named (s := { s with fin := rest }) h.not_stuck)

theorem reads (h : Naming m s) : Naming m s.reads :=
  (reads_invariant h fun _ => pass).1

theorem reads_name (h : Naming m s) : s.reads.name ≠ [] := by
  rcases h.reads.named with hname | ⟨_, c, hc, _⟩
  · exact hname
  · rw [reads_fin] at hc
    cases hc

end Naming

theorem eval_nil (hfin : s.fin = []) : loop.eval s = s.m_variables := by
  apply loop.eval_done
  simp only [loop, step, hfin]

/-- Content at the end of the file completes a parameter, but is not appended to it. -/
theorem eval_last {x : UInt8} (hfin : s.fin = [x]) (hx : Content s x) :
    loop.eval s = if s.name = [] then s.m_variables else s.m_variables.insert s.name s.value := by
  by_cases hname : s.name = []
  · have hstep : loop.step s = .next { s with fin := [] } := by
      simp only [loop, step, hfin, if_neg hx.1, if_neg hx.2.1, List.isEmpty_nil, Bool.or_true,
        if_true, hname]
    rw [if_pos hname, loop.eval_next hstep, eval_nil rfl]
  · have hstep : loop.step s =
        .next ⟨[], [], [], .name, s.inquote, s.m_variables.insert s.name s.value⟩ := by
      simp only [loop, step, hfin, if_neg hx.1, if_neg hx.2.1, List.isEmpty_nil, Bool.or_true,
        if_true, List.isEmpty_eq_false_iff.2 hname, Bool.false_eq_true, if_false]
    rw [if_neg hname, loop.eval_next hstep, eval_nil rfl]

/-- At the end of the file, the last parameter is not stored, or it is not stored as it is. -/
theorem eval_short : ∀ {n : Nat} {s : Locals}, s.fin.length ≤ n → Unseparated s.inquote s.fin →
    loop.eval s = s.m_variables ∨ ∃ name value, loop.eval s = s.m_variables.insert name value ∧
      name.length + value.length < s.reads.size := by
  intro n
  induction n with
  | zero =>
      intro s hlen _
      exact .inl (eval_nil (List.eq_nil_of_length_eq_zero (Nat.le_zero.1 hlen)))
  | succ n ih =>
      intro s hlen hunsep
      by_cases hfin : s.fin = []
      · exact .inl (eval_nil hfin)
      cases hs : s.fin with
      | nil => exact absurd hs hfin
      | cons x rest =>
          -- only the last byte of the file is not appended, if it is content
          by_cases hlast : Content s x ∧ rest = []
          · rcases hlast with ⟨hx, rfl⟩
            have happends := pass_content hs hx
            have hpass : s.pass.fin = [] := by
              have hlt := pass_fin_lt hfin
              rw [hs] at hlt
              exact List.eq_nil_of_length_eq_zero (Nat.lt_one_iff.1 hlt)
            rw [eval_last hs hx]
            split
            · exact .inl rfl
            · refine .inr ⟨s.name, s.value, rfl, ?_⟩
              rw [reads_pass hfin, reads_nil hpass]
              exact happends.size_lt
          · -- this is not the last pass, or it appends nothing
            have hrest : Content s x → rest ≠ [] := fun hx hnil => hlast ⟨hx, hnil⟩
            have hle : s.pass.fin.length ≤ n :=
              Nat.le_of_lt_succ ((pass_fin_lt hfin).trans_le hlen)
            rcases pass_unseparated hfin hunsep with ⟨hunsep', hvars⟩
            rw [eval_pass hs hrest, ← hvars, reads_pass hfin]
            exact ih hle hunsep'

end Locals

open Locals

/-! ## One parameter behind another -/

/-- A text that ends in white space outside quotes. -/
def Closed (t : Str) : Prop :=
  ∃ u c, t = u ++ [c] ∧ is_kernel_space c = true ∧ Balanced u

/-- White space that ends a text is no part of a parameter. -/
theorem isSeparator_behind {u : Str} {c : UInt8} (hc : is_kernel_space c = true) (hbal : Balanced u)
    (m : StringStringMap) : isSeparator (start u m).reads.inquote c = true := by
  have hinquote : (start u m).reads.inquote = false := (reads_inquote _).trans hbal
  rw [isSeparator, hc, hinquote]
  rfl

/-- What the passes leave behind a closed text. -/
theorem eval_behind {t : Str} (ht : Closed t) (m : StringStringMap) (w : Str) :
    loop.eval (start (t ++ w) m) = loop.eval ((start t m).reads.followedBy w) := by
  rcases ht with ⟨u, c, rfl, hc, hbal⟩
  rw [List.append_assoc]
  exact eval_closed (isSeparator_behind hc hbal m) w

theorem followedBy_behind {t : Str} (ht : Closed t) {m : StringStringMap}
    (hstuck : ¬ Stuck (start t m).reads) (w : Str) :
    (start t m).reads.followedBy w = start w (start t m).reads.m_variables := by
  rcases ht with ⟨u, c, rfl, hc, hbal⟩
  exact reads_closed_eq (s := start u m) (isSeparator_behind hc hbal m) (fun _ => rfl) hstuck w

theorem stuck_behind_iff (t : Str) (m : StringStringMap) :
    Stuck (start t m).reads ↔ ∃ p ∈ parameters false [] t, EmptyName p := by
  have hahead : StuckAhead (start t m).reads ↔ Stuck (start t m).reads := by
    rw [StuckAhead, reads_fin, EmptyAhead, or_false]
  have hnil : ¬ EmptyName [] := nofun
  rw [← hahead, reads_stuckAhead, stuckAhead_fresh ⟨rfl, rfl⟩, emptyAhead_iff]
  simp only [hnil, false_or]
  rfl

/-- A parameter with an empty name lets no later one be read. -/
theorem parse_behind_empty {t : Str} (ht : Closed t) {p : Str} (hp : p ∈ parameters false [] t)
    (hempty : EmptyName p) (name w : Str) (m : StringStringMap) :
    parse ⟨name, .ok (t ++ w)⟩ m = parse ⟨name, .ok t⟩ m := by
  have hstuck : Stuck (start t m).reads := (stuck_behind_iff t m).2 ⟨p, hp, hempty⟩
  have hboth : ∀ w, loop.eval (start (t ++ w) m) = (start t m).reads.m_variables := by
    intro w
    rw [eval_behind ht]
    exact eval_stuck (s := (start t m).reads.followedBy w) hstuck
  have hnil := hboth []
  rw [List.append_nil] at hnil
  simp only [parse, hboth w, hnil]

theorem parse_behind {t : Str} (ht : Closed t)
    (hname : ∀ p ∈ parameters false [] t, ¬ EmptyName p) (m : StringStringMap) :
    ∃ m1, ∀ w, loop.eval (start (t ++ w) m) = loop.eval (start w m1) := by
  have hstuck : ¬ Stuck (start t m).reads := by
    intro hstuck
    rcases (stuck_behind_iff t m).1 hstuck with ⟨p, hp, hempty⟩
    exact hname p hp hempty
  refine ⟨(start t m).reads.m_variables, fun w => ?_⟩
  rw [eval_behind ht, followedBy_behind ht hstuck]

/-- A parameter that no parser should overlook. -/
theorem eval_a (v : Str) (m : StringStringMap) :
    loop.eval (start (str "a" ++ [eqSign] ++ kernelQuoted v ++ [space] ++ []) m) =
      m.insert (str "a") v := by
  have hplain : PlainName (str "a") := by decide
  rw [eval_assignment hplain]
  exact eval_nil rfl

/-- Behind a text that ends in white space outside quotes, parameters are read as at the start
exactly if no parameter of the text has an empty name. -/
theorem parse_append_iff {t1 : Str} (ht1 : Closed t1) (name : Str) :
    (∀ t2, t2 ≠ [] → ∀ m, parse ⟨name, .ok (t1 ++ t2)⟩ m =
        (parse ⟨name, .ok t1⟩ m).bind fun m1 => parse ⟨name, .ok t2⟩ m1) ↔
      ∀ p ∈ parameters false [] t1, ¬ EmptyName p := by
  constructor
  · intro h p hp hempty
    -- the variables are those of `t1`, and they are not
    have hinsert : ∀ v, loop.eval (start t1 ∅) = (loop.eval (start t1 ∅)).insert (str "a") v := by
      intro v
      have hparse := h _ (List.append_ne_nil_of_left_ne_nil
        (List.append_ne_nil_of_right_ne_nil (str "a" ++ [eqSign] ++ kernelQuoted v)
          (List.cons_ne_nil space [])) []) ∅
      rw [parse_behind_empty ht1 hp hempty] at hparse
      have hval : loop.eval (start t1 ∅) = _ := Except.ok.inj hparse
      rwa [eval_a] at hval
    have hone := hinsert (str "1")
    have htwo := hinsert (str "2")
    have hlookup : ((loop.eval (start t1 ∅)).insert (str "a") (str "1"))[str "a"]? =
        ((loop.eval (start t1 ∅)).insert (str "a") (str "2"))[str "a"]? := by
      rw [← hone, ← htwo]
    rw [Std.TreeMap.getElem?_insert_self, Std.TreeMap.getElem?_insert_self] at hlookup
    exact absurd hlookup (by decide)
  · -- the parameters of `t1` are complete, and `t2` starts afresh
    intro hname t2 _ m
    rcases parse_behind ht1 hname m with ⟨m1, hm1⟩
    have hnil := hm1 []
    rw [List.append_nil, eval_nil (s := start [] m1) rfl] at hnil
    have hval : loop.eval (start t1 m) = m1 := hnil
    simp only [parse, Except.bind, hm1, hval]

theorem parse_append_plain :
    parse ⟨[], .ok (str "a=1 " ++ str "b=2")⟩ ∅ =
      (parse ⟨[], .ok (str "a=1 ")⟩ ∅).bind fun m1 => parse ⟨[], .ok (str "b=2")⟩ m1 := by
  have hclosed : Closed (str "a=1 ") := ⟨str "a=1", space, rfl, rfl, rfl⟩
  have hname : ∀ p ∈ parameters false [] (str "a=1 "), ¬ EmptyName p := by
    have hparams : parameters false [] (str "a=1 ") = [str "a=1", []] := by decide
    rw [hparams]
    exact List.forall_mem_cons.2 ⟨by decide, List.forall_mem_singleton.2 (by decide)⟩
  exact (parse_append_iff hclosed []).2 hname _ (by decide) ∅

/-- An equals sign by itself, and a parameter behind it. -/
theorem parse_append_empty :
    ¬ ∀ t2, t2 ≠ [] → ∀ m, parse ⟨[], .ok (str "= " ++ t2)⟩ m =
        (parse ⟨[], .ok (str "= ")⟩ m).bind fun m1 => parse ⟨[], .ok t2⟩ m1 := by
  intro h
  have hparse := congrArg (Except.map fun m => m[str "a"]?) (h (str "a=1 ") (by decide) ∅)
  have hlost : (parse ⟨[], .ok (str "= " ++ str "a=1 ")⟩ ∅).map (fun m => m[str "a"]?) =
      .ok none := by
    decide
  rw [hlost] at hparse
  exact absurd hparse (by decide)

/-! ## The end of the file -/

/-- Whether a text gives the same variables without a separator behind it, and with a space or a
newline. -/
def SameAtEnd (name t : Str) (m : StringStringMap) : Prop :=
  parse ⟨name, .ok t⟩ m = parse ⟨name, .ok (t ++ [space])⟩ m ∧
    parse ⟨name, .ok t⟩ m = parse ⟨name, .ok (t ++ [newline])⟩ m

/-- Inside a parameter. -/
theorem parameters_cons {q : Bool} {c : UInt8} (hc : isSeparator q c = false) (p t : Str) :
    parameters q p (c :: t) = parameters (if c = dquote then !q else q) (p ++ [c]) t := by
  rw [parameters, hc]
  split <;> simp only [Bool.false_eq_true, if_false]

theorem parameters_separator {q : Bool} {c : UInt8} (hc : isSeparator q c = true) (p t : Str) :
    parameters q p (c :: t) = p :: parameters q [] t := by
  have hdquote := (kernel_space_plain (isSeparator_plain hc).1).2.2.1
  rw [parameters, if_neg hdquote, if_pos hc]

/-- A text without separators is one parameter. -/
theorem parameters_unseparated {t : Str} : ∀ {q : Bool} {p : Str}, Unseparated q t →
    parameters q p t = [p ++ t] := by
  induction t with
  | nil =>
      intro q p _
      rw [parameters, List.append_nil]
  | cons c t ih =>
      intro q p h
      rw [Unseparated] at h
      rw [parameters_cons h.1, ih h.2, List.append_assoc, List.singleton_append]

/-- Unless there is no separator in a text, there is a last one. -/
theorem parameters_last {t : Str} : ∀ {q : Bool} {p : Str}, Unseparated q t ∨
    ∃ u c v, t = u ++ c :: v ∧ isSeparator (quoteAfter q u) c = true ∧ Unseparated false v ∧
      (parameters q p t).getLast? = some v := by
  induction t with
  | nil =>
      intro q p
      exact .inl trivial
  | cons c t ih =>
      intro q p
      by_cases hsep : isSeparator q c = true
      · have hdquote := (kernel_space_plain (isSeparator_plain hsep).1).2.2.1
        -- the last separator is one of the rest, or this one
        rw [parameters_separator hsep, List.getLast?_cons]
        rcases @ih q [] with hunsep | ⟨u, c', v, rfl, hsep', hunsep, hlast⟩
        · refine .inr ⟨[], c, t, rfl, hsep, (isSeparator_plain hsep).2 ▸ hunsep, ?_⟩
          rw [parameters_unseparated hunsep]
          rfl
        · refine .inr ⟨c :: u, c', v, rfl, ?_, hunsep, ?_⟩
          · rwa [quoteAfter_cons, if_neg hdquote]
          · rw [hlast]
            rfl
      · rw [Bool.not_eq_true] at hsep
        rw [parameters_cons hsep]
        rcases @ih (if c = dquote then !q else q) (p ++ [c]) with
          hunsep | ⟨u, c', v, rfl, hsep', hunsep, hlast⟩
        · exact .inl ⟨hsep, hunsep⟩
        · exact .inr ⟨c :: u, c', v, rfl, hsep', hunsep, hlast⟩

/-- A text is its last parameter, or it is closed up to its last parameter. -/
theorem lastParameter_cases (t : Str) :
    Unseparated false (lastParameter t) ∧
      (lastParameter t = t ∨ ∃ t0, Closed t0 ∧ t = t0 ++ lastParameter t) := by
  unfold lastParameter
  rcases @parameters_last t false [] with hunsep | ⟨u, c, v, ht, hsep, hunsep, hlast⟩
  · rw [parameters_unseparated hunsep]
    exact ⟨hunsep, .inl rfl⟩
  · rw [hlast]
    rcases isSeparator_plain hsep with ⟨hspace, hbal⟩
    refine ⟨hunsep, .inr ⟨u ++ [c], ⟨u, c, rfl, hspace, hbal⟩, ?_⟩⟩
    rw [List.append_assoc]
    exact ht

theorem lastParameter_unseparated {p : Str} (h : Unseparated false p) : lastParameter p = p := by
  unfold lastParameter
  rw [parameters_unseparated h]
  rfl

theorem Closed.quoteAfter {t : Str} (h : Closed t) : quoteAfter false t = false := by
  rcases h with ⟨u, c, rfl, hc, hbal⟩
  have hdquote := (kernel_space_plain hc).2.2.1
  rw [quoteAfter_append, hbal, quoteAfter_plain (List.forall_mem_singleton.2 hdquote)]

theorem Balanced.lastParameter {t : Str} (h : Balanced t) : Balanced (lastParameter t) := by
  rcases (lastParameter_cases t).2 with heq | ⟨t0, hclosed, heq⟩
  · rwa [heq]
  · rw [heq, Balanced, quoteAfter_append, hclosed.quoteAfter] at h
    exact h

/-- Nothing is stored for a parameter without a name. -/
theorem eval_noName {w : Str} (hw : w = [] ∨ ∃ c, w = [c] ∧ is_kernel_space c = true) :
    ∀ {p : Str} {q : Bool} (m : StringStringMap), ¬ HasName p → quoteAfter q p = false →
      loop.eval ⟨p ++ w, [], [], .name, q, m⟩ = m := by
  intro p
  induction p with
  | nil =>
      intro q m _ hbal
      have hq : q = false := hbal
      rcases hw with rfl | ⟨c, rfl, hc⟩
      · exact eval_nil rfl
      · have hsep : isSeparator q c = true := by
          rw [isSeparator, hc, hq]
          rfl
        have hpass := eval_pass (s := ⟨[c], [], [], .name, q, m⟩) rfl
          fun h => absurd (h.2.2.symm.trans hsep) Bool.false_ne_true
        rw [List.nil_append, hpass, pass_separator rfl hsep, if_pos rfl]
        exact eval_nil rfl
  | cons x p ih =>
      intro q m hname hbal
      by_cases hdquote : x = dquote
      · subst hdquote
        rw [List.cons_append, eval_dquote]
        exact ih m hname hbal
      · have hx : x = eqSign := by
          by_contra hne
          exact hname ⟨x, by rw [firstByte, List.find?_cons_of_pos (by simpa using hdquote)], hne⟩
        -- behind an equals sign, nothing is stored any more
        subst hx
        rw [List.cons_append, eval_eqSign]
        exact eval_stuck ⟨rfl, rfl⟩

/-- A parameter with a name is stored when a separator follows, and not so at the end of the
file. -/
theorem eval_hasName {p : Str} (hunsep : Unseparated false p) (hbal : Balanced p)
    (hname : HasName p) :
    loop.eval (start p ∅) ≠ loop.eval (start (p ++ [space]) ∅) := by
  have hnaming : Naming ∅ (start p ∅) := ⟨hunsep, rfl, .inr ⟨⟨rfl, rfl⟩, hname⟩⟩
  have hsep := isSeparator_behind (c := space) rfl hbal ∅
  have hstored : loop.eval (start (p ++ [space]) ∅) =
      (∅ : StringStringMap).insert (start p ∅).reads.name (start p ∅).reads.value := by
    have hclosed := eval_closed hsep []
    rw [reads_closed hsep, pass_last hsep, if_neg hnaming.reads_name,
      hnaming.reads.unchanged] at hclosed
    exact hclosed.trans (eval_nil rfl)
  intro heq
  have hlookup := congrArg (fun m => m[(start p ∅).reads.name]?) (heq.trans hstored)
  simp only [Std.TreeMap.getElem?_insert_self] at hlookup
  -- at the end of the file, what is stored is too short
  rcases eval_short (s := start p ∅) (Nat.le_refl _) hunsep with hnone | ⟨n, v, hsome, hlt⟩
  · rw [hnone] at hlookup
    exact absurd hlookup (by simp [start])
  · rw [hsome, Std.TreeMap.getElem?_insert] at hlookup
    split at hlookup
    · rename_i hn
      have hn' : n = (start p ∅).reads.name := Std.LawfulEqCmp.eq_of_compare hn
      have hv : v = (start p ∅).reads.value := Option.some.inj hlookup
      rw [hn', hv] at hlt
      exact Nat.lt_irrefl _ hlt
    · exact absurd hlookup (by simp [start])

theorem eval_atEnd {t : Str} (ht : Balanced t) (hname : ¬ HasName (lastParameter t))
    (m : StringStringMap) : ∃ m1, ∀ w, (w = [] ∨ ∃ c, w = [c] ∧ is_kernel_space c = true) →
      loop.eval (start (t ++ w) m) = m1 := by
  have hbal := ht.lastParameter
  rcases (lastParameter_cases t).2 with heq | ⟨t0, hclosed, heq⟩
  · rw [heq] at hname
    exact ⟨m, fun w hw => eval_noName hw m hname ht⟩
  · refine ⟨(start t0 m).reads.m_variables, fun w hw => ?_⟩
    rw [heq, List.append_assoc, eval_behind hclosed]
    by_cases hstuck : Stuck (start t0 m).reads
    · exact eval_stuck (s := (start t0 m).reads.followedBy _) hstuck
    · rw [followedBy_behind hclosed hstuck]
      exact eval_noName hw _ hname hbal

/-- The last parameter of a text is read in the same way with and without a separator behind it
exactly if it has no name. -/
theorem sameAtEnd_iff {t : Str} (ht : Balanced t) (name : Str) :
    (∀ t', Balanced t' → lastParameter t' = lastParameter t → ∀ m, SameAtEnd name t' m) ↔
      ¬ HasName (lastParameter t) := by
  constructor
  · intro h hname
    have hunsep := (lastParameter_cases t).1
    have hsame := (h _ ht.lastParameter (lastParameter_unseparated hunsep) ∅).1
    exact eval_hasName hunsep ht.lastParameter hname (Except.ok.inj hsame)
  · intro hname t' ht' hlast m
    rw [← hlast] at hname
    rcases eval_atEnd ht' hname m with ⟨m1, hend⟩
    have hnil := hend [] (.inl rfl)
    have hspace := hend [space] (.inr ⟨space, rfl, rfl⟩)
    have hnewline := hend [newline] (.inr ⟨newline, rfl, rfl⟩)
    rw [List.append_nil] at hnil
    simp only [SameAtEnd, parse, hnil, hspace, hnewline, and_self]

/-- White space at the end. -/
theorem sameAtEnd_space : SameAtEnd [] (str "foo=bar ") ∅ := by
  have hbal : Balanced (str "foo=bar ") := rfl
  have hlast : lastParameter (str "foo=bar ") = [] := by decide
  have hname : ¬ HasName (lastParameter (str "foo=bar ")) := by
    rw [hlast]
    rintro ⟨c, hc, _⟩
    cases hc
  exact (sameAtEnd_iff hbal []).2 hname _ hbal rfl ∅

/-- The last byte of a value is lost at the end of the file. -/
theorem sameAtEnd_value : ¬ SameAtEnd [] (str "foo=bar") ∅ := by
  intro h
  have hparse := congrArg (Except.map fun m => m[str "foo"]?) h.1
  have hshort : (parse ⟨[], .ok (str "foo=bar")⟩ ∅).map (fun m => m[str "foo"]?) =
      .ok (some (str "ba")) := by
    decide
  rw [hshort] at hparse
  exact absurd hparse (by decide)

end KernelConfigParser

end Config
end Kdump

import Kdump.Config.ConfigParser

/-!
# KernelPasses — what `KernelConfigParser::parse` does inside a text

The loop looks at the end of the file behind every byte, and an escape looks ahead.  Apart from the
last byte, what happens inside a text does not depend on what follows the text.

* `pass` — a pass of the loop that does not see the end of the file;
* `Byte` — what a byte is to the parser, with one equation for `pass` in each case;
* `reads` — the passes until a text is used up, with the invariant rule `reads_invariant`;
* `eval_followedBy` — the loop on a text with white space behind it goes on from `reads`.
-/

namespace Kdump
namespace Config

open Lib

namespace KernelConfigParser

/-! ## Quotes and separators -/

/-- White space outside quotes. -/
def isSeparator (inquote : Bool) (c : UInt8) : Bool :=
  is_kernel_space c && !inquote

/-- Whether a text that starts inside or outside quotes ends inside them. -/
def quoteAfter (inquote : Bool) (t : Str) : Bool :=
  t.foldl (fun inquote c => if c = dquote then !inquote else inquote) inquote

/-! ## Passes -/

namespace Locals

/-- A pass that does not see the end of the file. -/
def pass (s : Locals) : Locals :=
  match s.fin with
  | [] => s
  | c :: rest =>
      let s := { s with fin := rest }
      if c = dquote then
        { s with inquote := !s.inquote }
      else if c = eqSign ∧ s.outp = .name then
        { s with outp := .value }
      else if isSeparator s.inquote c then
        if s.name.isEmpty then
          s
        else
          { s with
            m_variables := s.m_variables.insert s.name s.value
            name := []
            value := []
            outp := .name }
      else if c = bslash then
        s.escape
      else
        s.append [c]

/-- The same variables, with more text to come. -/
def followedBy (s : Locals) (w : Str) : Locals :=
  { s with fin := s.fin ++ w }

variable {s : Locals} {w : Str}

@[simp] theorem followedBy_fin : (s.followedBy w).fin = s.fin ++ w := rfl
@[simp] theorem followedBy_name : (s.followedBy w).name = s.name := rfl
@[simp] theorem followedBy_outp : (s.followedBy w).outp = s.outp := rfl
@[simp] theorem followedBy_inquote : (s.followedBy w).inquote = s.inquote := rfl

theorem append_followedBy (cs : Str) : (s.followedBy w).append cs = (s.append cs).followedBy w := by
  unfold append followedBy
  cases s.outp <;> rfl

/-- The digits of an escape end where the text ends. -/
theorem takeWhile_take_append {c : UInt8} (hc : isOctal c = false) (w : Str) :
    ∀ (n : Nat) (l : Str),
      ((l ++ c :: w).take n).takeWhile isOctal = (l.take n).takeWhile isOctal := by
  intro n
  induction n with
  | zero =>
      intro l
      rw [List.take_zero, List.take_zero]
  | succ n ih =>
      intro l
      cases l with
      | nil => simp only [List.nil_append, List.take_succ_cons, List.takeWhile_cons, hc,
          Bool.false_eq_true, if_false, List.take_nil, List.takeWhile_nil]
      | cons x l => simp only [List.cons_append, List.take_succ_cons, List.takeWhile_cons, ih]

theorem octalEscape_followedBy {c : UInt8} (hc : isOctal c = false) :
    (s.followedBy (c :: w)).octalEscape = s.octalEscape.followedBy (c :: w) := by
  have hle : ((s.fin.take 3).takeWhile isOctal).length ≤ s.fin.length :=
    (List.takeWhile_prefix _).length_le.trans (List.length_take_le' _ _)
  unfold octalEscape
  dsimp only
  rw [followedBy_fin, takeWhile_take_append hc, List.drop_append_of_le_length hle]
  split <;> exact append_followedBy (s := { s with fin := s.fin.drop _ }) _

theorem kernel_space_plain {c : UInt8} (hc : is_kernel_space c = true) :
    isOctal c = false ∧ c ≠ bslash ∧ c ≠ dquote ∧ c ≠ eqSign := by
  have hbslash : is_kernel_space bslash = false := rfl
  have hdquote : is_kernel_space dquote = false := rfl
  have heqSign : is_kernel_space eqSign = false := rfl
  refine ⟨?_, ?_, ?_, ?_⟩
  · simp only [is_kernel_space, isOctal, Bool.or_eq_true, Bool.and_eq_true, decide_eq_true_eq,
      beq_iff_eq, Bool.and_eq_false_iff, decide_eq_false_iff_not, UInt8.le_iff_toNat_le,
      ← UInt8.toNat_inj, UInt8.reduceToNat] at hc ⊢
    omega
  · intro h
    rw [h, hbslash] at hc
    cases hc
  · intro h
    rw [h, hdquote] at hc
    cases hc
  · intro h
    rw [h, heqSign] at hc
    cases hc

/-- An escape does not reach into the white space that follows. -/
theorem escape_followedBy {c : UInt8} (hc : is_kernel_space c = true) :
    (s.followedBy (c :: w)).escape = s.escape.followedBy (c :: w) := by
  rcases kernel_space_plain hc with ⟨hoctal, hbslash, _, _⟩
  have hdigits := octalEscape_followedBy (s := s) (w := w) hoctal
  cases hfin : s.fin with
  | nil =>
      have hfin' : (s.followedBy (c :: w)).fin = c :: w := by
        rw [followedBy_fin, hfin, List.nil_append]
      simp only [escape, hfin, hfin', if_neg hbslash, hdigits]
  | cons x rest =>
      have hfin' : (s.followedBy (c :: w)).fin = x :: (rest ++ c :: w) := by
        rw [followedBy_fin, hfin, List.cons_append]
      simp only [escape, hfin, hfin', hdigits]
      split
      · exact append_followedBy (s := { s with fin := rest }) _
      · rfl

/-! ## The bytes of a text -/

/-- A byte that is neither a quote nor a separator nor the end of the name. -/
def Content (s : Locals) (x : UInt8) : Prop :=
  x ≠ dquote ∧ ¬ (x = eqSign ∧ s.outp = .name) ∧ isSeparator s.inquote x = false

/-- What a byte is to the parser. -/
inductive Byte (s : Locals) : UInt8 → Prop
  | quote : Byte s dquote
  | assign : s.outp = .name → Byte s eqSign
  | separator {x : UInt8} : isSeparator s.inquote x = true → Byte s x
  | content {x : UInt8} : Content s x → Byte s x

theorem byte_cases (s : Locals) (x : UInt8) : Byte s x := by
  by_cases hdquote : x = dquote
  · exact hdquote ▸ .quote
  by_cases hassign : x = eqSign ∧ s.outp = .name
  · exact hassign.1 ▸ .assign hassign.2
  by_cases hsep : isSeparator s.inquote x = true
  · exact .separator hsep
  · exact .content ⟨hdquote, hassign, Bool.eq_false_iff.2 hsep⟩

theorem isSeparator_plain {q : Bool} {x : UInt8} (h : isSeparator q x = true) :
    is_kernel_space x = true ∧ q = false := by
  simpa only [isSeparator, Bool.and_eq_true, Bool.not_eq_true'] using h

variable {x : UInt8} {rest : Str}

theorem pass_quote (hfin : s.fin = dquote :: rest) :
    s.pass = { s with fin := rest, inquote := !s.inquote } := by
  simp only [pass, hfin, if_true]

theorem pass_assign (hfin : s.fin = eqSign :: rest) (houtp : s.outp = .name) :
    s.pass = { s with fin := rest, outp := .value } := by
  have hne : eqSign ≠ dquote := by decide
  simp only [pass, hfin, if_neg hne, houtp, and_self, if_true]

/-- A separator completes a parameter if there is a name. -/
theorem pass_separator (hfin : s.fin = x :: rest) (hsep : isSeparator s.inquote x = true) :
    s.pass =
      if s.name = [] then { s with fin := rest }
      else ⟨rest, [], [], .name, s.inquote, s.m_variables.insert s.name s.value⟩ := by
  rcases kernel_space_plain (isSeparator_plain hsep).1 with ⟨_, _, hdquote, heqSign⟩
  have hassign : ¬ (x = eqSign ∧ s.outp = .name) := fun h => heqSign h.1
  simp only [pass, hfin, if_neg hdquote, if_neg hassign, if_pos hsep, List.isEmpty_iff]

theorem pass_escape (hfin : s.fin = bslash :: rest) :
    s.pass = { s with fin := rest }.escape := by
  have hdquote : bslash ≠ dquote := by decide
  have hassign : ¬ (bslash = eqSign ∧ s.outp = .name) := fun h => absurd h.1 (by decide)
  have hsep : ¬ isSeparator s.inquote bslash = true := Bool.not_eq_true _ ▸ rfl
  simp only [pass, hfin, if_neg hdquote, if_neg hassign, if_neg hsep, if_true]

theorem pass_plain (hfin : s.fin = x :: rest) (hx : Content s x) (hbslash : x ≠ bslash) :
    s.pass = { s with fin := rest }.append [x] := by
  simp only [pass, hfin, if_neg hx.1, if_neg hx.2.1, hx.2.2, Bool.false_eq_true, if_false,
    if_neg hbslash]

/-- A pass inside a text does not depend on what follows the text. -/
theorem pass_followedBy {c : UInt8} (hc : is_kernel_space c = true) (hfin : s.fin ≠ []) :
    (s.followedBy (c :: w)).pass = s.pass.followedBy (c :: w) := by
  cases hs : s.fin with
  | nil => exact absurd hs hfin
  | cons x rest =>
      have hfin' : (s.followedBy (c :: w)).fin = x :: (rest ++ c :: w) := by
        rw [followedBy_fin, hs, List.cons_append]
      cases s.byte_cases x with
      | quote =>
          rw [pass_quote hs, pass_quote hfin']
          rfl
      | assign houtp =>
          rw [pass_assign hs houtp, pass_assign hfin' houtp]
          rfl
      | separator hsep =>
          rw [pass_separator hs hsep, pass_separator hfin' hsep, followedBy_name]
          split <;> rfl
      | content hx =>
          -- an escape looks ahead, but white space ends what it takes
          by_cases hbslash : x = bslash
          · subst hbslash
            rw [pass_escape hs, pass_escape hfin']
            exact escape_followedBy (s := { s with fin := rest }) hc
          · -- any other byte is appended as it is
            have hx' : Content (s.followedBy (c :: w)) x := hx
            rw [pass_plain hs hx hbslash, pass_plain hfin' hx' hbslash]
            exact append_followedBy (s := { s with fin := rest }) [x]

/-- Only content is treated in another way when it is the last byte of the file. -/
theorem step_eq_pass (hfin : s.fin = x :: rest) (hrest : Content s x → rest ≠ []) :
    step s = .next s.pass := by
  cases s.byte_cases x with
  | quote => simp only [step, pass, hfin, if_true]
  | assign houtp =>
      have hne : eqSign ≠ dquote := by decide
      simp only [step, pass, hfin, if_neg hne, houtp, and_self, if_true]
  | separator hsep =>
      have hspace : (is_kernel_space x && !s.inquote) = true := hsep
      simp only [step, pass, hfin, isSeparator, hspace, Bool.true_or, if_true]
      split_ifs <;> rfl
  | content hx =>
      have hempty : rest.isEmpty = false := List.isEmpty_eq_false_iff.2 (hrest hx)
      simp only [step, pass, hfin, hempty, Bool.or_false, isSeparator]
      split_ifs <;> rfl

/-- From `s` to `s'`, content is read and something is appended. -/
def Appends (s s' : Locals) : Prop :=
  ∃ taken left cs, s.fin = taken ++ left ∧ cs ≠ [] ∧ s' = { s with fin := left }.append cs ∧
    ∀ y ∈ taken, Content s y

theorem octal_plain {y : UInt8} (hy : isOctal y = true) :
    y ≠ dquote ∧ y ≠ eqSign ∧ is_kernel_space y = false := by
  refine ⟨?_, ?_, ?_⟩
  · intro h
    rw [h] at hy
    cases hy
  · intro h
    rw [h] at hy
    cases hy
  · apply Bool.eq_false_iff.2
    intro hspace
    rw [(kernel_space_plain hspace).1] at hy
    cases hy

theorem octalEscape_appends (s : Locals) : Appends s s.octalEscape := by
  have hprefix : (s.fin.take 3).takeWhile isOctal <+: s.fin :=
    (List.takeWhile_prefix _).trans (List.take_prefix _ _)
  rcases hprefix with ⟨left, hleft⟩
  have hdrop : s.fin.drop ((s.fin.take 3).takeWhile isOctal).length = left := by
    nth_rewrite 2 [← hleft]
    exact List.drop_left
  have hcontent : ∀ y ∈ (s.fin.take 3).takeWhile isOctal, Content s y := by
    intro y hy
    rcases octal_plain (List.mem_takeWhile_imp hy) with ⟨hdquote, heqSign, hspace⟩
    exact ⟨hdquote, fun h => heqSign h.1, by rw [isSeparator, hspace, Bool.false_and]⟩
  unfold octalEscape
  dsimp only
  rw [hdrop]
  split
  · exact ⟨_, left, _, hleft.symm, List.cons_ne_nil _ _, rfl, hcontent⟩
  · exact ⟨_, left, _, hleft.symm, List.cons_ne_nil _ _, rfl, hcontent⟩

theorem content_bslash (s : Locals) : Content s bslash :=
  ⟨by decide, fun h => absurd h.1 (by decide), rfl⟩

theorem Appends.cons {s' : Locals} (hfin : s.fin = x :: rest) (hx : Content s x)
    (h : Appends { s with fin := rest } s') : Appends s s' := by
  rcases h with ⟨taken, left, cs, hrest, hcs, hs', hcontent⟩
  dsimp only at hrest
  exact ⟨x :: taken, left, cs, by rw [hfin, hrest, List.cons_append], hcs, hs',
    List.forall_mem_cons.2 ⟨hx, hcontent⟩⟩

theorem escape_appends (s : Locals) : Appends s s.escape := by
  unfold escape
  split
  · rename_i c rest hfin
    split
    · rename_i hc
      refine .cons hfin (hc ▸ s.content_bslash) ?_
      exact ⟨[], rest, [c], rfl, List.cons_ne_nil _ _, rfl, List.forall_mem_nil _⟩
    · exact s.octalEscape_appends
  · exact s.octalEscape_appends

/-- Content is appended, in one way or another. -/
theorem pass_content (hfin : s.fin = x :: rest) (hx : Content s x) :
    Appends { s with fin := rest } s.pass := by
  by_cases hbslash : x = bslash
  · rw [pass_escape (hbslash ▸ hfin)]
    exact escape_appends _
  · rw [pass_plain hfin hx hbslash]
    exact ⟨[], rest, [x], rfl, List.cons_ne_nil _ _, rfl, List.forall_mem_nil _⟩

theorem pass_fin_lt (hfin : s.fin ≠ []) : s.pass.fin.length < s.fin.length := by
  cases hs : s.fin with
  | nil => exact absurd hs hfin
  | cons x rest =>
      rw [List.length_cons]
      apply Nat.lt_succ_of_le
      cases s.byte_cases x with
      | quote => rw [pass_quote hs]
      | assign houtp => rw [pass_assign hs houtp]
      | separator hsep =>
          rw [pass_separator hs hsep]
          split <;> exact Nat.le_refl _
      | content hx =>
          rcases pass_content hs hx with ⟨taken, left, cs, hrest, _, hpass, _⟩
          dsimp only at hrest
          rw [hpass, append_fin, hrest, List.length_append]
          exact Nat.le_add_left _ _

end Locals

/-! ## Reading a text to its end -/

theorem Locals.next_fin_lt {s s' : Locals}
    (h : (if s.fin = [] then .done s else .next s.pass : Step Locals Locals) = .next s') :
    s'.fin.length < s.fin.length := by
  split at h
  · cases h
  · rename_i hfin
    cases h
    exact Locals.pass_fin_lt hfin

/-- The passes until the text is used up. -/
def reading : Loop Locals Locals where
  step s := if s.fin = [] then .done s else .next s.pass
  measure s := s.fin.length
  decreases := Locals.next_fin_lt

namespace Locals

def reads (s : Locals) : Locals :=
  reading.eval s

variable {s : Locals} {w : Str}

theorem reads_nil (hfin : s.fin = []) : s.reads = s :=
  reading.eval_done (if_pos hfin)

theorem reads_pass (hfin : s.fin ≠ []) : s.reads = s.pass.reads :=
  reading.eval_next (if_neg hfin)

/-- What holds at the start and survives every pass holds when the text is used up. -/
theorem reads_invariant {I : Locals → Prop} (hs : I s)
    (hpass : ∀ t : Locals, t.fin ≠ [] → I t → I t.pass) : I s.reads ∧ s.reads.fin = [] := by
  rcases Loop.exists_last (L := reading) s with ⟨t, hreach, hdone⟩
  have hstep : ∀ t, reading.step t = if t.fin = [] then .done t else .next t.pass := fun _ => rfl
  have ht : I t := by
    apply hreach.invariant hs
    intro t t' hI hnext
    rw [hstep] at hnext
    split at hnext
    · cases hnext
    · rename_i hfin
      cases hnext
      exact hpass t hfin hI
  rw [hstep] at hdone
  split at hdone
  · rename_i hfin
    have heq : t = s.reads := Step.done.inj hdone
    exact heq ▸ ⟨ht, hfin⟩
  · cases hdone


theorem eval_pass {x : UInt8} {rest : Str} (hfin : s.fin = x :: rest)
    (hrest : Content s x → rest ≠ []) : loop.eval s = loop.eval s.pass :=
  loop.eval_next (step_eq_pass hfin hrest)

theorem eval_followedBy {c : UInt8} (hc : is_kernel_space c = true) (s : Locals) (w : Str) :
    loop.eval (s.followedBy (c :: w)) = loop.eval (s.reads.followedBy (c :: w)) := by
  have hreads := reads_invariant (s := s)
    (I := fun t => loop.eval (s.followedBy (c :: w)) = loop.eval (t.followedBy (c :: w))) rfl
    fun t hfin ht => by
      cases hs : t.fin with
      | nil => exact absurd hs hfin
      | cons x rest =>
          have hfin' : (t.followedBy (c :: w)).fin = x :: (rest ++ c :: w) := by
            rw [followedBy_fin, hs, List.cons_append]
          have hne : rest ++ c :: w ≠ [] :=
            List.append_ne_nil_of_right_ne_nil _ (List.cons_ne_nil _ _)
          rw [ht, eval_pass hfin' fun _ => hne, pass_followedBy hc hfin]
  exact hreads.1

theorem reads_followedBy {c : UInt8} (hc : is_kernel_space c = true) (s : Locals) (w : Str) :
    (s.followedBy (c :: w)).reads = (s.reads.followedBy (c :: w)).reads := by
  have hreads := reads_invariant (s := s)
    (I := fun t => (s.followedBy (c :: w)).reads = (t.followedBy (c :: w)).reads) rfl
    fun t hfin ht => by
      have hne : (t.followedBy (c :: w)).fin ≠ [] :=
        List.append_ne_nil_of_right_ne_nil _ (List.cons_ne_nil _ _)
      rw [ht, reads_pass hne, pass_followedBy hc hfin]
  exact hreads.1

/-! ## What the passes keep -/

theorem quoteAfter_cons (q : Bool) (c : UInt8) (t : Str) :
    quoteAfter q (c :: t) = quoteAfter (if c = dquote then !q else q) t := rfl

theorem quoteAfter_append (q : Bool) (t t' : Str) :
    quoteAfter q (t ++ t') = quoteAfter (quoteAfter q t) t' :=
  List.foldl_append

theorem quoteAfter_plain {t : Str} (ht : ∀ c ∈ t, c ≠ dquote) (q : Bool) : quoteAfter q t = q := by
  induction t with
  | nil => rfl
  | cons c t ih =>
      rw [List.forall_mem_cons] at ht
      rw [quoteAfter_cons, if_neg ht.1, ih ht.2]

theorem append_inquote (cs : Str) : (s.append cs).inquote = s.inquote := by
  unfold append
  split <;> rfl

theorem pass_quoteAfter (hfin : s.fin ≠ []) :
    quoteAfter s.pass.inquote s.pass.fin = quoteAfter s.inquote s.fin := by
  cases hs : s.fin with
  | nil => exact absurd hs hfin
  | cons x rest =>
      rw [quoteAfter_cons]
      cases s.byte_cases x with
      | quote => rw [pass_quote hs, if_pos rfl]
      | assign houtp =>
          rw [pass_assign hs houtp]
          rfl
      | separator hsep =>
          have hdquote := (kernel_space_plain (isSeparator_plain hsep).1).2.2.1
          rw [pass_separator hs hsep, if_neg hdquote]
          split <;> rfl
      | content hx =>
          rcases pass_content hs hx with ⟨taken, left, cs, hrest, _, hpass, hcontent⟩
          dsimp only at hrest
          -- none of the bytes that an escape takes is a quote
          rw [hpass, append_fin, append_inquote, if_neg hx.1, hrest, quoteAfter_append,
            quoteAfter_plain fun y hy => (hcontent y hy).1]

theorem reads_inquote (s : Locals) : s.reads.inquote = quoteAfter s.inquote s.fin := by
  have hreads := reads_invariant (s := s)
    (I := fun t => quoteAfter t.inquote t.fin = quoteAfter s.inquote s.fin) rfl
    fun t hfin ht => (pass_quoteAfter hfin).trans ht
  rw [← hreads.1, hreads.2]
  rfl

end Locals

end KernelConfigParser

end Config
end Kdump

import Kdump.Lib.ShellTokens

/-!
# ShellTokenRules — how words are read

* `Inert` — bytes without a meaning, and how a text of them is read;
* `Goes` — what one byte does to a word that is being read;
* `Becomes` — what the word may become in the end;
* `inert_of_output` — a word that has all the bytes of its text has them from inert bytes.
-/

namespace Lib
namespace Shell
namespace Tokens

/-! ## Bytes without a meaning -/

/-- The bytes that have a meaning inside of a word. -/
def meaning : Text :=
  [0, nl, tab, blank, dollar, quote, backslash, dquote, backquote, 38, 40, 41, 59, 60, 62, 124]

/-- The byte stands for itself in a word. -/
def Inert (c : UInt8) : Prop :=
  c ∉ meaning

instance (c : UInt8) : Decidable (Inert c) :=
  inferInstanceAs (Decidable (_ ∉ _))

theorem Inert.ne {c d : UInt8} (h : Inert c) (hd : d ∈ meaning) : c ≠ d :=
  fun heq => h (heq ▸ hd)

theorem Inert.not_blank {c : UInt8} (h : Inert c) : isBlank c = false :=
  Bool.or_eq_false_iff.2
    ⟨beq_false_of_ne (h.ne (by decide)), beq_false_of_ne (h.ne (by decide))⟩

theorem Inert.not_operator {c : UInt8} (h : Inert c) : isOperator c = false := by
  refine Bool.eq_false_iff.2 fun hc => h ?_
  have hsuffix : [38, 40, 41, 59, 60, 62, 124] <:+ meaning := List.suffix_append
    [0, nl, tab, blank, dollar, quote, backslash, dquote, backquote] _
  exact hsuffix.subset (List.contains_iff_mem.1 hc)

/-! ## What a byte does outside of quotes -/

/-- The cases of `plainStep`. -/
inductive PlainStep (extent : Extent) (s : State) (c : UInt8) (rest : Text) : State → Prop
  | newline (hc : c = nl) : PlainStep extent s c rest (s.endWord.addOperator [nl])
  | blank (hc : isBlank c = true) : PlainStep extent s c rest s.endWord
  | operator (hc : isOperator c = true) :
      PlainStep extent s c rest { s.endWord with mode := .operator [c] }
  | single (hc : c = quote) : PlainStep extent s c rest { s.push .mark with mode := .single }
  | double (hc : c = dquote) : PlainStep extent s c rest { s.push .mark with mode := .double }
  | escape (hc : c = backslash) : PlainStep extent s c rest { s with mode := .escaped }
  | expansion (s' : State) (h : expand extent s c rest false = some s') :
      PlainStep extent s c rest s'
  | comment (hc : c = hash) (hword : s.word = none) :
      PlainStep extent s c rest { s with mode := .comment }
  | byte (hc : Inert c) : PlainStep extent s c rest (s.push (.byte c false))

theorem plainStep_cases {extent : Extent} {s s' : State} {c : UInt8} {rest : Text}
    (h : plainStep extent s c rest = some s') : PlainStep extent s c rest s' := by
  rw [plainStep] at h
  split_ifs at h with hzero hnl hblank hop hquote hdquote hbackslash hexp hcomment
  · cases h
    exact .newline hnl
  · cases h
    exact .blank hblank
  · cases h
    exact .operator hop
  · cases h
    exact .single hquote
  · cases h
    exact .double hdquote
  · cases h
    exact .escape hbackslash
  · exact .expansion s' h
  · cases h
    exact .comment hcomment.1 hcomment.2
  · cases h
    have hdollar : c ≠ dollar := fun hc => hexp (.inl hc)
    have hbackquote : c ≠ backquote := fun hc => hexp (.inr (.inl hc))
    simp only [isBlank, isOperator, Bool.or_eq_true, beq_iff_eq, not_or, List.contains_iff_mem,
      List.mem_cons, List.not_mem_nil, or_false] at hblank hop
    refine .byte ?_
    simp only [Inert, meaning, List.mem_cons, List.not_mem_nil, or_false, not_or]
    exact ⟨hzero, hnl, hblank.2, hblank.1, hdollar, hquote, hbackslash, hdquote, hbackquote, hop⟩

section

variable {extent : Extent} {w : List Part} {tokens : List Token} {c : UInt8} {rest text : Text}

/-- The parts of a text without a meaning. -/
def bytes (text : Text) : List Part :=
  text.map fun c => .byte c false

theorem step_inert (h : Inert c) :
    step extent ⟨.plain, some w, tokens⟩ c rest =
      some ⟨.plain, some (w ++ [.byte c false]), tokens⟩ := by
  have hexpansion : ¬ (c = dollar ∨ c = backquote ∨ c = tilde ∧ some w = none) := by
    rintro (hc | hc | ⟨_, hw⟩)
    · exact h.ne (by decide) hc
    · exact h.ne (by decide) hc
    · cases hw
  have hcomment : ¬ (c = hash ∧ some w = none) := fun hw => by cases hw.2
  rw [step, plainStep, if_neg (h.ne (by decide)), if_neg (h.ne (by decide)), h.not_blank,
    h.not_operator, if_neg Bool.false_ne_true, if_neg Bool.false_ne_true,
    if_neg (h.ne (by decide)), if_neg (h.ne (by decide)), if_neg (h.ne (by decide)),
    if_neg hexpansion, if_neg hcomment]
  rfl

theorem run_inert (h : ∀ c ∈ text, Inert c) :
    run extent ⟨.plain, some w, tokens⟩ (text ++ rest) =
      run extent ⟨.plain, some (w ++ bytes text), tokens⟩ rest := by
  induction text generalizing w with
  | nil => rw [bytes, List.map_nil, List.append_nil, List.nil_append]
  | cons c text ih =>
      rw [List.forall_mem_cons] at h
      rw [List.cons_append, run, step_inert h.1, Option.bind_some, ih h.2, bytes, bytes,
        List.map_cons, List.append_assoc]
      rfl

/-- The first byte of a word that begins neither an expansion nor a comment. -/
theorem run_inert_start (h : Inert c) (htilde : c ≠ tilde) (hhash : c ≠ hash) :
    run extent ⟨.plain, none, tokens⟩ (c :: rest) =
      run extent ⟨.plain, some (bytes [c]), tokens⟩ rest := by
  have hexpansion : ¬ (c = dollar ∨ c = backquote ∨
      c = tilde ∧ (none : Option (List Part)) = none) := by
    rintro (hc | hc | ⟨hc, _⟩)
    · exact h.ne (by decide) hc
    · exact h.ne (by decide) hc
    · exact htilde hc
  rw [run, step, plainStep, if_neg (h.ne (by decide)), if_neg (h.ne (by decide)), h.not_blank,
    h.not_operator, if_neg Bool.false_ne_true, if_neg Bool.false_ne_true,
    if_neg (h.ne (by decide)), if_neg (h.ne (by decide)), if_neg (h.ne (by decide)),
    if_neg hexpansion, if_neg fun hc => hhash hc.1]
  rfl

/-! ## Words -/

/-- The bytes of a word without an expansion. -/
def output : List Part → Text
  | [] => []
  | .byte c _ :: parts => c :: output parts
  | .mark :: parts => output parts
  | .expansion _ _ :: parts => output parts

theorem output_append (u v : List Part) : output (u ++ v) = output u ++ output v := by
  induction u with
  | nil => rfl
  | cons p u ih => cases p <;> simp only [List.cons_append, output, ih]

@[simp] theorem output_bytes (text : Text) : output (bytes text) = text := by
  induction text with
  | nil => rfl
  | cons c text ih => exact congrArg (c :: ·) ih

/-- No part of the word is an expansion. -/
def Fixed (w : List Part) : Prop :=
  ∀ text quoted, .expansion text quoted ∉ w

/-- The modes in which a word is being read. -/
def Mode.inWord : Mode → Bool
  | .operator _ => false
  | .comment => false
  | _ => true

def Mode.inExpansion : Mode → Bool
  | .expansion _ _ => true
  | _ => false

/-- Bytes that are still to be added for what has been read. -/
def Mode.owes : Mode → Nat
  | .escapedDouble => 1
  | _ => 0

/-- A byte that goes into a word, with the parts that it adds. -/
structure Extends (mode mode' : Mode) (c : UInt8) (v : List Part) : Prop where
  length : (output v).length + mode'.owes ≤ mode.owes + 1
  /-- blanks do not get lost -/
  blanks : (output v).count blank = [c].count blank
  inExpansion : mode'.inExpansion = false

/-- The word goes on, or it ends in front of the byte. -/
inductive Goes (mode : Mode) (w : List Part) (tokens : List Token) (c : UInt8) : State → Prop
  | on (mode' : Mode) (v : List Part) (inWord : mode'.inWord = true)
      (extends_ : Fixed v → mode.inExpansion = false → Extends mode mode' c v) :
      Goes mode w tokens c ⟨mode', some (w ++ v), tokens⟩
  | ends (s' : State) (more : List Token) (heq : s'.tokens = tokens ++ .word w :: more)
      (plain : mode = .plain) : Goes mode w tokens c s'

theorem Goes.stays {mode mode' : Mode} (inWord : mode'.inWord = true)
    (hlength : mode'.owes ≤ mode.owes + 1) (hc : c ≠ blank) (hmode : mode'.inExpansion = false) :
    Goes mode w tokens c ⟨mode', some w, tokens⟩ := by
  have h := @Goes.on mode w tokens c mode' [] inWord fun _ _ => ⟨by simpa [output] using hlength,
    by simp [output, hc], hmode⟩
  rwa [List.append_nil] at h

theorem passOver_inWord (n : Nat) (quoted : Bool) : (passOver n quoted).inWord = true := by
  cases n <;> cases quoted <;> rfl

theorem goes_expand {mode : Mode} {quoted : Bool} {s' : State}
    (h : expand extent ⟨mode, some w, tokens⟩ c rest quoted = some s') :
    Goes mode w tokens c s' := by
  rw [expand, Option.map_eq_some_iff] at h
  obtain ⟨n, _, rfl⟩ := h
  refine .on _ [_] (passOver_inWord n quoted) fun hfixed => ?_
  exact absurd List.mem_cons_self (hfixed _ _)

theorem goes_plain {s' : State} (h : plainStep extent ⟨.plain, some w, tokens⟩ c rest = some s') :
    Goes .plain w tokens c s' := by
  cases plainStep_cases h with
  | newline hc => exact .ends _ [.operator [nl]] (List.append_assoc tokens [.word w] _) rfl
  | blank hc => exact .ends _ [] rfl rfl
  | operator hc => exact .ends _ [] rfl rfl
  | single hc => exact .on .single [.mark] rfl fun _ _ => ⟨Nat.zero_le _, by rw [hc]; rfl, rfl⟩
  | double hc => exact .on .double [.mark] rfl fun _ _ => ⟨Nat.zero_le _, by rw [hc]; rfl, rfl⟩
  | escape hc => exact .stays rfl (Nat.zero_le _) (by rw [hc]; decide) rfl
  | expansion _ h => exact goes_expand h
  | comment hc hword => cases hword
  | byte hc => exact .on .plain [.byte c false] rfl fun _ _ => ⟨Nat.le_refl 1, rfl, rfl⟩

theorem goes_double {s' : State}
    (h : doubleStep extent ⟨.double, some w, tokens⟩ c rest = some s') :
    Goes .double w tokens c s' := by
  rw [doubleStep] at h
  split_ifs at h with hzero hdquote hbackslash hexp
  · cases h
    exact .stays rfl (Nat.zero_le _) (by rw [hdquote]; decide) rfl
  · cases h
    exact .stays rfl (Nat.le_refl 1) (by rw [hbackslash]; decide) rfl
  · exact goes_expand h
  · cases h
    exact .on .double [.byte c true] rfl fun _ _ => ⟨Nat.le_refl 1, rfl, rfl⟩

theorem goes_step {mode : Mode} {s' : State} (hin : mode.inWord = true)
    (h : step extent ⟨mode, some w, tokens⟩ c rest = some s') : Goes mode w tokens c s' := by
  cases mode with
  | plain => exact goes_plain h
  | single =>
      dsimp only [step] at h
      split_ifs at h with hzero hquote
      · cases h
        exact .stays rfl (Nat.zero_le _) (by rw [hquote]; decide) rfl
      · cases h
        exact .on .single [.byte c true] rfl fun _ _ => ⟨Nat.le_refl 1, rfl, rfl⟩
  | double => exact goes_double h
  | escaped =>
      dsimp only [step] at h
      split_ifs at h with hzero hnl
      · cases h
        exact .stays rfl (Nat.zero_le _) (by rw [hnl]; decide) rfl
      · cases h
        exact .on .plain [.byte c true] rfl fun _ _ => ⟨Nat.le_refl 1, rfl, rfl⟩
  | escapedDouble =>
      dsimp only [step] at h
      split_ifs at h with hzero hnl hescapable
      · cases h
        exact .stays rfl (Nat.zero_le _) (by rw [hnl]; decide) rfl
      · cases h
        exact .on .double [.byte c true] rfl fun _ _ => ⟨Nat.le_succ 1, rfl, rfl⟩
      · -- the backslash stands for itself, in front of a character that it does not quote
        cases h
        have hgoes := @Goes.on .escapedDouble w tokens c .double
          [.byte backslash true, .byte c true] rfl
          fun _ _ => ⟨Nat.le_refl 2, List.count_cons_of_ne (by decide), rfl⟩
        rw [List.append_cons] at hgoes
        exact hgoes
  | expansion n quoted =>
      cases h
      have hgoes := @Goes.on (.expansion n quoted) w tokens c (passOver n quoted) []
        (passOver_inWord n quoted) fun _ hmode => by cases hmode
      rwa [List.append_nil] at hgoes
  | operator op => cases hin
  | comment => cases hin

/-! ## Tokens stay -/

theorem State.endWord_tokens (s : State) : s.tokens <+: s.endWord.tokens :=
  List.prefix_append _ _

theorem State.addOperator_tokens (s : State) (op : Text) : s.tokens <+: (s.addOperator op).tokens :=
  List.prefix_append _ _

section

variable {s s' : State}

theorem tokens_expand {quoted : Bool} (h : expand extent s c rest quoted = some s') :
    s'.tokens = s.tokens := by
  rw [expand, Option.map_eq_some_iff] at h
  obtain ⟨n, _, rfl⟩ := h
  rfl

theorem tokens_plain (h : plainStep extent s c rest = some s') : s.tokens <+: s'.tokens := by
  cases plainStep_cases h with
  | newline hc => exact s.endWord_tokens.trans (s.endWord.addOperator_tokens [nl])
  | blank hc => exact s.endWord_tokens
  | operator hc => exact s.endWord_tokens
  | expansion _ h => exact (tokens_expand h).symm ▸ List.prefix_rfl
  | _ => exact List.prefix_rfl

theorem tokens_double (h : doubleStep extent s c rest = some s') : s'.tokens = s.tokens := by
  rw [doubleStep] at h
  split_ifs at h with hzero hdquote hbackslash hexp
  · cases h
    rfl
  · cases h
    rfl
  · exact tokens_expand h
  · cases h
    rfl

theorem tokens_step (h : step extent s c rest = some s') : s.tokens <+: s'.tokens := by
  obtain ⟨mode, word, tokens⟩ := s
  cases mode with
  | plain => exact tokens_plain h
  | single =>
      dsimp only [step] at h
      split_ifs at h <;> cases h <;> exact List.prefix_rfl
  | double => exact (tokens_double h).symm ▸ List.prefix_rfl
  | escaped =>
      dsimp only [step] at h
      split_ifs at h <;> cases h <;> exact List.prefix_rfl
  | escapedDouble =>
      dsimp only [step] at h
      split_ifs at h <;> cases h <;> exact List.prefix_rfl
  | expansion n quoted =>
      cases h
      exact List.prefix_rfl
  | operator op =>
      dsimp only [step] at h
      split_ifs at h with hlong
      · cases h
        exact List.prefix_rfl
      · have htokens : tokens ++ [.operator op] <+: s'.tokens := tokens_plain h
        exact (List.prefix_append _ _).trans htokens
  | comment =>
      dsimp only [step] at h
      split_ifs at h with hzero hnl
      · cases h
        exact State.addOperator_tokens ⟨_, word, tokens⟩ _
      · cases h
        exact List.prefix_rfl

theorem tokens_finish {all : List Token} (h : finish s = some all) : s.tokens <+: all := by
  obtain ⟨mode, word, tokens⟩ := s
  cases mode with
  | plain =>
      cases h
      exact State.endWord_tokens _
  | operator op =>
      cases h
      exact State.addOperator_tokens _ op
  | comment =>
      cases h
      exact List.prefix_rfl
  | _ => cases h

theorem tokensFrom_cons : tokensFrom extent s (c :: text) =
    (step extent s c text).bind fun s' => tokensFrom extent s' text :=
  Option.bind_assoc _ _ _

/-- What has been recognised is not changed by what follows. -/
theorem tokens_tokensFrom {all : List Token} (h : tokensFrom extent s text = some all) :
    s.tokens <+: all := by
  induction text generalizing s with
  | nil => exact tokens_finish h
  | cons c text ih =>
      rw [tokensFrom_cons, Option.bind_eq_some_iff] at h
      obtain ⟨s', hstep, h⟩ := h
      exact (tokens_step hstep).trans (ih h)

end

/-! ## The end of a word -/

theorem Fixed.of_prefix {u v : List Part} (h : Fixed v) (hpre : u <+: v) : Fixed u :=
  fun text quoted hmem => h text quoted (hpre.subset hmem)

theorem Fixed.right {u v : List Part} (h : Fixed (u ++ v)) : Fixed v :=
  fun text quoted hmem => h text quoted (List.mem_append_right u hmem)

/-- The word is complete with `w'`, for which so many bytes of the text have been read. -/
structure Spends (mode : Mode) (w w' : List Part) (text : Text) (n : Nat) : Prop where
  le : n ≤ text.length
  length : (output w').length ≤ (output w).length + mode.owes + n
  blanks : (output w').count blank = (output w).count blank + (text.take n).count blank

/-- What a word that is being read becomes. -/
structure Becomes (mode : Mode) (w w' : List Part) (text : Text) : Prop where
  extends_ : w <+: w'
  spends : Fixed w' → mode.inExpansion = false → ∃ n, Spends mode w w' text n

theorem Becomes.same (mode : Mode) (w : List Part) (text : Text) : Becomes mode w w text :=
  ⟨List.prefix_rfl, fun _ _ => ⟨0, Nat.zero_le _, Nat.le_add_right _ _, rfl⟩⟩

theorem Becomes.cons {mode mode' : Mode} {v w' : List Part}
    (hextends : Fixed v → mode.inExpansion = false → Extends mode mode' c v)
    (h : Becomes mode' (w ++ v) w' text) : Becomes mode w w' (c :: text) := by
  refine ⟨(List.prefix_append w v).trans h.extends_, fun hfixed hmode => ?_⟩
  obtain ⟨hlength, hblanks, hmode'⟩ := hextends (hfixed.of_prefix h.extends_).right hmode
  obtain ⟨n, hle, hn, hcount⟩ := h.spends hfixed hmode'
  rw [output_append, List.length_append] at hn
  rw [output_append, List.count_append, hblanks] at hcount
  refine ⟨n + 1, Nat.succ_le_succ hle, ?_, ?_⟩
  · calc (output w').length
      _ ≤ (output w).length + (output v).length + mode'.owes + n := hn
      _ = (output w).length + ((output v).length + mode'.owes) + n := by
          rw [Nat.add_assoc (output w).length]
      _ ≤ (output w).length + (mode.owes + 1) + n := by gcongr
      _ = (output w).length + mode.owes + (n + 1) := by ring
  · have hcons : c :: text.take n = [c] ++ text.take n := rfl
    rw [hcount, List.take_succ_cons, hcons, List.count_append, Nat.add_assoc]

/-- The word is the next token. -/
theorem becomes_of_tokensFrom {mode : Mode} {all : List Token} (hin : mode.inWord = true)
    (h : tokensFrom extent ⟨mode, some w, tokens⟩ text = some all) :
    ∃ w' more, all = tokens ++ .word w' :: more ∧ Becomes mode w w' text := by
  induction text generalizing mode w with
  | nil =>
      cases mode with
      | plain =>
          cases h
          exact ⟨w, [], rfl, .same _ w []⟩
      | operator op => cases hin
      | comment => cases hin
      | _ => cases h
  | cons c text ih =>
      rw [tokensFrom_cons, Option.bind_eq_some_iff] at h
      obtain ⟨s', hstep, h⟩ := h
      cases goes_step hin hstep with
      | on mode' v hin' hextends =>
          obtain ⟨w', more, hall, hbecomes⟩ := ih hin' h
          exact ⟨w', more, hall, hbecomes.cons hextends⟩
      | ends _ more heq hplain =>
          obtain ⟨more', rfl⟩ := tokens_tokensFrom h
          exact ⟨w, more ++ more', by rw [heq, List.append_assoc, List.cons_append],
            .same mode w _⟩

/-! ## Words with all the bytes of their texts -/

/-- The end of the text, or the end of the word. -/
def Breaks (rest : Text) : Prop :=
  rest = [] ∨ ∃ more, rest = blank :: more

/-- A byte that is lost cannot be made up for: the blank behind the word would come with it. -/
theorem Spends.not_lost {mode : Mode} {w w' : List Part} {u v : Text} {n : Nat}
    (hrest : Breaks rest) (h : Spends mode w w' (v ++ rest) n) (howes : mode.owes = 0)
    (hw : output w = u) (hw' : output w' = u ++ c :: v) (hc : c ≠ blank) : False := by
  obtain ⟨hle, hlength, hblanks⟩ := h
  rw [hw, hw', howes, List.length_append, List.length_cons] at hlength
  rw [hw, hw', List.count_append, List.count_cons_of_ne hc] at hblanks
  rcases hrest with rfl | ⟨more, rfl⟩
  · rw [List.append_nil] at hle
    omega
  · have hpre : v ++ [blank] <+: (v ++ blank :: more).take n := by
      refine List.prefix_take_iff.2 ⟨⟨more, by simp⟩, ?_⟩
      rw [List.length_append, List.length_singleton]
      omega
    have hcount := hpre.sublist.count_le blank
    rw [List.count_append, List.count_singleton_self] at hcount
    omega

section

variable {w' : List Part} {more : List Token} {u v : Text}

theorem becomes_next {mode : Mode} (hin : mode.inWord = true)
    (h : tokensFrom extent ⟨mode, some w, tokens⟩ text = some (tokens ++ .word w' :: more)) :
    Becomes mode w w' text := by
  obtain ⟨w'', more', hall, hbecomes⟩ := becomes_of_tokensFrom hin h
  have hword := (List.cons.inj (List.append_cancel_left hall)).1
  cases hword
  exact hbecomes

/-- A word that ends here has no more bytes. -/
theorem output_of_ended {s' : State}
    (h : tokensFrom extent s' text = some (tokens ++ .word w' :: more))
    (hs' : tokens ++ [.word (bytes u)] <+: s'.tokens) : output w' = u := by
  have hpre := hs'.trans (tokens_tokensFrom h)
  rw [List.prefix_append_right_inj, List.cons_prefix_cons] at hpre
  cases hpre.1
  exact output_bytes u

theorem inert_step (hrest : Breaks rest) (hfixed : Fixed w') (houtput : output w' = u ++ c :: v)
    (h : tokensFrom extent ⟨.plain, some (bytes u), tokens⟩ (c :: v ++ rest) =
      some (tokens ++ .word w' :: more)) : Inert c := by
  have hlonger : output w' ≠ u := fun hu => by
    rw [houtput] at hu
    exact List.cons_ne_nil c v (List.append_right_eq_self.1 hu)
  -- a byte that changes the mode only is lost
  have hlost : ∀ mode parts, mode.inWord = true → mode.inExpansion = false → mode.owes = 0 →
      output (bytes u ++ parts) = u → c ≠ blank →
      tokensFrom extent ⟨mode, some (bytes u ++ parts), tokens⟩ (v ++ rest) ≠
        some (tokens ++ .word w' :: more) := by
    intro mode parts hin hmode howes hparts hc hfrom
    obtain ⟨n, hspends⟩ := (becomes_next hin hfrom).spends hfixed hmode
    exact hspends.not_lost hrest howes hparts houtput hc
  rw [List.cons_append, tokensFrom_cons, Option.bind_eq_some_iff] at h
  obtain ⟨s', hstep, h⟩ := h
  have hnil : output (bytes u ++ [.mark]) = u := by
    rw [output_append, output_bytes]
    exact List.append_nil u
  have hstep : plainStep extent ⟨.plain, some (bytes u), tokens⟩ c (v ++ rest) = some s' := hstep
  cases plainStep_cases hstep with
  | newline hc =>
      exact absurd (output_of_ended h
        (State.addOperator_tokens (State.endWord ⟨.plain, some (bytes u), tokens⟩) [nl])) hlonger
  | blank hc => exact absurd (output_of_ended h List.prefix_rfl) hlonger
  | operator hc => exact absurd (output_of_ended h List.prefix_rfl) hlonger
  | single hc => exact absurd h (hlost .single [.mark] rfl rfl rfl hnil (by rw [hc]; decide))
  | double hc => exact absurd h (hlost .double [.mark] rfl rfl rfl hnil (by rw [hc]; decide))
  | escape hc =>
      refine absurd ?_ (hlost .escaped [] rfl rfl rfl ?_ (by rw [hc]; decide))
      · rwa [List.append_nil]
      · rw [List.append_nil, output_bytes]
  | expansion _ hexpand =>
      rw [expand, Option.map_eq_some_iff] at hexpand
      obtain ⟨n, _, rfl⟩ := hexpand
      have hbecomes := becomes_next (passOver_inWord n false) h
      have hmem := hbecomes.extends_.subset (List.mem_append_right _ List.mem_cons_self)
      exact absurd hmem (hfixed _ _)
  | comment hc hword => cases hword
  | byte hc => exact hc

theorem inert_of_output (hrest : Breaks rest) (hfixed : Fixed w') (houtput : output w' = u ++ v)
    (h : tokensFrom extent ⟨.plain, some (bytes u), tokens⟩ (v ++ rest) =
      some (tokens ++ .word w' :: more)) : ∀ c ∈ v, Inert c := by
  induction v generalizing u with
  | nil => exact List.forall_mem_nil _
  | cons c v ih =>
      have hc := inert_step hrest hfixed houtput h
      refine List.forall_mem_cons.2 ⟨hc, @ih (u ++ [c]) ?_ ?_⟩
      · rw [houtput, List.append_cons]
      · rw [List.cons_append, tokensFrom_cons, step_inert hc, Option.bind_some] at h
        rw [bytes, List.map_append]
        exact h

end

end

end Tokens
end Shell
end Lib

import Kdump.Lib.ShellTokenRules
import Mathlib.Data.List.TakeWhile

/-!
# ShellPlain — texts that stand for themselves

* `Plain` — no byte has a meaning to the shell, and the text is no pattern;
* `hostile` — surroundings in which neither expansions nor patterns come out as they were;
* `plain_of_seen` — a word that is seen as its text there is plain;
* `plain_between` — texts around a word that make no difference.
-/

namespace Lib
namespace Shell
namespace Tokens

/-- The text of a word that the shell takes as it is. -/
def Plain (text : Text) : Prop :=
  (∀ c ∈ text, Inert c) ∧ ¬ IsPattern (bare text)

instance (text : Text) : Decidable (Plain text) :=
  @instDecidableAnd _ _ (List.decidableBAll Inert text) inferInstance

/-- The word begins neither with a tilde nor with a hash sign. -/
def Starts : Text → Prop
  | [] => False
  | c :: _ => c ≠ tilde ∧ c ≠ hash

instance : (text : Text) → Decidable (Starts text)
  | [] => .isFalse fun h => h
  | _ :: _ => inferInstanceAs (Decidable (_ ∧ _))

/-! ## Fields -/

def itemField : Item → Field
  | .byte c quoted => [(c, quoted)]
  | .mark => []
  | .expanded c => [(c, false)]

/-- Nothing in the items is split. -/
def Whole (items : List Item) : Prop :=
  ∀ c, .expanded c ∈ items → isIfs c = false

section

variable {items : List Item}

theorem Whole.tail {item : Item} (h : Whole (item :: items)) : Whole items :=
  fun c hc => h c (List.mem_cons_of_mem _ hc)

theorem splitFields_some (h : Whole items) (field : Field) :
    splitFields (some field) items = [field ++ items.flatMap itemField] := by
  induction items generalizing field with
  | nil => rw [splitFields, List.flatMap_nil, List.append_nil, Option.toList_some]
  | cons item items ih =>
      rw [List.flatMap_cons, ← List.append_assoc]
      cases item with
      | byte c quoted => exact ih h.tail _
      | mark =>
          rw [itemField, List.append_nil]
          exact ih h.tail field
      | expanded c =>
          have hc : ¬ isIfs c = true := Bool.eq_false_iff.1 (h c List.mem_cons_self)
          rw [splitFields, if_neg hc]
          exact ih h.tail _

theorem splitFields_none (h : Whole items) (hne : items ≠ []) :
    splitFields none items = [items.flatMap itemField] := by
  have hsame : splitFields none items = splitFields (some []) items := by
    cases items with
    | nil => exact absurd rfl hne
    | cons item items =>
        cases item with
        | byte c quoted => rfl
        | mark => rfl
        | expanded c =>
            have hc : ¬ isIfs c = true := Bool.eq_false_iff.1 (h c List.mem_cons_self)
            rw [splitFields, splitFields, if_neg hc, if_neg hc]
            rfl
  rw [hsame, splitFields_some h, List.nil_append]

end

/-- The field of a word, as far as nothing is split. -/
def wordField (env : Surroundings) (w : List Part) : Field :=
  (w.flatMap (Part.items env)).flatMap itemField

section

variable {env : Surroundings} {w : List Part} {text : Text}

theorem flatMap_itemField {f : UInt8 → Item} {quoted : Bool}
    (hf : ∀ c, itemField (f c) = [(c, quoted)]) (text : Text) :
    (text.map f).flatMap itemField = text.map fun c => (c, quoted) := by
  induction text with
  | nil => rfl
  | cons c text ih => rw [List.map_cons, List.flatMap_cons, hf, ih, List.singleton_append,
      List.map_cons]

theorem items_bytes (env : Surroundings) (text : Text) :
    (bytes text).flatMap (Part.items env) = text.map fun c => .byte c false := by
  induction text with
  | nil => rfl
  | cons c text ih => exact congrArg (.byte c false :: ·) ih

theorem wordField_bytes (env : Surroundings) (text : Text) :
    wordField env (bytes text) = bare text := by
  rw [wordField, items_bytes]
  exact flatMap_itemField (fun _ => rfl) text

theorem filenames_of_not_isPattern {field : Field} (h : ¬ IsPattern field) :
    filenames env field = [unquote field] :=
  if_pos (env.only_patterns field h)

/-- A plain text is one argument, wherever the shell is. -/
theorem seen_plain (h : Plain text) (hne : text ≠ []) (env : Surroundings) :
    (Token.word (bytes text)).seen env = [.argument text] := by
  have hwhole : Whole ((bytes text).flatMap (Part.items env)) := by
    intro c hc
    rw [items_bytes, List.mem_map] at hc
    obtain ⟨d, _, hd⟩ := hc
    cases hd
  have hitems : (bytes text).flatMap (Part.items env) ≠ [] := by
    rw [items_bytes]
    exact fun hnil => hne (List.map_eq_nil_iff.1 hnil)
  have hfield := wordField_bytes env text
  rw [wordField] at hfield
  rw [Token.seen, splitFields_none hwhole hitems, hfield, List.flatMap_singleton,
    filenames_of_not_isPattern h.2, unquote_bare]
  rfl

end

/-! ## Hostile surroundings -/

/-- Every expansion and every pattern gives so many bytes and one more. -/
def hostile (n : Nat) : Surroundings where
  expansion _ := List.replicate (n + 1) 120
  pathnames field := if IsPattern field then [List.replicate (n + 1) 120] else []
  only_patterns _ h := if_neg h

section

variable {n : Nat} {w : List Part} {text a : Text}

theorem filenames_hostile {field : Field} (h : IsPattern field) :
    filenames (hostile n) field = [List.replicate (n + 1) 120] := by
  have hpathnames : (hostile n).pathnames field = [List.replicate (n + 1) 120] := if_pos h
  rw [filenames, hpathnames, if_neg (List.cons_ne_nil _ _)]

theorem items_hostile (p : Part) : Whole (p.items (hostile n)) ∧ p.items (hostile n) ≠ [] := by
  have hbyte : ∀ c ∈ List.replicate (n + 1) (120 : UInt8), isIfs c = false := by
    intro c hc
    rw [List.eq_of_mem_replicate hc]
    decide
  cases p with
  | byte c quoted => exact ⟨fun d hd => by simp [Part.items] at hd, List.cons_ne_nil _ _⟩
  | mark => exact ⟨fun d hd => by simp [Part.items] at hd, List.cons_ne_nil _ _⟩
  | expansion text quoted =>
      cases quoted with
      | true =>
          refine ⟨fun d hd => ?_, List.cons_ne_nil _ _⟩
          obtain ⟨c, _, hc⟩ := List.mem_map.1 hd
          cases hc
      | false =>
          refine ⟨fun d hd => ?_, List.cons_ne_nil _ _⟩
          obtain ⟨c, hc, hd⟩ := List.mem_map.1 hd
          cases hd
          exact hbyte d hc

theorem wordField_cons (env : Surroundings) (p : Part) :
    wordField env (p :: w) = (p.items env).flatMap itemField ++ wordField env w := by
  rw [wordField, List.flatMap_cons, List.flatMap_append]
  rfl

/-- A word is one argument there. -/
theorem seen_hostile (hne : w ≠ []) :
    (Token.word w).seen (hostile n) =
      (filenames (hostile n) (wordField (hostile n) w)).map .argument := by
  have hwhole : Whole (w.flatMap (Part.items (hostile n))) := by
    intro c hc
    obtain ⟨p, _, hp⟩ := List.mem_flatMap.1 hc
    exact (items_hostile p).1 c hp
  have hitems : w.flatMap (Part.items (hostile n)) ≠ [] := by
    obtain ⟨p, w', rfl⟩ := List.exists_cons_of_ne_nil hne
    rw [List.flatMap_cons]
    exact List.append_ne_nil_of_left_ne_nil (items_hostile p).2 _
  rw [Token.seen, splitFields_none hwhole hitems, List.flatMap_singleton]
  rfl

theorem seen_hostile_one (hne : w ≠ []) : ∃ a, (Token.word w).seen (hostile n) = [.argument a] := by
  rw [seen_hostile hne]
  by_cases h : IsPattern (wordField (hostile n) w)
  · rw [filenames_hostile h]
    exact ⟨_, rfl⟩
  · rw [filenames_of_not_isPattern h]
    exact ⟨_, rfl⟩

theorem output_of_fixed (h : Fixed w) (env : Surroundings) :
    unquote (wordField env w) = output w := by
  induction w with
  | nil => rfl
  | cons p w ih =>
      have hw := ih fun text quoted hmem => h text quoted (List.mem_cons_of_mem _ hmem)
      rw [wordField_cons, unquote, List.map_append]
      cases p with
      | byte c quoted => exact congrArg (c :: ·) hw
      | mark => exact hw
      | expansion text quoted => exact absurd List.mem_cons_self (h text quoted)

theorem long_of_not_fixed (h : ¬ Fixed w) : n < (unquote (wordField (hostile n) w)).length := by
  induction w with
  | nil => exact absurd (fun _ _ => List.not_mem_nil) h
  | cons p w ih =>
      rw [wordField_cons, unquote, List.map_append, List.length_append]
      by_cases hw : Fixed w
      · cases p with
        | byte c quoted =>
            refine absurd (fun text q hmem => ?_) h
            exact hw text q ((List.mem_cons.1 hmem).resolve_left nofun)
        | mark =>
            refine absurd (fun text q hmem => ?_) h
            exact hw text q ((List.mem_cons.1 hmem).resolve_left nofun)
        | expansion text quoted =>
            have hfield : ((Part.expansion text quoted).items (hostile n)).flatMap itemField =
                (List.replicate (n + 1) 120).map fun c => (c, quoted) := by
              cases quoted with
              | true => exact flatMap_itemField (fun _ => rfl) _
              | false => exact flatMap_itemField (fun _ => rfl) _
            rw [hfield, List.length_map, List.length_map, List.length_replicate]
            exact Nat.lt_add_right _ n.lt_succ_self
      · exact Nat.lt_add_left _ (ih hw)

/-- Only a word without an expansion, which is no pattern, is a short argument there. -/
theorem fixed_of_seen (hne : w ≠ []) (h : (Token.word w).seen (hostile n) = [.argument a])
    (hlength : a.length ≤ n) :
    Fixed w ∧ output w = a ∧ ¬ IsPattern (wordField (hostile n) w) := by
  rw [seen_hostile hne] at h
  have hlong : a ≠ List.replicate (n + 1) 120 := by
    rintro rfl
    rw [List.length_replicate] at hlength
    exact Nat.not_succ_le_self n hlength
  have hpattern : ¬ IsPattern (wordField (hostile n) w) := by
    intro hpattern
    rw [filenames_hostile hpattern] at h
    exact hlong (Seen.argument.inj (List.cons.inj h).1).symm
  rw [filenames_of_not_isPattern hpattern] at h
  have ha : unquote (wordField (hostile n) w) = a := Seen.argument.inj (List.cons.inj h).1
  have hfixed : Fixed w := by
    by_contra hfixed
    have hlt := @long_of_not_fixed n w hfixed
    rw [ha] at hlt
    exact Nat.not_le_of_lt hlt hlength
  exact ⟨hfixed, (output_of_fixed hfixed _).symm.trans ha, hpattern⟩

end

/-! ## Plain words are the only ones -/

section

variable {extent : Extent} {tokens : List Token} {w : List Part} {u v text rest : Text}

/-- A plain word, from its first byte on. -/
theorem run_plain (h : Plain text) (hstarts : Starts text) :
    run extent ⟨.plain, none, tokens⟩ (text ++ rest) =
      run extent ⟨.plain, some (bytes text), tokens⟩ rest := by
  cases text with
  | nil => exact hstarts.elim
  | cons c text =>
      obtain ⟨hc, htext⟩ := List.forall_mem_cons.1 h.1
      rw [List.cons_append, run_inert_start hc hstarts.1 hstarts.2, run_inert htext]
      rfl

theorem tokensFrom_plain (h : Plain text) (hstarts : Starts text) :
    tokensFrom extent ⟨.plain, none, tokens⟩ (text ++ rest) =
      tokensFrom extent ⟨.plain, some (bytes text), tokens⟩ rest :=
  congrArg (Option.bind · finish) (run_plain h hstarts)

theorem tokensFrom_inert (h : ∀ c ∈ v, Inert c) :
    tokensFrom extent ⟨.plain, some (bytes u), tokens⟩ (v ++ rest) =
      tokensFrom extent ⟨.plain, some (bytes (u ++ v)), tokens⟩ rest := by
  rw [tokensFrom, run_inert h, bytes, bytes, ← List.map_append]
  rfl

theorem tokensFrom_blank : tokensFrom extent ⟨.plain, some w, tokens⟩ (blank :: rest) =
    tokensFrom extent ⟨.plain, none, tokens ++ [.word w]⟩ rest :=
  rfl

theorem tokensFrom_end :
    tokensFrom extent ⟨.plain, some w, tokens⟩ [] = some (tokens ++ [.word w]) :=
  rfl

theorem word_of_inert {after : List Token} (hrest : Breaks rest) (hv : ∀ c ∈ v, Inert c)
    (h : tokensFrom extent ⟨.plain, some (bytes u), tokens⟩ (v ++ rest) =
      some (tokens ++ .word w :: after)) : bytes (u ++ v) = w := by
  have hpre : tokens ++ [.word (bytes (u ++ v))] <+: tokens ++ .word w :: after := by
    rw [tokensFrom_inert hv] at h
    rcases hrest with rfl | ⟨more, rfl⟩
    · exact (Option.some.inj h) ▸ List.prefix_rfl
    · rw [tokensFrom_blank] at h
      exact tokens_tokensFrom h
  rw [List.prefix_append_right_inj, List.cons_prefix_cons] at hpre
  exact Token.word.inj hpre.1

/-- The words of these texts. -/
def wordsOf (texts : List Text) : List Token :=
  texts.map fun text => .word (bytes text)

theorem seen_wordsOf {texts : List Text} (h : ∀ text ∈ texts, Plain text ∧ text ≠ [])
    (env : Surroundings) :
    (wordsOf texts).flatMap (Token.seen env) = texts.map .argument := by
  induction texts with
  | nil => rfl
  | cons text texts ih =>
      obtain ⟨⟨hplain, hne⟩, htexts⟩ := List.forall_mem_cons.1 h
      have hrest := ih htexts
      rw [wordsOf] at hrest ⊢
      rw [List.map_cons, List.flatMap_cons, seen_plain hplain hne, hrest]
      rfl

/-- The argument that comes next, in all surroundings, is the text from which it is read.  So the
text is plain. -/
theorem plain_of_seen (hrest : Breaks rest) (hu : u ≠ [])
    (hinert : ∀ c ∈ u, Inert c)
    (h : ∀ env, ∃ more, (tokensFrom extent ⟨.plain, some (bytes u), tokens⟩ (v ++ rest)).map
        (fun all => all.flatMap (Token.seen env)) =
      some (tokens.flatMap (Token.seen env) ++ .argument (u ++ v) :: more)) :
    Plain (u ++ v) := by
  obtain ⟨more, h⟩ := h (hostile (u ++ v).length)
  rw [Option.map_eq_some_iff] at h
  obtain ⟨all, hfrom, h⟩ := h
  obtain ⟨w, after, rfl, hbecomes⟩ := @becomes_of_tokensFrom _ _ _ _ .plain _ rfl hfrom
  have hne : w ≠ [] := by
    obtain ⟨c, u, rfl⟩ := List.exists_cons_of_ne_nil hu
    exact fun hnil => List.cons_ne_nil _ _ (List.prefix_nil.1 (hnil ▸ hbecomes.extends_))
  rw [List.flatMap_append, List.flatMap_cons, List.append_cancel_left_eq] at h
  obtain ⟨a, hseen⟩ := @seen_hostile_one (u ++ v).length w hne
  rw [hseen, List.singleton_append] at h
  cases Seen.argument.inj (List.cons.inj h).1
  obtain ⟨hfixed, houtput, hpattern⟩ := fixed_of_seen hne hseen le_rfl
  have hv := inert_of_output hrest hfixed houtput hfrom
  refine ⟨List.forall_mem_append.2 ⟨hinert, hv⟩, ?_⟩
  cases word_of_inert hrest hv hfrom
  rwa [wordField_bytes] at hpattern

/-- The same for a word from its first byte on. -/
theorem plain_of_seen_start (hrest : Breaks rest) (hstarts : Starts text)
    (hhead : ∀ c ∈ text.head?, Inert c)
    (h : ∀ env, ∃ more, (tokensFrom extent ⟨.plain, none, tokens⟩ (text ++ rest)).map
        (fun all => all.flatMap (Token.seen env)) =
      some (tokens.flatMap (Token.seen env) ++ .argument text :: more)) :
    Plain text := by
  cases text with
  | nil => exact hstarts.elim
  | cons c text =>
      have hc : Inert c := hhead c rfl
      refine @plain_of_seen extent tokens [c] text rest hrest (List.cons_ne_nil _ _)
        (List.forall_mem_singleton.2 hc) fun env => ?_
      obtain ⟨more, h⟩ := h env
      have hstart : tokensFrom extent ⟨.plain, none, tokens⟩ (c :: text ++ rest) =
          tokensFrom extent ⟨.plain, some (bytes [c]), tokens⟩ (text ++ rest) :=
        congrArg (Option.bind · finish) (run_inert_start hc hstarts.1 hstarts.2)
      rw [hstart] at h
      exact ⟨more, h⟩

end

/-! ## Patterns -/

/-- The bytes that begin a pattern, and the one that ends it. -/
def patternBytes : Text :=
  [42, 63, backslash, 91, 93]

theorem isPattern_left {u text : Text} (h : ∀ c ∈ u, c ∉ patternBytes) :
    IsPattern (bare (u ++ text)) ↔ IsPattern (bare text) := by
  induction u with
  | nil => rfl
  | cons c u ih =>
      obtain ⟨hc, hu⟩ := List.forall_mem_cons.1 h
      refine Iff.trans (or_iff_right ?_) (ih hu)
      rintro ⟨_, rfl | rfl | rfl | ⟨rfl, _⟩⟩ <;> exact hc (by decide)

/-- A closing bracket behind the first byte, and no slash in front of it. -/
def closes (field : Field) : Bool :=
  let inside := field.tail.takeWhile fun x => x ≠ (93, false)
  decide (inside.length < field.tail.length) && (field.take 1 ++ inside).all fun x => x.1 ≠ 47

section

variable {field more : Field}

theorem closes_of_notMem (h : ∀ x ∈ field.tail, x ≠ (93, false)) : closes field = false := by
  have hall : field.tail.takeWhile (fun x => decide (x ≠ (93, false))) = field.tail := by
    rw [List.takeWhile_eq_self_iff]
    exact fun x hx => decide_eq_true (h x hx)
  rw [closes, hall, decide_eq_false (Nat.lt_irrefl _), Bool.false_and]

theorem takeWhile_shorter {p : UInt8 × Bool → Bool} (h : ¬ ∀ x ∈ field, p x = true) :
    (field.takeWhile p).length < field.length := by
  refine lt_of_le_of_ne (List.takeWhile_sublist p).length_le fun heq => h ?_
  have hall := (List.takeWhile_prefix p).eq_of_length heq
  rwa [List.takeWhile_eq_self_iff] at hall

theorem closes_right (h : ∀ x ∈ more, x ≠ (93, false)) : closes (field ++ more) = closes field := by
  cases field with
  | nil => exact closes_of_notMem fun x hx => h x (List.mem_of_mem_tail hx)
  | cons x field =>
      by_cases hfield : ∀ y ∈ field, y ≠ (93, false)
      · have hboth := List.forall_mem_append.2 ⟨hfield, h⟩
        rw [@closes_of_notMem (x :: field) hfield]
        exact @closes_of_notMem (x :: field ++ more) hboth
      · -- the first closing bracket is in the field
        have hshort : (field.takeWhile fun y => decide (y ≠ (93, false))).length < field.length :=
          takeWhile_shorter fun hall => hfield fun y hy => of_decide_eq_true (hall y hy)
        have hsame : (field ++ more).takeWhile (fun y => decide (y ≠ (93, false))) =
            field.takeWhile fun y => decide (y ≠ (93, false)) := by
          rw [List.takeWhile_append, if_neg (Nat.ne_of_lt hshort)]
        rw [List.cons_append, closes, closes, List.tail_cons, List.tail_cons, hsame,
          List.length_append, decide_eq_true hshort, decide_eq_true (Nat.lt_add_right _ hshort)]
        rfl

theorem closesBracket_eq (field : Field) : closesBracket field =
    closes (if field.head? = some (33, false) then field.tail else field) :=
  rfl

theorem closesBracket_right (h : ∀ x ∈ more, x ≠ (93, false)) :
    closesBracket (field ++ more) = closesBracket field := by
  cases field with
  | nil =>
      rw [List.nil_append, closesBracket_eq]
      split_ifs
      · exact closes_of_notMem fun x hx => h x (List.mem_of_mem_tail (List.mem_of_mem_tail hx))
      · exact closes_of_notMem fun x hx => h x (List.mem_of_mem_tail hx)
  | cons x field =>
      rw [closesBracket_eq, closesBracket_eq, List.cons_append, List.head?_cons, List.head?_cons]
      split_ifs
      · exact closes_right h
      · exact @closes_right (x :: field) more h

end

theorem isPattern_right {text v : Text} (h : ∀ c ∈ v, c ∉ patternBytes) :
    IsPattern (bare (text ++ v)) ↔ IsPattern (bare text) := by
  induction text with
  | nil =>
      have hv := @isPattern_left v [] h
      rwa [List.append_nil] at hv
  | cons c text ih =>
      have hend : ∀ x ∈ bare v, x ≠ (93, false) := by
        rintro x hx rfl
        obtain ⟨d, hd, hx⟩ := List.mem_map.1 hx
        cases hx
        exact h _ hd (by decide)
      have hbracket := @closesBracket_right (bare text) _ hend
      rw [bare, bare, ← List.map_append] at hbracket
      refine or_congr (and_congr_right fun _ => or_congr_right <| or_congr_right <|
        or_congr_right <| and_congr_right fun _ => ?_) ih
      exact Bool.eq_iff_iff.1 hbracket

/-- Bytes that mean nothing, wherever they are. -/
def Harmless (text : Text) : Prop :=
  ∀ c ∈ text, c ∉ meaning ++ patternBytes

instance (text : Text) : Decidable (Harmless text) :=
  List.decidableBAll (fun c => c ∉ meaning ++ patternBytes) text

theorem Harmless.inert {text : Text} (h : Harmless text) : ∀ c ∈ text, Inert c :=
  fun c hc hmem => h c hc (List.mem_append_left _ hmem)

theorem Harmless.notMem {text : Text} (h : Harmless text) : ∀ c ∈ text, c ∉ patternBytes :=
  fun c hc hmem => h c hc (List.mem_append_right _ hmem)

/-- Harmless texts around a word make no difference. -/
theorem plain_between {u text v : Text} (hu : Harmless u) (hv : Harmless v) :
    Plain (u ++ text ++ v) ↔ Plain text := by
  refine and_congr ?_ ((isPattern_right hv.notMem).trans (isPattern_left hu.notMem)).not
  rw [List.forall_mem_append, List.forall_mem_append]
  exact ⟨fun h => h.1.2, fun h => ⟨⟨hu.inert, h⟩, hv.inert⟩⟩

end Tokens
end Shell
end Lib

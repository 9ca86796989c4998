import Kdump.Lib.Shell

/-!
# ShellRules — how scripts are read and executed

* rules for the lexer, for the texts of which a script is put together;
* `assignment?` and `exec` for assignments;
* the fields of a parameter that stands behind a quoted text, and when they give its value back.
-/

namespace Lib
namespace Shell

/-! ## Reading -/

/-- A byte that stands for itself, wherever it is in a word. -/
def IsLiteral (c : UInt8) : Prop :=
  isBlank c = false ∧ isSpecial c = false ∧
    c ≠ nl ∧ c ≠ quote ∧ c ≠ backslash ∧ c ≠ dollar ∧ c ≠ hash

instance (c : UInt8) : Decidable (IsLiteral c) :=
  inferInstanceAs (Decidable (_ ∧ _))

/-- The bytes that have a meaning. -/
def meaningful : Text :=
  [tab, nl, blank, hash, dollar, quote, backslash, 0, 34, 38, 40, 41, 59, 60, 62, 96, 124, 126]

theorem isLiteral_of_notMem {c : UInt8} (h : c ∉ meaningful) : IsLiteral c := by
  have hne : ∀ {d}, d ∈ meaningful → c ≠ d := by
    rintro d hd rfl
    exact h hd
  have hspecial : isSpecial c = false := by
    refine Bool.eq_false_iff.2 fun hc => h ?_
    exact (List.suffix_append [tab, nl, blank, hash, dollar, quote, backslash] _).subset
      (List.contains_iff_mem.1 hc)
  refine ⟨Bool.or_eq_false_iff.2 ⟨beq_false_of_ne (hne ?_), beq_false_of_ne (hne ?_)⟩, hspecial,
    hne ?_, hne ?_, hne ?_, hne ?_, hne ?_⟩
  all_goals decide

/-- A kind of bytes that has none of these. -/
theorem isLiteral_of_any {p : UInt8 → Bool} (hp : meaningful.any p = false) {c : UInt8}
    (h : p c = true) : IsLiteral c :=
  isLiteral_of_notMem fun hc => List.any_eq_false.1 hp c hc h

theorem isLiteral_of_isNameChar {c : UInt8} (h : isNameChar c = true) : IsLiteral c :=
  isLiteral_of_any (by decide) h

theorem isNameChar_of_isName {name : Text} (h : isName name = true) :
    ∀ c ∈ name, isNameChar c = true :=
  List.all_eq_true.1 (Bool.and_eq_true_iff.1 h).1

/-- The beginning of an assignment. -/
theorem isLiteral_name_equals {name : Text} (h : isName name = true) :
    ∀ c ∈ name ++ [equals], IsLiteral c := by
  intro c hc
  rcases List.mem_append.1 hc with hc | hc
  · exact isLiteral_of_isNameChar (isNameChar_of_isName h c hc)
  · rw [List.mem_singleton.1 hc]
    decide

namespace Lexer

variable {word : Option Word} {w : Word} {words : List Word} {commands : List Command}

theorem lex_cons (s : Lexer) (c : UInt8) (text : Text) :
    s.lex (c :: text) = (s.step c).bind fun s' => s'.lex text := rfl

theorem lex_append (s : Lexer) (text text' : Text) :
    s.lex (text ++ text') = (s.lex text).bind fun s' => s'.lex text' :=
  List.foldlM_append

/-- A text that is read on from a state that is known. -/
theorem lex_append_of {s s' : Lexer} {text : Text} (h : s.lex text = some s') (text' : Text) :
    s.lex (text ++ text') = s'.lex text' := by
  rw [lex_append, h]
  rfl

theorem step_literal {c : UInt8} (h : IsLiteral c) :
    step ⟨.plain, word, words, commands⟩ c =
      some ⟨.plain, some (word.getD [] ++ [.literal c]), words, commands⟩ := by
  rcases h with ⟨hblank, hspecial, hnl, hquote, hbackslash, hdollar, hhash⟩
  unfold step plainStep
  rw [if_neg hnl, if_neg (Bool.not_eq_true _ ▸ hblank), if_neg hquote, if_neg hbackslash,
    if_neg hdollar, if_neg fun h => hhash h.1, if_neg (Bool.not_eq_true _ ▸ hspecial)]
  rfl

theorem lex_literal (text : Text) (h : ∀ c ∈ text, IsLiteral c) :
    lex ⟨.plain, some w, words, commands⟩ text =
      some ⟨.plain, some (w ++ text.map .literal), words, commands⟩ := by
  induction text generalizing w with
  | nil =>
      rw [List.map_nil, List.append_nil]
      rfl
  | cons c text ih =>
      rcases List.forall_mem_cons.1 h with ⟨hc, htext⟩
      rw [lex_cons, step_literal hc, Option.bind_some, ih htext, Option.getD_some,
        List.map_cons, List.append_assoc]
      rfl

/-- The beginning of a word. -/
theorem lex_literal_start {text : Text} (hne : text ≠ []) (h : ∀ c ∈ text, IsLiteral c) :
    lex ⟨.plain, none, words, commands⟩ text =
      some ⟨.plain, some (text.map .literal), words, commands⟩ := by
  cases text with
  | nil => exact (hne rfl).elim
  | cons c text =>
      rcases List.forall_mem_cons.1 h with ⟨hc, htext⟩
      rw [lex_cons, step_literal hc, Option.bind_some, lex_literal text htext]
      rfl

theorem lex_single (text : Text) (hquote : quote ∉ text) (hnul : 0 ∉ text) :
    lex ⟨.single, some w, words, commands⟩ text =
      some ⟨.single, some (w ++ text.map .quoted), words, commands⟩ := by
  induction text generalizing w with
  | nil =>
      rw [List.map_nil, List.append_nil]
      rfl
  | cons c text ih =>
      rcases List.ne_and_not_mem_of_not_mem_cons hquote with ⟨hc, hquote⟩
      rcases List.ne_and_not_mem_of_not_mem_cons hnul with ⟨hzero, hnul⟩
      have hstep : step ⟨.single, some w, words, commands⟩ c =
          some ⟨.single, some (w ++ [.quoted c]), words, commands⟩ := by
        unfold step
        dsimp only
        rw [if_neg hzero.symm, if_neg hc.symm]
        rfl
      rw [lex_cons, hstep, Option.bind_some, ih hquote hnul, List.map_cons, List.append_assoc]
      rfl

/-- A text between single quotes. -/
theorem lex_quotes (text : Text) (hquote : quote ∉ text) (hnul : 0 ∉ text) :
    lex ⟨.plain, word, words, commands⟩ (quote :: text ++ [quote]) =
      some ⟨.plain, some (word.getD [] ++ .mark :: text.map .quoted), words, commands⟩ := by
  have hopen : step ⟨.plain, word, words, commands⟩ quote =
      some ⟨.single, some (word.getD [] ++ [.mark]), words, commands⟩ := rfl
  rw [List.cons_append, lex_cons, hopen, Option.bind_some,
    lex_append_of (lex_single text hquote hnul), List.append_assoc]
  rfl

/-- White space between words. -/
theorem lex_blanks (text : Text) (h : ∀ c ∈ text, isBlank c = true) :
    lex ⟨.plain, none, words, commands⟩ text = some ⟨.plain, none, words, commands⟩ := by
  induction text with
  | nil => rfl
  | cons c text ih =>
      rcases List.forall_mem_cons.1 h with ⟨hc, htext⟩
      have hstep : step ⟨.plain, none, words, commands⟩ c =
          some ⟨.plain, none, words, commands⟩ := by
        have hnl : c ≠ nl := by
          rintro rfl
          cases hc
        unfold step plainStep
        rw [if_neg hnl, if_pos hc]
        unfold endWord
        rw [Option.toList_none, List.append_nil]
      rw [lex_cons, hstep, Option.bind_some, ih htext]

theorem lex_comment (text : Text) (hnl : nl ∉ text) (hnul : 0 ∉ text) :
    lex ⟨.comment, word, words, commands⟩ text = some ⟨.comment, word, words, commands⟩ := by
  induction text with
  | nil => rfl
  | cons c text ih =>
      rcases List.ne_and_not_mem_of_not_mem_cons hnl with ⟨hc, hnl⟩
      rcases List.ne_and_not_mem_of_not_mem_cons hnul with ⟨hzero, hnul⟩
      have hstep : step ⟨.comment, word, words, commands⟩ c =
          some ⟨.comment, word, words, commands⟩ := by
        unfold step
        dsimp only
        rw [if_neg hzero.symm, if_neg hc.symm]
      rw [lex_cons, hstep, Option.bind_some, ih hnl hnul]

theorem lex_parameter (text : Text) (name : Text) (hname : name ≠ [])
    (h : ∀ c ∈ text, isNameChar c = true) :
    lex ⟨.parameter name, word, words, commands⟩ text =
      some ⟨.parameter (name ++ text), word, words, commands⟩ := by
  induction text generalizing name with
  | nil =>
      rw [List.append_nil]
      rfl
  | cons c text ih =>
      rcases List.forall_mem_cons.1 h with ⟨hc, htext⟩
      have hstep : step ⟨.parameter name, word, words, commands⟩ c =
          some ⟨.parameter (name ++ [c]), word, words, commands⟩ := by
        unfold step
        dsimp only
        rw [if_pos ⟨hc, fun h => hname h.1⟩]
      rw [lex_cons, hstep, Option.bind_some, ih (name ++ [c]) (by simp) htext, List.append_assoc]
      rfl

theorem endCommand_none (mode : Mode) :
    endCommand ⟨mode, none, words, commands⟩ =
      ⟨mode, none, [], if words = [] then commands else commands ++ [words]⟩ := by
  unfold endCommand
  dsimp only
  rw [Option.toList_none, List.append_nil]

theorem endCommand_some (mode : Mode) :
    endCommand ⟨mode, some w, words, commands⟩ =
      ⟨mode, none, [], commands ++ [words ++ [w]]⟩ := by
  unfold endCommand
  dsimp only
  rw [Option.toList_some, if_neg (List.append_ne_nil_of_right_ne_nil _ (List.cons_ne_nil _ _))]

/-- A parameter at the end of a line. -/
theorem lex_dollar {name : Text} (hname : isName name = true) :
    lex ⟨.plain, word, words, commands⟩ (dollar :: name ++ [nl]) =
      some ⟨.plain, none, [], commands ++ [words ++ [word.getD [] ++ [.parameter name]]]⟩ := by
  cases name with
  | nil => cases hname
  | cons c name =>
      unfold isName at hname
      rcases Bool.and_eq_true_iff.1 hname with ⟨hall, hdigit⟩
      rcases List.forall_mem_cons.1 (List.all_eq_true.1 hall) with ⟨hc, hmore⟩
      have hopen : step ⟨.plain, word, words, commands⟩ dollar =
          some ⟨.parameter [], word, words, commands⟩ := rfl
      -- a digit would be a parameter of its own
      have hnot : ¬ (([] : Text) = [] ∧ isDigit c = true) := by
        rintro ⟨_, h⟩
        rw [List.head?_cons, Option.elim_some, h] at hdigit
        cases hdigit
      have hfirst : step ⟨.parameter [], word, words, commands⟩ c =
          some ⟨.parameter [c], word, words, commands⟩ := if_pos ⟨hc, hnot⟩
      have hclose : step ⟨.parameter (c :: name), word, words, commands⟩ nl =
          some ⟨.plain, none, [], commands ++ [words ++ [word.getD [] ++
            [.parameter (c :: name)]]]⟩ := by
        have hend : step ⟨.parameter (c :: name), word, words, commands⟩ nl =
            some (endCommand
              ⟨.plain, some (word.getD [] ++ [.parameter (c :: name)]), words, commands⟩) := rfl
        rw [hend, endCommand_some]
      rw [List.cons_append, lex_cons, hopen, Option.bind_some, List.cons_append, lex_cons, hfirst,
        Option.bind_some, lex_append_of (lex_parameter name [c] (List.cons_ne_nil _ _) hmore)]
      exact (lex_cons ..).trans ((congrArg (Option.bind · _) hclose).trans rfl)

/-- The end of a line ends the command. -/
theorem step_nl_some :
    step ⟨.plain, some w, words, commands⟩ nl =
      some ⟨.plain, none, [], commands ++ [words ++ [w]]⟩ := by
  have hend : step ⟨.plain, some w, words, commands⟩ nl =
      some (endCommand ⟨.plain, some w, words, commands⟩) := rfl
  rw [hend, endCommand_some]

end Lexer

/-! ## Assignments -/

section Assignments

variable {name : Text} {word : Word} {env : Environment} {vars : Vars} {output : Text}

/-- The word that assigns to a name what the other parts of it make. -/
def assignmentWord (name : Text) (word : Word) : Word :=
  name.map .literal ++ .literal equals :: word

theorem leadingName_assignmentWord (h : ∀ c ∈ name, isNameChar c = true) :
    leadingName (assignmentWord name word) = name := by
  unfold assignmentWord
  induction name with
  | nil => rfl
  | cons c name ih =>
      rcases List.forall_mem_cons.1 h with ⟨hc, hname⟩
      rw [List.map_cons, List.cons_append, leadingName, if_pos hc, ih hname]

theorem assignment?_assignmentWord (h : isName name = true) :
    assignment? (assignmentWord name word) = some (name, word) := by
  have hlength : (name.map Piece.literal).length = name.length := List.length_map _
  have hequals : (assignmentWord name word)[name.length]? = some (.literal equals) := by
    unfold assignmentWord
    rw [← hlength, List.getElem?_append_right le_rfl, Nat.sub_self]
    rfl
  have hvalue : (assignmentWord name word).drop (name.length + 1) = word := by
    unfold assignmentWord
    rw [← hlength, ← List.drop_drop, List.drop_left]
    rfl
  unfold assignment?
  rw [leadingName_assignmentWord (isNameChar_of_isName h)]
  dsimp only
  rw [if_pos ⟨h, hequals⟩, hvalue]

theorem splitAssignments_cons (h : isName name = true) (words : List Word) :
    splitAssignments (assignmentWord name word :: words) =
      ((name, word) :: (splitAssignments words).1, (splitAssignments words).2) := by
  rw [splitAssignments, assignment?_assignmentWord h]

/-- A command that is an assignment only. -/
theorem exec_assignment (h : Ordinary name) :
    exec env (vars, output) [assignmentWord name word] =
      some (assign vars (name, word), output) := by
  unfold exec
  rw [splitAssignments_cons h.1]
  have hordinary :
      ¬ ([(name, word)].any fun assignment => assignment.1 ∈ shellVariables) = true := by
    intro hany
    rcases List.any_eq_true.1 hany with ⟨assignment, hmem, hspecial⟩
    rw [List.mem_singleton.1 hmem] at hspecial
    exact h.2 (of_decide_eq_true hspecial)
  dsimp only [splitAssignments]
  rw [if_neg hordinary]
  rfl

/-- A command with a name. -/
theorem exec_utility {command words : Command} {assignments : List (Text × Word)}
    {first : Text} {rest : List Text} (hsplit : splitAssignments command = (assignments, words))
    (hordinary : ∀ assignment ∈ assignments, assignment.1 ∉ shellVariables)
    (hreserved : ∀ w ∈ words.head?, w ∉ reservedWords.map (·.map Piece.literal))
    (hwords : words.flatMap (expandWord env vars) = first :: rest)
    (hspecial : first ∉ specialUtilities) :
    exec env (vars, output) command = some (vars, output ++
      if first = ascii "echo" then env.echo rest else env.utility (first :: rest)) := by
  have hnone : ¬ (assignments.any fun assignment => assignment.1 ∈ shellVariables) = true := by
    intro hany
    rcases List.any_eq_true.1 hany with ⟨assignment, hmem, hvariable⟩
    exact hordinary assignment hmem (of_decide_eq_true hvariable)
  have hhead : ¬ (words.head?.any fun w => w ∈ reservedWords.map (·.map Piece.literal)) = true := by
    intro hany
    rcases (Option.any_eq_true ..).1 hany with ⟨w, hw, hmem⟩
    exact hreserved w hw (of_decide_eq_true hmem)
  unfold exec
  rw [hsplit]
  dsimp only
  rw [if_neg hnone, if_neg hhead, hwords]
  dsimp only
  split_ifs
  · rfl
  · rfl

end Assignments

/-! ## Fields -/

/-- What an expansion has brought into a field. -/
def bare (text : Text) : Field :=
  text.map fun c => (c, false)

theorem unquote_bare (text : Text) : unquote (bare text) = text := by
  unfold unquote bare
  rw [List.map_map]
  exact List.map_id _

theorem unquote_quoted (text text' : Text) :
    unquote ((text.map fun c => (c, true)) ++ bare text') = text ++ text' := by
  unfold unquote
  rw [List.map_append, List.map_map]
  exact congrArg₂ _ (List.map_id _) (unquote_bare text')

theorem splitFields_quoted (text : Text) (field : Field) (items : List Item) :
    splitFields (some field) (text.map (fun c => .byte c true) ++ items) =
      splitFields (some (field ++ text.map fun c => (c, true))) items := by
  induction text generalizing field with
  | nil => rw [List.map_nil, List.nil_append, List.map_nil, List.append_nil]
  | cons c text ih =>
      rw [List.map_cons, List.cons_append, splitFields, ih, Option.getD_some, List.append_assoc]
      rfl

/-- What has been expanded is split at white space: its first part goes on with the field before,
and of the other ones, the empty ones are left out. -/
theorem splitFields_expanded (text : Text) : ∃ head tail,
    text.splitOnP isIfs = head :: tail ∧
      (∀ field, splitFields (some field) (text.map .expanded) =
        (field ++ bare head) :: (tail.filter (· ≠ [])).map bare) ∧
      splitFields none (text.map .expanded) = ((head :: tail).filter (· ≠ [])).map bare := by
  induction text with
  | nil => exact ⟨[], [], rfl, fun field => congrArg (· :: []) (List.append_nil field).symm, rfl⟩
  | cons c text ih =>
      rcases ih with ⟨head, tail, hsplit, hsome, hnone⟩
      by_cases hc : isIfs c = true
      · -- the field before ends here, and what follows begins with a field of its own
        refine ⟨[], head :: tail, ?_, fun field => ?_, ?_⟩
        · rw [List.splitOnP_cons_eq_if_modifyHead, if_pos hc, hsplit]
        · rw [List.map_cons, splitFields, if_pos hc, hnone, bare, List.map_nil, List.append_nil]
          rfl
        · rw [List.map_cons, splitFields, if_pos hc, hnone]
          rfl
      · -- the byte belongs to the first part
        have hfirst : ∀ field : Field,
            field ++ [(c, false)] ++ bare head = field ++ bare (c :: head) :=
          fun field => List.append_assoc _ _ _
        refine ⟨c :: head, tail, ?_, fun field => ?_, ?_⟩
        · rw [List.splitOnP_cons_eq_if_modifyHead, if_neg hc, hsplit]
          rfl
        · rw [List.map_cons, splitFields, if_neg hc, hsome, Option.getD_some, hfirst]
        · rw [List.map_cons, splitFields, if_neg hc, hsome, Option.getD_none, hfirst]
          rfl

/-! ## Patterns -/

theorem isPattern_quoted (text : Text) (field : Field) :
    IsPattern (text.map (fun c => (c, true)) ++ field) ↔ IsPattern field := by
  induction text with
  | nil => rfl
  | cons c text ih =>
      rw [List.map_cons, List.cons_append, IsPattern, ih]
      exact or_iff_right fun h => absurd h.1 nofun

/-- A backslash makes a pattern. -/
theorem backslash_notMem {text : Text} (h : ¬ IsPattern (bare text)) : backslash ∉ text := by
  induction text with
  | nil => exact List.not_mem_nil
  | cons c text ih =>
      have h' := not_or.1 h
      intro hmem
      rcases List.mem_cons.1 hmem with rfl | hmem
      · exact h'.1 ⟨rfl, .inr (.inr (.inl rfl))⟩
      · exact ih h'.2 hmem

/-! ## A parameter behind a quoted text -/

section Parameter

variable {env : Environment} {vars : Vars} {before name value : Text}

/-- The word `'before'$name`. -/
def quotedParameter (before name : Text) : Word :=
  .mark :: before.map .quoted ++ [.parameter name]

/-- The fields of the word. -/
theorem splitFields_quotedParameter (hvalue : vars name = some value) : ∃ head tail,
    value.splitOnP isIfs = head :: tail ∧
      splitFields none ((quotedParameter before name).flatMap (expandPiece vars)) =
        ((before.map fun c => (c, true)) ++ bare head) :: (tail.filter (· ≠ [])).map bare := by
  rcases splitFields_expanded value with ⟨head, tail, hsplit, hsome, _⟩
  refine ⟨head, tail, hsplit, ?_⟩
  have hitems : (quotedParameter before name).flatMap (expandPiece vars) =
      .mark :: (before.map (fun c => .byte c true) ++ value.map .expanded) := by
    unfold quotedParameter
    rw [List.flatMap_append, List.flatMap_cons, List.flatMap_map, List.flatMap_singleton]
    have hquoted : before.flatMap (fun c => expandPiece vars (.quoted c)) =
        before.map fun c => .byte c true := List.flatMap_pure_eq_map _ _
    have hexpanded : expandPiece vars (.parameter name) = value.map .expanded := by
      rw [expandPiece, hvalue, Option.getD_some]
    rw [hquoted, hexpanded]
    rfl
  rw [hitems, splitFields, splitFields_quoted, hsome]
  rfl

theorem splitOnP_of_white {text : Text} (h : ∀ c ∈ text, isIfs c = true → c = blank) :
    text.splitOnP isIfs = text.splitOn blank := by
  induction text with
  | nil => rfl
  | cons c text ih =>
      rcases List.forall_mem_cons.1 h with ⟨hc, htext⟩
      have hsame : isIfs c = (c == blank) := by
        cases hifs : isIfs c with
        | true =>
            rw [hc hifs]
            rfl
        | false =>
            refine (beq_false_of_ne ?_).symm
            rintro rfl
            cases hifs
      rw [List.splitOnP_cons_eq_if_modifyHead, ih htext, List.splitOn_cons_eq_if_modifyHead, hsame]

theorem notMem_of_splitOnP {p : UInt8 → Bool} {c : UInt8} (hc : p c = true) (text : Text) :
    ∀ w ∈ text.splitOnP p, c ∉ w := by
  induction text with
  | nil =>
      intro w hw
      rw [List.mem_singleton.1 hw]
      exact List.not_mem_nil
  | cons d text ih =>
      rw [List.splitOnP_cons_eq_if_modifyHead]
      split_ifs with hd
      · exact List.forall_mem_cons.2 ⟨List.not_mem_nil, ih⟩
      · cases hsplit : text.splitOnP p with
        | nil => exact nofun
        | cons head tail =>
            rw [hsplit] at ih
            rcases List.forall_mem_cons.1 ih with ⟨hhead, htail⟩
            refine List.forall_mem_cons.2 ⟨fun hmem => ?_, htail⟩
            rcases List.mem_cons.1 hmem with rfl | hmem
            · exact hd hc
            · exact hhead hmem

theorem intercalate_append_head (sep before head : Text) (tail : List Text) :
    sep.intercalate ((before ++ head) :: tail) = before ++ sep.intercalate (head :: tail) := by
  cases tail with
  | nil => rw [List.intercalate_singleton, List.intercalate_singleton]
  | cons next tail =>
      rw [List.intercalate_cons_cons, List.intercalate_cons_cons, List.append_assoc before,
        List.append_assoc before]

theorem mem_intercalate {sep : Text} {texts : List Text} {c : UInt8}
    (h : c ∈ sep.intercalate texts) : c ∈ sep ∨ ∃ text ∈ texts, c ∈ text := by
  induction texts with
  | nil => cases h
  | cons first texts ih =>
      cases texts with
      | nil =>
          rw [List.intercalate_singleton] at h
          exact .inr ⟨first, List.mem_singleton.2 rfl, h⟩
      | cons second texts =>
          rw [List.intercalate_cons_cons] at h
          rcases List.mem_append.1 h with h | h
          · rcases List.mem_append.1 h with h | h
            · exact .inr ⟨first, List.mem_cons_self, h⟩
            · exact .inl h
          · refine (ih h).imp_right ?_
            rintro ⟨text, hmem, hc⟩
            exact ⟨text, List.mem_cons_of_mem _ hmem, hc⟩

/-- Each of the texts is a part of the whole. -/
theorem infix_intercalate (sep : Text) {text : Text} {texts : List Text} (h : text ∈ texts) :
    text <:+: sep.intercalate texts := by
  induction texts with
  | nil => cases h
  | cons first texts ih =>
      cases texts with
      | nil =>
          rw [List.mem_singleton.1 h, List.intercalate_singleton]
      | cons second texts =>
          rw [List.intercalate_cons_cons]
          rcases List.mem_cons.1 h with rfl | h
          · rw [List.append_assoc]
            exact (List.prefix_append _ _).isInfix
          · exact (ih h).trans (List.suffix_append _ _).isInfix

/-- White space is made single blanks. -/
def squeeze (value : Text) : Text :=
  let words := value.splitOnP isIfs
  [blank].intercalate (words.take 1 ++ words.tail.filter (· ≠ []))

theorem squeeze_cons {head : Text} {tail : List Text}
    (hsplit : value.splitOnP isIfs = head :: tail) :
    squeeze value = [blank].intercalate (head :: tail.filter (· ≠ [])) := by
  unfold squeeze
  rw [hsplit]
  rfl

theorem notMem_words {head : Text} {tail : List Text}
    (hsplit : value.splitOnP isIfs = head :: tail) {c : UInt8} (hc : isIfs c = true) :
    ∀ w ∈ head :: tail.filter (· ≠ []), c ∉ w := by
  intro w hw
  refine notMem_of_splitOnP hc value w (hsplit ▸ ?_)
  exact (List.mem_cons.1 hw).elim (fun h => h ▸ List.mem_cons_self)
    fun h => List.mem_cons_of_mem _ (List.mem_of_mem_filter h)

theorem blank_of_mem_squeeze {c : UInt8} (h : c ∈ squeeze value) (hc : isIfs c = true) :
    c = blank := by
  cases hsplit : value.splitOnP isIfs with
  | nil => exact (List.splitOnP_ne_nil _ _ hsplit).elim
  | cons head tail =>
      rw [squeeze_cons hsplit] at h
      rcases mem_intercalate h with h | ⟨w, hw, h⟩
      · exact List.mem_singleton.1 h
      · exact (notMem_words hsplit hc w hw h).elim

theorem nl_notMem_squeeze (value : Text) : nl ∉ squeeze value :=
  fun h => absurd (blank_of_mem_squeeze h rfl) (by decide)

/-- There is nothing to be made of the white space. -/
theorem squeeze_eq_self :
    squeeze value = value ↔ (∀ c ∈ value, isIfs c = true → c = blank) ∧
      ∀ w ∈ (value.splitOn blank).tail, w ≠ [] := by
  cases hsplit : value.splitOnP isIfs with
  | nil => exact (List.splitOnP_ne_nil _ _ hsplit).elim
  | cons head tail =>
      refine ⟨fun h => ?_, ?_⟩
      · have hwhite : ∀ c ∈ value, isIfs c = true → c = blank :=
          fun c hc hifs => blank_of_mem_squeeze (h.symm ▸ hc) hifs
        refine ⟨hwhite, fun w hw => ?_⟩
        -- the words are the same only if none has been left out
        have hwords := List.splitOn_intercalate blank (notMem_words hsplit rfl)
          (List.cons_ne_nil _ _)
        rw [← squeeze_cons hsplit, h] at hwords
        rw [hwords, List.tail_cons] at hw
        exact of_decide_eq_true (List.mem_filter.1 hw).2
      · rintro ⟨hwhite, hsingle⟩
        have hwords := (splitOnP_of_white hwhite).symm.trans hsplit
        rw [hwords, List.tail_cons] at hsingle
        have hfilter : tail.filter (· ≠ []) = tail :=
          List.filter_eq_self.2 fun w hw => decide_eq_true (hsingle w hw)
        rw [squeeze_cons hsplit, hfilter, ← hwords, List.intercalate_splitOn]

/-- No part of the value is a pattern. -/
def NoPattern (value : Text) : Prop :=
  ∀ w ∈ value.splitOnP isIfs, ¬ IsPattern (bare w)

instance (value : Text) : Decidable (NoPattern value) :=
  List.decidableBAll (fun w => ¬ IsPattern (bare w)) (value.splitOnP isIfs)

/-- The value survives the expansion: no white space but single blanks inside of it or at its
beginning, and no patterns. -/
structure Unchanged (value : Text) : Prop where
  white : ∀ c ∈ value, isIfs c = true → c = blank
  single : ∀ w ∈ (value.splitOn blank).tail, w ≠ []
  pattern : NoPattern value

theorem unchanged_iff : Unchanged value ↔ NoPattern value ∧ squeeze value = value :=
  ⟨fun h => ⟨h.pattern, squeeze_eq_self.2 ⟨h.white, h.single⟩⟩,
    fun h => ⟨(squeeze_eq_self.1 h.2).1, (squeeze_eq_self.1 h.2).2, h.1⟩⟩

instance (value : Text) : Decidable (Unchanged value) :=
  decidable_of_iff _ unchanged_iff.symm

/-- Without patterns, the fields are the arguments. -/
theorem expandWord_quotedParameter {head : Text} {tail : List Text}
    (henv : ∀ field, ¬ IsPattern field → env.pathnames field = [])
    (hvalue : vars name = some value) (hsplit : value.splitOnP isIfs = head :: tail)
    (hpatterns : ∀ w ∈ head :: tail, ¬ IsPattern (bare w)) :
    expandWord env vars (quotedParameter before name) =
      (before ++ head) :: tail.filter (· ≠ []) := by
  rcases @splitFields_quotedParameter vars before name value hvalue with
    ⟨head', tail', hsplit', hfields⟩
  cases hsplit.symm.trans hsplit'
  rcases List.forall_mem_cons.1 hpatterns with ⟨hhead, htail⟩
  -- nothing is matched, and each field gives itself
  have hsame : ∀ field, ¬ IsPattern field → expandPathnames env field = [unquote field] :=
    fun field h => if_pos (henv field h)
  have hrest : ((tail.filter (· ≠ [])).map bare).flatMap (expandPathnames env) =
      tail.filter (· ≠ []) := by
    rw [List.flatMap_map]
    refine Eq.trans (List.flatMap_congr fun w hw => ?_) (List.flatMap_singleton' _)
    rw [hsame _ (htail w (List.mem_of_mem_filter hw)), unquote_bare]
  unfold expandWord
  rw [hfields, List.flatMap_cons, hsame _ ((isPattern_quoted before _).not.2 hhead),
    unquote_quoted, hrest]
  rfl

/-- `echo 'before'$name`, if there are no patterns. -/
theorem echo_quotedParameter (henv : env.Posix) (hbefore : equals ∈ before)
    (hbackslash : backslash ∉ before) (hvalue : vars name = some value)
    (hpatterns : NoPattern value) :
    env.echo (expandWord env vars (quotedParameter before name)) =
      before ++ squeeze value ++ [nl] := by
  cases hsplit : value.splitOnP isIfs with
  | nil => exact (List.splitOnP_ne_nil _ _ hsplit).elim
  | cons head tail =>
      unfold NoPattern at hpatterns
      rw [hsplit] at hpatterns
      rcases List.forall_mem_cons.1 hpatterns with ⟨hhead, htail⟩
      -- the first argument is not `-n`, since there is an equals sign in it
      have hfirst : ((before ++ head) :: tail.filter (· ≠ [])).head? ≠ some (ascii "-n") := by
        rw [List.head?_cons]
        intro h
        have hmem : equals ∈ ascii "-n" := Option.some.inj h ▸ List.mem_append_left _ hbefore
        exact absurd hmem (by decide)
      have hall : ∀ argument ∈ (before ++ head) :: tail.filter (· ≠ []),
          backslash ∉ argument := by
        refine List.forall_mem_cons.2 ⟨fun h => ?_, fun w hw => ?_⟩
        · exact (List.mem_append.1 h).elim hbackslash (backslash_notMem hhead)
        · exact backslash_notMem (htail w (List.mem_of_mem_filter hw))
      calc env.echo (expandWord env vars (quotedParameter before name))
          = env.echo ((before ++ head) :: tail.filter (· ≠ [])) := by
            rw [expandWord_quotedParameter henv.pathnames hvalue hsplit hpatterns]
        _ = [blank].intercalate ((before ++ head) :: tail.filter (· ≠ [])) ++ [nl] :=
            henv.echo _ hfirst hall
        _ = before ++ squeeze value ++ [nl] := by
            rw [intercalate_append_head, squeeze_cons hsplit]

/-! ## The worst that may happen -/

/-- A file whose name is two newlines matches every pattern, and everything else that POSIX leaves
open writes two newlines. -/
def hostile : Environment where
  pathnames field := if IsPattern field then [[nl, nl]] else []
  echo arguments :=
    if arguments.head? = some (ascii "-n") ∨ arguments.any (·.contains backslash) = true then
      [nl, nl]
    else
      [blank].intercalate arguments ++ [nl]
  utility _ := [nl, nl]

theorem hostile_posix : hostile.Posix := by
  refine ⟨fun _ h => if_neg h, fun arguments hhead hbackslash => if_neg (not_or.2 ⟨hhead, ?_⟩)⟩
  intro hany
  rcases List.any_eq_true.1 hany with ⟨argument, hmem, hcontains⟩
  exact hbackslash argument hmem (List.contains_iff_mem.1 hcontains)

/-- A shell in this environment. -/
def hostileShell (script : Text) : Text :=
  match run hostile (fun _ => none) script with
  | some (_, output) => output
  | none => [nl, nl]

theorem hostileShell_some {script output : Text} {vars' : Vars}
    (h : run hostile (fun _ => none) script = some (vars', output)) :
    hostileShell script = output := by
  unfold hostileShell
  rw [h]

theorem hostileShell_none {script : Text} (h : run hostile (fun _ => none) script = none) :
    hostileShell script = [nl, nl] := by
  unfold hostileShell
  rw [h]

theorem hostileShell_posix : IsPosix hostileShell :=
  ⟨hostile, fun _ => none, hostile_posix, fun _ _ _ => hostileShell_some⟩

theorem expandPathnames_hostile (field : Field) :
    expandPathnames hostile field = if IsPattern field then [[nl, nl]] else [unquote field] := by
  have hpathnames : hostile.pathnames field = if IsPattern field then [[nl, nl]] else [] := rfl
  unfold expandPathnames
  by_cases h : IsPattern field
  · rw [hpathnames, if_pos h, if_pos h]
    exact if_neg (List.cons_ne_nil _ _)
  · rw [hpathnames, if_neg h, if_neg h]
    exact if_pos rfl

/-- The first of the arguments: the text before the value is a part of it, unless it has been
replaced by the name of the file. -/
theorem expandWord_hostile (hbefore : equals ∈ before) (hvalue : vars name = some value) :
    ∃ first rest, expandWord hostile vars (quotedParameter before name) = first :: rest ∧
      (equals ∈ first ∨ nl ∈ first) := by
  rcases @splitFields_quotedParameter vars before name value hvalue with ⟨head, tail, _, hfields⟩
  unfold expandWord
  rw [hfields, List.flatMap_cons, expandPathnames_hostile, unquote_quoted]
  split_ifs
  · exact ⟨_, _, rfl, .inr List.mem_cons_self⟩
  · exact ⟨_, _, rfl, .inl (List.mem_append_left _ hbefore)⟩

/-- If there is a pattern, the output has an empty line. -/
theorem echo_hostile (hvalue : vars name = some value) (h : ¬ NoPattern value) :
    [nl, nl] <:+: hostile.echo (expandWord hostile vars (quotedParameter before name)) := by
  rcases @splitFields_quotedParameter vars before name value hvalue with
    ⟨head, tail, hsplit, hfields⟩
  unfold NoPattern at h
  rw [hsplit] at h
  push Not at h
  rcases h with ⟨w, hw, hpattern⟩
  have hmatch : ∀ field, IsPattern field → [nl, nl] ∈ expandPathnames hostile field := by
    intro field hfield
    rw [expandPathnames_hostile, if_pos hfield]
    exact List.mem_singleton.2 rfl
  have hargument : [nl, nl] ∈ expandWord hostile vars (quotedParameter before name) := by
    unfold expandWord
    rw [hfields]
    -- the first part of the value stands behind the quoted text
    rcases List.mem_cons.1 hw with rfl | hw
    · exact List.mem_flatMap.2 ⟨_, List.mem_cons_self,
        hmatch _ ((isPattern_quoted before _).2 hpattern)⟩
    · have hne : w ≠ [] := by
        rintro rfl
        exact hpattern
      refine List.mem_flatMap.2 ⟨bare w, List.mem_cons_of_mem _ ?_, hmatch _ hpattern⟩
      exact List.mem_map_of_mem (List.mem_filter.2 ⟨hw, decide_eq_true hne⟩)
  unfold hostile
  dsimp only
  split_ifs
  · exact List.infix_rfl
  · exact (infix_intercalate [blank] hargument).trans (List.prefix_append _ _).isInfix

end Parameter

end Shell
end Lib
